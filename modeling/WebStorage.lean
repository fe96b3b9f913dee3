import WebStorage.EffectProgram
import WebStorage.PosixText
import WebStorage.Domain
import WebStorage.IndexDecision
import WebStorage.IndexLinks
import WebStorage.LinkKeys
import WebStorage.SyncJob
import WebStorage.RagEntries
import WebStorage.WorkerEntries
import WebStorage.NoOrphans
import WebStorage.TickIsolation
import WebStorage.RowIsolation
import WebStorage.NotifyRaces
import WebStorage.RequestsKept
import WebStorage.Repositories
import WebStorage.PrefixQueries
import WebStorage.StorageAdapter
import WebStorage.FileService
import WebStorage.StorageJobs
import WebStorage.Requests
import WebStorage.PathLookup
import WebStorage.QuotaBooks
import WebStorage.QuotaExact
import WebStorage.QuotaRuns
import WebStorage.CipherFrames
import WebStorage.UnlockLockout
import WebStorage.PrivateVault
import WebStorage.Backfill
import WebStorage.PrivateUnindexed
import WebStorage.IndexingRuns
import WebStorage.QuotaRequests
import WebStorage.QuotaRaces
import WebStorage.AdminService
import WebStorage.Deletions
import WebStorage.DeletionEffects
import WebStorage.DeletedUnindexed
import WebStorage.S3Storage
import WebStorage.StorageContainment
import WebStorage.Bucket
import WebStorage.BucketFaults
import WebStorage.StorageRename
import WebStorage.EncryptedStorage
import WebStorage.Installation
import WebStorage.CleanPaths
import WebStorage.UserRemoval
import WebStorage.BackfillPages
import WebStorage.Collections
import WebStorage.PhotoSearch
import WebStorage.UserAccounts
import WebStorage.BlockedUsers
import WebStorage.RequestCommands
import WebStorage.Downloads
import WebStorage.FilesInUse
import WebStorage.FailedOverwrite
import WebStorage.EncryptedPaths
import WebStorage.PathDeletion
import WebStorage.ZipAccounting
import WebStorage.PhotoPages
import WebStorage.ChunkedWrites
import WebStorage.RetryBudget
import WebStorage.StoredFiles
import WebStorage.YamlText
import WebStorage.ResumeFiles
import WebStorage.ResumeService
import WebStorage.KeysRegistry
import WebStorage.QuotaReconcile
import WebStorage.TmpCleanup
import WebStorage.TmpEntries
import WebStorage.ArchiveRuns
import WebStorage.GeneratedMeta
import WebStorage.GeneratedRuns
import WebStorage.DeletedRuns
import WebStorage.RenamedDirectories
import WebStorage.TenantReads
import WebStorage.LinkStates
import WebStorage.AuthRateLimit
