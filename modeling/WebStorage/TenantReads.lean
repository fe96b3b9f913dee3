import WebStorage.ReadBack
import WebStorage.TenantRuns

set_option autoImplicit false

/-! What a user reads depends on the user's own records and objects only. -/
namespace WebStorage.Tenants
open Effect Effect.Prog S3 FileService

attribute [local irreducible] Adapter.toDiskRelativePath normalizePath objectKey

section
variable {host : Host} {v : Uuid} {s : FileService} {now : Time} {w t : Installation} {d e : Db}
  {path relative name : Str} {fileSection : FileSection} {r : FileRecord}

/-! ### Queries for the user -/

end
end WebStorage.Tenants

namespace WebStorage
open Effect Tenants

theorem UserAdapter.plain {u : Uuid} {a : Adapter} (h : UserAdapter u a) (hnone : a.decryptBlob = none) :
    a.Plain := ⟨Option.map_eq_none_iff.1 hnone, h.rooted.stripped⟩

end WebStorage
