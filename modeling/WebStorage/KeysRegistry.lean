import WebStorage.Collections
import WebStorage.PathNames
import WebStorage.YamlText

set_option autoImplicit false

/-! The registry of keys in the private section: the flat mapping of its YAML file. -/
namespace WebStorage

structure KeyEntry where
  name : Str
  value : Str
deriving DecidableEq

namespace KeysRegistry

/-! ### The mapping -/

/-- `mapping[name] = value`: a known name keeps its place. -/
def assign (mapping : List (Str × Str)) (name value : Str) : List (Str × Str) :=
  if mapping.any fun entry => decide (entry.1 = name) then
    mapping.map fun entry => if entry.1 = name then (name, value) else entry
  else mapping ++ [(name, value)]

/-- `{entry.name: entry.value for entry in normalized}`. -/
def mappingOf (entries : List KeyEntry) : List (Str × Str) :=
  entries.foldl (fun mapping entry => assign mapping entry.name entry.value) []

def mappingDocument (mapping : List (Str × Str)) : Yaml Str :=
  .dict (mapping.map fun entry => (.str entry.1, .str entry.2))

section
variable {keys normalized : List KeyEntry} {seen : List Str} {yaml : YamlLibrary Str}

end

def tokenKey : KeyEntry := ⟨"token".toList, "abc".toList⟩

def mailKey : KeyEntry := ⟨"mail".toList, "я: 1".toList⟩

def sampleYaml : YamlLibrary Str :=
  yamlOf "token: abc\nmail: 'я: 1'\n".toList (mappingDocument (mappingOf [tokenKey, mailKey]))

end KeysRegistry
end WebStorage
