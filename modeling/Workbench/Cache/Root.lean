import Workbench.Disk.Basic
import Workbench.Environment
import Workbench.Json.Fault
import Workbench.Redaction

/-!
Where caches live, and what can go wrong with them.
-/

namespace Workbench

/-- Why a cache operation fails. -/
inductive CacheError where
  | missingHome
  | disk (error : DiskError)
  | noParent
  | noFileName
  | json (fault : Json.Fault)
  | version (expected found : Nat)
  deriving DecidableEq, Repr

namespace CacheError

/-- The text of a cache error. A message of the JSON reader may quote the user's paths, which are
left out. -/
def message : CacheError → String
  | missingHome => "failed to determine home directory for default cache path"
  | disk error => "io error: " ++ error.message
  | noParent => "io error: cache record path has no parent"
  | noFileName => "io error: cache record path has no file name"
  | json fault => "json error: " ++ redactQuoted fault.message
  | version expected found =>
    "incompatible cache schema version: expected " ++ toString expected ++ ", found " ++
      toString found

def isSystem : CacheError → Bool
  | disk error => error.isSystem
  | _ => false

end CacheError

namespace Environment

def nonempty? (value : Option String) : Option String := value.filter fun text => !text.isEmpty

/-- The default cache directory, below the home directory. A home that is set to
nothing hides the user profile. -/
def defaultCacheRoot (env : Environment) : Except CacheError Path :=
  match nonempty? (env.home <|> env.userProfile) with
  | some home => .ok (((Path.mk home).child ".grove").child "cache")
  | none => .error .missingHome

/-- The cache directory: a given one, else the one that the environment names, else the default. -/
def cacheRoot (env : Environment) (given : Option Path) : Except CacheError Path :=
  match given with
  | some dir => .ok dir
  | none =>
    match nonempty? env.cacheDir with
    | some dir => .ok ⟨dir⟩
    | none => env.defaultCacheRoot

end Environment

end Workbench
