import DistPlatform.Library.Json
import DistPlatform.Tuf.TargetPath

/-!
# TUF metadata (`tuf/src/metadata.rs`)

The metadata a client trusts, as the verifier holds it after parsing. Maps of the source are
association lists; a `HashSet` of patterns is a list read only through membership.

## Main definitions

* `TargetDescription` — length, hashes and custom data of one target.
* `Delegation`, `Delegations` — who may sign for which patterns.
* `RootMetadata`, `TimestampMetadata`, `SnapshotMetadata`, `TargetsMetadata`.
-/

namespace DistPlatform.Tuf

/-- Seconds since the epoch (`DateTime<Utc>`). -/
abbrev Time := Int

abbrev KeyId := String

structure PublicKey where
  keyId : KeyId
  value : String
  deriving DecidableEq, Repr

/-- The name of a role; role metadata is stored under it. -/
structure MetadataPath where
  value : String
  deriving DecidableEq, Repr

namespace MetadataPath

def root : MetadataPath := ⟨"root"⟩
def timestamp : MetadataPath := ⟨"timestamp"⟩
def snapshot : MetadataPath := ⟨"snapshot"⟩
def targets : MetadataPath := ⟨"targets"⟩

def new (path : String) : Except PathError MetadataPath :=
  if path ∈ ["root", "timestamp", "snapshot", "targets"] then .ok ⟨path⟩
  else do
    safePathInner path false
    return ⟨path⟩

end MetadataPath

inductive HashAlgorithm
  | Sha256
  | Sha512
  | Unknown (name : String)
  deriving DecidableEq, Repr

structure TargetDescription where
  length : UInt64
  hashes : List (HashAlgorithm × List UInt8)
  custom : List (String × Json)
  deriving DecidableEq

structure RoleDefinition where
  threshold : Nat
  keyIds : List KeyId
  deriving DecidableEq

structure MetadataDescription where
  version : Nat
  length : Option Nat
  hashes : List (HashAlgorithm × List UInt8)
  deriving DecidableEq

structure RootMetadata where
  version : Nat
  expires : Time
  consistentSnapshot : Bool
  keys : List (KeyId × PublicKey)
  root : RoleDefinition
  snapshot : RoleDefinition
  targets : RoleDefinition
  timestamp : RoleDefinition
  deriving DecidableEq

structure TimestampMetadata where
  version : Nat
  expires : Time
  snapshot : MetadataDescription
  deriving DecidableEq

structure SnapshotMetadata where
  version : Nat
  expires : Time
  metas : List (MetadataPath × MetadataDescription)
  deriving DecidableEq

/-- A delegated targets role. -/
structure Delegation where
  role : MetadataPath
  terminating : Bool
  threshold : Nat
  keyIds : List KeyId
  paths : List TargetPath
  deriving DecidableEq

/-- `Delegations::new` refuses two delegations of one role. -/
structure Delegations where
  keys : List (KeyId × PublicKey)
  roles : List Delegation
  rolesDistinct : (roles.map (·.role)).Nodup
  deriving DecidableEq

structure TargetsMetadata where
  version : Nat
  expires : Time
  targets : List (TargetPath × TargetDescription)
  delegations : Option Delegations
  deriving DecidableEq

end DistPlatform.Tuf
