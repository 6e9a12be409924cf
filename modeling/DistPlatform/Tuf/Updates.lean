import DistPlatform.Tuf.Database
import DistPlatform.Tuf.Interchange

/-!
# Accepting metadata (`tuf/src/database.rs`, `tuf/src/verify.rs`)

A file is accepted when enough of the authorised keys have signed it and it fits what is
already trusted: the version that the role above names, and no version below the trusted one.
Nothing below the root outlives the database, which starts from the root alone.

## Main definitions

* `verifySignatures` — the signatures of a document, then its content.
* `Database.fromTrustedRoot` — a database that trusts nothing but a root.
* `Database.updateTimestamp`, `updateSnapshot`, `updateTargets`, `updateDelegatedTargets`.
-/

namespace DistPlatform.Tuf

open DistPlatform Fallible

/-- Why a file was refused (`tuf::Error`). -/
inductive UpdateError
  | encoding
  | thresholdMustBeGreaterThanZero (role : MetadataPath)
  | missingSignatures (role : MetadataPath) (valid threshold : Nat)
  | attemptedMetadataRollBack (role : MetadataPath) (trusted new : Nat)
  | wrongMetadataVersion (parent child : MetadataPath) (expected new : Nat)
  | missingMetadataDescription (parent child : MetadataPath)
  | unauthorizedDelegation (parent child : MetadataPath)
  | database (error : Error)
  deriving DecidableEq, Repr

section Verify

variable (ic : Interchange)

/-- The last signature under each key id. -/
def distinctSignatures : List Signature → List Signature
  | [] => []
  | signature :: rest =>
    let rest' := distinctSignatures rest
    if rest'.any (·.keyId == signature.keyId) then rest' else signature :: rest'

def goodSignature (authorized : List PublicKey) (bytes : List UInt8) (signature : Signature) :
    Bool :=
  match authorized.find? (·.keyId == signature.keyId) with
  | some key => ic.verify key bytes signature.value
  | none => false

/-- `verify_signatures`. The loop of the source stops as soon as it has enough. -/
def verifySignatures {M : Type} (deserialize : Json → Option M) (role : MetadataPath)
    (raw : List UInt8) (threshold : Nat) (authorized : List PublicKey) : Except UpdateError M :=
  if threshold < 1 then .error (.thresholdMustBeGreaterThanZero role)
  else match signedMetadata ic raw with
    | none => .error .encoding
    | some (signatures, signed) => match ic.canonicalize signed with
      | none => .error .encoding
      | some bytes =>
        let valid := ((distinctSignatures signatures).filter
          (goodSignature ic authorized bytes)).length
        if valid < threshold then .error (.missingSignatures role valid threshold)
        else match deserialize signed with
          | none => .error .encoding
          | some metadata => .ok metadata

end Verify

theorem verifySignatures_eq_ok {ic : Interchange} {M : Type} {deserialize : Json → Option M}
    {role : MetadataPath} {raw : List UInt8} {threshold : Nat} {authorized : List PublicKey}
    {metadata : M} :
    verifySignatures ic deserialize role raw threshold authorized = .ok metadata ↔
      1 ≤ threshold ∧ ∃ signatures signed bytes,
        signedMetadata ic raw = some (signatures, signed) ∧
          ic.canonicalize signed = some bytes ∧
          threshold ≤ ((distinctSignatures signatures).filter
            (goodSignature ic authorized bytes)).length ∧
          deserialize signed = some metadata := by
  unfold verifySignatures
  rw [ite_error_eq_ok, Nat.not_lt]
  refine and_congr_right fun _ => ?_
  constructor
  · intro h
    split at h
    · cases h
    next signatures signed hsigned =>
      split at h
      · cases h
      next bytes hbytes =>
        obtain ⟨hvalid, h⟩ := ite_error_eq_ok.mp h
        split at h
        · cases h
        next found hfound =>
          exact ⟨signatures, signed, bytes, hsigned, hbytes, Nat.not_lt.mp hvalid,
            Except.ok.inj h ▸ hfound⟩
  · rintro ⟨signatures, signed, bytes, hsigned, hbytes, hvalid, hfound⟩
    simp only [hsigned, hbytes, hfound]
    rw [if_neg (Nat.not_lt.mpr hvalid)]

/-- `root_keys`, `timestamp_keys` and the others: the listed keys of one role. -/
def authorizedKeys (keys : List (KeyId × PublicKey)) (ids : List KeyId) : List PublicKey :=
  keys.filterMap fun (id, key) => if id ∈ ids then some key else none

namespace Database

section Updates

variable (ic : Interchange)

def fromTrustedRoot (raw : List UInt8) : Except UpdateError Database := do
  -- the root is read before it is verified, to find the keys that must have signed it
  match (signedMetadata ic raw).bind fun signed => rootMetadata ic signed.2 with
  | none => throw .encoding
  | some unverified =>
    let root ← verifySignatures ic (rootMetadata ic) .root raw unverified.root.threshold
      (authorizedKeys unverified.keys unverified.root.keyIds)
    return ⟨root, none, none, none, []⟩

def rootUnexpired (db : Database) (startTime : Time) : Except UpdateError RootMetadata :=
  (db.trustedRootUnexpired startTime).mapError .database

def snapshotUnexpired (db : Database) (startTime : Time) : Except UpdateError SnapshotMetadata :=
  (db.trustedSnapshotUnexpired startTime).mapError .database

def targetsUnexpired (db : Database) (startTime : Time) : Except UpdateError TargetsMetadata :=
  (db.trustedTargetsUnexpired startTime).mapError .database

def timestampUnexpired (db : Database) (startTime : Time) :
    Except UpdateError TimestampMetadata :=
  match db.trustedTimestamp with
  | some timestamp =>
    if timestamp.expires ≤ startTime then .error (.database (.expiredMetadata .timestamp))
    else .ok timestamp
  | none => .error (.database (.metadataNotFound .timestamp))

/-- The trusted version of a role against a new one: nothing where they are the same. -/
def checkRollBack (role : MetadataPath) (trusted : Option Nat) (new : Nat) :
    Except UpdateError Bool :=
  match trusted with
  | none => .ok true
  | some trusted =>
    if new < trusted then .error (.attemptedMetadataRollBack role trusted new)
    else .ok (trusted ≠ new)

/-- A snapshot that the new timestamp does not name is no longer trusted, also where the
timestamp is then refused for its expiry; that database is discarded with the error. -/
def forgetSnapshot (db : Database) (named : Nat) : Database :=
  match db.trustedSnapshot with
  | some snapshot => if snapshot.version ≠ named then { db with trustedSnapshot := none } else db
  | none => db

/-- `update_timestamp`. Unlike the others it does not ask whether the root has expired. -/
def updateTimestamp (startTime : Time) (db : Database) (raw : List UInt8) :
    Except UpdateError Database := do
  let new ← verifySignatures ic (timestampMetadata ic) .timestamp raw
    db.trustedRoot.timestamp.threshold
    (authorizedKeys db.trustedRoot.keys db.trustedRoot.timestamp.keyIds)
  if ← checkRollBack .timestamp (db.trustedTimestamp.map (·.version)) new.version then
    let db := db.forgetSnapshot new.snapshot.version
    if new.expires ≤ startTime then throw (.database (.expiredMetadata .timestamp))
    return { db with trustedTimestamp := some new }
  else return db

/-- `purge_delegations`: the roles trusted at a version above the one the snapshot names. -/
def purgeDelegations (db : Database) (snapshot : SnapshotMetadata) : Database :=
  { db with trustedDelegations := db.trustedDelegations.filter fun (role, trusted) =>
      match snapshot.metas.lookup role with
      | some description => trusted.version ≤ description.version
      | none => true }

/-- `_.map(|m| m.version()).unwrap_or(0)`, of the targets on both sides. -/
def purgeTargets (db : Database) (snapshot : SnapshotMetadata) : Database :=
  if (db.trustedTargets.map (·.version)).getD 0 ≠
      ((snapshot.metas.lookup .targets).map (·.version)).getD 0 then
    { db with trustedTargets := none }
  else db

/-- `update_snapshot`. The expiry of the snapshot is left to those who use it. -/
def updateSnapshot (startTime : Time) (db : Database) (raw : List UInt8) :
    Except UpdateError Database := do
  let root ← db.rootUnexpired startTime
  let timestamp ← db.timestampUnexpired startTime
  let named := timestamp.snapshot.version
  if ← checkRollBack .snapshot (db.trustedSnapshot.map (·.version)) named then
    let new ← verifySignatures ic (snapshotMetadata ic) .snapshot raw root.snapshot.threshold
      (authorizedKeys root.keys root.snapshot.keyIds)
    ensure (new.version = named) (.wrongMetadataVersion .timestamp .snapshot named new.version)
    let _ ← checkRollBack .snapshot (db.trustedSnapshot.map (·.version)) new.version
    let db := db.purgeTargets new
    return { db with trustedSnapshot := some new }.purgeDelegations new
  else return db

/-- `verify_target_or_delegated_target`: the new metadata, where it is newer. -/
def verifyTargets (startTime : Time) (db : Database) (role : MetadataPath) (raw : List UInt8)
    (threshold : Nat) (keys : List PublicKey) (trusted : Option Nat) :
    Except UpdateError (Option TargetsMetadata) := do
  let snapshot ← db.snapshotUnexpired startTime
  match snapshot.metas.lookup role with
  | none => throw (.missingMetadataDescription .snapshot role)
  | some description =>
    let new ← verifySignatures ic (targetsMetadata ic) role raw threshold keys
    ensure (new.version = description.version)
      (.wrongMetadataVersion .snapshot role description.version new.version)
    if ← checkRollBack role trusted new.version then
      if new.expires ≤ startTime then throw (.database (.expiredMetadata role))
      return some new
    else return none

def updateTargets (startTime : Time) (db : Database) (raw : List UInt8) :
    Except UpdateError Database := do
  let root ← db.rootUnexpired startTime
  match ← db.verifyTargets ic startTime .targets raw root.targets.threshold
      (authorizedKeys root.keys root.targets.keyIds) (db.trustedTargets.map (·.version)) with
  | some new => return { db with trustedTargets := some new }
  | none => return db

/-- `find_delegation_threshold_and_keys`, seen from the top-level targets. -/
def findDelegation (targets : TargetsMetadata) (role : MetadataPath) :
    Option (Nat × List PublicKey) := do
  let delegations ← targets.delegations
  let delegation ← delegations.roles.find? (·.role = role)
  return (delegation.threshold, authorizedKeys delegations.keys delegation.keyIds)

/-- `HashMap::insert` -/
def trustDelegation (db : Database) (role : MetadataPath) (new : TargetsMetadata) : Database :=
  { db with trustedDelegations := (role, new) :: db.trustedDelegations.filter (·.1 ≠ role) }

/-- `update_delegated_targets`, with the top-level targets as the parent role. -/
def updateDelegatedTargets (startTime : Time) (db : Database) (role : MetadataPath)
    (raw : List UInt8) : Except UpdateError Database := do
  let _ ← db.rootUnexpired startTime
  let _ ← db.snapshotUnexpired startTime
  let targets ← db.targetsUnexpired startTime
  match findDelegation targets role with
  | none => throw (.unauthorizedDelegation .targets role)
  | some (threshold, keys) =>
    match ← db.verifyTargets ic startTime role raw threshold keys
        ((db.trustedDelegations.lookup role).map (·.version)) with
    | some new => return db.trustDelegation role new
    | none => return db

end Updates

/-! ## One pass over a fresh database

A check feeds one file of each role, from the timestamp down, to a database that trusts nothing
but its root. -/

section Pass

variable {ic : Interchange} {startTime : Time} {root : RootMetadata} {raw : List UInt8}
  {db : Database} {timestamp : TimestampMetadata} {snapshot : SnapshotMetadata}
  {targets : TargetsMetadata}

theorem fromTrustedRoot_eq_ok (h : fromTrustedRoot ic raw = .ok db) :
    ∃ root, db = ⟨root, none, none, none, []⟩ := by
  unfold fromTrustedRoot at h
  split at h
  · cases h
  · simp only [bind_eq_ok, pure_eq_ok] at h
    obtain ⟨root, -, rfl⟩ := h
    exact ⟨root, rfl⟩

theorem rootUnexpired_eq_ok : db.rootUnexpired startTime = .ok root ↔
    startTime < db.trustedRoot.expires ∧ db.trustedRoot = root := by
  rw [rootUnexpired, mapError_eq_ok, trustedRootUnexpired, ite_error_eq_ok, Int.not_le,
    Except.ok.injEq]

theorem timestampUnexpired_eq_ok : db.timestampUnexpired startTime = .ok timestamp ↔
    db.trustedTimestamp = some timestamp ∧ startTime < timestamp.expires := by
  unfold timestampUnexpired
  split
  next trusted htrusted =>
    rw [ite_error_eq_ok, Int.not_le, Except.ok.injEq, htrusted, Option.some.injEq]
    grind
  next hnone => simp [hnone]

theorem snapshotUnexpired_eq_ok : db.snapshotUnexpired startTime = .ok snapshot ↔
    db.trustedSnapshot = some snapshot ∧ startTime < snapshot.expires := by
  rw [snapshotUnexpired, mapError_eq_ok, trustedSnapshotUnexpired]
  split
  next trusted htrusted =>
    rw [ite_error_eq_ok, Int.not_le, Except.ok.injEq, htrusted, Option.some.injEq]
    grind
  next hnone => simp [hnone]

theorem targetsUnexpired_eq_ok : db.targetsUnexpired startTime = .ok targets ↔
    db.trustedTargets = some targets ∧ startTime < targets.expires := by
  rw [targetsUnexpired, mapError_eq_ok, trustedTargetsUnexpired]
  split
  next trusted htrusted =>
    rw [ite_error_eq_ok, Int.not_le, Except.ok.injEq, htrusted, Option.some.injEq]
    grind
  next hnone => simp [hnone]

theorem updateTimestamp_eq_ok :
    updateTimestamp ic startTime ⟨root, none, none, none, []⟩ raw = .ok db ↔
      ∃ timestamp, verifySignatures ic (timestampMetadata ic) .timestamp raw
          root.timestamp.threshold (authorizedKeys root.keys root.timestamp.keyIds) =
            .ok timestamp ∧
        startTime < timestamp.expires ∧ db = ⟨root, none, none, some timestamp, []⟩ := by
  unfold updateTimestamp
  rw [bind_eq_ok]
  refine exists_congr fun timestamp => and_congr_right fun _ => ?_
  simp only [checkRollBack, Option.map_none, bind_ok, if_true, forgetSnapshot]
  by_cases hexpired : timestamp.expires ≤ startTime
  · simp only [hexpired, if_true, bind_eq_ok]
    constructor
    · rintro ⟨_, h, -⟩
      cases h
    · intro h
      exact absurd hexpired (Int.not_le.mpr h.1)
  · rw [if_neg hexpired, pure_eq_ok]
    exact ⟨fun h => ⟨Int.not_le.mp hexpired, h.symm⟩, fun h => h.2.symm⟩

/-- There is nothing to purge. -/
theorem purge_fresh (root : RootMetadata) (timestamp : TimestampMetadata)
    (snapshot : SnapshotMetadata) :
    { purgeTargets ⟨root, none, none, some timestamp, []⟩ snapshot with
        trustedSnapshot := some snapshot }.purgeDelegations snapshot =
      ⟨root, some snapshot, none, some timestamp, []⟩ := by
  unfold purgeTargets
  split <;> rfl

theorem updateSnapshot_eq_ok :
    updateSnapshot ic startTime ⟨root, none, none, some timestamp, []⟩ raw = .ok db ↔
      startTime < root.expires ∧ startTime < timestamp.expires ∧
      ∃ snapshot, verifySignatures ic (snapshotMetadata ic) .snapshot raw
          root.snapshot.threshold (authorizedKeys root.keys root.snapshot.keyIds) =
            .ok snapshot ∧
        snapshot.version = timestamp.snapshot.version ∧
        db = ⟨root, some snapshot, none, some timestamp, []⟩ := by
  unfold updateSnapshot
  simp only [bind_eq_ok, rootUnexpired_eq_ok, timestampUnexpired_eq_ok, Option.some.injEq]
  constructor
  · rintro ⟨_, ⟨hroot, rfl⟩, _, ⟨rfl, htimestamp⟩, newer, hnewer, h⟩
    obtain rfl := Except.ok.inj hnewer
    simp only [if_true, bind_eq_ok, ensure_eq_ok, pure_eq_ok] at h
    obtain ⟨snapshot, hsnapshot, _, hversion, _, _, rfl⟩ := h
    exact ⟨hroot, htimestamp, snapshot, hsnapshot, hversion, purge_fresh _ _ _⟩
  · rintro ⟨hroot, htimestamp, snapshot, hsnapshot, hversion, rfl⟩
    refine ⟨_, ⟨hroot, rfl⟩, _, ⟨rfl, htimestamp⟩, true, rfl, ?_⟩
    simp only [if_true, bind_eq_ok, ensure_eq_ok, pure_eq_ok]
    exact ⟨snapshot, hsnapshot, (), hversion, true, rfl, purge_fresh _ _ _⟩

theorem verifyTargets_eq_ok {role : MetadataPath} {threshold : Nat} {keys : List PublicKey}
    {trusted new : Option TargetsMetadata} :
    verifyTargets ic startTime ⟨root, some snapshot, trusted, some timestamp, []⟩ role raw
        threshold keys none = .ok new ↔
      startTime < snapshot.expires ∧ ∃ description targets,
        snapshot.metas.lookup role = some description ∧
        verifySignatures ic (targetsMetadata ic) role raw threshold keys = .ok targets ∧
        targets.version = description.version ∧ startTime < targets.expires ∧
        new = some targets := by
  unfold verifyTargets
  simp only [bind_eq_ok, snapshotUnexpired_eq_ok, Option.some.injEq]
  constructor
  · rintro ⟨_, ⟨rfl, hexpires⟩, h⟩
    refine ⟨hexpires, ?_⟩
    split at h
    · simp at h
    next description hdescription =>
      simp only [bind_eq_ok, ensure_eq_ok, checkRollBack, Except.ok.injEq] at h
      obtain ⟨targets, htargets, _, hversion, _, rfl, h⟩ := h
      by_cases hnew : targets.expires ≤ startTime
      · simp [map_eq_ok, hnew] at h
      · rw [if_pos rfl, if_neg hnew, pure_eq_ok] at h
        exact ⟨description, targets, hdescription, htargets, hversion, Int.not_le.mp hnew, h.symm⟩
  · rintro ⟨hexpires, description, targets, hdescription, htargets, hversion, hnew, rfl⟩
    refine ⟨_, ⟨rfl, hexpires⟩, ?_⟩
    simp only [hdescription, bind_eq_ok, ensure_eq_ok, checkRollBack, Except.ok.injEq]
    refine ⟨targets, htargets, (), hversion, true, rfl, ?_⟩
    rw [if_pos rfl, if_neg (Int.not_le.mpr hnew), pure_eq_ok]

theorem updateTargets_eq_ok :
    updateTargets ic startTime ⟨root, some snapshot, none, some timestamp, []⟩ raw = .ok db ↔
      startTime < root.expires ∧ startTime < snapshot.expires ∧ ∃ description targets,
        snapshot.metas.lookup .targets = some description ∧
        verifySignatures ic (targetsMetadata ic) .targets raw root.targets.threshold
          (authorizedKeys root.keys root.targets.keyIds) = .ok targets ∧
        targets.version = description.version ∧ startTime < targets.expires ∧
        db = ⟨root, some snapshot, some targets, some timestamp, []⟩ := by
  unfold updateTargets
  simp only [bind_eq_ok, rootUnexpired_eq_ok, Option.map_none, verifyTargets_eq_ok]
  constructor
  · rintro ⟨_, ⟨hroot, rfl⟩, _, ⟨hsnapshot, description, targets, h₁, h₂, h₃, h₄, rfl⟩, h⟩
    exact ⟨hroot, hsnapshot, description, targets, h₁, h₂, h₃, h₄, (Except.ok.inj h).symm⟩
  · rintro ⟨hroot, hsnapshot, description, targets, h₁, h₂, h₃, h₄, rfl⟩
    exact ⟨_, ⟨hroot, rfl⟩, _, ⟨hsnapshot, description, targets, h₁, h₂, h₃, h₄, rfl⟩, rfl⟩

theorem updateDelegatedTargets_eq_ok {role : MetadataPath} :
    updateDelegatedTargets ic startTime ⟨root, some snapshot, some targets, some timestamp, []⟩
        role raw = .ok db ↔
      startTime < root.expires ∧ startTime < snapshot.expires ∧ startTime < targets.expires ∧
      ∃ threshold keys description delegated,
        findDelegation targets role = some (threshold, keys) ∧
        snapshot.metas.lookup role = some description ∧
        verifySignatures ic (targetsMetadata ic) role raw threshold keys = .ok delegated ∧
        delegated.version = description.version ∧ startTime < delegated.expires ∧
        db = ⟨root, some snapshot, some targets, some timestamp, [(role, delegated)]⟩ := by
  unfold updateDelegatedTargets
  simp only [bind_eq_ok, rootUnexpired_eq_ok, snapshotUnexpired_eq_ok, targetsUnexpired_eq_ok,
    Option.some.injEq]
  constructor
  · rintro ⟨_, ⟨hroot, rfl⟩, _, ⟨rfl, hsnapshot⟩, _, ⟨rfl, htargets⟩, h⟩
    refine ⟨hroot, hsnapshot, htargets, ?_⟩
    split at h
    · simp at h
    next threshold keys hdelegation =>
      simp only [bind_eq_ok, List.lookup_nil, Option.map_none, verifyTargets_eq_ok] at h
      obtain ⟨_, ⟨-, description, delegated, h₁, h₂, h₃, h₄, rfl⟩, h⟩ := h
      exact ⟨threshold, keys, description, delegated, hdelegation, h₁, h₂, h₃, h₄,
        (Except.ok.inj h).symm⟩
  · rintro ⟨hroot, hsnapshot, htargets, threshold, keys, description, delegated, hdelegation,
      h₁, h₂, h₃, h₄, rfl⟩
    refine ⟨_, ⟨hroot, rfl⟩, _, ⟨rfl, hsnapshot⟩, _, ⟨rfl, htargets⟩, ?_⟩
    simp only [hdelegation, bind_eq_ok, List.lookup_nil, Option.map_none, verifyTargets_eq_ok]
    exact ⟨_, ⟨hsnapshot, description, delegated, h₁, h₂, h₃, h₄, rfl⟩, rfl⟩

end Pass

end Database

end DistPlatform.Tuf
