import DistPlatform.Tuf.Threshold

/-!
# Feeding a database (`tuf/src/database.rs`)

The calls on `&mut self`, in any order and with any file: what each may change, and what is
left of the database where the file is refused.

## Main definitions

* `Database.updateRoot` — the next root, signed by the keys of the old one and by its own.
* `Database.updateDelegatedTargetsOf` — a delegated role, below any parent.
* `Database.Method` — a method on `&mut self`, which may fail after it has written.
* `Feed`, `Database.feed` — one call, with its result and the database it leaves.
* `Database.Change` — everything a call can do to the database.
-/

namespace DistPlatform.Tuf

open DistPlatform Fallible

/-- `tuf::Error`, of the calls that replace the root too. -/
inductive FeedError
  | update (error : UpdateError)
  | metadataVersionMustBeSmallerThanMaxU32 (role : MetadataPath)
  deriving DecidableEq, Repr

/-- What a call on `&mut self` returns, and the database it leaves. -/
abbrev Fed := Except FeedError Unit × Database

/-- One call: the role it is for, the file, and the moment it is judged at. -/
inductive Feed
  | root (raw : List UInt8)
  | timestamp (startTime : Time) (raw : List UInt8)
  | snapshot (startTime : Time) (raw : List UInt8)
  | targets (startTime : Time) (raw : List UInt8)
  | delegatedTargets (startTime : Time) (parent role : MetadataPath) (raw : List UInt8)
  deriving DecidableEq, Repr

def Feed.raw : Feed → List UInt8
  | .root raw | .timestamp _ raw | .snapshot _ raw | .targets _ raw
  | .delegatedTargets _ _ _ raw => raw

namespace Database

section Calls

variable (ic : Interchange)

def verifyRoot (signer : RootMetadata) (raw : List UInt8) : Except FeedError RootMetadata :=
  (verifySignatures ic (rootMetadata ic) .root raw signer.root.threshold
    (authorizedKeys signer.keys signer.root.keyIds)).mapError .update

/-- `update_root`. Everything below the root is purged with the old one; the expiry of the new
one is left to those who use it. -/
def updateRoot (db : Database) (raw : List UInt8) : Except FeedError Database := do
  let new ← verifyRoot ic db.trustedRoot raw
  let new ← verifyRoot ic new raw
  ensure (db.trustedRoot.version + 1 < U32_END) (.metadataVersionMustBeSmallerThanMaxU32 .root)
  ensure (new.version = db.trustedRoot.version + 1)
    (.update (.attemptedMetadataRollBack .root db.trustedRoot.version new.version))
  return ⟨new, none, none, none, []⟩

/-- `find_delegation_threshold_and_keys` -/
def findDelegationFrom (db : Database) (parent role : MetadataPath) :
    Except UpdateError (Option (Nat × List PublicKey)) :=
  let trusted := if parent = .targets then db.trustedTargets
    else db.trustedDelegations.lookup parent
  match trusted with
  | some targets => .ok (findDelegation targets role)
  | none => .error (.database (.metadataNotFound parent))

/-- `update_delegated_targets` -/
def updateDelegatedTargetsOf (startTime : Time) (db : Database) (parent role : MetadataPath)
    (raw : List UInt8) : Except UpdateError Database := do
  let _ ← db.rootUnexpired startTime
  let _ ← db.snapshotUnexpired startTime
  let targets ← db.targetsUnexpired startTime
  ensure targets.delegations.isSome (.unauthorizedDelegation parent role)
  match ← db.findDelegationFrom parent role with
  | none => throw (.unauthorizedDelegation parent role)
  | some (threshold, keys) =>
    match ← db.verifyTargets ic startTime role raw threshold keys
        ((db.trustedDelegations.lookup role).map (·.version)) with
    | some new => return db.trustDelegation role new
    | none => return db

end Calls

/-! ## The calls on `&mut self` -/

/-- A method on `&mut self`: what it has written stays, also where it fails after that. -/
abbrev Method := ExceptT FeedError (StateM Database)

namespace Method

/-- What the method returns, and the database it leaves. -/
def run {α : Type} (m : Method α) (db : Database) : Except FeedError α × Database :=
  StateT.run (ExceptT.run m) db

/-- `?`, on what only reads. -/
def check {α : Type} (result : Except FeedError α) : Method α := ExceptT.mk (pure result)

def checkUpdate {α : Type} (result : Except UpdateError α) : Method α :=
  check (result.mapError .update)

variable (ic : Interchange)

/-- `purge_metadata` -/
def purgeMetadata : Method Unit := do
  modify ({ · with trustedSnapshot := none })
  modify ({ · with trustedTargets := none })
  modify ({ · with trustedTimestamp := none })
  modify ({ · with trustedDelegations := [] })

/-- `update_root` -/
def updateRoot (raw : List UInt8) : Method Unit := do
  let trustedRoot := (← get).trustedRoot
  let new ← check (verifyRoot ic trustedRoot raw)
  let new ← check (verifyRoot ic new raw)
  check (ensure (trustedRoot.version + 1 < U32_END) (.metadataVersionMustBeSmallerThanMaxU32 .root))
  check (ensure (new.version = trustedRoot.version + 1)
    (.update (.attemptedMetadataRollBack .root trustedRoot.version new.version)))
  purgeMetadata
  modify ({ · with trustedRoot := new })

/-- `update_timestamp` -/
def updateTimestamp (startTime : Time) (raw : List UInt8) : Method Unit := do
  let db ← get
  let new ← checkUpdate (verifySignatures ic (timestampMetadata ic) .timestamp raw
    db.trustedRoot.timestamp.threshold
    (authorizedKeys db.trustedRoot.keys db.trustedRoot.timestamp.keyIds))
  if ← checkUpdate (checkRollBack .timestamp (db.trustedTimestamp.map (·.version)) new.version) then
    -- the snapshot is forgotten before the expiry of the new timestamp is looked at
    modify (·.forgetSnapshot new.snapshot.version)
    if new.expires ≤ startTime then throw (.update (.database (.expiredMetadata .timestamp)))
    modify ({ · with trustedTimestamp := some new })

/-- `update_snapshot` -/
def updateSnapshot (startTime : Time) (raw : List UInt8) : Method Unit := do
  let db ← get
  let root ← checkUpdate (db.rootUnexpired startTime)
  let timestamp ← checkUpdate (db.timestampUnexpired startTime)
  let named := timestamp.snapshot.version
  if ← checkUpdate (checkRollBack .snapshot (db.trustedSnapshot.map (·.version)) named) then
    let new ← checkUpdate (verifySignatures ic (snapshotMetadata ic) .snapshot raw
      root.snapshot.threshold (authorizedKeys root.keys root.snapshot.keyIds))
    checkUpdate (ensure (new.version = named)
      (.wrongMetadataVersion .timestamp .snapshot named new.version))
    let _ ← checkUpdate (checkRollBack .snapshot (db.trustedSnapshot.map (·.version)) new.version)
    modify (·.purgeTargets new)
    modify ({ · with trustedSnapshot := some new })
    modify (·.purgeDelegations new)

/-- `update_targets` -/
def updateTargets (startTime : Time) (raw : List UInt8) : Method Unit := do
  let db ← get
  let root ← checkUpdate (db.rootUnexpired startTime)
  match ← checkUpdate (db.verifyTargets ic startTime .targets raw root.targets.threshold
      (authorizedKeys root.keys root.targets.keyIds) (db.trustedTargets.map (·.version))) with
  | some new => modify ({ · with trustedTargets := some new })
  | none => return

/-- `update_delegated_targets` -/
def updateDelegatedTargets (startTime : Time) (parent role : MetadataPath) (raw : List UInt8) :
    Method Unit := do
  let db ← get
  let _ ← checkUpdate (db.rootUnexpired startTime)
  let _ ← checkUpdate (db.snapshotUnexpired startTime)
  let targets ← checkUpdate (db.targetsUnexpired startTime)
  checkUpdate (ensure targets.delegations.isSome (.unauthorizedDelegation parent role))
  match ← checkUpdate (db.findDelegationFrom parent role) with
  | none => throw (.update (.unauthorizedDelegation parent role))
  | some (threshold, keys) =>
    match ← checkUpdate (db.verifyTargets ic startTime role raw threshold keys
        ((db.trustedDelegations.lookup role).map (·.version))) with
    | some new => modify (·.trustDelegation role new)
    | none => return

end Method

def feed (ic : Interchange) (db : Database) : Feed → Fed
  | .root raw => (Method.updateRoot ic raw).run db
  | .timestamp startTime raw => (Method.updateTimestamp ic startTime raw).run db
  | .snapshot startTime raw => (Method.updateSnapshot ic startTime raw).run db
  | .targets startTime raw => (Method.updateTargets ic startTime raw).run db
  | .delegatedTargets startTime parent role raw =>
    (Method.updateDelegatedTargets ic startTime parent role raw).run db

/-! ## What a refused call has written -/

/-- What a call leaves that writes nothing before its last check. -/
def settle (db : Database) : Except FeedError Database → Fed
  | .ok new => (.ok (), new)
  | .error e => (.error e, db)

namespace Method

variable {ic : Interchange} {α : Type} {db : Database} {startTime : Time} {raw : List UInt8}

theorem run_get {f : Database → Method Unit} : run (get >>= f) db = run (f db) db := rfl

/-- A check that fails leaves what was there. -/
theorem run_check {result : Except FeedError α} {f : α → Method Unit}
    {g : α → Except FeedError Database} (h : ∀ a, run (f a) db = db.settle (g a)) :
    run (check result >>= f) db = db.settle (result >>= g) := by
  cases result with
  | error e => rfl
  | ok a => exact h a

theorem run_checkUpdate {result : Except UpdateError α} {f : α → Method Unit}
    {g : α → Except UpdateError Database}
    (h : ∀ a, run (f a) db = db.settle ((g a).mapError .update)) :
    run (checkUpdate result >>= f) db = db.settle ((result >>= g).mapError .update) := by
  cases result with
  | error e => rfl
  | ok a => exact h a

theorem run_updateRoot : run (updateRoot ic raw) db = db.settle (db.updateRoot ic raw) := by
  unfold updateRoot
  rw [run_get]
  apply run_check
  intro claimed
  apply run_check
  intro new
  apply run_check
  intro _
  apply run_check
  intro _
  rfl

theorem run_updateSnapshot : run (updateSnapshot ic startTime raw) db =
    db.settle ((db.updateSnapshot ic startTime raw).mapError .update) := by
  unfold updateSnapshot
  rw [run_get]
  apply run_checkUpdate
  intro root
  apply run_checkUpdate
  intro timestamp
  apply run_checkUpdate
  intro newer
  cases newer with
  | false => rfl
  | true =>
    apply run_checkUpdate
    intro new
    apply run_checkUpdate
    intro _
    apply run_checkUpdate
    intro _
    rfl

theorem run_updateTargets : run (updateTargets ic startTime raw) db =
    db.settle ((db.updateTargets ic startTime raw).mapError .update) := by
  unfold updateTargets
  rw [run_get]
  apply run_checkUpdate
  intro root
  apply run_checkUpdate
  intro new
  cases new <;> rfl

theorem run_updateDelegatedTargets {parent role : MetadataPath} :
    run (updateDelegatedTargets ic startTime parent role raw) db =
      db.settle ((db.updateDelegatedTargetsOf ic startTime parent role raw).mapError .update) := by
  unfold updateDelegatedTargets
  rw [run_get]
  apply run_checkUpdate
  intro _
  apply run_checkUpdate
  intro _
  apply run_checkUpdate
  intro targets
  apply run_checkUpdate
  intro _
  apply run_checkUpdate
  intro found
  cases found with
  | none => rfl
  | some found =>
    apply run_checkUpdate
    intro new
    cases new <;> rfl

/-- The one call that writes before its last check. -/
theorem run_updateTimestamp : run (updateTimestamp ic startTime raw) db =
    match verifySignatures ic (timestampMetadata ic) .timestamp raw
        db.trustedRoot.timestamp.threshold
        (authorizedKeys db.trustedRoot.keys db.trustedRoot.timestamp.keyIds) with
    | .error e => (.error (.update e), db)
    | .ok new =>
      match checkRollBack .timestamp (db.trustedTimestamp.map (·.version)) new.version with
      | .error e => (.error (.update e), db)
      | .ok false => (.ok (), db)
      | .ok true =>
        if new.expires ≤ startTime then (.error (.update (.database (.expiredMetadata .timestamp))),
          db.forgetSnapshot new.snapshot.version)
        else (.ok (), { db.forgetSnapshot new.snapshot.version with
          trustedTimestamp := some new }) := by
  unfold updateTimestamp
  rw [run_get]
  cases verifySignatures ic (timestampMetadata ic) .timestamp raw
      db.trustedRoot.timestamp.threshold
      (authorizedKeys db.trustedRoot.keys db.trustedRoot.timestamp.keyIds) with
  | error e => rfl
  | ok new =>
    change run (checkUpdate (checkRollBack .timestamp _ _) >>= _) db = _
    simp only
    cases checkRollBack .timestamp (db.trustedTimestamp.map (·.version)) new.version with
    | error e => rfl
    | ok newer =>
      cases newer with
      | false => rfl
      | true =>
        by_cases hexpired : new.expires ≤ startTime
        · simp only [hexpired, if_true]
          rfl
        · simp only [hexpired, if_false]
          rfl

end Method

section Calls

variable {ic : Interchange} {db : Database} {startTime : Time} {raw : List UInt8}

theorem feed_root : db.feed ic (.root raw) = db.settle (db.updateRoot ic raw) :=
  Method.run_updateRoot

theorem feed_timestamp :
    db.feed ic (.timestamp startTime raw) = (Method.updateTimestamp ic startTime raw).run db :=
  rfl

theorem feed_snapshot : db.feed ic (.snapshot startTime raw) =
    db.settle ((db.updateSnapshot ic startTime raw).mapError .update) :=
  Method.run_updateSnapshot

theorem feed_targets : db.feed ic (.targets startTime raw) =
    db.settle ((db.updateTargets ic startTime raw).mapError .update) :=
  Method.run_updateTargets

theorem feed_delegatedTargets {parent role : MetadataPath} :
    db.feed ic (.delegatedTargets startTime parent role raw) =
      db.settle ((db.updateDelegatedTargetsOf ic startTime parent role raw).mapError .update) :=
  Method.run_updateDelegatedTargets

end Calls

section Agreement

variable {ic : Interchange} {db db' : Database} {startTime : Time} {raw : List UInt8}

/-- Where the call succeeds, it leaves what `updateTimestamp` gives. -/
theorem updateTimestamp_iff_feed :
    db.updateTimestamp ic startTime raw = .ok db' ↔
      db.feed ic (.timestamp startTime raw) = (.ok (), db') := by
  rw [feed_timestamp, Method.run_updateTimestamp]
  unfold updateTimestamp
  cases verifySignatures ic (timestampMetadata ic) .timestamp raw
      db.trustedRoot.timestamp.threshold
      (authorizedKeys db.trustedRoot.keys db.trustedRoot.timestamp.keyIds) with
  | error e => simp [bind_error]
  | ok new =>
    simp only [bind_ok]
    cases checkRollBack .timestamp (db.trustedTimestamp.map (·.version)) new.version with
    | error e => simp [bind_error]
    | ok newer =>
      simp only [bind_ok]
      cases newer with
      | false => simp
      | true =>
        by_cases hexpired : new.expires ≤ startTime
        · simp [hexpired, map_eq_ok]
        · simp [hexpired]

theorem settle_eq_ok {result : Except UpdateError Database} :
    db.settle (result.mapError .update) = (.ok (), db') ↔ result = .ok db' := by
  cases result <;> simp [settle, Except.mapError]

theorem findDelegationFrom_targets {targets : TargetsMetadata} {role : MetadataPath}
    (h : db.trustedTargets = some targets) :
    db.findDelegationFrom .targets role = .ok (findDelegation targets role) := by
  simp [findDelegationFrom, h]

/-- The top-level targets are the parent the client names. -/
theorem updateDelegatedTargetsOf_targets {role : MetadataPath} :
    db.updateDelegatedTargetsOf ic startTime .targets role raw =
      db.updateDelegatedTargets ic startTime role raw := by
  unfold updateDelegatedTargetsOf updateDelegatedTargets
  cases db.rootUnexpired startTime with
  | error e => rfl
  | ok root => cases db.snapshotUnexpired startTime with
    | error e => rfl
    | ok snapshot =>
      simp only [bind_ok]
      cases htargets : db.targetsUnexpired startTime with
      | error e => rfl
      | ok targets =>
        have htrusted := (targetsUnexpired_eq_ok.mp htargets).1
        simp only [bind_ok, findDelegationFrom_targets htrusted]
        cases hdelegations : targets.delegations with
        | none =>
          simp [findDelegation, hdelegations, ensure, bind, Except.bind]
          rfl
        | some delegations => rfl

end Agreement

/-! ## What a call may change -/

section Changes

variable (ic : Interchange) (db : Database)

/-- A role's file is taken where the snapshot names its version and none as new is trusted. -/
structure Takes (startTime : Time) (role : MetadataPath) (raw : List UInt8) (threshold : Nat)
    (keys : List PublicKey) (trusted : Option Nat) (new : TargetsMetadata) : Prop where
  named : ∃ snapshot description, db.trustedSnapshot = some snapshot ∧
    startTime < snapshot.expires ∧ snapshot.metas.lookup role = some description ∧
    new.version = description.version
  verified : verifySignatures ic (targetsMetadata ic) role raw threshold keys = .ok new
  newer : ∀ version, trusted = some version → version < new.version
  unexpired : startTime < new.expires

/-- The timestamp is signed as the trusted root asks, and newer than the trusted one. -/
structure NewerTimestamp (raw : List UInt8) (new : TimestampMetadata) : Prop where
  verified : verifySignatures ic (timestampMetadata ic) .timestamp raw
    db.trustedRoot.timestamp.threshold
    (authorizedKeys db.trustedRoot.keys db.trustedRoot.timestamp.keyIds) = .ok new
  newer : ∀ trusted, db.trustedTimestamp = some trusted → trusted.version < new.version

/-- The snapshot is signed as the trusted root asks, and the one the timestamp names. -/
structure NamedSnapshot (startTime : Time) (raw : List UInt8) (timestamp : TimestampMetadata)
    (new : SnapshotMetadata) : Prop where
  trusted : db.trustedTimestamp = some timestamp
  fresh : startTime < db.trustedRoot.expires ∧ startTime < timestamp.expires
  verified : verifySignatures ic (snapshotMetadata ic) .snapshot raw
    db.trustedRoot.snapshot.threshold
    (authorizedKeys db.trustedRoot.keys db.trustedRoot.snapshot.keyIds) = .ok new
  named : new.version = timestamp.snapshot.version
  newer : ∀ old, db.trustedSnapshot = some old → old.version < new.version

/-- Everything a call can do. -/
inductive Change : Feed → Database → Prop
  | none (f : Feed) : Change f db
  | root {raw : List UInt8} {claimed new : RootMetadata} :
      verifyRoot ic db.trustedRoot raw = .ok claimed → verifyRoot ic claimed raw = .ok new →
      db.trustedRoot.version + 1 < U32_END → new.version = db.trustedRoot.version + 1 →
      Change (.root raw) ⟨new, .none, .none, .none, []⟩
  | forgets {startTime : Time} {raw : List UInt8} {new : TimestampMetadata} :
      NewerTimestamp ic db raw new → new.expires ≤ startTime →
      Change (.timestamp startTime raw) (db.forgetSnapshot new.snapshot.version)
  | timestamp {startTime : Time} {raw : List UInt8} {new : TimestampMetadata} :
      NewerTimestamp ic db raw new → startTime < new.expires →
      Change (.timestamp startTime raw)
        { db.forgetSnapshot new.snapshot.version with trustedTimestamp := some new }
  | snapshot {startTime : Time} {raw : List UInt8} {trusted : TimestampMetadata}
      {new : SnapshotMetadata} : NamedSnapshot ic db startTime raw trusted new →
      Change (.snapshot startTime raw)
        ({ db.purgeTargets new with trustedSnapshot := some new }.purgeDelegations new)
  | targets {startTime : Time} {raw : List UInt8} {new : TargetsMetadata} :
      startTime < db.trustedRoot.expires →
      Takes ic db startTime .targets raw db.trustedRoot.targets.threshold
        (authorizedKeys db.trustedRoot.keys db.trustedRoot.targets.keyIds)
        (db.trustedTargets.map (·.version)) new →
      Change (.targets startTime raw) { db with trustedTargets := some new }
  | delegated {startTime : Time} {parent role : MetadataPath} {raw : List UInt8}
      {threshold : Nat} {keys : List PublicKey} {new : TargetsMetadata} :
      startTime < db.trustedRoot.expires →
      db.findDelegationFrom parent role = .ok (some (threshold, keys)) →
      Takes ic db startTime role raw threshold keys
        ((db.trustedDelegations.lookup role).map (·.version)) new →
      Change (.delegatedTargets startTime parent role raw) (db.trustDelegation role new)

end Changes

section Inversion

variable {ic : Interchange} {db db' : Database} {startTime : Time} {raw : List UInt8}

theorem checkRollBack_eq_true {role : MetadataPath} {trusted : Option Nat} {new : Nat} :
    checkRollBack role trusted new = .ok true ↔
      ∀ version, trusted = some version → version < new := by
  unfold checkRollBack
  split
  · simp
  next version =>
    rw [ite_error_eq_ok]
    simp only [Except.ok.injEq, decide_eq_true_eq, Option.some.injEq, forall_eq']
    omega

theorem verifyTargets_eq_some {role : MetadataPath} {threshold : Nat} {keys : List PublicKey}
    {trusted : Option Nat} {new : TargetsMetadata} :
    db.verifyTargets ic startTime role raw threshold keys trusted = .ok (some new) ↔
      Takes ic db startTime role raw threshold keys trusted new := by
  unfold verifyTargets
  simp only [bind_eq_ok, snapshotUnexpired_eq_ok]
  constructor
  · rintro ⟨snapshot, ⟨hsnapshot, hfresh⟩, h⟩
    split at h
    · simp at h
    next description hdescription =>
      simp only [bind_eq_ok, ensure_eq_ok] at h
      obtain ⟨targets, hverified, _, hversion, newer, hnewer, h⟩ := h
      cases newer with
      | false => simp at h
      | true =>
        by_cases hexpired : targets.expires ≤ startTime
        · simp [map_eq_ok, hexpired] at h
        · rw [if_pos rfl, if_neg hexpired, pure_eq_ok, Option.some.injEq] at h
          subst h
          exact ⟨⟨snapshot, description, hsnapshot, hfresh, hdescription, hversion⟩, hverified,
            checkRollBack_eq_true.mp hnewer, Int.not_le.mp hexpired⟩
  · rintro ⟨⟨snapshot, description, hsnapshot, hfresh, hdescription, hversion⟩, hverified, hnewer,
      hexpires⟩
    refine ⟨snapshot, ⟨hsnapshot, hfresh⟩, ?_⟩
    simp only [hdescription, bind_eq_ok, ensure_eq_ok]
    refine ⟨new, hverified, (), hversion, true, checkRollBack_eq_true.mpr hnewer, ?_⟩
    rw [if_pos rfl, if_neg (Int.not_le.mpr hexpires), pure_eq_ok]

theorem updateRoot_eq_ok :
    db.updateRoot ic raw = .ok db' ↔ ∃ claimed new, verifyRoot ic db.trustedRoot raw = .ok claimed ∧
      verifyRoot ic claimed raw = .ok new ∧ db.trustedRoot.version + 1 < U32_END ∧
      new.version = db.trustedRoot.version + 1 ∧ db' = ⟨new, none, none, none, []⟩ := by
  simp only [updateRoot, bind_eq_ok, ensure_eq_ok, pure_eq_ok, exists_const, exists_and_left,
    eq_comm (b := db')]

theorem change_of_updateSnapshot (h : db.updateSnapshot ic startTime raw = .ok db') :
    Change ic db (.snapshot startTime raw) db' := by
  unfold updateSnapshot at h
  simp only [bind_eq_ok, rootUnexpired_eq_ok, timestampUnexpired_eq_ok] at h
  obtain ⟨_, ⟨hroot, rfl⟩, timestamp, ⟨htimestamp, hfresh⟩, newer, hnewer, h⟩ := h
  cases newer with
  | false =>
    obtain rfl := Except.ok.inj h
    exact .none _
  | true =>
    simp only [if_true, bind_eq_ok, ensure_eq_ok, pure_eq_ok] at h
    obtain ⟨new, hverified, _, hversion, _, -, rfl⟩ := h
    have hnewer := checkRollBack_eq_true.mp hnewer
    refine .snapshot ⟨htimestamp, ⟨hroot, hfresh⟩, hverified, hversion, fun old hold => ?_⟩
    rw [hversion]
    exact hnewer _ (by rw [hold]; rfl)

theorem change_of_updateTargets (h : db.updateTargets ic startTime raw = .ok db') :
    Change ic db (.targets startTime raw) db' := by
  unfold updateTargets at h
  simp only [bind_eq_ok, rootUnexpired_eq_ok] at h
  obtain ⟨_, ⟨hroot, rfl⟩, result, hresult, h⟩ := h
  cases result with
  | none =>
    obtain rfl := Except.ok.inj h
    exact .none _
  | some new =>
    obtain rfl := Except.ok.inj h
    exact .targets hroot (verifyTargets_eq_some.mp hresult)

theorem change_of_updateDelegatedTargetsOf {parent role : MetadataPath}
    (h : db.updateDelegatedTargetsOf ic startTime parent role raw = .ok db') :
    Change ic db (.delegatedTargets startTime parent role raw) db' := by
  unfold updateDelegatedTargetsOf at h
  simp only [bind_eq_ok, rootUnexpired_eq_ok, ensure_eq_ok] at h
  obtain ⟨_, ⟨hroot, -⟩, _, -, _, -, _, -, found, hfound, h⟩ := h
  cases found with
  | none => simp at h
  | some found =>
    obtain ⟨threshold, keys⟩ := found
    simp only [bind_eq_ok] at h
    obtain ⟨result, hresult, h⟩ := h
    cases result with
    | none =>
      obtain rfl := Except.ok.inj h
      exact .none _
    | some new =>
      obtain rfl := Except.ok.inj h
      exact .delegated hroot hfound (verifyTargets_eq_some.mp hresult)

/-- The ways a timestamp is dealt with: left alone, or found newer, and then expired or taken. -/
theorem feed_timestamp_cases :
    (∃ result, db.feed ic (.timestamp startTime raw) = (result, db)) ∨
      ∃ new, NewerTimestamp ic db raw new ∧
        (new.expires ≤ startTime ∧ db.feed ic (.timestamp startTime raw) =
            (.error (.update (.database (.expiredMetadata .timestamp))),
              db.forgetSnapshot new.snapshot.version) ∨
          startTime < new.expires ∧ db.feed ic (.timestamp startTime raw) =
            (.ok (), { db.forgetSnapshot new.snapshot.version with trustedTimestamp := some new })) := by
  rw [feed_timestamp, Method.run_updateTimestamp]
  split
  · exact .inl ⟨_, rfl⟩
  next new hverified =>
    split
    · exact .inl ⟨_, rfl⟩
    · exact .inl ⟨_, rfl⟩
    next hnewer =>
      have hnew : NewerTimestamp ic db raw new := by
        refine ⟨hverified, fun trusted htrusted => ?_⟩
        exact checkRollBack_eq_true.mp hnewer _ (by rw [htrusted]; rfl)
      by_cases hexpired : new.expires ≤ startTime
      · exact .inr ⟨new, hnew, .inl ⟨hexpired, if_pos hexpired⟩⟩
      · exact .inr ⟨new, hnew, .inr ⟨Int.not_le.mp hexpired, if_neg hexpired⟩⟩

theorem change_of_feedTimestamp :
    Change ic db (.timestamp startTime raw) (db.feed ic (.timestamp startTime raw)).2 := by
  obtain ⟨result, h⟩ | ⟨new, hnew, ⟨hexpired, h⟩ | ⟨hfresh, h⟩⟩ := feed_timestamp_cases
  · rw [h]
    exact .none _
  · rw [h]
    exact .forgets hnew hexpired
  · rw [h]
    exact .timestamp hnew hfresh

theorem change_of_settle {f : Feed} {result : Except FeedError Database}
    (h : ∀ new, result = .ok new → Change ic db f new) : Change ic db f (db.settle result).2 := by
  cases result with
  | ok new => exact h new rfl
  | error e => exact .none f

/-- A call does one of the things listed, and the list says when. -/
theorem change_of_feed (f : Feed) : Change ic db f (db.feed ic f).2 := by
  cases f with
  | root raw =>
    rw [feed_root]
    refine change_of_settle fun new h => ?_
    obtain ⟨claimed, root, hold, hnew, hbound, hversion, rfl⟩ := updateRoot_eq_ok.mp h
    exact .root hold hnew hbound hversion
  | timestamp startTime raw => exact change_of_feedTimestamp
  | snapshot startTime raw =>
    rw [feed_snapshot]
    exact change_of_settle fun new h => change_of_updateSnapshot (mapError_eq_ok.mp h)
  | targets startTime raw =>
    rw [feed_targets]
    exact change_of_settle fun new h => change_of_updateTargets (mapError_eq_ok.mp h)
  | delegatedTargets startTime parent role raw =>
    rw [feed_delegatedTargets]
    exact change_of_settle fun new h => change_of_updateDelegatedTargetsOf (mapError_eq_ok.mp h)

/-! ## Refusals -/

theorem settle_eq_error {result : Except FeedError Database} {e : FeedError}
    (h : (db.settle result).1 = .error e) : result = .error e ∧ (db.settle result).2 = db := by
  cases result with
  | ok new => cases h
  | error e' => exact ⟨congrArg _ (Except.error.inj h), rfl⟩

/-- A refused file changes nothing, but for a newer timestamp that has expired: it takes away
a snapshot that it does not name. -/
theorem feed_refused {f : Feed} {e : FeedError} (h : (db.feed ic f).1 = .error e) :
    (db.feed ic f).2 = db ∨ ∃ startTime raw new, f = .timestamp startTime raw ∧
      NewerTimestamp ic db raw new ∧ new.expires ≤ startTime ∧
      (db.feed ic f).2 = db.forgetSnapshot new.snapshot.version := by
  cases f with
  | root raw =>
    rw [feed_root] at h ⊢
    exact .inl (settle_eq_error h).2
  | snapshot startTime raw =>
    rw [feed_snapshot] at h ⊢
    exact .inl (settle_eq_error h).2
  | targets startTime raw =>
    rw [feed_targets] at h ⊢
    exact .inl (settle_eq_error h).2
  | delegatedTargets startTime parent role raw =>
    rw [feed_delegatedTargets] at h ⊢
    exact .inl (settle_eq_error h).2
  | timestamp startTime raw =>
    obtain ⟨result, hfed⟩ | ⟨new, hnew, ⟨hexpired, hfed⟩ | ⟨hfresh, hfed⟩⟩ := feed_timestamp_cases
    · exact .inl (by rw [hfed])
    · exact .inr ⟨startTime, raw, new, rfl, hnew, hexpired, by rw [hfed]⟩
    · rw [hfed] at h
      cases h

/-- A part of the database is ahead of what the part above it names. -/
inductive Ahead (db : Database) : Prop
  | snapshot {timestamp : TimestampMetadata} {snapshot : SnapshotMetadata} :
      db.trustedTimestamp = some timestamp → db.trustedSnapshot = some snapshot →
      timestamp.snapshot.version < snapshot.version → Ahead db
  | targets {snapshot : SnapshotMetadata} {description : MetadataDescription}
      {trusted : TargetsMetadata} : db.trustedSnapshot = some snapshot →
      snapshot.metas.lookup .targets = some description → db.trustedTargets = some trusted →
      description.version < trusted.version → Ahead db
  | delegated {role : MetadataPath} {snapshot : SnapshotMetadata}
      {description : MetadataDescription} {trusted : TargetsMetadata} :
      db.trustedSnapshot = some snapshot → snapshot.metas.lookup role = some description →
      db.trustedDelegations.lookup role = some trusted →
      description.version < trusted.version → Ahead db

theorem verifySignatures_not_rolledBack {M : Type} {deserialize : Json → Option M}
    {role role' : MetadataPath} {threshold trusted new : Nat} {keys : List PublicKey} :
    verifySignatures ic deserialize role raw threshold keys ≠
      .error (.attemptedMetadataRollBack role' trusted new) := by
  unfold verifySignatures
  intro h
  split at h
  · cases h
  · split at h
    · cases h
    · split at h
      · cases h
      · dsimp only at h
        split at h
        · cases h
        · split at h <;> cases h

theorem checkRollBack_eq_error {role : MetadataPath} {trusted : Option Nat} {new : Nat}
    {e : UpdateError} (h : checkRollBack role trusted new = .error e) :
    ∃ version, trusted = some version ∧ new < version := by
  unfold checkRollBack at h
  split at h
  · cases h
  next version =>
    split at h
    next hless => exact ⟨version, rfl, hless⟩
    · cases h

theorem mapError_not_rolledBack {α : Type} {x : Except Error α} {role : MetadataPath}
    {trusted new : Nat} :
    x.mapError UpdateError.database ≠ .error (.attemptedMetadataRollBack role trusted new) := by
  intro h
  obtain ⟨_, -, h⟩ := mapError_eq_error.mp h
  cases h

theorem timestampUnexpired_not_rolledBack {role : MetadataPath} {trusted new : Nat} :
    db.timestampUnexpired startTime ≠ .error (.attemptedMetadataRollBack role trusted new) := by
  intro h
  unfold timestampUnexpired at h
  split at h
  · split at h <;> cases h
  · cases h

theorem verifyTargets_rolledBack {role role' : MetadataPath} {threshold trusted new : Nat}
    {keys : List PublicKey} {old : Option Nat}
    (h : db.verifyTargets ic startTime role raw threshold keys old =
      .error (.attemptedMetadataRollBack role' trusted new)) :
    ∃ snapshot description version, db.trustedSnapshot = some snapshot ∧
      snapshot.metas.lookup role = some description ∧ old = some version ∧
      description.version < version := by
  unfold verifyTargets at h
  rcases bind_eq_error.mp h with h | ⟨snapshot, hsnapshot, h⟩
  · exact absurd h mapError_not_rolledBack
  · split at h
    · cases h
    next description hdescription =>
      rcases bind_eq_error.mp h with h | ⟨targets, -, h⟩
      · exact absurd h verifySignatures_not_rolledBack
      · rcases bind_eq_error.mp h with h | ⟨_, hversion, h⟩
        · cases (ensure_eq_error.mp h).2
        · rcases bind_eq_error.mp h with h | ⟨newer, -, h⟩
          · obtain ⟨version, hold, hless⟩ := checkRollBack_eq_error h
            exact ⟨snapshot, description, version, (snapshotUnexpired_eq_ok.mp hsnapshot).1,
              hdescription, hold, ensure_eq_ok.mp hversion ▸ hless⟩
          · cases newer with
            | false => cases h
            | true =>
              rw [if_pos rfl] at h
              split at h <;> cases h

theorem updateSnapshot_rolledBack {role : MetadataPath} {trusted new : Nat}
    (h : db.updateSnapshot ic startTime raw =
      .error (.attemptedMetadataRollBack role trusted new)) : Ahead db := by
  unfold updateSnapshot at h
  rcases bind_eq_error.mp h with h | ⟨root, -, h⟩
  · exact absurd h mapError_not_rolledBack
  rcases bind_eq_error.mp h with h | ⟨timestamp, htimestamp, h⟩
  · exact absurd h timestampUnexpired_not_rolledBack
  have htimestamp := (timestampUnexpired_eq_ok.mp htimestamp).1
  -- both checks compare the trusted snapshot with the version that the timestamp names
  have hahead : ∀ {version : Nat} {e : UpdateError}, version = timestamp.snapshot.version →
      checkRollBack .snapshot (db.trustedSnapshot.map (·.version)) version = .error e →
      Ahead db := by
    rintro version e rfl h
    obtain ⟨old, hold, hless⟩ := checkRollBack_eq_error h
    obtain ⟨snapshot, hsnapshot, rfl⟩ := Option.map_eq_some_iff.mp hold
    exact .snapshot htimestamp hsnapshot hless
  rcases bind_eq_error.mp h with h | ⟨newer, -, h⟩
  · exact hahead rfl h
  cases newer with
  | false => cases h
  | true =>
    rw [if_pos rfl] at h
    rcases bind_eq_error.mp h with h | ⟨snapshot, -, h⟩
    · exact absurd h verifySignatures_not_rolledBack
    rcases bind_eq_error.mp h with h | ⟨_, hversion, h⟩
    · cases (ensure_eq_error.mp h).2
    rcases bind_eq_error.mp h with h | ⟨_, -, h⟩
    · exact hahead (ensure_eq_ok.mp hversion) h
    · cases h

theorem updateTargets_rolledBack {role : MetadataPath} {trusted new : Nat}
    (h : db.updateTargets ic startTime raw =
      .error (.attemptedMetadataRollBack role trusted new)) : Ahead db := by
  unfold updateTargets at h
  rcases bind_eq_error.mp h with h | ⟨root, -, h⟩
  · exact absurd h mapError_not_rolledBack
  rcases bind_eq_error.mp h with h | ⟨result, -, h⟩
  · obtain ⟨snapshot, description, version, hsnapshot, hdescription, hold, hless⟩ :=
      verifyTargets_rolledBack h
    obtain ⟨targets, htargets, rfl⟩ := Option.map_eq_some_iff.mp hold
    exact .targets hsnapshot hdescription htargets hless
  · cases result <;> cases h

theorem updateDelegatedTargetsOf_rolledBack {parent role role' : MetadataPath}
    {trusted new : Nat} (h : db.updateDelegatedTargetsOf ic startTime parent role raw =
      .error (.attemptedMetadataRollBack role' trusted new)) : Ahead db := by
  unfold updateDelegatedTargetsOf at h
  rcases bind_eq_error.mp h with h | ⟨_, -, h⟩
  · exact absurd h mapError_not_rolledBack
  rcases bind_eq_error.mp h with h | ⟨_, -, h⟩
  · exact absurd h mapError_not_rolledBack
  rcases bind_eq_error.mp h with h | ⟨_, -, h⟩
  · exact absurd h mapError_not_rolledBack
  rcases bind_eq_error.mp h with h | ⟨_, -, h⟩
  · cases (ensure_eq_error.mp h).2
  rcases bind_eq_error.mp h with h | ⟨found, -, h⟩
  · unfold findDelegationFrom at h
    dsimp only at h
    split at h <;> cases h
  cases found with
  | none => cases h
  | some found =>
    rcases bind_eq_error.mp h with h | ⟨result, -, h⟩
    · obtain ⟨snapshot, description, version, hsnapshot, hdescription, hold, hless⟩ :=
        verifyTargets_rolledBack h
      obtain ⟨targets, htargets, rfl⟩ := Option.map_eq_some_iff.mp hold
      exact .delegated hsnapshot hdescription htargets hless
    · cases result <;> cases h

/-- The call was refused because the file is older than what is trusted. -/
def RolledBack (result : Except FeedError Unit) : Prop :=
  ∃ role trusted new, result = .error (.update (.attemptedMetadataRollBack role trusted new))

theorem RolledBack.of_settle {result : Except UpdateError Database}
    (h : RolledBack (db.settle (result.mapError .update)).1) :
    ∃ role trusted new, result = .error (.attemptedMetadataRollBack role trusted new) := by
  obtain ⟨role, trusted, new, h⟩ := h
  obtain ⟨e, hresult, he⟩ := mapError_eq_error.mp (settle_eq_error h).1
  exact ⟨role, trusted, new, FeedError.update.inj he ▸ hresult⟩

/-- Below the root and the timestamp, a rollback is only ever refused by a database that is
ahead of itself. -/
theorem ahead_of_rolledBack {f : Feed} (h : RolledBack (db.feed ic f).1) :
    (∃ raw, f = .root raw) ∨ (∃ startTime raw, f = .timestamp startTime raw) ∨ Ahead db := by
  cases f with
  | root raw => exact .inl ⟨raw, rfl⟩
  | timestamp startTime raw => exact .inr (.inl ⟨startTime, raw, rfl⟩)
  | snapshot startTime raw =>
    rw [feed_snapshot] at h
    obtain ⟨_, _, _, h⟩ := RolledBack.of_settle h
    exact .inr (.inr (updateSnapshot_rolledBack h))
  | targets startTime raw =>
    rw [feed_targets] at h
    obtain ⟨_, _, _, h⟩ := RolledBack.of_settle h
    exact .inr (.inr (updateTargets_rolledBack h))
  | delegatedTargets startTime parent role raw =>
    rw [feed_delegatedTargets] at h
    obtain ⟨_, _, _, h⟩ := RolledBack.of_settle h
    exact .inr (.inr (updateDelegatedTargetsOf_rolledBack h))

end Inversion

end Database

end DistPlatform.Tuf
