import DistPlatform.Client.FileFormat
import DistPlatform.Client.UpdateCheck
import DistPlatform.Core.Timestamps
import DistPlatform.Tuf.Updates

/-!
# Checks against a mirror that replays old files

Every check starts from the embedded root and forgets what it accepted. Within one check each
file is held to the version that the one above it names; between two checks nothing is, so a
mirror that answers with an older `timestamp.json` brings everything below it back.

## Main definitions

* `tufUpdates` — the updates of the verifier, over the trusted database.
* `Check.accepted` — the verifiers a check goes through, also where it fails later.
* `deployment` — the writers of a repository, and the checks of one installation.
* `NoRollback` — a later check accepts nothing below what an earlier one accepted.
-/

namespace DistPlatform.Client

open DistPlatform
open DistPlatform.Tuf (Database Interchange MetadataPath TimestampMetadata signedMetadata
  timestampMetadata snapshotMetadata)
open Runs

/-! ## The stages of a check -/

/-- `rejected`, without the text of the error. -/
def rejected {α : Type} (role : Role) (result : Except Tuf.UpdateError α) :
    Except VerifyError α :=
  result.mapError fun _ => .Rejected role ""

/-- `impl Verifier for TufVerifier`. -/
def tufUpdates (ic : Interchange) : Updates where
  root raw := rejected .Root (Database.fromTrustedRoot ic raw)
  timestamp now db raw := rejected .Timestamp (db.updateTimestamp ic now raw)
  snapshot now db raw := rejected .Snapshot (db.updateSnapshot ic now raw)
  targets now db raw := rejected .Targets (db.updateTargets ic now raw)
  delegatedTargets now db role raw := rejected .Delegated (db.updateDelegatedTargets ic now role raw)

/-- What a check makes of its verifier with the next file; nothing where the check is over. -/
abbrev Stage := TufVerifier → Except UpdateFailure (Option TufVerifier)

section Stages

variable (ports : Ports) (updates : Updates) (channel : Channel) (systemTime : Int)

def timestampStage : Stage := fun verifier => do
  return some (← feed verifier systemTime updates.timestamp (← fetch ports "timestamp.json"))

def snapshotStage : Stage := fun verifier =>
  match snapshotVersion verifier with
  | none => throw (.UpdateError "timestamp named no snapshot version")
  | some snapshot => do
    return some (← feed verifier systemTime updates.snapshot
      (← fetch ports (toString snapshot ++ ".snapshot.json")))

def targetsStage : Stage := fun verifier =>
  match targetsVersion verifier "targets" with
  | none => throw (.UpdateError "snapshot named no targets version")
  | some targets => do
    return some (← feed verifier systemTime updates.targets
      (← fetch ports (toString targets ++ ".targets.json")))

def delegatedStage : Stage := fun verifier =>
  match targetsVersion verifier channel.role with
  | none => return none
  | some delegated => do
    return some (← feed verifier systemTime (delegatedUpdate updates channel.role)
      (← fetch ports (toString delegated ++ "." ++ channel.role ++ ".json")))

def stages : List Stage :=
  [timestampStage ports updates systemTime, snapshotStage ports updates systemTime,
    targetsStage ports updates systemTime, delegatedStage ports updates channel systemTime]

end Stages

def through : List Stage → Stage
  | [], verifier => return some verifier
  | stage :: rest, verifier => do
    match ← stage verifier with
    | none => return none
    | some verifier => through rest verifier

/-- Every verifier on the way, also where a later stage fails. -/
def trail : List Stage → TufVerifier → List TufVerifier
  | [], verifier => [verifier]
  | stage :: rest, verifier => verifier :: match stage verifier with
    | .ok (some verifier) => trail rest verifier
    | _ => []

theorem acceptMetadata_eq (ports : Ports) (updates : Updates) (channel : Channel) (root : Bytes)
    (clock : Clock) (systemTime : Int) :
    acceptMetadata ports updates channel root clock systemTime =
      bootstrap updates root clock >>= through (stages ports updates channel systemTime) := by
  unfold acceptMetadata
  refine bind_congr fun verifier => ?_
  simp only [stages, through, timestampStage, bind_assoc, pure_bind]
  refine bind_congr fun raw => bind_congr fun verifier => ?_
  cases hsnapshot : snapshotVersion verifier with
  | none =>
    simp only [snapshotStage, hsnapshot]
    rfl
  | some snapshot =>
    simp only [snapshotStage, hsnapshot, bind_assoc, pure_bind]
    refine bind_congr fun raw => bind_congr fun verifier => ?_
    cases htargets : targetsVersion verifier "targets" with
    | none =>
      simp only [targetsStage, htargets]
      rfl
    | some targets =>
      simp only [targetsStage, htargets, bind_assoc, pure_bind]
      refine bind_congr fun raw => bind_congr fun verifier => ?_
      cases hdelegated : targetsVersion verifier channel.role with
      | none => simp only [delegatedStage, hdelegated, pure_bind]
      | some delegated => simp only [delegatedStage, hdelegated, bind_assoc, pure_bind]

theorem mem_trail_cons {stage : Stage} {rest : List Stage} {verifier later : TufVerifier} :
    later ∈ trail (stage :: rest) verifier ↔ later = verifier ∨
      ∃ fed, stage verifier = .ok (some fed) ∧ later ∈ trail rest fed := by
  rw [trail, List.mem_cons]
  refine or_congr_right ?_
  split
  next fed hfed => simp [hfed]
  next hnone =>
    refine ⟨nofun, ?_⟩
    rintro ⟨fed, hfed, -⟩
    exact absurd hfed (hnone fed)

theorem mem_trail_of_through {stages : List Stage} {verifier later : TufVerifier}
    (h : through stages verifier = .ok (some later)) : later ∈ trail stages verifier := by
  induction stages generalizing verifier with
  | nil =>
    obtain rfl : verifier = later := by simpa [through] using h
    exact List.mem_singleton_self _
  | cons stage rest ih =>
    obtain ⟨fed, hfed, h⟩ := Fallible.bind_eq_ok.mp h
    cases fed with
    | none => simp at h
    | some fed => exact mem_trail_cons.mpr (.inr ⟨fed, hfed, ih h⟩)

/-! ## One check -/

/-- An installed application. -/
structure Installed where
  root : Bytes
  installId : String
  channel : Channel

/-- What one run is given: the answers of the mirror, and the time. -/
structure Check where
  ports : Ports
  clock : Clock
  systemTime : Int

namespace Check

variable (ic : Interchange) (app : Installed) (check : Check)

def run : Except UpdateFailure (Option Available) :=
  Client.run check.ports (tufUpdates ic) app.installId app.channel app.root check.clock
    check.systemTime

/-- Every verifier that the check goes through. -/
def accepted : List TufVerifier :=
  match bootstrap (tufUpdates ic) app.root check.clock with
  | .ok verifier =>
    trail (stages check.ports (tufUpdates ic) app.channel check.systemTime) verifier
  | .error _ => []

def succeeds : Prop := ∃ result, check.run ic app = .ok result

/-- The version that the answered `timestamp.json` bears. -/
def answered : Option Nat :=
  match check.ports.fetch "timestamp.json" with
  | .error _ => none
  | .ok raw => (signedMetadata ic raw).bind fun signed =>
      (timestampMetadata ic signed.2).map (·.version)

def now : Except VerifyError Tuf.Time :=
  match check.clock with
  | .System => toUtc check.systemTime
  | .Fixed time => .ok time

/-- What is offered was resolved with one of the verifiers that were accepted. -/
theorem exists_accepted_of_run {available : Available}
    (h : check.run ic app = .ok (some available)) :
    ∃ verifier ∈ check.accepted ic app,
      resolve check.ports app.installId app.channel (verifier.target check.systemTime) =
        .ok (some available) := by
  obtain ⟨verifier, haccept, hresolve⟩ := run_eq_some h
  refine ⟨verifier, ?_, hresolve⟩
  rw [acceptMetadata_eq] at haccept
  obtain ⟨first, hfirst, hthrough⟩ := Fallible.bind_eq_ok.mp haccept
  rw [accepted, hfirst]
  exact mem_trail_of_through hthrough

end Check

/-! ## What a check rests on -/

/-- A document of the file: what it says, under whatever signatures. -/
def Carries (ic : Interchange) (enc : Core.Encoding) (raw : Bytes) (md : Core.Metadata) : Prop :=
  ∃ signatures members, signedMetadata ic raw = some (signatures, .obj members) ∧
    Core.SignedAs enc md members

/-- The mirror answers with files that the repository has written and that have not expired. -/
def Check.Serves (ic : Interchange) (enc : Core.Encoding) (log : Core.Writes) (check : Check) :
    Prop :=
  ∀ name raw, Text.startsWith name "targets/" = false → check.ports.fetch name = .ok raw →
    ∃ file ∈ log, Carries ic enc raw file.2 ∧
      ∀ now, check.now = .ok now →
        ∃ expires, ic.parseDatetime (enc.expires file.2.expires) = some expires ∧ now < expires

/-- Each trusted part is of a file of the log, at the version that the part above it names. -/
structure ReadFrom (log : Core.Writes) (db : Database) : Prop where
  timestamp : ∀ t, db.trustedTimestamp = some t → ∃ file ∈ log,
    file.2.signed = .timestamp t.snapshot.version ∧ file.2.version = t.version
  snapshot : ∀ s, db.trustedSnapshot = some s →
    (∃ t, db.trustedTimestamp = some t ∧ s.version = t.snapshot.version) ∧
    ∃ file ∈ log, ∃ metas, file.2.signed = .snapshot metas ∧ file.2.version = s.version ∧
      ∀ role description, s.metas.lookup role = some description →
        metas.get (role.value ++ ".json") = some description.version
  targets : ∀ g, db.trustedTargets = some g → ∃ s description, db.trustedSnapshot = some s ∧
    s.metas.lookup .targets = some description ∧ g.version = description.version
  delegated : ∀ role g, db.trustedDelegations.lookup role = some g → ∃ s description,
    db.trustedSnapshot = some s ∧ s.metas.lookup role = some description ∧
      g.version = description.version

/-- The later database trusts nothing below what the earlier one trusts. -/
structure NotBelow (earlier later : Database) : Prop where
  timestamp : ∀ t t', earlier.trustedTimestamp = some t → later.trustedTimestamp = some t' →
    t.version ≤ t'.version
  snapshot : ∀ s s', earlier.trustedSnapshot = some s → later.trustedSnapshot = some s' →
    s.version ≤ s'.version
  targets : ∀ g g', earlier.trustedTargets = some g → later.trustedTargets = some g' →
    g.version ≤ g'.version
  delegated : ∀ role g g', earlier.trustedDelegations.lookup role = some g →
    later.trustedDelegations.lookup role = some g' → g.version ≤ g'.version

theorem ReadFrom.mono {log log' : Core.Writes} {db : Database} (h : ReadFrom log db)
    (hsub : log ⊆ log') : ReadFrom log' db where
  timestamp t ht := by
    obtain ⟨file, hfile, hread⟩ := h.timestamp t ht
    exact ⟨file, hsub hfile, hread⟩
  snapshot s hs := by
    obtain ⟨hnamed, file, hfile, hread⟩ := h.snapshot s hs
    exact ⟨hnamed, file, hsub hfile, hread⟩
  targets := h.targets
  delegated := h.delegated

/-- Where what is named grows with the version, the timestamp decides. -/
theorem notBelow_of_timestamp {log : Core.Writes} (hlog : Core.Ordered log)
    {earlier later : Database} (h : ReadFrom log earlier) (h' : ReadFrom log later)
    (htimestamp : ∀ t t', earlier.trustedTimestamp = some t → later.trustedTimestamp = some t' →
      t.version ≤ t'.version) : NotBelow earlier later := by
  have hsnapshot (s s') (hs : earlier.trustedSnapshot = some s)
      (hs' : later.trustedSnapshot = some s') : s.version ≤ s'.version := by
    obtain ⟨⟨t, ht, hversion⟩, -⟩ := h.snapshot s hs
    obtain ⟨⟨t', ht', hversion'⟩, -⟩ := h'.snapshot s' hs'
    obtain ⟨file, hfile, hsigned, hfileversion⟩ := h.timestamp t ht
    obtain ⟨file', hfile', hsigned', hfileversion'⟩ := h'.timestamp t' ht'
    rw [hversion, hversion']
    refine hlog.timestamps file hfile file' hfile' _ _ hsigned hsigned' ?_
    rw [hfileversion, hfileversion']
    exact htimestamp t t' ht ht'
  have hnamed (s s' role description description') (hs : earlier.trustedSnapshot = some s)
      (hs' : later.trustedSnapshot = some s') (hrole : s.metas.lookup role = some description)
      (hrole' : s'.metas.lookup role = some description') :
      description.version ≤ description'.version := by
    obtain ⟨-, file, hfile, metas, hsigned, hversion, hmetas⟩ := h.snapshot s hs
    obtain ⟨-, file', hfile', metas', hsigned', hversion', hmetas'⟩ := h'.snapshot s' hs'
    refine hlog.snapshots file hfile file' hfile' _ _ hsigned hsigned' ?_ _ _ _
      (hmetas role _ hrole) (hmetas' role _ hrole')
    rw [hversion, hversion']
    exact hsnapshot s s' hs hs'
  refine ⟨htimestamp, hsnapshot, fun g g' hg hg' => ?_, fun role g g' hg hg' => ?_⟩
  · obtain ⟨s, description, hs, hrole, hversion⟩ := h.targets g hg
    obtain ⟨s', description', hs', hrole', hversion'⟩ := h'.targets g' hg'
    rw [hversion, hversion']
    exact hnamed s s' _ _ _ hs hs' hrole hrole'
  · obtain ⟨s, description, hs, hrole, hversion⟩ := h.delegated role g hg
    obtain ⟨s', description', hs', hrole', hversion'⟩ := h'.delegated role g' hg'
    rw [hversion, hversion']
    exact hnamed s s' _ _ _ hs hs' hrole hrole'

/-! ## The stages, over a fresh database -/

section Pass

variable {ic : Interchange} {enc : Core.Encoding} {log : Core.Writes} {app : Installed}
  {check : Check} {clock : Clock} {root : Tuf.RootMetadata}

theorem feed_eq_ok {verifier later : TufVerifier} {systemTime : Int}
    {update : Tuf.Time → Database → Bytes → Except VerifyError Database} {raw : Bytes} :
    feed verifier systemTime update raw = .ok later ↔ ∃ now db,
      verifier.now systemTime = .ok now ∧ update now verifier.database raw = .ok db ∧
        later = { verifier with database := db } := by
  unfold feed
  split
  next db hdb =>
    obtain ⟨now, hnow, hupdate⟩ := Fallible.bind_eq_ok.mp hdb
    constructor
    · intro h
      exact ⟨now, db, hnow, hupdate, (Except.ok.inj h).symm⟩
    · rintro ⟨now', db', hnow', hupdate', rfl⟩
      obtain rfl := Except.ok.inj (hnow.symm.trans hnow')
      obtain rfl := Except.ok.inj (hupdate.symm.trans hupdate')
      rfl
  next e he =>
    refine ⟨nofun, ?_⟩
    rintro ⟨now, db, hnow, hupdate, -⟩
    rw [hnow, Fallible.bind_ok, hupdate] at he
    cases he

theorem rejected_eq_ok {α : Type} {role : Role} {result : Except Tuf.UpdateError α} {a : α} :
    rejected role result = .ok a ↔ result = .ok a :=
  Fallible.mapError_eq_ok

/-- What was accepted of a document is what its file says. -/
theorem read_of_carries {M : Type} {deserialize : Json → Option M} {role : MetadataPath}
    {raw : Bytes} {threshold : Nat} {authorized : List Tuf.PublicKey} {metadata : M}
    {md : Core.Metadata}
    (h : Tuf.verifySignatures ic deserialize role raw threshold authorized = .ok metadata)
    (hraw : Carries ic enc raw md) :
    ∃ members, Core.SignedAs enc md members ∧ deserialize (.obj members) = some metadata := by
  obtain ⟨-, signatures, signed, -, hsigned, -, -, hmetadata⟩ := Tuf.verifySignatures_eq_ok.mp h
  obtain ⟨_, members, hcarried, hmembers⟩ := hraw
  obtain ⟨-, rfl⟩ := Prod.mk.inj (Option.some.inj (hsigned.symm.trans hcarried))
  exact ⟨members, hmembers, hmetadata⟩

/-- A version in front keeps a name out of the payloads. -/
theorem startsWith_versioned (version : Nat) (rest : String) :
    Text.startsWith (toString version ++ rest) "targets/" = false := by
  rw [Bool.eq_false_iff, ne_eq, Text.startsWith_iff, Nat.toString_eq_ofList_toDigits,
    String.toList_append, String.toList_ofList]
  intro h
  cases hdigits : Nat.toDigits 10 version with
  | nil => exact Nat.toDigits_ne_nil hdigits
  | cons first digits =>
    rw [hdigits, String.toList_ofList] at h
    obtain rfl : 't' = first := (List.cons_prefix_cons.mp h).1
    have hdigit := Core.all_isDigit version 't' (hdigits ▸ List.mem_cons_self)
    exact absurd hdigit (by decide)

theorem ReadFrom.fresh (root : Tuf.RootMetadata) :
    ReadFrom log ⟨root, none, none, none, []⟩ :=
  ⟨nofun, nofun, nofun, nofun⟩

/-- The timestamp is a file of the log, and the version it bears was answered. -/
theorem timestampStage_eq_some (hserves : check.Serves ic enc log) {later : TufVerifier}
    (h : timestampStage check.ports (tufUpdates ic) check.systemTime
      ⟨⟨root, none, none, none, []⟩, clock⟩ = .ok (some later)) :
    ∃ t, later = ⟨⟨root, none, none, some t, []⟩, clock⟩ ∧ check.answered ic = some t.version ∧
      ReadFrom log ⟨root, none, none, some t, []⟩ := by
  simp only [timestampStage, Fallible.bind_eq_ok, Fallible.pure_eq_ok, Option.some.injEq] at h
  obtain ⟨raw, hraw, _, hfeed, rfl⟩ := h
  rw [fetch, Fallible.mapError_eq_ok] at hraw
  obtain ⟨now, db, -, hupdate, rfl⟩ := feed_eq_ok.mp hfeed
  obtain ⟨t, ht, -, rfl⟩ := Database.updateTimestamp_eq_ok.mp (rejected_eq_ok.mp hupdate)
  have hanswered : check.answered ic = some t.version := by
    obtain ⟨-, signatures, signed, -, hsigned, -, -, hread⟩ := Tuf.verifySignatures_eq_ok.mp ht
    simp only [Check.answered, hraw, hsigned, Option.bind_some, hread, Option.map_some]
  obtain ⟨file, hfile, hcarries, -⟩ := hserves _ raw (by decide) hraw
  obtain ⟨members, hmembers, hread⟩ := read_of_carries ht hcarries
  obtain ⟨version, expires, hsigned, -, -, -, rfl⟩ := (timestampMetadata_eq_some hmembers).mp hread
  refine ⟨_, rfl, hanswered, ⟨fun t ht => ?_, by simp, by simp, by simp⟩⟩
  obtain rfl := Option.some.inj ht
  exact ⟨file, hfile, hsigned, rfl⟩

theorem snapshotStage_eq_some (hserves : check.Serves ic enc log) {later : TufVerifier}
    {t : TimestampMetadata} (hread : ReadFrom log ⟨root, none, none, some t, []⟩)
    (h : snapshotStage check.ports (tufUpdates ic) check.systemTime
      ⟨⟨root, none, none, some t, []⟩, clock⟩ = .ok (some later)) :
    ∃ s, later = ⟨⟨root, some s, none, some t, []⟩, clock⟩ ∧
      ReadFrom log ⟨root, some s, none, some t, []⟩ := by
  simp only [snapshotStage, snapshotVersion, Option.map_some, Fallible.bind_eq_ok,
    Fallible.pure_eq_ok, Option.some.injEq] at h
  obtain ⟨raw, hraw, _, hfeed, rfl⟩ := h
  rw [fetch, Fallible.mapError_eq_ok] at hraw
  obtain ⟨now, db, -, hupdate, rfl⟩ := feed_eq_ok.mp hfeed
  obtain ⟨-, -, s, hs, hversion, rfl⟩ :=
    Database.updateSnapshot_eq_ok.mp (rejected_eq_ok.mp hupdate)
  obtain ⟨file, hfile, hcarries, -⟩ := hserves _ raw (startsWith_versioned _ _) hraw
  obtain ⟨members, hmembers, hdeserialized⟩ := read_of_carries hs hcarries
  obtain ⟨metas, named, expires, hsigned, ⟨-, hnamed⟩, -, -, hfileversion, -, hmetas⟩ :=
    (snapshotMetadata_eq_some hmembers).mp hdeserialized
  refine ⟨s, rfl, ⟨hread.timestamp, fun s' hs' => ?_, by simp, by simp⟩⟩
  obtain rfl := Option.some.inj hs'
  exact ⟨⟨t, rfl, hversion⟩, file, hfile, metas, hsigned, hfileversion.symm,
    fun role description hrole => version_of_named hnamed hmetas hrole⟩

theorem targetsStage_eq_some {later : TufVerifier} {t : TimestampMetadata}
    {s : Tuf.SnapshotMetadata} (hread : ReadFrom log ⟨root, some s, none, some t, []⟩)
    (h : targetsStage check.ports (tufUpdates ic) check.systemTime
      ⟨⟨root, some s, none, some t, []⟩, clock⟩ = .ok (some later)) :
    ∃ g, later = ⟨⟨root, some s, some g, some t, []⟩, clock⟩ ∧
      ReadFrom log ⟨root, some s, some g, some t, []⟩ := by
  unfold targetsStage at h
  split at h
  · simp at h
  · simp only [Fallible.bind_eq_ok, Fallible.pure_eq_ok, Option.some.injEq] at h
    obtain ⟨raw, -, _, hfeed, rfl⟩ := h
    obtain ⟨now, db, -, hupdate, rfl⟩ := feed_eq_ok.mp hfeed
    obtain ⟨-, -, description, g, hrole, -, hversion, -, rfl⟩ :=
      Database.updateTargets_eq_ok.mp (rejected_eq_ok.mp hupdate)
    refine ⟨g, rfl, ⟨hread.timestamp, hread.snapshot, fun g' hg' => ?_, by simp⟩⟩
    obtain rfl := Option.some.inj hg'
    exact ⟨s, description, rfl, hrole, hversion⟩

theorem delegatedStage_eq_some {channel : Channel} {later : TufVerifier} {t : TimestampMetadata}
    {s : Tuf.SnapshotMetadata} {g : Tuf.TargetsMetadata}
    (hread : ReadFrom log ⟨root, some s, some g, some t, []⟩)
    (h : delegatedStage check.ports (tufUpdates ic) channel check.systemTime
      ⟨⟨root, some s, some g, some t, []⟩, clock⟩ = .ok (some later)) :
    ReadFrom log later.database ∧ later.database.trustedTimestamp = some t := by
  unfold delegatedStage at h
  split at h
  · simp at h
  · simp only [Fallible.bind_eq_ok, Fallible.pure_eq_ok, Option.some.injEq] at h
    obtain ⟨raw, -, _, hfeed, rfl⟩ := h
    obtain ⟨now, db, -, hupdate, rfl⟩ := feed_eq_ok.mp hfeed
    unfold delegatedUpdate at hupdate
    split at hupdate
    · cases hupdate
    next role _ =>
      obtain ⟨-, -, -, threshold, keys, description, delegated, -, hrole, -, hversion, -, rfl⟩ :=
        Database.updateDelegatedTargets_eq_ok.mp (rejected_eq_ok.mp hupdate)
      refine ⟨⟨hread.timestamp, hread.snapshot, hread.targets, fun other g' hg' => ?_⟩, rfl⟩
      rw [List.lookup_cons] at hg'
      split at hg'
      next heq =>
        obtain rfl := eq_of_beq heq
        obtain rfl := Option.some.inj hg'
        exact ⟨s, description, rfl, hrole, hversion⟩
      · cases hg'

/-- Whatever a check accepts is of the log, under the timestamp that was answered. -/
theorem readFrom_of_accepted (hserves : check.Serves ic enc log) {verifier : TufVerifier}
    (h : verifier ∈ check.accepted ic app) :
    ReadFrom log verifier.database ∧
      ∀ t, verifier.database.trustedTimestamp = some t → check.answered ic = some t.version := by
  unfold Check.accepted at h
  split at h
  next first hfirst =>
    unfold bootstrap at hfirst
    split at hfirst
    next db hdb =>
      obtain rfl := Except.ok.inj hfirst
      obtain ⟨root, rfl⟩ := Database.fromTrustedRoot_eq_ok (rejected_eq_ok.mp hdb)
      obtain rfl | ⟨_, htimestamp, h⟩ := mem_trail_cons.mp h
      · exact ⟨.fresh root, nofun⟩
      obtain ⟨t, rfl, hanswered, hread⟩ := timestampStage_eq_some hserves htimestamp
      have hversion (t') (ht' : some t = some t') : check.answered ic = some t'.version :=
        Option.some.inj ht' ▸ hanswered
      obtain rfl | ⟨_, hsnapshot, h⟩ := mem_trail_cons.mp h
      · exact ⟨hread, hversion⟩
      obtain ⟨s, rfl, hread⟩ := snapshotStage_eq_some hserves hread hsnapshot
      obtain rfl | ⟨_, htargets, h⟩ := mem_trail_cons.mp h
      · exact ⟨hread, hversion⟩
      obtain ⟨g, rfl, hread⟩ := targetsStage_eq_some hread htargets
      obtain rfl | ⟨later, hdelegated, h⟩ := mem_trail_cons.mp h
      · exact ⟨hread, hversion⟩
      obtain rfl := List.mem_singleton.mp h
      obtain ⟨hread, hlast⟩ := delegatedStage_eq_some hread hdelegated
      exact ⟨hread, fun t' ht' => hversion t' (hlast.symm.trans ht')⟩
    · cases hfirst
  · cases h

end Pass

/-! ## A repository and the checks of an installation -/

/-- A later check accepts nothing below what an earlier one accepted; what it offers is
described by metadata that is no older. -/
structure NoRollback (ic : Interchange) (app : Installed) (later earlier : Check) : Prop where
  versions : ∀ verifier ∈ earlier.accepted ic app, ∀ verifier' ∈ later.accepted ic app,
    NotBelow verifier.database verifier'.database
  offer : ∀ available, later.run ic app = .ok (some available) →
    ∃ verifier' ∈ later.accepted ic app,
      resolve later.ports app.installId app.channel (verifier'.target later.systemTime) =
        .ok (some available) ∧
      ∀ verifier ∈ earlier.accepted ic app, NotBelow verifier.database verifier'.database

structure Deployed (W β : Type) where
  writers : Core.Writing W β
  /-- The checks so far, newest first. -/
  checks : List Check

inductive Event (W β : Type)
  | write (move : Core.WritingMove W β)
  | check (check : Check)

section System

variable {W β : Type} [DecidableEq W] (out : Core.Outside β) (ic : Interchange)
  (enc : Core.Encoding) (app : Installed)

inductive Deployed.Step : Deployed W β → Event W β → Deployed W β → Prop
  | write {d : Deployed W β} {move : Core.WritingMove W β} {writers : Core.Writing W β} :
      (Core.writers W out).next d.writers move = some writers →
      Deployed.Step d (.write move) { d with writers := writers }
  | check {d : Deployed W β} {check : Check} : check.Serves ic enc d.writers.shared.log →
      Deployed.Step d (.check check) { d with checks := check :: d.checks }

/-- A repository that is written, and one installation that checks it through a mirror. -/
def deployment : System (Deployed W β) (Event W β) where
  start d := d = ⟨(Core.writers W out).initial, []⟩
  step := Deployed.Step out ic enc

/-- Operations are run by instances that are up to date, and no check is answered with a
`timestamp.json` older than one that an earlier, successful check was answered with. -/
def Careful (d : Deployed W β) : Event W β → Prop
  | .write move => Core.UpToDate d.writers move
  | .check check => ∀ earlier ∈ d.checks, earlier.succeeds ic app →
      ∀ version version', earlier.answered ic = some version →
        check.answered ic = some version' → version ≤ version'

variable {out ic enc app}

/-- What careful events keep. -/
structure Tracked (ic : Interchange) (enc : Core.Encoding) (app : Installed)
    (out : Core.Outside β) (d : Deployed W β) : Prop where
  writers : ((Core.writers W out).system.when Core.UpToDate).Reachable d.writers
  read : ∀ check ∈ d.checks, ∀ verifier ∈ check.accepted ic app,
    ReadFrom d.writers.shared.log verifier.database ∧
      ∀ t, verifier.database.trustedTimestamp = some t → check.answered ic = some t.version
  ordered : d.checks.Pairwise fun later earlier => earlier.succeeds ic app →
    NoRollback ic app later earlier

theorem tracked_step (hlists : Core.ListsReported out.tuf) {d d' : Deployed W β}
    {event : Event W β} (hd : Tracked ic enc app out d) (hok : Careful ic app d event)
    (h : Deployed.Step out ic enc d event d') : Tracked ic enc app out d' := by
  cases h with
  | @write move writers hnext =>
    have hsuffix := Core.log_suffix hlists hd.writers hok hnext
    exact ⟨.step hd.writers ⟨hok, hnext⟩,
      fun check hcheck verifier hverifier =>
        ⟨(hd.read check hcheck verifier hverifier).1.mono hsuffix.subset,
          (hd.read check hcheck verifier hverifier).2⟩, hd.ordered⟩
  | @check check hserves =>
    have hread (verifier) (hverifier : verifier ∈ check.accepted ic app) :=
      readFrom_of_accepted hserves hverifier
    refine ⟨hd.writers, List.forall_mem_cons.mpr ⟨hread, hd.read⟩,
      List.pairwise_cons.mpr ⟨fun earlier hearlier hsucceeds => ?_, hd.ordered⟩⟩
    have hversions : ∀ verifier ∈ earlier.accepted ic app, ∀ verifier' ∈ check.accepted ic app,
        NotBelow verifier.database verifier'.database := by
      intro verifier hverifier verifier' hverifier'
      obtain ⟨hfrom, hanswered⟩ := hd.read earlier hearlier verifier hverifier
      obtain ⟨hfrom', hanswered'⟩ := hread verifier' hverifier'
      refine notBelow_of_timestamp (Core.ordered_of_upToDate hlists hd.writers) hfrom hfrom' ?_
      intro t t' ht ht'
      exact hok earlier hearlier hsucceeds _ _ (hanswered t ht) (hanswered' t' ht')
    refine ⟨hversions, fun available hrun => ?_⟩
    obtain ⟨verifier', hverifier', hresolve⟩ := check.exists_accepted_of_run ic app hrun
    exact ⟨verifier', hverifier', hresolve,
      fun verifier hverifier => hversions verifier hverifier verifier' hverifier'⟩

end System

/-! ## An installation that checks twice -/

mutual

/-- The text of a document. -/
def renderChars : Json → List Char
  | .null => "null".toList
  | .bool b => (if b then "true" else "false").toList
  | .int i => (toString i).toList
  | .real m e => (toString m ++ "e" ++ toString e).toList
  | .str text => '"' :: (text.toList ++ ['"'])
  | .arr xs => '[' :: renderElements xs
  | .obj members => '\x7b' :: renderMembers members

def renderElements : List Json → List Char
  | [] => [']']
  | [x] => renderChars x ++ [']']
  | x :: xs => renderChars x ++ ',' :: renderElements xs

def renderMembers : List (String × Json) → List Char
  | [] => ['\x7d']
  | [(name, x)] => '"' :: (name.toList ++ '"' :: ':' :: (renderChars x ++ ['\x7d']))
  | (name, x) :: members =>
    '"' :: (name.toList ++ '"' :: ':' :: (renderChars x ++ ',' :: renderMembers members))

end

def render (document : Json) : Bytes := (renderChars document).map fun c => UInt8.ofNat c.toNat

/-- Three keys, by their ids. -/
def ed25519 : Table String String :=
  [("74c181c7ad8a0855d4b55e44d2ba87aabdddb196832571f15f92fece332e4916",
      "d75a980182b10ab7d54bfed3c964073a0ee172f3daa62325af021a68f707511a"),
    ("eaf1e23f6c823132f437a2eaa299a7950f7386631deff273db195bbd26209e2b",
      "3d4017c3e843895a92b70aa74d1b7ebc9c982ccf2ec4968cc0cd55f12af4660c"),
    ("e45b8d1fab21a7a7550adbca559eade41e36a398f14a577f8766ec32bf237101",
      "fc51cd8e6218a1a38da47ed00230f0580816ed13ba3303ac5deb911548908025")]

def threeKeys : Core.SignerBackend where
  keyids _ := ed25519.map (·.1)
  publicKey id := (ed25519.get id).getD ""

/-- Everything is written on the first day of 2026; a file expires at the start of a day. -/
def firstDay : Core.Outside String := { Core.textPayloads with clock := fun _ => 20454 }

def expiryDates : List (Nat × String) :=
  [(20455, "2026-01-02T00:00:00Z"), (20461, "2026-01-08T00:00:00Z"),
    (20468, "2026-01-15T00:00:00Z"), (20544, "2026-04-01T00:00:00Z"),
    (20819, "2027-01-01T00:00:00Z")]

def encoding : Core.Encoding where
  expires day := (expiryDates.lookup day).getD ""
  key value := .obj [("keytype", .str "ed25519"), ("keyval", .obj [("public", .str value)]),
    ("scheme", .str "ed25519")]

/-- A file as it is published, with its signatures. -/
def document (md : Core.Metadata) : Json :=
  .obj [("signatures", .arr (md.signatures.map fun id =>
      .obj [("keyid", .str id), ("sig", .str "00")])),
    ("signed", .obj (Core.toDict encoding md))]

/-- A repository with one application, and the files before that application was added. -/
def editorAdded : List (Core.WritingMove Core.Writer String) :=
  [.turn .ceremony (.start threeKeys), Core.ceremonyMove .initialise,
    Core.ceremonyMove (.addApp "editor" false)]

def signedFile (signed : Core.Signed) (version expires : Nat) : Core.Metadata :=
  ⟨signed, version, expires, ed25519.map (·.1)⟩

def rootFile : Core.Metadata := signedFile (.root ⟨true, ed25519.reverse,
  ["timestamp", "snapshot", "targets", "root"].zip
    ([1, 1, 2, 3].map fun threshold => ⟨ed25519.map (·.1), threshold⟩)⟩) 1 20819

def firstFiles : Table String Core.Metadata :=
  [("1.targets.json", signedFile (.targets ⟨[], none⟩) 1 20544),
    ("1.snapshot.json", signedFile (.snapshot [("targets.json", 1)]) 1 20461),
    ("timestamp.json", signedFile (.timestamp 1) 1 20455)]

def editorDelegation : Core.Delegations :=
  ⟨ed25519.reverse,
    [("app-editor", ⟨"app-editor", ed25519.map (·.1), 1, false, ["editor/*/*/*/*"]⟩)]⟩

def editorFiles : Table String Core.Metadata :=
  [("2.targets.json", signedFile (.targets ⟨[], some editorDelegation⟩) 2 20544),
    ("2.snapshot.json", signedFile (.snapshot [("targets.json", 2), ("app-editor.json", 1)])
      2 20461),
    ("timestamp.json", signedFile (.timestamp 2) 2 20455)]

def documents : List Json :=
  (rootFile :: (firstFiles ++ editorFiles).map (·.2)).map document

def publicKeyOf (value : Json) : Option Tuf.PublicKey := do
  let value ← (← (← value.get? "keyval").get? "public").str?
  let row ← ed25519.find? (·.2 = value)
  return ⟨row.1, value⟩

/-- JSON and dates as far as the documents need them, and signatures that are all genuine. -/
def interchange : Interchange where
  fromSlice raw := documents.find? fun document => render document == raw
  canonicalize value := some (render value)
  parseDatetime text := (expiryDates.find? (·.2 = text)).map fun row => row.1 * 86400
  publicKey := publicKeyOf
  verify _ _ _ := true

def mirrorOf (files : Table String Core.Metadata) : Ports where
  fetch name := match files.get name with
    | some md => .ok (render (document md))
    | none => .error "404"
  loads _ := .error "no pointer"
  sha256 _ := []

/-- An installation of an application that the repository does not describe yet. -/
def viewer : Installed where
  root := render (document rootFile)
  installId := "7f3c"
  channel := ⟨"viewer", "stable", "linux", "x64"⟩

def noon : Int := 1767225600 + 43200

/-- The check that is answered with the newest files, and the one answered with the first. -/
def currentCheck : Check := ⟨mirrorOf editorFiles, .Fixed noon, noon⟩

def replayedCheck : Check := ⟨mirrorOf firstFiles, .Fixed noon, noon⟩

theorem carries_document : ∀ md ∈ (firstFiles ++ editorFiles).map (·.2),
    Carries interchange encoding (render (document md)) md := by
  intro md hmd
  have hread : ∀ md ∈ (firstFiles ++ editorFiles).map (·.2),
      (signedMetadata interchange (render (document md))).map (·.2) =
        some (.obj (Core.toDict encoding md)) := by
    decide +kernel
  have hdistinct : md.signed.Distinct := by
    revert md
    simp [firstFiles, editorFiles, signedFile, Core.Signed.Distinct, editorDelegation, ed25519]
  obtain ⟨⟨signatures, _⟩, hsigned, rfl⟩ := Option.map_eq_some_iff.mp (hread md hmd)
  exact ⟨signatures, _, hsigned, Core.signedAs_toDict hdistinct⟩

/-- A mirror of files that have been written. -/
theorem serves_mirrorOf {files : Table String Core.Metadata} {log : Core.Writes}
    (hfiles : files ⊆ firstFiles ++ editorFiles) (hlog : files ⊆ log) :
    Check.Serves interchange encoding log ⟨mirrorOf files, .Fixed noon, noon⟩ := by
  intro name raw _ hfetch
  dsimp only [mirrorOf] at hfetch
  split at hfetch
  next md hget =>
    obtain rfl := Except.ok.inj hfetch
    have hrow := Table.mem_of_get hget
    have hmd := List.mem_map_of_mem (f := fun row => row.2) (hfiles hrow)
    refine ⟨(name, md), hlog hrow, carries_document md hmd, fun now hnow => ?_⟩
    obtain rfl : noon = now := Except.ok.inj hnow
    have hlater : ∀ md ∈ (firstFiles ++ editorFiles).map (·.2),
        ∃ expires ∈ interchange.parseDatetime (encoding.expires md.expires), noon < expires := by
      decide +kernel
    exact hlater md hmd
  · cases hfetch

section Runs

variable {W β : Type} [DecidableEq W] {out : Core.Outside β} {ic : Interchange}
  {enc : Core.Encoding} {ok : Deployed W β → Event W β → Prop}

/-- Writes are run by instances that are up to date; the mirror may answer as it likes. -/
def Maintained (d : Deployed W β) : Event W β → Prop
  | .write move => Core.UpToDate d.writers move
  | .check _ => True

theorem reachable_check {d : Deployed W β} (check : Check)
    (hd : ((deployment out ic enc).when ok).Reachable d) (hok : ok d (.check check))
    (hserves : check.Serves ic enc d.writers.shared.log) :
    ((deployment out ic enc).when ok).Reachable ⟨d.writers, check :: d.checks⟩ :=
  .step hd ⟨hok, .check hserves⟩

theorem reachable_writes {d : Deployed W β} {moves : List (Core.WritingMove W β)}
    {c : Core.Writing W β} (hok : ∀ d move, Core.UpToDate d.writers move → ok d (.write move))
    (hd : ((deployment out ic enc).when ok).Reachable d)
    (h : System.exec (fun c move => if Core.upToDate c move = true then
      (Core.writers W out).next c move else none) moves d.writers = some c) :
    ((deployment out ic enc).when ok).Reachable ⟨c, d.checks⟩ := by
  induction moves generalizing d with
  | nil => exact Option.some.inj h ▸ hd
  | cons move moves ih =>
    obtain ⟨c₁, hnext, hrest⟩ := Option.bind_eq_some_iff.mp h
    dsimp only at hnext
    split at hnext
    next hcurrent =>
      exact ih (d := ⟨c₁, d.checks⟩)
        (.step hd ⟨hok d move (Core.upToDate_of_check hcurrent), .write hnext⟩) hrest
    · cases hnext

end Runs

/-- What has been written when the application is there. -/
theorem editorAdded_writes : ∃ c, System.exec (fun c move => if Core.upToDate c move = true then
      (Core.writers Core.Writer firstDay).next c move else none) editorAdded
      (Core.writers Core.Writer firstDay).initial = some c ∧
    firstFiles ++ editorFiles ⊆ c.shared.log := by
  have hrun : (System.exec (fun c move => if Core.upToDate c move = true then
      (Core.writers Core.Writer firstDay).next c move else none) editorAdded
      (Core.writers Core.Writer firstDay).initial).map
        (fun c => (firstFiles ++ editorFiles).all (c.shared.log.contains ·)) = some true := by
    decide +kernel
  obtain ⟨c, hc, hall⟩ := Option.map_eq_some_iff.mp hrun
  refine ⟨c, hc, fun row hrow => ?_⟩
  simpa using List.all_eq_true.mp hall row hrow

/-! ## The result -/

section Result

variable {W β : Type} [DecidableEq W] {out : Core.Outside β} {ic : Interchange}
  {enc : Core.Encoding} {app : Installed}

/-- Along careful events no check rolls the installation back. -/
theorem no_rollback_of_careful (hlists : Core.ListsReported out.tuf) {d : Deployed W β}
    (hd : ((deployment out ic enc).when (Careful ic app)).Reachable d) :
    d.checks.Pairwise fun later earlier => earlier.succeeds ic app →
      NoRollback ic app later earlier := by
  have htracked : Tracked ic enc app out d := by
    induction hd with
    | start h0 =>
      obtain rfl := h0
      exact ⟨.start rfl, nofun, .nil⟩
    | step _ hstep ih => exact tracked_step hlists ih hstep.1 hstep.2
  exact htracked.ordered

end Result

/-- The installation checks before and after the application is added. -/
theorem no_rollback_of_careful_viewer :
    ∃ d : Deployed Core.Writer String, d.checks = [currentCheck, replayedCheck] ∧
      d.checks.Pairwise fun later earlier => earlier.succeeds interchange viewer →
        NoRollback interchange viewer later earlier := by
  obtain ⟨c, hc, hwritten⟩ := editorAdded_writes
  have hreach : ((deployment firstDay interchange encoding).when
      (Careful interchange viewer)).Reachable ⟨c, []⟩ :=
    reachable_writes (fun _ _ h => h) (.start rfl) hc
  have hfirst := reachable_check replayedCheck hreach (fun _ h => absurd h List.not_mem_nil)
    (serves_mirrorOf (List.subset_append_left _ _)
      (List.Subset.trans (List.subset_append_left _ _) hwritten))
  have hanswered : currentCheck.answered interchange = some 2 ∧
      replayedCheck.answered interchange = some 1 := by
    decide +kernel
  have hsecond := reachable_check currentCheck hfirst ?_
    (serves_mirrorOf (List.subset_append_right _ _)
      (List.Subset.trans (List.subset_append_right _ _) hwritten))
  · exact ⟨_, rfl, no_rollback_of_careful Core.listsReported_pythonTuf hsecond⟩
  intro earlier hearlier _ version version' hversion hversion'
  obtain rfl := List.mem_singleton.mp hearlier
  cases hversion.symm.trans hanswered.2
  cases hversion'.symm.trans hanswered.1
  decide

/-- A check that has accepted version 2 is followed by one that accepts version 1. -/
theorem rolled_back :
    ¬ ∀ (ic : Interchange) (enc : Core.Encoding) (app : Installed)
      (d : Deployed Core.Writer String),
      ((deployment firstDay ic enc).when Maintained).Reachable d →
        d.checks.Pairwise fun later earlier => earlier.succeeds ic app →
          NoRollback ic app later earlier := by
  intro hclaim
  obtain ⟨c, hc, hwritten⟩ := editorAdded_writes
  have hreach : ((deployment firstDay interchange encoding).when Maintained).Reachable ⟨c, []⟩ :=
    reachable_writes (fun _ _ h => h) (.start rfl) hc
  have hcurrent := reachable_check currentCheck hreach trivial
    (serves_mirrorOf (List.subset_append_right _ _)
      (List.Subset.trans (List.subset_append_right _ _) hwritten))
  have hreplayed := reachable_check replayedCheck hcurrent trivial
    (serves_mirrorOf (List.subset_append_left _ _)
      (List.Subset.trans (List.subset_append_left _ _) hwritten))
  have hsucceeds : currentCheck.succeeds interchange viewer := ⟨none, by decide +kernel⟩
  have hno := (List.pairwise_cons.mp (hclaim interchange encoding viewer _ hreplayed)).1
    currentCheck List.mem_cons_self hsucceeds
  have haccepted : (∃ verifier ∈ currentCheck.accepted interchange viewer,
        verifier.database.trustedTimestamp.map (·.version) = some 2) ∧
      ∃ verifier ∈ replayedCheck.accepted interchange viewer,
        verifier.database.trustedTimestamp.map (·.version) = some 1 := by
    decide +kernel
  obtain ⟨⟨v, hv, htwo⟩, v', hv', hone⟩ := haccepted
  obtain ⟨t, ht, htversion⟩ := Option.map_eq_some_iff.mp htwo
  obtain ⟨t', ht', htversion'⟩ := Option.map_eq_some_iff.mp hone
  have hle := (hno.versions v hv v' hv').timestamp t t' ht ht'
  omega

end DistPlatform.Client
