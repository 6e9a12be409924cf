import DistPlatform.Library.Runs
import DistPlatform.Library.Table
import DistPlatform.Tuf.Feeding
import DistPlatform.Tuf.Globbing

/-!
# The life of a database (`tuf/src/database.rs`)

A database is fed files by someone who may be hostile: any file, in any order, for any role.
What holds of it through all of that does not come from the one call but from what every
earlier call left.

## Main definitions

* `Session`, `lifetime` — a database with the files it was fed, and its runs.
* `Database.Consistent` — the versions the trusted parts name for each other.
* `Database.NotOlder` — what no run takes back.
* `Succeeds`, `Authorised` — the authority that the fed files carry down from the first root.
* `SignedFor` — enough of the keys that the database has for a file's role have signed it.
-/

namespace DistPlatform.Tuf

open DistPlatform Fallible Runs

structure Session where
  database : Database
  fed : List Feed

namespace Session

variable (ic : Interchange)

def next (s : Session) (f : Feed) : Session := ⟨(s.database.feed ic f).2, f :: s.fed⟩

end Session

/-- The runs of a database that starts from the root it is given. -/
def lifetime (ic : Interchange) (first : List UInt8) : System Session Feed where
  start s := Database.fromTrustedRoot ic first = .ok s.database ∧ s.fed = []
  step s f s' := s' = s.next ic f

namespace Database

/-! ## The versions of the trusted parts -/

/-- The snapshot is the one the timestamp names, the targets are the ones the snapshot names,
and no delegated role is above what the snapshot names for it. -/
structure Consistent (db : Database) : Prop where
  snapshot : ∀ snapshot, db.trustedSnapshot = some snapshot →
    ∃ timestamp, db.trustedTimestamp = some timestamp ∧
      snapshot.version = timestamp.snapshot.version
  targets : ∀ snapshot trusted, db.trustedSnapshot = some snapshot →
    db.trustedTargets = some trusted →
      trusted.version = ((snapshot.metas.lookup .targets).map (·.version)).getD 0
  delegated : ∀ snapshot role trusted description, db.trustedSnapshot = some snapshot →
    (role, trusted) ∈ db.trustedDelegations → snapshot.metas.lookup role = some description →
      trusted.version ≤ description.version

/-- Later in the life of a database: another root with a higher version, or the same root and
no timestamp below the one trusted before. -/
def NotOlder (db db' : Database) : Prop :=
  db.trustedRoot.version < db'.trustedRoot.version ∨
    db'.trustedRoot = db.trustedRoot ∧ ∀ trusted, db.trustedTimestamp = some trusted →
      ∃ trusted', db'.trustedTimestamp = some trusted' ∧
        (trusted' = trusted ∨ trusted.version < trusted'.version)

section Versions

variable {ic : Interchange} {db db' db'' : Database} {f : Feed}

theorem forgetSnapshot_cases (named : Nat) :
    (db.forgetSnapshot named = db ∧ ∀ snapshot, db.trustedSnapshot = some snapshot →
        snapshot.version = named) ∨
      db.forgetSnapshot named = { db with trustedSnapshot := none } := by
  unfold forgetSnapshot
  split
  next snapshot hsnapshot =>
    split
    · exact .inr rfl
    next hnamed =>
      refine .inl ⟨rfl, fun _ h => ?_⟩
      rw [hsnapshot, Option.some.injEq] at h
      exact h ▸ not_not.mp hnamed
  next hnone => exact .inl ⟨rfl, fun _ h => by rw [hnone] at h; cases h⟩

theorem Consistent.not_ahead (h : Consistent db) : ¬ Ahead db := by
  rintro (⟨htimestamp, hsnapshot, hless⟩ | ⟨hsnapshot, hnamed, htrusted, hless⟩ |
    ⟨hsnapshot, hnamed, htrusted, hless⟩)
  · obtain ⟨timestamp, hts, heq⟩ := h.snapshot _ hsnapshot
    obtain rfl := Option.some.inj (hts.symm.trans htimestamp)
    omega
  · have heq := h.targets _ _ hsnapshot htrusted
    rw [hnamed, Option.map_some, Option.getD_some] at heq
    omega
  · have hle := h.delegated _ _ _ _ hsnapshot (Table.mem_of_get htrusted) hnamed
    omega

theorem Consistent.of_noSnapshot (hnone : db.trustedSnapshot = none) : Consistent db where
  snapshot _ h := by rw [hnone] at h; cases h
  targets _ _ h := by rw [hnone] at h; cases h
  delegated _ _ _ _ h := by rw [hnone] at h; cases h

theorem Consistent.forgetSnapshot (h : Consistent db) (named : Nat) :
    Consistent (db.forgetSnapshot named) := by
  obtain ⟨hsame, -⟩ | hforgot := @forgetSnapshot_cases db named
  · rwa [hsame]
  · rw [hforgot]
    exact .of_noSnapshot rfl

theorem Consistent.timestamp (h : Consistent db) (new : TimestampMetadata) :
    Consistent { db.forgetSnapshot new.snapshot.version with trustedTimestamp := some new } := by
  obtain ⟨hsame, hnamed⟩ | hforgot := @forgetSnapshot_cases db new.snapshot.version
  · rw [hsame]
    exact ⟨fun snapshot hs => ⟨new, rfl, hnamed snapshot hs⟩, h.targets, h.delegated⟩
  · rw [hforgot]
    exact .of_noSnapshot rfl

theorem purgeTargets_trustedTargets {snapshot : SnapshotMetadata} {trusted : TargetsMetadata}
    (h : (db.purgeTargets snapshot).trustedTargets = some trusted) :
    db.trustedTargets = some trusted ∧
      trusted.version = ((snapshot.metas.lookup .targets).map (·.version)).getD 0 := by
  unfold purgeTargets at h
  split at h
  · cases h
  next heq =>
    refine ⟨h, ?_⟩
    rw [not_not, h] at heq
    exact heq

theorem Consistent.purged {timestamp : TimestampMetadata} {new : SnapshotMetadata}
    (htimestamp : db.trustedTimestamp = some timestamp)
    (hnamed : new.version = timestamp.snapshot.version) :
    Consistent ({ db.purgeTargets new with trustedSnapshot := some new }.purgeDelegations new)
    where
  snapshot := by
    rintro _ ⟨⟩
    refine ⟨timestamp, ?_, hnamed⟩
    rw [← htimestamp]
    simp only [purgeDelegations, purgeTargets]
    split <;> rfl
  targets := by
    rintro _ trusted ⟨⟩ h
    exact (purgeTargets_trustedTargets h).2
  delegated := by
    rintro _ role trusted description ⟨⟩ h hnamed
    have hkept := (List.mem_filter.mp h).2
    simpa only [hnamed, decide_eq_true_eq] using hkept

theorem Consistent.targetsTaken {startTime : Time} {raw : List UInt8} {threshold : Nat}
    {keys : List PublicKey} {trusted : Option Nat} {new : TargetsMetadata} (h : Consistent db)
    (hnew : Takes ic db startTime .targets raw threshold keys trusted new) :
    Consistent { db with trustedTargets := some new } where
  snapshot := h.snapshot
  targets := by
    rintro snapshot _ hsnapshot ⟨⟩
    obtain ⟨_, description, hnamed, -, hlookup, hversion⟩ := hnew.named
    obtain rfl := Option.some.inj (hnamed.symm.trans hsnapshot)
    rw [hlookup, Option.map_some, Option.getD_some, hversion]
  delegated := h.delegated

theorem Consistent.delegationTaken {startTime : Time} {role : MetadataPath} {raw : List UInt8}
    {threshold : Nat} {keys : List PublicKey} {trusted : Option Nat} {new : TargetsMetadata}
    (h : Consistent db) (hnew : Takes ic db startTime role raw threshold keys trusted new) :
    Consistent (db.trustDelegation role new) where
  snapshot := h.snapshot
  targets := h.targets
  delegated := by
    intro snapshot role' trusted' description hsnapshot hmem hlookup
    obtain heq | hmem := List.mem_cons.mp hmem
    · obtain ⟨rfl, rfl⟩ := Prod.mk.inj heq
      obtain ⟨_, named, hnamed, -, hrole, hversion⟩ := hnew.named
      obtain rfl := Option.some.inj (hnamed.symm.trans hsnapshot)
      obtain rfl := Option.some.inj (hrole.symm.trans hlookup)
      exact hversion.le
    · exact h.delegated _ _ _ _ hsnapshot (List.mem_filter.mp hmem).1 hlookup

/-- Every change keeps the versions in step. -/
theorem Consistent.change (h : Consistent db) (hchange : Change ic db f db') : Consistent db' := by
  cases hchange with
  | none => exact h
  | root => exact .of_noSnapshot rfl
  | forgets => exact h.forgetSnapshot _
  | timestamp => exact h.timestamp _
  | snapshot hnew => exact .purged hnew.trusted hnew.named
  | targets _ hnew => exact h.targetsTaken hnew
  | delegated _ _ hnew => exact h.delegationTaken hnew

theorem NotOlder.refl (db : Database) : NotOlder db db :=
  .inr ⟨rfl, fun trusted h => ⟨trusted, h, .inl rfl⟩⟩

theorem NotOlder.trans (h : NotOlder db db') (h' : NotOlder db' db'') : NotOlder db db'' := by
  obtain hroot | ⟨hroot, htimestamp⟩ := h
  · obtain hroot' | ⟨hroot', -⟩ := h'
    · exact .inl (hroot.trans hroot')
    · exact .inl (hroot' ▸ hroot)
  · obtain hroot' | ⟨hroot', htimestamp'⟩ := h'
    · exact .inl (hroot ▸ hroot')
    · refine .inr ⟨hroot'.trans hroot, fun trusted h => ?_⟩
      obtain ⟨t, ht, hle⟩ := htimestamp trusted h
      obtain ⟨t', ht', hle'⟩ := htimestamp' t ht
      refine ⟨t', ht', ?_⟩
      obtain rfl | hle := hle
      · exact hle'
      · obtain rfl | hle' := hle'
        · exact .inr hle
        · exact .inr (hle.trans hle')

/-- A change that leaves the root and the timestamp alone. -/
theorem NotOlder.of_eq (hroot : db'.trustedRoot = db.trustedRoot)
    (htimestamp : db'.trustedTimestamp = db.trustedTimestamp) : NotOlder db db' :=
  .inr ⟨hroot, fun trusted h => ⟨trusted, htimestamp.trans h, .inl rfl⟩⟩

theorem forgetSnapshot_root (named : Nat) :
    (db.forgetSnapshot named).trustedRoot = db.trustedRoot := by
  obtain ⟨hsame, -⟩ | hforgot := @forgetSnapshot_cases db named
  · rw [hsame]
  · rw [hforgot]

theorem forgetSnapshot_timestamp (named : Nat) :
    (db.forgetSnapshot named).trustedTimestamp = db.trustedTimestamp := by
  obtain ⟨hsame, -⟩ | hforgot := @forgetSnapshot_cases db named
  · rw [hsame]
  · rw [hforgot]

theorem purgeTargets_root (snapshot : SnapshotMetadata) :
    (db.purgeTargets snapshot).trustedRoot = db.trustedRoot := by
  unfold purgeTargets
  split <;> rfl

theorem purgeTargets_timestamp (snapshot : SnapshotMetadata) :
    (db.purgeTargets snapshot).trustedTimestamp = db.trustedTimestamp := by
  unfold purgeTargets
  split <;> rfl

theorem notOlder_change (hchange : Change ic db f db') : NotOlder db db' := by
  cases hchange with
  | none => exact .refl db
  | root _ _ _ hversion => exact .inl (hversion ▸ Nat.lt_succ_self _)
  | forgets => exact .of_eq (forgetSnapshot_root _) (forgetSnapshot_timestamp _)
  | @timestamp _ _ new hnew =>
    exact .inr ⟨forgetSnapshot_root _, fun trusted h => ⟨new, rfl, .inr (hnew.newer trusted h)⟩⟩
  | snapshot => exact .of_eq (purgeTargets_root _) (purgeTargets_timestamp _)
  | targets => exact .of_eq rfl rfl
  | delegated => exact .of_eq rfl rfl

end Versions

end Database

/-! ## Authority -/

section Authority

variable (ic : Interchange) (fed : List Feed)

/-- The roots that the fed files lead to, each signed by the keys of the one before. -/
inductive Succeeds (first : RootMetadata) : RootMetadata → Prop
  | first : Succeeds first first
  | next {old claimed new : RootMetadata} {raw : List UInt8} : Succeeds first old →
      .root raw ∈ fed → Database.verifyRoot ic old raw = .ok claimed →
      Database.verifyRoot ic claimed raw = .ok new → new.version = old.version + 1 →
      Succeeds first new

/-- Where targets metadata stands: at the top (`none`), or as a delegated role. -/
abbrev Place := Option MetadataPath

/-- `parent_role`, as `find_delegation_threshold_and_keys` reads it. -/
def placeOf (parent : MetadataPath) : Place := if parent = .targets then none else some parent

/-- The root gives the top-level targets their keys, and a role's own metadata those it
delegates to. A file is authorised when enough of the keys its place was given have signed it. -/
inductive Authorised (root : RootMetadata) : Place → TargetsMetadata → Prop
  | top {startTime : Time} {raw : List UInt8} {metadata : TargetsMetadata} :
      .targets startTime raw ∈ fed →
      verifySignatures ic (targetsMetadata ic) .targets raw root.targets.threshold
        (authorizedKeys root.keys root.targets.keyIds) = .ok metadata →
      Authorised root none metadata
  | delegated {startTime : Time} {raw : List UInt8} {parent role : MetadataPath}
      {above metadata : TargetsMetadata} {threshold : Nat} {keys : List PublicKey} :
      Authorised root (placeOf parent) above →
      Database.findDelegation above role = some (threshold, keys) →
      .delegatedTargets startTime parent role raw ∈ fed →
      verifySignatures ic (targetsMetadata ic) role raw threshold keys = .ok metadata →
      Authorised root (some role) metadata

/-- The keys, and how many of them, that authorised metadata gives a place. -/
inductive Grants (root : RootMetadata) : Place → Nat → List PublicKey → Prop
  | top : Grants root none root.targets.threshold
      (authorizedKeys root.keys root.targets.keyIds)
  | delegated {parent role : MetadataPath} {above : TargetsMetadata} {threshold : Nat}
      {keys : List PublicKey} : Authorised ic fed root (placeOf parent) above →
      Database.findDelegation above role = some (threshold, keys) →
      Grants root (some role) threshold keys

/-- Every trusted part was fed, and signed as the trusted root has it. -/
structure Vouched (first : RootMetadata) (db : Database) : Prop where
  root : Succeeds ic fed first db.trustedRoot
  timestamp : ∀ timestamp, db.trustedTimestamp = some timestamp → ∃ f ∈ fed,
    verifySignatures ic (timestampMetadata ic) .timestamp f.raw db.trustedRoot.timestamp.threshold
      (authorizedKeys db.trustedRoot.keys db.trustedRoot.timestamp.keyIds) = .ok timestamp
  snapshot : ∀ snapshot, db.trustedSnapshot = some snapshot → ∃ f ∈ fed,
    verifySignatures ic (snapshotMetadata ic) .snapshot f.raw db.trustedRoot.snapshot.threshold
      (authorizedKeys db.trustedRoot.keys db.trustedRoot.snapshot.keyIds) = .ok snapshot
  targets : ∀ trusted, db.trustedTargets = some trusted →
    Authorised ic fed db.trustedRoot none trusted
  delegated : ∀ role trusted, (role, trusted) ∈ db.trustedDelegations →
    Authorised ic fed db.trustedRoot (some role) trusted

variable {ic fed} {fed' : List Feed} {first root : RootMetadata} {db db' : Database} {f : Feed}

theorem Succeeds.mono (hsub : fed ⊆ fed') (h : Succeeds ic fed first root) :
    Succeeds ic fed' first root := by
  induction h with
  | first => exact .first
  | next _ hfed hold hnew hversion ih => exact .next ih (hsub hfed) hold hnew hversion

theorem Authorised.mono (hsub : fed ⊆ fed') {place : Place} {metadata : TargetsMetadata}
    (h : Authorised ic fed root place metadata) : Authorised ic fed' root place metadata := by
  induction h with
  | top hfed hverified => exact .top (hsub hfed) hverified
  | delegated _ hfind hfed hverified ih => exact .delegated ih hfind (hsub hfed) hverified

theorem Authorised.granted {place : Place} {metadata : TargetsMetadata}
    (h : Authorised ic fed root place metadata) :
    ∃ threshold keys, Grants ic fed root place threshold keys ∧ ∃ f ∈ fed,
      verifySignatures ic (targetsMetadata ic) (place.getD .targets) f.raw threshold keys =
        .ok metadata := by
  cases h with
  | top hfed hverified => exact ⟨_, _, .top, _, hfed, hverified⟩
  | delegated habove hfind hfed hverified =>
    exact ⟨_, _, .delegated habove hfind, _, hfed, hverified⟩

theorem Vouched.mono (hsub : fed ⊆ fed') (h : Vouched ic fed first db) :
    Vouched ic fed' first db where
  root := h.root.mono hsub
  timestamp timestamp ht := by
    obtain ⟨f, hf, hverified⟩ := h.timestamp timestamp ht
    exact ⟨f, hsub hf, hverified⟩
  snapshot snapshot hs := by
    obtain ⟨f, hf, hverified⟩ := h.snapshot snapshot hs
    exact ⟨f, hsub hf, hverified⟩
  targets trusted ht := (h.targets trusted ht).mono hsub
  delegated role trusted hd := (h.delegated role trusted hd).mono hsub

/-- Trust may be taken back at any time. -/
theorem Vouched.fewer (h : Vouched ic fed first db) (hroot : db'.trustedRoot = db.trustedRoot)
    (htimestamp : ∀ t, db'.trustedTimestamp = some t → db.trustedTimestamp = some t)
    (hsnapshot : ∀ s, db'.trustedSnapshot = some s → db.trustedSnapshot = some s)
    (htargets : ∀ t, db'.trustedTargets = some t → db.trustedTargets = some t)
    (hdelegated : db'.trustedDelegations ⊆ db.trustedDelegations) :
    Vouched ic fed first db' where
  root := hroot ▸ h.root
  timestamp t ht := hroot ▸ h.timestamp t (htimestamp t ht)
  snapshot s hs := hroot ▸ h.snapshot s (hsnapshot s hs)
  targets t ht := hroot ▸ h.targets t (htargets t ht)
  delegated role trusted hd := hroot ▸ h.delegated role trusted (hdelegated hd)

theorem Vouched.of_root (h : Succeeds ic fed first root) :
    Vouched ic fed first ⟨root, none, none, none, []⟩ where
  root := h
  timestamp _ h := by cases h
  snapshot _ h := by cases h
  targets _ h := by cases h
  delegated _ _ h := by cases h

theorem Vouched.forgetSnapshot (h : Vouched ic fed first db) (named : Nat) :
    Vouched ic fed first (db.forgetSnapshot named) := by
  obtain ⟨hsame, -⟩ | hforgot := @Database.forgetSnapshot_cases db named
  · rwa [hsame]
  · rw [hforgot]
    exact h.fewer rfl (fun _ h => h) (fun _ h => by cases h) (fun _ h => h) (fun _ h => h)

theorem Vouched.purgeTargets (h : Vouched ic fed first db) (snapshot : SnapshotMetadata) :
    Vouched ic fed first (db.purgeTargets snapshot) := by
  unfold Database.purgeTargets
  split
  · exact h.fewer rfl (fun _ h => h) (fun _ h => h) (fun _ h => by cases h) (fun _ h => h)
  · exact h

/-- The metadata a delegation is looked up in is itself authorised. -/
theorem Vouched.grants (h : Vouched ic fed first db) {parent role : MetadataPath}
    {threshold : Nat} {keys : List PublicKey}
    (hfind : db.findDelegationFrom parent role = .ok (some (threshold, keys))) :
    ∃ above, Authorised ic fed db.trustedRoot (placeOf parent) above ∧
      Database.findDelegation above role = some (threshold, keys) := by
  unfold Database.findDelegationFrom at hfind
  dsimp only at hfind
  split at hfind
  next above habove =>
    refine ⟨above, ?_, Except.ok.inj hfind⟩
    unfold placeOf
    split at habove
    next hparent => rw [if_pos hparent]; exact h.targets above habove
    next hparent =>
      rw [if_neg hparent]
      exact h.delegated parent above (Table.mem_of_get habove)
  · cases hfind

/-- Whatever the call, what is trusted after it was fed and signed. -/
theorem Vouched.change (h : Vouched ic fed first db) (hchange : Database.Change ic db f db') :
    Vouched ic (f :: fed) first db' := by
  have hold := h.mono (List.subset_cons_self f fed)
  cases hchange with
  | none => exact hold
  | root hclaimed hnew _ hversion =>
    exact .of_root (.next hold.root List.mem_cons_self hclaimed hnew hversion)
  | forgets => exact hold.forgetSnapshot _
  | @timestamp _ _ new hnew =>
    have hforgot := hold.forgetSnapshot new.snapshot.version
    refine ⟨hforgot.root, ?_, hforgot.snapshot, hforgot.targets, hforgot.delegated⟩
    rintro _ ⟨⟩
    rw [Database.forgetSnapshot_root]
    exact ⟨_, List.mem_cons_self, hnew.verified⟩
  | @snapshot _ _ _ new hnew =>
    have hpurged := hold.purgeTargets new
    refine ⟨hpurged.root, hpurged.timestamp, ?_, hpurged.targets, fun role trusted hd => ?_⟩
    · rintro _ ⟨⟩
      refine ⟨_, List.mem_cons_self, ?_⟩
      change verifySignatures ic _ _ _ (db.purgeTargets new).trustedRoot.snapshot.threshold
        (authorizedKeys (db.purgeTargets new).trustedRoot.keys
          (db.purgeTargets new).trustedRoot.snapshot.keyIds) = _
      rw [Database.purgeTargets_root]
      exact hnew.verified
    · exact hpurged.delegated role trusted (List.mem_filter.mp hd).1
  | targets _ hnew =>
    refine ⟨hold.root, hold.timestamp, hold.snapshot, ?_, hold.delegated⟩
    rintro _ ⟨⟩
    exact .top List.mem_cons_self hnew.verified
  | delegated _ hfind hnew =>
    refine ⟨hold.root, hold.timestamp, hold.snapshot, hold.targets, fun role trusted hd => ?_⟩
    obtain heq | hd := List.mem_cons.mp hd
    · obtain ⟨rfl, rfl⟩ := Prod.mk.inj heq
      obtain ⟨above, habove, hgrant⟩ := hold.grants hfind
      exact .delegated habove hgrant List.mem_cons_self hnew.verified
    · exact hold.delegated role trusted (List.mem_filter.mp hd).1

end Authority

/-! ## Where an answer comes from -/

/-- The role metadata that a search for the path may end in: the trusted top-level targets, and
what delegations that cover the path lead to from there. -/
inductive Database.Reaches (db : Database) (path : TargetPath) :
    Place → TargetsMetadata → Prop
  | top {top : TargetsMetadata} : db.trustedTargets = some top → Reaches db path none top
  | delegated {parent : Place} {above metadata : TargetsMetadata}
      {delegations : Delegations} {delegation : Delegation} : Reaches db path parent above →
      above.delegations = some delegations → delegation ∈ delegations.roles →
      path.CoveredBy delegation.paths →
      db.trustedDelegations.lookup delegation.role = some metadata →
      Reaches db path (some delegation.role) metadata

section Answers

variable {ic : Interchange} {db : Database} {path : TargetPath} {description : TargetDescription}

theorem Database.Chain.reaches {ds chain : List Delegation} {md : TargetsMetadata}
    (h : Database.Chain db path ds chain md) {parent : Place} {above : TargetsMetadata}
    {delegations : Delegations} (habove : db.Reaches path parent above)
    (hdelegations : above.delegations = some delegations) (hds : ds ⊆ delegations.roles) :
    ∃ place, db.Reaches path place md := by
  induction h generalizing parent above delegations with
  | last hmem hcovered hloaded =>
    exact ⟨_, .delegated habove hdelegations (hds hmem) hcovered hloaded⟩
  | step hmem hcovered hloaded hchild _ ih =>
    exact ih (.delegated habove hdelegations (hds hmem) hcovered hloaded) hchild
      (List.Subset.refl _)

theorem Database.reaches_of_described {now : Time}
    (h : db.targetDescription now path = .ok description) :
    ∃ place md, db.Reaches path place md ∧ md.targets.lookup path = some description := by
  obtain ⟨top, hfresh, hsearch⟩ := Database.targetDescription_eq_ok.mp h
  unfold Database.searchFrom at hsearch
  split at hsearch
  next found hfound => exact ⟨_, top, .top hfresh.targets, hsearch ▸ hfound⟩
  · obtain ⟨delegations, hdelegations, hfound⟩ := Option.bind_eq_some_iff.mp hsearch
    obtain ⟨chain, md, hchain, hlisted⟩ := Database.chain_of_lookup hfound
    obtain ⟨role, hrole⟩ := hchain.reaches (.top hfresh.targets) hdelegations
      (List.Subset.refl _)
    exact ⟨role, md, hrole, hlisted⟩

theorem Vouched.authorised {fed : List Feed} {first : RootMetadata}
    (h : Vouched ic fed first db) {place : Place} {md : TargetsMetadata}
    (hreaches : db.Reaches path place md) : Authorised ic fed db.trustedRoot place md := by
  cases hreaches with
  | top htop => exact h.targets md htop
  | delegated _ _ _ _ hloaded => exact h.delegated _ md (Table.mem_of_get hloaded)

end Answers

section Runs

variable {ic : Interchange} {first : List UInt8} {s s' : Session}

theorem consistent_of_reachable (hs : (lifetime ic first).Reachable s) :
    s.database.Consistent := by
  induction hs with
  | start h =>
    obtain ⟨root, hroot⟩ := Database.fromTrustedRoot_eq_ok h.1
    exact .of_noSnapshot (hroot ▸ rfl)
  | step _ hstep ih => exact hstep ▸ ih.change (Database.change_of_feed _)

theorem notOlder_of_leads (h : (lifetime ic first).Leads s s') :
    s.database.NotOlder s'.database := by
  induction h with
  | refl => exact .refl _
  | step _ hstep ih => exact hstep ▸ ih.trans (Database.notOlder_change (Database.change_of_feed _))

/-- The root the runs start from. -/
def Root (ic : Interchange) (first : List UInt8) (root : RootMetadata) : Prop :=
  Database.fromTrustedRoot ic first = .ok ⟨root, none, none, none, []⟩

theorem vouched_of_reachable (hs : (lifetime ic first).Reachable s) :
    ∃ root, Root ic first root ∧ Vouched ic s.fed root s.database := by
  induction hs with
  | @start s h =>
    obtain ⟨root, hroot⟩ := Database.fromTrustedRoot_eq_ok h.1
    have hstart := h.1
    rw [hroot] at hstart ⊢
    exact ⟨root, hstart, .of_root .first⟩
  | step _ hstep ih =>
    obtain ⟨root, hroot, hvouched⟩ := ih
    exact ⟨root, hroot, hstep ▸ hvouched.change (Database.change_of_feed _)⟩

theorem leads_foldl (h : (lifetime ic first).Leads s s') (fs : List Feed) :
    (lifetime ic first).Leads s (fs.foldl (Session.next ic) s') := by
  induction fs generalizing s' with
  | nil => exact h
  | cons f fs ih => exact ih (.step h rfl)

theorem mem_fed_foldl {fs : List Feed} {f : Feed} (h : f ∈ fs ∨ f ∈ s.fed) :
    f ∈ (fs.foldl (Session.next ic) s).fed := by
  induction fs generalizing s with
  | nil => exact h.resolve_left List.not_mem_nil
  | cons g fs ih =>
    refine ih ?_
    obtain h | h := h
    · obtain rfl | h := List.mem_cons.mp h
      · exact .inr List.mem_cons_self
      · exact .inl h
    · exact .inr (List.mem_cons_of_mem _ h)

end Runs

/-! ## A life with two roots and a delegated role -/

section Sample

/-- A key id that is one letter, 64 times. -/
def letterKey (letter : Char) : KeyId := String.ofList (List.replicate 64 letter)

/-- The one signature of a key under some bytes. -/
def signatureOf (id : KeyId) (bytes : List UInt8) : List UInt8 :=
  (id.toList.take 1).map (UInt8.ofNat ·.toNat) ++ bytes

/-- A file with its number, the letters of the keys that sign it, and its signed part. -/
structure SampleFile where
  number : Nat
  signers : List Char
  signed : Json

namespace SampleFile

def raw (file : SampleFile) : List UInt8 := [UInt8.ofNat file.number]

def document (file : SampleFile) : Json :=
  let byte (n : Nat) : List Char := [(n / 16).digitChar, (n % 16).digitChar]
  .obj [("signatures", .arr (file.signers.map fun letter =>
      .obj [("keyid", .str (letterKey letter)),
        ("sig", .str (String.ofList (byte letter.toNat ++ byte file.number)))])),
    ("signed", file.signed)]

end SampleFile

/-- Files are their numbers, and so is what is signed of them. -/
def numbered (files : List SampleFile) : Interchange where
  fromSlice raw := (files.find? (·.raw == raw)).map (·.document)
  canonicalize signed := (files.find? (·.signed == signed)).map (·.raw)
  parseDatetime text := some (if text = "soon" then 3 else 10)
  publicKey json := json.str?.map (⟨·, ""⟩)
  verify key bytes value := value == signatureOf key.keyId bytes

def signedPart (typ : String) (version : Int) (expires : String)
    (members : List (String × Json)) : Json :=
  .obj ([("_type", .str typ), ("spec_version", .str "1.0"), ("version", .int version),
    ("expires", .str expires)] ++ members)

def keyIdsOf (letters : List Char) : Json := .arr (letters.map fun c => .str (letterKey c))

def keysOf (letters : List Char) : Json :=
  .obj (letters.map fun c => (letterKey c, .str (letterKey c)))

def metaOf (versions : List (String × Int)) : String × Json :=
  ("meta", .obj (versions.map fun (name, version) => (name, .obj [("version", .int version)])))

/-- Two of three keys sign for each of the four roles. -/
def rootSigned (version : Int) : Json :=
  let role := Json.obj [("threshold", .int 2), ("keyids", keyIdsOf ['a', 'b', 'c'])]
  signedPart "root" version "later" [("consistent_snapshot", .bool true),
    ("keys", keysOf ['a', 'b', 'c']),
    ("roles", .obj [("root", role), ("snapshot", role), ("targets", role), ("timestamp", role)])]

/-- Two of three keys sign for each delegated role. -/
def delegationsOf (roles : List (String × String)) : String × Json :=
  ("delegations", .obj [("keys", keysOf ['d', 'e', 'f']),
    ("roles", .arr (roles.map fun (name, pattern) => .obj [("name", .str name),
      ("keyids", keyIdsOf ['d', 'e', 'f']), ("threshold", .int 2), ("terminating", .bool false),
      ("paths", .arr [.str pattern])]))])

def listedAs (path : String) : String × Json :=
  ("targets", .obj [(path, .obj [("length", .int 0), ("hashes", .obj [("sha256", .str "00")])])])

/-- Two roots, a file of each role below them, a timestamp that has expired, and a file for which
one key was lost and signs alone. -/
def sampleFiles : List SampleFile := [
  ⟨0, ['a', 'b'], rootSigned 1⟩,
  ⟨1, ['a', 'c'], rootSigned 2⟩,
  ⟨2, ['a', 'b'], signedPart "timestamp" 1 "later" [metaOf [("snapshot.json", 1)]]⟩,
  ⟨3, ['b', 'c'], signedPart "snapshot" 1 "later" [metaOf [("targets.json", 1), ("app.json", 1)]]⟩,
  ⟨4, ['a', 'c'], signedPart "targets" 1 "later"
    [("targets", .obj []), delegationsOf [("app", "app/*")]]⟩,
  ⟨5, ['d', 'f'], signedPart "targets" 1 "later" [listedAs "app/x"]⟩,
  ⟨6, ['a', 'b'], signedPart "timestamp" 2 "soon" [metaOf [("snapshot.json", 2)]]⟩,
  ⟨7, ['f'], signedPart "targets" 1 "later" [listedAs "app/y"]⟩]

def sampleInterchange : Interchange := numbered sampleFiles

def sampleRole : MetadataPath := ⟨"app"⟩

def samplePath : TargetPath := ⟨"app/x"⟩

def sampleDescription : TargetDescription := ⟨0, [(.Sha256, [0])], []⟩

def sampleTop : TargetsMetadata where
  version := 1
  expires := 10
  targets := []
  delegations := some {
    keys := ['d', 'e', 'f'].map fun c => (letterKey c, ⟨letterKey c, ""⟩)
    roles := [⟨sampleRole, false, 2, ['d', 'e', 'f'].map letterKey, [⟨"app/*"⟩]⟩]
    rolesDistinct := List.nodup_singleton _ }

def sampleListing : TargetsMetadata := ⟨1, 10, [(samplePath, sampleDescription)], none⟩

/-- The new root and a file of each role; the delegated role's first from the lost key alone. -/
def sampleFeeds : List Feed :=
  [.root [1], .timestamp 5 [2], .snapshot 5 [3], .targets 5 [4],
    .delegatedTargets 5 .targets sampleRole [7], .delegatedTargets 5 .targets sampleRole [5]]

/-- The snapshot is forgotten with a timestamp that has expired, and fetched again. -/
def sampleRefetch : List Feed := [.timestamp 5 [6], .snapshot 5 [3]]

/-- A database before and after the feeds. -/
structure SampleRun (s s' : Session) : Prop where
  reachable : (lifetime sampleInterchange [0]).Reachable s
  leads : (lifetime sampleInterchange [0]).Leads s s'
  forged : .delegatedTargets 5 .targets sampleRole [7] ∈ s'.fed
  old : s.database.trustedRoot.version = 1
  new : s'.database.trustedRoot.version = 2 ∧ (5 : Int) < s'.database.trustedRoot.expires
  timestamp : s'.database.trustedTimestamp.map (·.version) = some 1
  snapshot : s'.database.trustedSnapshot.map (fun snapshot => (snapshot.version, snapshot.expires)) =
    some (1, 10)
  top : s'.database.trustedTargets = some sampleTop
  loaded : s'.database.trustedDelegations = [(sampleRole, sampleListing)]
  brings : { s'.database with trustedDelegations := [] }.feed sampleInterchange
    (.delegatedTargets 5 .targets sampleRole [5]) = (.ok (), s'.database)
  forgets : s'.database.feed sampleInterchange (.timestamp 5 [6]) =
    (.error (.update (.database (.expiredMetadata .timestamp))),
      { s'.database with trustedSnapshot := none })
  refetch : (sampleRefetch.foldl (Session.next sampleInterchange) s').database = s'.database

theorem sample_runs : ∃ s s', SampleRun s s' := by
  have hrun : (Database.fromTrustedRoot sampleInterchange [0]).toOption.map (fun db =>
      let s' := sampleFeeds.foldl (Session.next sampleInterchange) ⟨db, []⟩
      decide (db.trustedRoot.version = 1 ∧
        (s'.database.trustedRoot.version = 2 ∧ (5 : Int) < s'.database.trustedRoot.expires) ∧
        s'.database.trustedTimestamp.map (·.version) = some 1 ∧
        s'.database.trustedSnapshot.map (fun snapshot => (snapshot.version, snapshot.expires)) =
          some (1, 10) ∧
        s'.database.trustedTargets = some sampleTop ∧
        s'.database.trustedDelegations = [(sampleRole, sampleListing)] ∧
        { s'.database with trustedDelegations := [] }.feed sampleInterchange
          (.delegatedTargets 5 .targets sampleRole [5]) = (.ok (), s'.database) ∧
        s'.database.feed sampleInterchange (.timestamp 5 [6]) =
          (.error (.update (.database (.expiredMetadata .timestamp))),
            { s'.database with trustedSnapshot := none }) ∧
        (sampleRefetch.foldl (Session.next sampleInterchange) s').database = s'.database)) =
      some true := by
    decide +kernel
  obtain ⟨db, hdb, hall⟩ := Option.map_eq_some_iff.mp hrun
  obtain ⟨hold, hnew, htimestamp, hsnapshot, htop, hloaded, hbrings, hforgets, hrefetch⟩ :=
    of_decide_eq_true hall
  have hstart : Database.fromTrustedRoot sampleInterchange [0] = .ok db := by
    cases h : Database.fromTrustedRoot sampleInterchange [0] with
    | error e => rw [h] at hdb; cases hdb
    | ok db' => rw [h] at hdb; cases hdb; rfl
  exact ⟨⟨db, []⟩, _, .start ⟨hstart, rfl⟩, leads_foldl (.refl _) sampleFeeds,
    mem_fed_foldl (.inl (by decide)), hold, hnew, htimestamp, hsnapshot, htop, hloaded, hbrings, hforgets, hrefetch⟩

namespace SampleRun

variable {s s' : Session}

theorem covered : samplePath.CoveredBy [⟨"app/*"⟩] := by
  refine ⟨_, List.mem_singleton_self _, ?_⟩
  have hsegments : Text.segments "app/x" = ["app".toList, "x".toList] ∧
      Text.segments "app/*" = ["app".toList, ['*']] := by
    decide +kernel
  have hliteral : globSegment "app".toList "app".toList = true :=
    (globSegment_literal (by decide)).mpr rfl
  have hstar : globSegment "x".toList ['*'] = true := globSegment_star (by decide)
  unfold TargetPath.matchesPattern
  split
  · rfl
  · simp only [samplePath, hsegments, List.zip_cons_cons, List.zip_nil_right, List.all_cons,
      List.all_nil, hliteral, hstar, List.length_cons, List.length_nil, beq_self_eq_true,
      Bool.and_self]

theorem described (h : SampleRun s s') :
    s'.database.targetDescription 5 samplePath = .ok sampleDescription := by
  obtain ⟨snapshot, hsnapshot, hexpires⟩ := Option.map_eq_some_iff.mp h.snapshot
  obtain ⟨-, hexpires⟩ := Prod.mk.inj hexpires
  have hfresh : Database.Fresh s'.database 5 sampleTop :=
    ⟨h.new.2, ⟨snapshot, hsnapshot, by rw [hexpires]; decide⟩, h.top, by decide⟩
  have hloaded : s'.database.trustedDelegations.lookup sampleRole = some sampleListing := by
    rw [h.loaded]
    rfl
  have hentered : Database.Entered 5 s'.database samplePath [] []
      ⟨sampleRole, false, 2, ['d', 'e', 'f'].map letterKey, [⟨"app/*"⟩]⟩ sampleListing :=
    ⟨List.not_mem_nil, TargetPath.matchesChain_singleton.mpr covered, hloaded, by decide⟩
  refine Database.targetDescription_eq_ok.mpr ⟨sampleTop, hfresh, ?_⟩
  have henter := Database.enter_of_entered hentered
  simp only [Database.searchFrom, sampleTop, List.lookup_nil, Option.bind_some,
    Database.delegatedDescription, Database.depthBound, Database.lookup, Database.lookupRoles,
    henter]
  rfl

/-- The search for the path can only end in the delegated role. -/
theorem place_of_reaches (h : SampleRun s s') {place : Place} {md : TargetsMetadata}
    {description : TargetDescription} (hreaches : s'.database.Reaches samplePath place md)
    (hlisted : md.targets.lookup samplePath = some description) :
    place = some sampleRole ∧ md = sampleListing := by
  cases hreaches with
  | top htop =>
    obtain rfl := Option.some.inj (h.top.symm.trans htop)
    cases hlisted
  | @delegated _ _ _ _ delegation _ _ _ _ hloaded =>
    have hmem := Table.mem_of_get hloaded
    rw [h.loaded, List.mem_singleton] at hmem
    obtain ⟨hrole, rfl⟩ := Prod.mk.inj hmem
    exact ⟨congrArg some hrole, rfl⟩

end SampleRun

/-- One key of the root and one of the delegated role. -/
def sampleLost : Finset KeyId := {letterKey 'c', letterKey 'f'}

/-- What the owners of the other keys have signed. -/
def SampleMade (id : KeyId) (bytes : List UInt8) : Prop :=
  ∃ file ∈ sampleFiles, id ∈ file.signers.map letterKey ∧ id ∉ sampleLost ∧ bytes = file.raw

theorem file_of_signedMetadata {raw : List UInt8} {signatures : List Signature} {signed : Json}
    (h : signedMetadata sampleInterchange raw = some (signatures, signed)) :
    ∃ file ∈ sampleFiles, signed = file.signed ∧
      signatures.map (·.keyId) = file.signers.map letterKey := by
  have hread : ∀ file ∈ sampleFiles, ((signedMetadata sampleInterchange file.raw).all
      fun (signatures, signed) => signed == file.signed &&
        signatures.map (·.keyId) == file.signers.map letterKey) = true := by
    decide +kernel
  cases hfind : sampleFiles.find? (·.raw == raw) with
  | none => simp [signedMetadata, sampleInterchange, numbered, hfind] at h
  | some file =>
    obtain rfl : file.raw = raw := by simpa using List.find?_some hfind
    have hmem := List.mem_of_find?_eq_some hfind
    have hfile := hread file hmem
    rw [h, Option.all_some, Bool.and_eq_true, beq_iff_eq, beq_iff_eq] at hfile
    exact ⟨file, hmem, hfile⟩

theorem signedOnly_sample (raw : List UInt8) :
    SignedOnly sampleInterchange sampleLost SampleMade raw := by
  intro signatures signed bytes hsigned hbytes s hs key _ _ hkept
  obtain ⟨file, hmem, rfl, hids⟩ := file_of_signedMetadata hsigned
  have hcanonical : ∀ file ∈ sampleFiles,
      sampleInterchange.canonicalize file.signed = some file.raw := by
    decide +kernel
  obtain rfl := Option.some.inj ((hcanonical file hmem).symm.trans hbytes)
  refine ⟨file, hmem, ?_, hkept, rfl⟩
  rw [← hids]
  exact List.mem_map_of_mem hs

/-- Every delegation in the files is to three keys, of which two have to sign. -/
theorem withstands_of_grants {fed : List Feed} {root : RootMetadata} {role : MetadataPath}
    {threshold : Nat} {keys : List PublicKey}
    (h : Grants sampleInterchange fed root (some role) threshold keys) :
    Withstands sampleLost threshold keys := by
  have hall : ∀ file ∈ sampleFiles, ((targetsMetadata sampleInterchange file.signed).all
      fun md => (md.delegations.all fun delegations => delegations.roles.all fun delegation =>
        decide (Withstands sampleLost delegation.threshold
          (authorizedKeys delegations.keys delegation.keyIds)))) = true := by
    decide +kernel
  cases h with
  | delegated habove hfind =>
    obtain ⟨_, _, -, f, -, hverified⟩ := habove.granted
    obtain ⟨-, _, signed, _, hsigned, -, -, hread⟩ := verifySignatures_eq_ok.mp hverified
    obtain ⟨file, hmem, rfl, -⟩ := file_of_signedMetadata hsigned
    have hfile := hall file hmem
    unfold Database.findDelegation at hfind
    obtain ⟨delegations, hdelegations, hfind⟩ := Option.bind_eq_some_iff.mp hfind
    obtain ⟨delegation, hdelegation, hgrant⟩ := Option.bind_eq_some_iff.mp hfind
    obtain ⟨rfl, rfl⟩ := Prod.mk.inj (Option.some.inj hgrant)
    rw [hread, Option.all_some, hdelegations, Option.all_some, List.all_eq_true] at hfile
    exact of_decide_eq_true (hfile delegation (List.mem_of_find?_eq_some hdelegation))

end Sample

/-! ## The results -/

section Results

variable {ic : Interchange} {first : List UInt8} {s s' : Session}

/-- What the database trusts with the file: a threshold, and the keys. -/
def granted (db : Database) : Feed → Option (Nat × List PublicKey)
  | .root _ => some (db.trustedRoot.root.threshold,
      authorizedKeys db.trustedRoot.keys db.trustedRoot.root.keyIds)
  | .timestamp _ _ => some (db.trustedRoot.timestamp.threshold,
      authorizedKeys db.trustedRoot.keys db.trustedRoot.timestamp.keyIds)
  | .snapshot _ _ => some (db.trustedRoot.snapshot.threshold,
      authorizedKeys db.trustedRoot.keys db.trustedRoot.snapshot.keyIds)
  | .targets _ _ => some (db.trustedRoot.targets.threshold,
      authorizedKeys db.trustedRoot.keys db.trustedRoot.targets.keyIds)
  | .delegatedTargets _ parent role _ => (db.findDelegationFrom parent role).toOption.join

/-- As many of the keys as it takes have signed the file. -/
def SignedFor (ic : Interchange) (db : Database) (f : Feed) : Prop :=
  ∃ threshold keys signed, granted db f = some (threshold, keys) ∧ 1 ≤ threshold ∧
    Endorsed ic keys f.raw threshold signed

/-- The file is of one of the roles that a search reads, or names their versions. -/
def Feed.isSearched : Feed → Bool
  | .root _ | .timestamp _ _ => false
  | .snapshot _ _ | .targets _ _ | .delegatedTargets _ _ _ _ => true

section Effects

variable {db db' : Database} {f : Feed} {now : Time} {path : TargetPath}
  {description : TargetDescription}

theorem signedFor_of_verified {M : Type} {deserialize : Json → Option M} {role : MetadataPath}
    {threshold : Nat} {keys : List PublicKey} {metadata : M}
    (hgranted : granted db f = some (threshold, keys))
    (h : verifySignatures ic deserialize role f.raw threshold keys = .ok metadata) :
    SignedFor ic db f := by
  obtain ⟨hthreshold, signed, hendorsed, -⟩ := verifySignatures_iff.mp h
  exact ⟨threshold, keys, signed, hgranted, hthreshold, hendorsed⟩

/-- Nothing changes by a file that its role's keys have not signed. -/
theorem signedFor_of_change (h : Database.Change ic db f db') (hchanged : db' ≠ db) :
    SignedFor ic db f := by
  cases h with
  | none => exact absurd rfl hchanged
  | root hold => exact signedFor_of_verified rfl (mapError_eq_ok.mp hold)
  | forgets hnew => exact signedFor_of_verified rfl hnew.verified
  | timestamp hnew => exact signedFor_of_verified rfl hnew.verified
  | snapshot hnew => exact signedFor_of_verified rfl hnew.verified
  | targets _ hnew => exact signedFor_of_verified rfl hnew.verified
  | delegated _ hfind hnew =>
    refine signedFor_of_verified ?_ hnew.verified
    simp only [granted, hfind]
    rfl

/-- Where nothing is trusted but a newer timestamp, and perhaps less of the rest, no answer is
new. -/
theorem described_of_forgetSnapshot {named : Nat}
    (h : db'.targetDescription now path = .ok description)
    (hroot : db'.trustedRoot = db.trustedRoot) (htargets : db'.trustedTargets = db.trustedTargets)
    (hroles : db'.trustedDelegations = db.trustedDelegations)
    (hsnapshot : db'.trustedSnapshot = (db.forgetSnapshot named).trustedSnapshot) :
    db.targetDescription now path = .ok description := by
  obtain ⟨top, hfresh, hsearch⟩ := Database.targetDescription_eq_ok.mp h
  obtain ⟨snapshot, hs, hunexpired⟩ := hfresh.snapshot
  have hkept : db.trustedSnapshot = some snapshot := by
    rw [hsnapshot] at hs
    obtain ⟨hsame, -⟩ | hforgot := @Database.forgetSnapshot_cases db named
    · rwa [hsame] at hs
    · rw [hforgot] at hs
      cases hs
  refine Database.targetDescription_eq_ok.mpr ⟨top, ?_, ?_⟩
  · exact ⟨hroot ▸ hfresh.root, ⟨snapshot, hkept, hunexpired⟩, htargets ▸ hfresh.targets,
      hfresh.unexpired⟩
  · rwa [← Database.searchFrom_congr hroles]

theorem forgetSnapshot_targets (named : Nat) :
    (db.forgetSnapshot named).trustedTargets = db.trustedTargets ∧
      (db.forgetSnapshot named).trustedDelegations = db.trustedDelegations := by
  obtain ⟨hsame, -⟩ | hforgot := @Database.forgetSnapshot_cases db named
  · rw [hsame]
    exact ⟨rfl, rfl⟩
  · rw [hforgot]
    exact ⟨rfl, rfl⟩

/-- No root and no timestamp brings an answer. -/
theorem described_of_change (h : Database.Change ic db f db') (hf : f.isSearched = false)
    (hdescribed : db'.targetDescription now path = .ok description) :
    db.targetDescription now path = .ok description := by
  cases h with
  | none => exact hdescribed
  | root =>
    obtain ⟨top, hfresh⟩ := Database.fresh_of_targetDescription hdescribed
    obtain ⟨_, hnone, -⟩ := hfresh.snapshot
    cases hnone
  | @forgets _ _ new | @timestamp _ _ new =>
    have hkept := @forgetSnapshot_targets db new.snapshot.version
    exact described_of_forgetSnapshot hdescribed (Database.forgetSnapshot_root _) hkept.1 hkept.2
      rfl
  | snapshot | targets | delegated => cases hf

end Effects

/-- The trusted metadata changes only by a file that a threshold of its role's keys has signed. If
the call fails nevertheless, that was a newer timestamp that has expired, and it has taken the
snapshot away; and an answer that is new is given only after a call that succeeded, with a file
of the snapshot, the targets or a delegated role. -/
theorem changed_by_signed {db : Database} {f : Feed} (hchanged : (db.feed ic f).2 ≠ db) :
    SignedFor ic db f ∧
      (∀ e, (db.feed ic f).1 = .error e → ∃ startTime raw new, f = .timestamp startTime raw ∧
        Database.NewerTimestamp ic db raw new ∧ new.expires ≤ startTime ∧
        (db.feed ic f).2 = { db with trustedSnapshot := none }) ∧
      ∀ now path description, (db.feed ic f).2.targetDescription now path = .ok description →
        db.targetDescription now path = .ok description ∨
          (db.feed ic f).1 = .ok () ∧ f.isSearched = true := by
  have hchange : Database.Change ic db f (db.feed ic f).2 := Database.change_of_feed f
  refine ⟨signedFor_of_change hchange hchanged, fun e herror => ?_, fun now path d hdescribed => ?_⟩
  · obtain hsame | ⟨startTime, raw, new, hf, hnew, hexpired, hforgot⟩ :=
      Database.feed_refused herror
    · exact absurd hsame hchanged
    · obtain ⟨hsame, -⟩ | hnone := @Database.forgetSnapshot_cases db new.snapshot.version
      · exact absurd (hforgot.trans hsame) hchanged
      · exact ⟨startTime, raw, new, hf, hnew, hexpired, hforgot.trans hnone⟩
  · cases hf : f.isSearched with
    | false => exact .inl (described_of_change hchange hf hdescribed)
    | true =>
      cases hresult : (db.feed ic f).1 with
      | ok u => exact .inr ⟨rfl, rfl⟩
      | error e =>
        -- only a timestamp changes anything where the call fails
        obtain hsame | ⟨_, _, _, rfl, -⟩ := Database.feed_refused hresult
        · exact absurd hsame hchanged
        · cases hf

/-- The delegated role's file brings a description, and a timestamp that has expired takes it away
again. -/
theorem changed_by_signed_sample : ∃ db : Database,
    (db.targetDescription 5 samplePath = .ok sampleDescription ∧
      SignedFor sampleInterchange { db with trustedDelegations := [] }
        (.delegatedTargets 5 .targets sampleRole [5])) ∧
    SignedFor sampleInterchange db (.timestamp 5 [6]) ∧
      (∃ new, Database.NewerTimestamp sampleInterchange db [6] new ∧ new.expires ≤ 5) ∧
      ∀ now path description,
        { db with trustedSnapshot := none }.targetDescription now path = .ok description →
          db.targetDescription now path = .ok description := by
  obtain ⟨s, s', h⟩ := sample_runs
  refine ⟨s'.database, ⟨h.described, ?_⟩, ?_⟩
  · refine (changed_by_signed ?_).1
    rw [h.brings]
    intro hsame
    have hloaded := h.loaded
    rw [congrArg Database.trustedDelegations hsame] at hloaded
    cases hloaded
  · have hchanged : (s'.database.feed sampleInterchange (.timestamp 5 [6])).2 ≠ s'.database := by
      rw [h.forgets]
      intro hsame
      have hsnapshot := h.snapshot
      rw [← congrArg Database.trustedSnapshot hsame] at hsnapshot
      cases hsnapshot
    obtain ⟨hsigned, hrefused, hdescribed⟩ := changed_by_signed hchanged
    rw [h.forgets] at hrefused hdescribed
    obtain ⟨_, _, new, hf, hnewer, hexpired, -⟩ := hrefused _ rfl
    obtain ⟨rfl, rfl⟩ := Feed.timestamp.inj hf
    refine ⟨hsigned, ⟨new, hnewer, hexpired⟩, fun now path description hnow => ?_⟩
    obtain hbefore | ⟨herror, -⟩ := hdescribed now path description hnow
    · exact hbefore
    · cases herror

/-- In every state the trusted parts agree on their versions, so that none of the checks below
the timestamp ever finds an older file: a rollback is refused as the root's or the timestamp's,
or not at all. -/
theorem rollback_refused_above (hs : (lifetime ic first).Reachable s) :
    s.database.Consistent ∧ ∀ f, Database.RolledBack (s.database.feed ic f).1 →
      (∃ raw, f = .root raw) ∨ ∃ startTime raw, f = .timestamp startTime raw := by
  have hconsistent := consistent_of_reachable hs
  refine ⟨hconsistent, fun f hback => ?_⟩
  obtain hroot | htimestamp | hahead := Database.ahead_of_rolledBack hback
  · exact .inl hroot
  · exact .inr htimestamp
  · exact absurd hahead hconsistent.not_ahead

theorem rollback_refused_above_sample : ∃ s, (lifetime sampleInterchange [0]).Reachable s ∧
    s.database.trustedRoot.version = 2 ∧ s.database.Consistent := by
  obtain ⟨s, s', h⟩ := sample_runs
  have hs := h.leads.reachable h.reachable
  exact ⟨s', hs, h.new.1, (rollback_refused_above hs).1⟩

/-- No run takes a root back, nor a timestamp while the root stays; and while the timestamp
stays, so does the version of the snapshot. -/
theorem never_older (hs : (lifetime ic first).Reachable s)
    (h : (lifetime ic first).Leads s s') :
    s.database.NotOlder s'.database ∧
      (s'.database.trustedTimestamp = s.database.trustedTimestamp →
        ∀ snapshot snapshot', s.database.trustedSnapshot = some snapshot →
          s'.database.trustedSnapshot = some snapshot' → snapshot'.version = snapshot.version) := by
  refine ⟨notOlder_of_leads h, fun hsame snapshot snapshot' hsnapshot hsnapshot' => ?_⟩
  obtain ⟨t, ht, hversion⟩ := (consistent_of_reachable hs).snapshot snapshot hsnapshot
  obtain ⟨t', ht', hversion'⟩ :=
    (consistent_of_reachable (h.reachable hs)).snapshot snapshot' hsnapshot'
  rw [hsame, ht, Option.some.injEq] at ht'
  rw [hversion', hversion, ht']

/-- The second root comes after the first, and a snapshot that was forgotten comes back as the
version it was. -/
theorem never_older_sample : ∃ s s' s'' : Session, s.database.trustedRoot.version = 1 ∧
    s'.database.trustedRoot.version = 2 ∧ s.database.NotOlder s'.database ∧
    (s'.database.feed sampleInterchange (.timestamp 5 [6])).2.trustedSnapshot = none ∧
    s'' = sampleRefetch.foldl (Session.next sampleInterchange) s' ∧
    ∃ snapshot snapshot', s'.database.trustedSnapshot = some snapshot ∧
      s''.database.trustedSnapshot = some snapshot' ∧ snapshot'.version = snapshot.version := by
  obtain ⟨s, s', h⟩ := sample_runs
  obtain ⟨snapshot, hsnapshot, -⟩ := Option.map_eq_some_iff.mp h.snapshot
  have hagain : (lifetime sampleInterchange [0]).Leads s' _ := leads_foldl (.refl s') sampleRefetch
  have hsame := never_older (h.leads.reachable h.reachable) hagain
  refine ⟨s, s', _, h.old, h.new.1, (never_older h.reachable h.leads).1, ?_, rfl,
    snapshot, snapshot, hsnapshot, ?_, ?_⟩
  · rw [h.forgets]
  · rw [h.refetch]
    exact hsnapshot
  · refine hsame.2 ?_ snapshot snapshot hsnapshot ?_
    · rw [h.refetch]
    · rw [h.refetch]
      exact hsnapshot

/-- Whatever was fed, in whatever order, an answer is listed by metadata that the search for the
path may reach, and an unbroken chain of signatures leads to it from the first root. -/
theorem described_authorised (hs : (lifetime ic first).Reachable s) {now : Time}
    {path : TargetPath} {description : TargetDescription}
    (h : s.database.targetDescription now path = .ok description) :
    (∃ root, Root ic first root ∧ Succeeds ic s.fed root s.database.trustedRoot) ∧
      ∃ place md, s.database.Reaches path place md ∧
        Authorised ic s.fed s.database.trustedRoot place md ∧
        md.targets.lookup path = some description := by
  obtain ⟨root, hroot, hvouched⟩ := vouched_of_reachable hs
  obtain ⟨role, md, hreaches, hlisted⟩ := Database.reaches_of_described h
  exact ⟨⟨root, hroot, hvouched.root⟩, role, md, hreaches, hvouched.authorised hreaches, hlisted⟩

/-- What the delegated role lists, two of its three keys and two of the root's lead to. -/
theorem described_authorised_sample : ∃ s : Session, s.database.trustedRoot.version = 2 ∧
    s.database.targetDescription 5 samplePath = .ok sampleDescription ∧
    (∃ root, Root sampleInterchange [0] root ∧
      Succeeds sampleInterchange s.fed root s.database.trustedRoot) ∧
    Authorised sampleInterchange s.fed s.database.trustedRoot (some sampleRole) sampleListing := by
  obtain ⟨s, s', h⟩ := sample_runs
  obtain ⟨hroot, place, md, hreaches, hauthorised, hlisted⟩ :=
    described_authorised (h.leads.reachable h.reachable) h.described
  obtain ⟨rfl, rfl⟩ := h.place_of_reaches hreaches hlisted
  exact ⟨s', h.new.1, h.described, hroot, hauthorised⟩

/-- With fewer keys lost than a role's threshold, an answer that the role's metadata gives is in
a document that the owner of one of its keys signed. -/
theorem described_signed (hs : (lifetime ic first).Reachable s) (lost : Finset KeyId)
    (made : KeyId → List UInt8 → Prop) (honly : ∀ f ∈ s.fed, SignedOnly ic lost made f.raw)
    {now : Time} {path : TargetPath} {description : TargetDescription}
    (h : s.database.targetDescription now path = .ok description) :
    ∃ place md threshold keys, s.database.Reaches path place md ∧
      md.targets.lookup path = some description ∧
      Grants ic s.fed s.database.trustedRoot place threshold keys ∧
      (Withstands lost threshold keys → MadeBy ic lost made keys md) := by
  obtain ⟨_, -, hvouched⟩ := vouched_of_reachable hs
  obtain ⟨role, md, hreaches, hlisted⟩ := Database.reaches_of_described h
  obtain ⟨threshold, keys, hgrants, f, hf, hverified⟩ := (hvouched.authorised hreaches).granted
  exact ⟨role, md, threshold, keys, hreaches, hlisted, hgrants, fun hfew =>
    madeBy_of_verified hverified hfew (honly f hf)⟩

/-- One of the delegated role's three keys is lost and has signed a file of its own; the answer is
in the file that the owner of another one signed. -/
theorem described_signed_sample : ∃ (s : Session) (threshold : Nat) (keys : List PublicKey),
    s.database.targetDescription 5 samplePath = .ok sampleDescription ∧
      .delegatedTargets 5 .targets sampleRole [7] ∈ s.fed ∧
      Grants sampleInterchange s.fed s.database.trustedRoot (some sampleRole) threshold keys ∧
      MadeBy sampleInterchange sampleLost SampleMade keys sampleListing := by
  obtain ⟨s, s', h⟩ := sample_runs
  obtain ⟨place, md, threshold, keys, hreaches, hlisted, hgrants, hmade⟩ :=
    described_signed (h.leads.reachable h.reachable) sampleLost SampleMade
      (fun f _ => signedOnly_sample f.raw) h.described
  obtain ⟨rfl, rfl⟩ := h.place_of_reaches hreaches hlisted
  exact ⟨s', threshold, keys, h.described, h.forged, hgrants, hmade (withstands_of_grants hgrants)⟩

end Results

end DistPlatform.Tuf
