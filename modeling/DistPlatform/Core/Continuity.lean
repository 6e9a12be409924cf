import DistPlatform.Core.Succession

/-!
# What an operation does to the contents

Every operation edits the content of at most two roles and publishes. Where the process dies
on the way, each role has its old content or its new one.

## Main definitions

* `held`, `edited` — the content of a role, and what an edit makes of it.
* `Effect` — what an operation makes of every role and every payload.
* `Progress`, `Performed` — what is done of it at an instant, and when it returns.
-/

namespace DistPlatform.Core

open DistPlatform
open Runs History

/-- The content of a role's last file. -/
def held {β : Type} (dir : Directory β) (role : String) : Option Signed :=
  (lastOf role dir.log).map (·.signed)

/-- What an edit makes of targets metadata, or of none. -/
def edited (change : Targets → Targets) (content : Option Signed) : Option Signed :=
  match content.getD (.targets ⟨[], none⟩) with
  | .targets targets => some (.targets (change targets))
  | signed => some signed

section Edits

variable {β : Type} {out : Outside β} {s s' : Session β} {dir dir' : Directory β} {role : String}
  {signed : Signed} {md : Metadata} {R : Session β → Prop} {K : Directory β → Prop}

theorem Extended.held (h : Extended role signed dir dir') (other : String) :
    held dir' other = if other = role then some signed else held dir other := by
  unfold Core.held
  split
  next heq =>
    subst heq
    obtain ⟨md, hlast, rfl, -⟩ := h.lastOf_self
    rw [hlast]
    rfl
  next hne => rw [h.lastOf_of_ne hne]

/-- What an edit of a targets role may do to its content. -/
structure Mends (role : String) (f : Targets → Targets) : Prop where
  delegates : role = TARGETS → ∀ targets,
    (Signed.targets targets).delegates ⊆ (Signed.targets (f targets)).delegates
  appRoles : ∀ targets, (∀ name ∈ (Signed.targets targets).delegates, AppRole name) →
    ∀ name ∈ (Signed.targets (f targets)).delegates, AppRole name
  titled : ∀ targets, (Signed.targets targets).Titled → (Signed.targets (f targets)).Titled

theorem Mends.id (role : String) : Mends role id :=
  ⟨fun _ _ => List.Subset.refl _, fun _ h => h, fun _ h => h⟩

/-- An edit of a targets role writes its next version. -/
theorem editTargets_added (hs : Reads s) (hrole : role = TARGETS ∨ AppRole role)
    {change : Metadata → Except RepositoryError (Option Signed)} {f : Targets → Targets}
    (hchange : ∀ md targets, md.signed = .targets targets →
      change md = .ok (some (.targets (f targets)))) (hf : Mends role f)
    (hR : R s ∨ (Seen role ∨ s.repo.version role = 0) ∧ Keyed role s) (hK : K s.dir) :
    (edit out role change).Ensures s
      (fun _ s' => Keyed role s ∧ ∃ signed, Added role signed s s' ∧
        (∃ targets, signed = .targets (f targets) ∧
          (role = TARGETS → delegated s.dir.log = (Signed.targets targets).delegates)) ∧
        (Seen role → some signed = edited f (held s.dir role)))
      R (fun s' => K s'.dir) := by
  have hnames : role ≠ ROOT ∧ role ≠ SNAPSHOT ∧ role ≠ TIMESTAMP := by
    obtain rfl | happ := hrole
    · decide
    · exact ⟨happ.ne (by decide), happ.ne (by decide), happ.ne (by decide)⟩
  refine (edit_added hs (fun md signed hopen hsigned => ?_) (hR.imp_right ?_)).mono ?_
  · obtain ⟨⟨targets, htargets⟩, happ, htitled⟩ := hs.open_targets hrole hopen
    obtain rfl := Option.some.inj (Except.ok.inj ((hchange md targets htargets).symm.trans hsigned))
    rw [htargets] at happ htitled
    refine ⟨⟨hrole, fun heq => ?_, hf.appRoles targets happ, hf.titled targets htitled, nofun,
      nofun⟩, hK,
      fun heq => absurd heq hnames.1⟩
    subst heq
    refine List.Subset.trans ?_ (hf.delegates rfl targets)
    rw [← htargets]
    obtain ⟨hnone, -⟩ | hlast := hs.open_eq seen_targets hopen
    · rw [delegated_of_none hnone]
      exact List.nil_subset _
    · rw [delegated_of_lastOf hlast]
      exact List.Subset.refl _
  · rintro ⟨hfound, hkeyed⟩
    obtain ⟨md, hopen⟩ : ∃ md, s.repo.openRole s.dir role = .ok md := by
      obtain hseen | hzero := hfound
      · obtain ⟨md, hopen, -⟩ := hs.openRole hseen
        exact ⟨md, hopen⟩
      · exact ⟨_, if_pos hzero⟩
    obtain ⟨⟨targets, htargets⟩, -⟩ := hs.open_targets hrole hopen
    exact ⟨md, _, hopen, hchange md targets htargets, fun _ => hkeyed⟩
  · rintro - s' ⟨md, hopen, hwritten⟩
    obtain ⟨⟨targets, htargets⟩, -⟩ := hs.open_targets hrole hopen
    rw [hchange md targets htargets] at hwritten
    obtain ⟨hskip, -⟩ | ⟨signed, hsigned, hkeyed, hadded⟩ := hwritten
    · cases hskip
    obtain rfl := Option.some.inj (Except.ok.inj hsigned)
    refine ⟨hkeyed, _, hadded, ⟨targets, rfl, fun heq => ?_⟩, fun hseen => ?_⟩
    · subst heq
      rw [← htargets]
      obtain ⟨hnone, rfl⟩ | hlast := hs.open_eq seen_targets hopen
      · exact delegated_of_none hnone
      · exact delegated_of_lastOf hlast
    · obtain ⟨hnone, rfl⟩ | hlast := hs.open_eq hseen hopen
      · rw [Metadata.initial, initial_targets hrole] at htargets
        rw [held, hnone, ← Signed.targets.inj htargets]
        rfl
      · rw [held, hlast, edited, Option.map_some, Option.getD_some, htargets]

theorem Added.keyed_iff (h : Added role signed s s') (other : String) :
    Keyed other s' ↔ Keyed other s := by
  rw [Keyed, Keyed, h.backend, h.policies]

theorem Added.delegated_of_ne (h : Added role signed s s') (hne : role ≠ TARGETS) :
    delegated s'.dir.log = delegated s.dir.log := by
  rw [h.toExtended.delegated, if_neg hne]

theorem Added.informed (h : Added role signed s s') (hs : Informed s)
    (hsame : delegated s'.dir.log = delegated s.dir.log) : Informed s' := by
  refine ⟨h.reads, fun other => ?_, ?_, ?_⟩
  · rw [h.appRoles, hsame]
    exact hs.appRoles other
  · rw [h.policies]
    exact hs.topPolicies
  · rw [h.policies, h.appRoles]
    exact hs.appPolicies

/-- The role is to be written for the first time. -/
def Begins {β : Type} (role : String) (s : Session β) : Prop :=
  s.repo.version role = 0 ∧ ∀ version, entry s.dir role = some version → version ≤ 1

/-- A fresh instance finds the files of the role, or there are none it could miss. -/
def Found {β : Type} (role : String) (s : Session β) : Prop := Seen role ∨ Begins role s

theorem Found.seen_or_zero (h : Found role s) : Seen role ∨ s.repo.version role = 0 :=
  h.imp_right And.left

theorem Found.reaches (h : Found role s) : Seen role ∨ Reaches role s :=
  h.imp_right fun hbegins => .inl hbegins.1

theorem Added.entry (h : Added role signed s s') (hne : role ≠ SNAPSHOT) (other : String) :
    entry s'.dir other = entry s.dir other := by
  rw [Core.entry, Core.entry, h.toExtended.lastOf_of_ne (Ne.symm hne)]

theorem Added.found (h : Added role signed s s') (hne : role ≠ SNAPSHOT) {other : String}
    (hother : other ≠ role) (hfound : Found other s) : Found other s' := by
  rw [Found, Begins, h.versions other hother, h.entry hne]
  exact hfound

theorem Added.advances (h : Added role signed s s') (hs : Advances out s)
    (hne : role ≠ SNAPSHOT) (hrole : Found role s)
    (hdelegated : ∀ name ∈ delegated s'.dir.log, name ∈ delegated s.dir.log ∨ Found name s) :
    Advances out s' := by
  refine ⟨hs.refuses, fun name hname => ?_⟩
  by_cases heq : name = role
  · subst heq
    refine hrole.imp_right fun ⟨hzero, hle⟩ => .inr fun version hentry => ?_
    rw [h.version, hzero]
    exact hle version (h.entry hne name ▸ hentry)
  · rw [Reaches, h.versions name heq, h.entry hne]
    exact (hdelegated name hname).elim (hs.reaches name) Found.reaches

theorem Added.equipped (h : Added role signed s s') (hs : Equipped out s)
    (hne : role ≠ SNAPSHOT) (hrole : Found role s)
    (hdelegated : ∀ name ∈ delegated s'.dir.log, name ∈ delegated s.dir.log ∨ Found name s) :
    Equipped out s' :=
  ⟨h.advances hs.toAdvances hne hrole hdelegated,
    hs.keys.imp (h.keyed_iff _).mpr (h.keyed_iff _).mpr⟩

end Edits

/-! ## The effect of an operation -/

/-- A role of targets whose files a fresh instance finds. -/
structure Listed (role : String) : Prop where
  seen : Seen role
  targets : role = TARGETS ∨ AppRole role

structure Effect (β : Type) where
  content : String → Option Signed → Option Signed
  payload : Option (String × β) := none

def Effect.payloads {β : Type} (e : Effect β) (payloads : Table String β) : Table String β :=
  match e.payload with
  | none => payloads
  | some (path, payload) => payloads.put path payload

/-- The roles in `done` have their new content, and the others their old one. -/
structure Progress {β : Type} (e : Effect β) (stored : Bool) (done : List String)
    (dir dir' : Directory β) : Prop where
  recorded : Recorded dir'
  since : dir.log <:+ dir'.log
  content : ∀ role, Listed role →
    held dir' role = if role ∈ done then e.content role (held dir role) else held dir role
  payloads : dir'.payloads = if stored then e.payloads dir.payloads else dir.payloads

/-- What an operation has done when it returns. -/
structure Performed {β : Type} (e : Effect β) (s s' : Session β) : Prop where
  informed : Informed s'
  backend : s'.repo.backend = s.repo.backend
  announced : Announced s'.dir.log
  since : s.dir.log <:+ s'.dir.log
  content : ∀ role, Listed role → held s'.dir role = e.content role (held s.dir role)
  payloads : s'.dir.payloads = e.payloads s.dir.payloads

section Progress

variable {β : Type} {e : Effect β} {stored : Bool} {done : List String} {dir dir' dir'' : Directory β}
  {role : String} {signed : Signed}

theorem Progress.refl (h : Recorded dir) : Progress e false [] dir dir :=
  ⟨h, List.suffix_refl _, fun _ _ => rfl, rfl⟩

theorem Progress.extended (h : Progress e stored done dir dir')
    (hx : Extended role signed dir' dir'')
    (hnew : Listed role → some signed = e.content role (held dir role)) :
    Progress e stored (role :: done) dir dir'' where
  recorded := hx.recorded
  since := h.since.trans hx.since
  content other hother := by
    rw [hx.held]
    by_cases heq : other = role
    · subst heq
      rw [if_pos rfl, if_pos List.mem_cons_self, hnew hother]
    · rw [if_neg heq, h.content other hother]
      simp only [List.mem_cons, heq, false_or]
  payloads := hx.payloads.trans h.payloads

theorem Progress.republished (h : Progress e stored done dir dir') (hr : Republished dir' dir'') :
    Progress e stored done dir dir'' where
  recorded := hr.recorded
  since := h.since.trans hr.since
  content other hother := by
    have hne : other ≠ SNAPSHOT ∧ other ≠ TIMESTAMP := by
      obtain rfl | happ := hother.targets
      · decide
      · exact ⟨happ.ne (by decide), happ.ne (by decide)⟩
    rw [← h.content other hother, held, held, hr.last other hne.1 hne.2]
  payloads := hr.payloads.trans h.payloads

theorem Progress.held_of_not_mem (h : Progress e stored done dir dir') (hrole : Listed role)
    (hmem : role ∉ done) : held dir' role = held dir role := by
  rw [h.content role hrole, if_neg hmem]

end Progress

section Operations

variable {β : Type} {out : Outside β} {s s' : Session β} {role : String}
  {R : Session β → Prop} {K : Directory β → Prop}

/-- Listing a stored payload in a role. -/
def listing (out : Outside β) (role path : String) (payload : β) (info : ReleaseInfo) :
    Effect β where
  content other content :=
    if other = role then edited (fun targets =>
      { targets with targets := targets.targets.put path (targetFile out payload info) }) content
    else content
  payload := some (payloadPath path (out.sha256 payload), payload)

theorem mends_put (hne : role ≠ TARGETS) (path : String) (file : TargetFile) :
    Mends role fun targets => { targets with targets := targets.targets.put path file } := by
  have hsame (targets : Targets) (files : Table String TargetFile) :
      (Signed.targets { targets with targets := files }).delegates =
        (Signed.targets targets).delegates := by
    obtain ⟨_, _ | _⟩ := targets <;> rfl
  refine ⟨fun heq => absurd heq hne, fun targets h name hname => h name (hsame targets _ ▸ hname),
    fun targets h => ?_⟩
  obtain ⟨_, _ | _⟩ := targets <;> exact h

theorem onTargets_of_signed {f : Targets → Targets} (md : Metadata) (targets : Targets)
    (h : md.signed = .targets targets) : onTargets f md = .ok (some (.targets (f targets))) := by
  rw [onTargets, h]

theorem unchanged_of_signed (md : Metadata) (targets : Targets)
    (h : md.signed = .targets targets) : unchanged md = .ok (some (.targets (id targets))) := by
  rw [unchanged, h]
  rfl

/-- The last edit of an operation is done, and it publishes. -/
theorem publish_performed {e : Effect β} {s₀ : Session β} {stored : Bool} {done : List String}
    (hs : Informed s) (htargets : (lastOf TARGETS s.dir.log).isSome)
    (hlists : ListsReported out.tuf) (hprogress : Progress e stored done s₀.dir s.dir)
    (hbackend : s.repo.backend = s₀.repo.backend) (hstored : e.payload.isSome → stored = true)
    (hdone : ∀ role content, Listed role → role ∉ done → e.content role content = content)
    (hR : (∀ s', Informed s' → R s') ∨ CanPublish out s)
    (hK : ∀ dir, Republished s.dir dir → Progress e stored done s₀.dir dir → K dir) :
    (publish out).Ensures s
      (fun _ s' => Performed e s₀ s' ∧
        (Keyed SNAPSHOT s ∧ Keyed TIMESTAMP s ∨ Snapshotted s.dir.log ∧ SnapshotStands out s ∧
          (Keyed TIMESTAMP s ∨ TimestampStands out s)))
      R (fun s' => K s'.dir) := by
  refine (publish_added hs htargets hlists (hR.imp_left fun h s' hs' => h s' hs'.informed)
    fun dir hdir => hK dir hdir (hprogress.republished hdir)).mono ?_
  rintro - s' ⟨hannounced, hpublishes, hkeyed⟩
  have hend := hprogress.republished hpublishes.republished
  refine ⟨⟨hpublishes.informed, hpublishes.backend.trans hbackend, hannounced, hend.since,
    fun role hrole => ?_, ?_⟩, hkeyed⟩
  · rw [hend.content role hrole]
    split
    · rfl
    next hmem => exact (hdone role _ hrole hmem).symm
  · rw [hend.payloads]
    split
    · rfl
    next hnot =>
      rw [Effect.payloads]
      split
      · rfl
      next hsome => exact absurd (hstored (by rw [hsome]; rfl)) hnot

theorem isSome_targets_of_mem {log : Writes} (h : role ∈ delegated log) :
    (lastOf TARGETS log).isSome := by
  cases hlast : lastOf TARGETS log with
  | none =>
    rw [delegated_of_none hlast] at h
    cases h
  | some md => rfl

theorem Informed.store (hs : Informed s) (path : String) (payload : β) :
    Informed { s with dir := s.dir.store path payload } :=
  ⟨⟨⟨hs.recorded.distinct, hs.recorded.stored, hs.recorded.entered⟩, hs.versions⟩, hs.appRoles,
    hs.topPolicies, hs.appPolicies⟩

/-- The next file of the role is written, and its payload before. -/
def WroteNext (role : String) (s s' : Session β) : Prop :=
  Informed s' ∧ ∃ path payload signed,
    Added role signed { s with dir := s.dir.store path payload } s'

/-- Once the next file of the role is written, nothing is left for a new snapshot to say. -/
def Repeats (out : Outside β) (role : String) (s : Session β) : Prop :=
  role ∈ s.repo.appRoles ∧ ∃ s', WroteNext role s s' ∧ SnapshotStands out s' ∧
    (Keyed TIMESTAMP s' ∨ TimestampStands out s')

theorem WroteNext.keyed_iff (h : WroteNext role s s') (other : String) :
    Keyed other s' ↔ Keyed other s := by
  obtain ⟨-, path, payload, signed, hadded⟩ := h
  exact hadded.keyed_iff other

theorem WroteNext.advances (h : WroteNext role s s') (hs : Advances out s) (happ : AppRole role)
    (hfound : Found role s) : Advances out s' := by
  obtain ⟨-, path, payload, signed, hadded⟩ := h
  have hsame := hadded.delegated_of_ne (happ.ne (by decide))
  exact hadded.advances ⟨hs.refuses, hs.reaches⟩ (happ.ne (by decide)) hfound
    fun name hname => .inl (hsame ▸ hname)

theorem WroteNext.canPublish (h : WroteNext role s s') (hs : Equipped out s) (happ : AppRole role)
    (hfound : Found role s) : CanPublish out s' :=
  ⟨h.advances hs.toAdvances happ hfound, .inl ((h.keyed_iff _).mpr hs.keys.1),
    .inl ((h.keyed_iff _).mpr hs.keys.2)⟩

theorem publishTarget_performed (hs : Informed s) (hlists : ListsReported out.tuf)
    (hmem : role ∈ s.repo.appRoles) {path : String} {payload : β} {info : ReleaseInfo}
    (hR : (∀ s', Informed s' → R s') ∨ Found role s ∧ Keyed role s ∧
      ∀ s', WroteNext role s s' → CanPublish out s')
    (hK : ∀ stored done dir,
      Progress (listing out role path payload info) stored done s.dir dir → K dir) :
    (publishTarget out role path payload info).Ensures s
      (fun _ s' => Performed (listing out role path payload info) s s' ∧ Keyed role s ∧
        (Keyed SNAPSHOT s ∧ Keyed TIMESTAMP s ∨ ¬ Seen role ∧ Repeats out role s))
      R (fun s' => K s'.dir) := by
  have hdelegated := (hs.appRoles role).mp hmem
  have happ := appRole_of_informed hs hmem
  have hne : role ≠ TARGETS := happ.ne (by decide)
  have hsnapshot : role ≠ SNAPSHOT := happ.ne (by decide)
  have hrefl : Progress (listing out role path payload info) false [] s.dir s.dir :=
    .refl hs.recorded
  let s₁ : Session β :=
    { s with dir := s.dir.store (payloadPath path (out.sha256 payload)) payload }
  have hs₁ : Informed s₁ := hs.store _ _
  have hstored : Progress (listing out role path payload info) true [] s.dir s₁.dir :=
    ⟨hs₁.recorded, List.suffix_refl _, fun _ _ => rfl, rfl⟩
  refine .bind (.write (hK _ _ _ hrefl) (Q := fun _ s' => s' = s₁) rfl) ?_
  rintro - s' rfl
  refine .bind (editTargets_added hs₁.toReads (.inr happ) onTargets_of_signed (mends_put hne _ _)
    (hR.imp (fun h => h s₁ hs₁) fun h => ⟨h.1.seen_or_zero, h.2.1⟩) (hK _ _ _ hstored)) ?_
  rintro - s₂ ⟨hkeyed, signed, hadded, -, hsigned⟩
  have hsame := hadded.delegated_of_ne hne
  have hs₂ := hadded.informed hs₁ hsame
  have hwrote : WroteNext role s s₂ := ⟨hs₂, _, _, signed, hadded⟩
  have hprogress := hstored.extended hadded.toExtended fun hrole => by
    rw [hsigned hrole.seen]
    exact (if_pos rfl).symm
  refine (publish_performed hs₂ (isSome_targets_of_mem (hsame ▸ hdelegated)) hlists hprogress
    hadded.backend (fun _ => rfl) (fun other content _ hother => ?_)
    (hR.imp_right fun h => h.2.2 s₂ hwrote) fun dir _ => hK _ _ dir).mono ?_
  · exact if_neg (by simpa using hother)
  · rintro - s₃ ⟨hperformed, hkeys⟩
    refine ⟨hperformed, hkeyed, hkeys.imp ?_ ?_⟩
    · exact And.imp (hadded.keyed_iff _).mp (hadded.keyed_iff _).mp
    · refine fun ⟨hsnapshotted, hstands⟩ => ⟨fun hseen => ?_, hmem, s₂, hwrote, hstands⟩
      obtain ⟨md, hlast, -, hversion⟩ := hadded.toExtended.lastOf_self
      exact not_snapshotted_of_newer hs₁.recorded.entered
        (hadded.toExtended.lastOf_of_ne (Ne.symm hsnapshot)) hseen (.inr (hsame ▸ hdelegated)) hlast
        (by rw [hversion hseen]; exact Nat.lt_succ_self _) hsnapshotted

/-- A delegation, with the first file of the role it is to. -/
def delegating (backend : SignerBackend) (policy : RolePolicy) (appId : String) :
    Effect β where
  content role content :=
    if role = TARGETS then
      edited (delegate backend policy appId (backend.keyids policy.name)) content
    else if role = policy.name then edited id content
    else content

theorem mends_delegate {backend : SignerBackend} {policy : RolePolicy} (happ : AppRole policy.name)
    (appId : String) (keyids : List String) :
    Mends TARGETS (delegate backend policy appId keyids) where
  delegates _ targets name hname := mem_delegates.mpr (.inr hname)
  appRoles targets h name hname := by
    obtain rfl | hname := mem_delegates.mp hname
    · exact happ
    · exact h name hname
  titled targets h row hrow := by
    obtain rfl | hrow := List.mem_cons.mp hrow
    · rfl
    · obtain ⟨_, _ | _⟩ := targets
      · cases hrow
      · exact h row (List.mem_of_mem_filter hrow)

theorem appPolicy_of_lift {appId : String} {critical : Bool} {policy : RolePolicy}
    (h : (appRolePolicy appId critical).mapError RepositoryError.ValueError = .ok policy) :
    appRolePolicy appId critical = .ok policy :=
  Fallible.mapError_eq_ok.mp h

theorem Informed.setPolicy (hs : Informed s) {policy : RolePolicy} (happ : AppRole policy.name)
    (hthreshold : policy.threshold = 1) : Informed (s.setPolicy policy) where
  recorded := hs.recorded
  versions := hs.versions
  appRoles := hs.appRoles
  topPolicies row hrow := by
    rw [Session.setPolicy, Table.get_put, if_neg]
    · exact hs.topPolicies row hrow
    · have hne : ∀ row ∈ TOP_LEVEL_POLICIES, row.1.toList.take 4 ≠ "app-".toList := by decide
      exact Ne.symm (happ.ne (hne row hrow))
  appPolicies role hrole := by
    rw [Session.setPolicy, Table.get_put]
    split
    · exact ⟨policy, rfl, hthreshold⟩
    · exact hs.appPolicies role hrole

theorem keyed_setPolicy {policy : RolePolicy} {other : String} (hne : other ≠ policy.name) :
    Keyed other (s.setPolicy policy) ↔ Keyed other s := by
  rw [Keyed, Keyed, Session.setPolicy, Table.get_put, if_neg hne]

/-- `add_app` cannot fail. -/
structure CanAdd (out : Outside β) (appId : String) (critical : Bool) (s : Session β) : Prop
    extends Equipped out s where
  targets : Keyed TARGETS s
  app : ∃ policy, appRolePolicy appId critical = .ok policy ∧ Found policy.name s ∧
    s.repo.backend.keyids policy.name ≠ []

theorem addApp_performed (hs : Informed s) (hlists : ListsReported out.tuf) {appId : String}
    {critical : Bool} (hR : (∀ s', Informed s' → R s') ∨ CanAdd out appId critical s)
    (hK : ∀ policy, appRolePolicy appId critical = .ok policy → ∀ stored done dir,
      Progress (delegating s.repo.backend policy appId) stored done s.dir dir → K dir)
    (hstart : K s.dir) :
    (addApp out appId critical).Ensures s
      (fun _ s' => ∃ policy, appRolePolicy appId critical = .ok policy ∧
        Performed (delegating s.repo.backend policy appId) s s' ∧
        s.repo.backend.keyids policy.name ≠ [] ∧ Keyed TARGETS s ∧ Keyed SNAPSHOT s ∧
        Keyed TIMESTAMP s)
      R (fun s' => K s'.dir) := by
  refine .lift_cases (fun e herror => ?_) fun policy hpolicy => .update_bind (.read_bind ?_)
  · refine (hR.imp_left fun h => h s hs).resolve_right fun hcan => ?_
    obtain ⟨policy, hok, -⟩ := hcan.app
    rw [hok] at herror
    cases herror
  have hpolicy := appPolicy_of_lift hpolicy
  obtain ⟨hname, hthreshold, -⟩ := appRolePolicy_eq_ok hpolicy
  have happ : AppRole policy.name := ⟨appId, hname⟩
  have hcan {P : Prop} (h : P ∨ CanAdd out appId critical s) : P ∨ Equipped out s ∧
      Keyed TARGETS s ∧ Found policy.name s ∧ s.repo.backend.keyids policy.name ≠ [] := by
    refine h.imp_right fun hcan => ?_
    obtain ⟨other, hother, hfound, hkeys⟩ := hcan.app
    obtain rfl := Except.ok.inj (hother.symm.trans hpolicy)
    exact ⟨hcan.toEquipped, hcan.targets, hfound, hkeys⟩
  have hkeyed {top : String} (htop : top.toList.take 4 ≠ "app-".toList) :
      Keyed top (s.setPolicy policy) ↔ Keyed top s :=
    keyed_setPolicy (Ne.symm (happ.ne htop))
  have hs₀ := hs.setPolicy happ hthreshold
  have hprogress : Progress (delegating s.repo.backend policy appId) false [] s.dir
      (s.setPolicy policy).dir := .refl hs.recorded
  refine .lift_cases (fun e herror => ?_) fun _ hkeys => ?_
  · refine ((hcan hR).imp_left fun h => h _ hs₀).resolve_right fun ⟨_, _, _, hfound⟩ => ?_
    change Fallible.ensure (s.repo.backend.keyids policy.name ≠ []) _ = _ at herror
    rw [Fallible.ensure, if_pos hfound] at herror
    cases herror
  have hkeys := Fallible.ensure_eq_ok.mp hkeys
  refine .bind (editTargets_added hs₀.toReads (.inl rfl) onTargets_of_signed
    (mends_delegate happ appId _) ((hcan hR).imp (fun h => h _ hs₀) fun ⟨_, h, _⟩ =>
      ⟨.inl seen_targets, (hkeyed (by decide)).mpr h⟩) hstart) ?_
  rintro - s₁ ⟨hkeyedTargets, signed, hadded, ⟨targets, rfl, hbefore⟩, hsigned⟩
  have hdelegated (name : String) : name ∈ delegated s₁.dir.log ↔
      name = policy.name ∨ name ∈ delegated s.dir.log := by
    rw [hadded.toExtended.delegated, if_pos rfl, mem_delegates, ← hbefore rfl]
    rfl
  have hs₁ : Informed (s₁.addAppRole policy.name) := by
    refine ⟨⟨hadded.reads.recorded, hadded.reads.versions⟩, fun name => ?_, fun row hrow => ?_,
      fun name hname => ?_⟩
    · change name ∈ List.insert policy.name s₁.repo.appRoles ↔ _
      rw [List.mem_insert_iff, hadded.appRoles]
      exact (or_congr_right (hs.appRoles name)).trans (hdelegated name).symm
    · exact hadded.policies ▸ hs₀.topPolicies row hrow
    · change name ∈ List.insert policy.name s₁.repo.appRoles at hname
      rw [List.mem_insert_iff, hadded.appRoles] at hname
      change ∃ policy, s₁.repo.policies.get name = some policy ∧ _
      rw [hadded.policies]
      obtain rfl | hname := hname
      · exact ⟨policy, Table.get_put_self _ _ _, hthreshold⟩
      · exact hs₀.appPolicies name hname
  have hprogress₁ := hprogress.extended hadded.toExtended fun hrole => by
    rw [hsigned hrole.seen]
    simp only [delegating, if_true]
    rfl
  have hne : policy.name ≠ TARGETS := happ.ne (by decide)
  have hfound₁ (h : Found policy.name s) : Found policy.name (s₁.addAppRole policy.name) :=
    hadded.found (by decide) hne h
  have hequipped₁ (h : Equipped out s ∧ Keyed TARGETS s ∧ Found policy.name s ∧
      s.repo.backend.keyids policy.name ≠ []) : Equipped out (s₁.addAppRole policy.name) := by
    have hfound (name : String) (hname : name ∈ delegated s₁.dir.log) :
        name ∈ delegated s.dir.log ∨ Found name s := by
      obtain rfl | hname := (hdelegated name).mp hname
      · exact .inr h.2.2.1
      · exact .inl hname
    have hequipped₀ := hadded.equipped (s := s.setPolicy policy) ⟨⟨h.1.refuses, h.1.reaches⟩,
      (hkeyed (by decide)).mpr h.1.keys.1, (hkeyed (by decide)).mpr h.1.keys.2⟩ (by decide)
      (.inl seen_targets) hfound
    exact ⟨⟨hequipped₀.refuses, hequipped₀.reaches⟩, hequipped₀.keys⟩
  have hown : Keyed policy.name (s₁.addAppRole policy.name) := by
    refine (hadded.keyed_iff _).mpr ⟨policy, Table.get_put_self _ _ _, ?_⟩
    rw [hthreshold]
    exact List.length_pos_iff.mpr hkeys
  refine .update_bind (.bind (editTargets_added hs₁.toReads (.inr happ) unchanged_of_signed
    (.id _) ((hcan hR).imp (fun h => h _ hs₁) fun h => ⟨(hfound₁ h.2.2.1).seen_or_zero, hown⟩)
    (hK policy hpolicy _ _ _ hprogress₁)) ?_)
  rintro - s₂ ⟨-, signed, hadded₂, -, hsigned₂⟩
  have hsame := hadded₂.delegated_of_ne hne
  have hs₂ := hadded₂.informed hs₁ hsame
  have hprogress₂ := hprogress₁.extended hadded₂.toExtended fun hrole => by
    rw [hsigned₂ hrole.seen]
    refine Eq.trans ?_ ((if_neg hne).trans (if_pos rfl)).symm
    rw [← hprogress₁.held_of_not_mem hrole (by simpa using hne)]
    rfl
  have htargets : (lastOf TARGETS s₂.dir.log).isSome := by
    have hmem : policy.name ∈ delegated s₂.dir.log := by
      rw [hsame]
      exact (hdelegated policy.name).mpr (.inl rfl)
    exact isSome_targets_of_mem hmem
  refine .bind (publish_performed hs₂ htargets hlists hprogress₂
    (hadded₂.backend.trans hadded.backend) nofun (fun other content _ hother => ?_)
    ((hcan hR).imp_right fun h => (hadded₂.equipped (hequipped₁ h) (happ.ne (by decide))
      (hfound₁ h.2.2.1) fun name hname => .inl (hsame ▸ hname)).canPublish)
    fun dir _ => hK policy hpolicy _ _ dir) ?_
  · simp only [List.mem_cons, List.not_mem_nil, or_false, not_or] at hother
    exact (if_neg hother.2).trans (if_neg hother.1)
  · rintro - s₃ ⟨hperformed, hkeys'⟩
    have hstale : ¬ Snapshotted s₂.dir.log := by
      obtain ⟨md, hlast, -, hversion⟩ := hadded.toExtended.lastOf_self
      refine not_snapshotted_of_newer hs₀.recorded.entered ?_ seen_targets (.inl rfl)
        ((hadded₂.toExtended.lastOf_of_ne (Ne.symm hne)).trans hlast)
        (by rw [hversion seen_targets]; exact Nat.lt_succ_self _)
      exact (hadded₂.toExtended.lastOf_of_ne (Ne.symm (happ.ne (by decide)))).trans
        (hadded.toExtended.lastOf_of_ne (by decide))
    have hkeyed₂ (top : String) (htop : top.toList.take 4 ≠ "app-".toList) :
        Keyed top s₂ ↔ Keyed top s :=
      (hadded₂.keyed_iff top).trans ((hadded.keyed_iff top).trans (hkeyed htop))
    obtain ⟨hsnapshot, htimestamp⟩ := hkeys'.resolve_right fun h => hstale h.1
    exact .pure ⟨policy, hpolicy, hperformed, hkeys, (hkeyed (by decide)).mp hkeyedTargets,
      (hkeyed₂ _ (by decide)).mp hsnapshot, (hkeyed₂ _ (by decide)).mp htimestamp⟩

theorem seen_of_appId {appId role : String} (hrole : appRoleName appId = .ok role) :
    Seen role ↔ Seen appId := by
  obtain ⟨-, rfl⟩ := appRoleName_eq_ok.mp hrole
  simp [Seen, APP_ROLE_PREFIX]

/-- The application has a role in the instance's memory, with its key. -/
def CanList (appId : String) (s : Session β) : Prop :=
  ∃ role, appRoleName appId = .ok role ∧ role ∈ s.repo.appRoles ∧ Keyed role s

theorem delegatedRole_performed {appId : String}
    (hR : R s ∨ ∃ role, appRoleName appId = .ok role ∧ role ∈ s.repo.appRoles) :
    (delegatedRole appId : Work β String).Ensures s
      (fun role s' => s = s' ∧ appRoleName appId = .ok role ∧ role ∈ s.repo.appRoles)
      R (fun s' => K s'.dir) := by
  refine .lift_cases (fun e herror => hR.resolve_right ?_) fun role hrole =>
    .read_bind (.lift_cases (fun e herror => hR.resolve_right ?_) fun _ hmem => ?_)
  · rintro ⟨role, hrole, -⟩
    rw [hrole] at herror
    cases herror
  · have hrole := Fallible.mapError_eq_ok.mp hrole
    rintro ⟨other, hother, hmem⟩
    obtain rfl := Except.ok.inj (hother.symm.trans hrole)
    rw [Fallible.ensure, if_pos hmem] at herror
    cases herror
  · exact .pure ⟨rfl, Fallible.mapError_eq_ok.mp hrole, Fallible.ensure_eq_ok.mp hmem⟩

theorem addRelease_performed (hs : Informed s) (hlists : ListsReported out.tuf) {key : TargetKey}
    {payload : β} {info : ReleaseInfo}
    (hR : (∀ s', Informed s' → R s') ∨
      info.version = key.version ∧ CanList key.appId s ∧
        ∀ role, appRoleName key.appId = .ok role → Found role s ∧
          ∀ s', WroteNext role s s' → CanPublish out s')
    (hK : ∀ role, appRoleName key.appId = .ok role → ∀ stored done dir,
      Progress (listing out role key.path payload info) stored done s.dir dir → K dir) :
    (addRelease out key payload info).Ensures s
      (fun _ s' => ∃ role, appRoleName key.appId = .ok role ∧
        Performed (listing out role key.path payload info) s s' ∧ info.version = key.version ∧
        role ∈ s.repo.appRoles ∧ Keyed role s ∧
        (Keyed SNAPSHOT s ∧ Keyed TIMESTAMP s ∨ ¬ Seen role ∧ Repeats out role s))
      R (fun s' => K s'.dir) := by
  refine .lift_cases (fun e herror => ?_) fun _ hversion => ?_
  · refine (hR.imp_left fun h => h s hs).resolve_right fun ⟨hversion, _⟩ => ?_
    rw [Fallible.ensure, if_pos hversion] at herror
    cases herror
  have hversion := Fallible.ensure_eq_ok.mp hversion
  refine .bind (delegatedRole_performed (hR.imp (fun h => h s hs)
    fun ⟨_, ⟨role, hrole, hmem, _⟩, _⟩ => ⟨role, hrole, hmem⟩)) ?_
  rintro role s' ⟨rfl, hrole, hmem⟩
  refine .bind (publishTarget_performed hs hlists hmem
    (hR.imp_right fun ⟨_, hcan, hpublish⟩ => ?_)
    (hK role hrole)) fun _ s' h => .pure ⟨role, hrole, h.1, hversion, hmem, h.2⟩
  obtain ⟨other, hother, -, hkeyed⟩ := hcan
  obtain rfl := Except.ok.inj (hother.symm.trans hrole)
  exact ⟨(hpublish _ hrole).1, hkeyed, (hpublish _ hrole).2⟩

/-- The content lists the path. -/
def Lists (content : Option Signed) (path : String) : Prop :=
  ∃ targets, content = some (.targets targets) ∧ (targets.targets.get path).isSome

theorem setCurrent_performed (hs : Informed s) (hlists : ListsReported out.tuf) {key : TargetKey}
    (hR : (∀ s', Informed s' → R s') ∨ (∃ role, appRoleName key.appId = .ok role ∧
      role ∈ s.repo.appRoles ∧ Keyed role s ∧ Lists (held s.dir role) key.path) ∧
      (∃ pointer, CurrentRelease.make key.path key.version = .ok pointer) ∧ Seen key.appId ∧
        Equipped out s)
    (hK : ∀ role pointer, appRoleName key.appId = .ok role →
      CurrentRelease.make key.path key.version = .ok pointer → ∀ stored done dir,
      Progress (listing out role key.channelKey.pointerPath (out.dumps pointer.toJson)
        (pointerInfo key)) stored done s.dir dir → K dir) :
    (setCurrent out key).Ensures s
      (fun _ s' => ∃ role pointer, appRoleName key.appId = .ok role ∧
        CurrentRelease.make key.path key.version = .ok pointer ∧
        Performed (listing out role key.channelKey.pointerPath (out.dumps pointer.toJson)
          (pointerInfo key)) s s' ∧
        role ∈ s.repo.appRoles ∧ s.repo.version role ≠ 0 ∧
        (Seen role → Lists (held s.dir role) key.path) ∧ Keyed role s ∧
        (Keyed SNAPSHOT s ∧ Keyed TIMESTAMP s ∨ ¬ Seen role ∧ Repeats out role s))
      R (fun s' => K s'.dir) := by
  refine .bind (delegatedRole_performed (hR.imp (fun h => h s hs) fun h =>
    h.1.imp fun role hrole => ⟨hrole.1, hrole.2.1⟩)) ?_
  rintro role s' ⟨rfl, hrole, hmem⟩
  have happ := appRole_of_informed hs hmem
  have hcan (h : (∃ role, appRoleName key.appId = .ok role ∧ role ∈ s.repo.appRoles ∧
      Keyed role s ∧ Lists (held s.dir role) key.path) ∧
      (∃ pointer, CurrentRelease.make key.path key.version = .ok pointer) ∧ Seen key.appId ∧
        Equipped out s) :
      Seen role ∧ Keyed role s ∧ Lists (held s.dir role) key.path := by
    obtain ⟨⟨other, hother, -, hkeyed, hlisted⟩, -, hseen, -⟩ := h
    obtain rfl := Except.ok.inj (hother.symm.trans hrole)
    exact ⟨(seen_of_appId hrole).mpr hseen, hkeyed, hlisted⟩
  refine .read_bind (.lift_cases (fun e herror => ?_) fun published hpublished => ?_)
  · refine (hR.imp_left fun h => h s hs).resolve_right fun h => ?_
    obtain ⟨md, hopen, -⟩ := hs.openRole (hcan h).1
    cases hopen.symm.trans herror
  obtain ⟨⟨targets, htargets⟩, -⟩ := hs.open_targets (.inr happ) hpublished
  have hopened (hseen : Seen role) : (held s.dir role).getD (.targets ⟨[], none⟩) =
      .targets targets := by
    obtain ⟨hnone, rfl⟩ | hlast := hs.open_eq hseen hpublished
    · rw [Metadata.initial, initial_targets (.inr happ)] at htargets
      rw [held, hnone, ← Signed.targets.inj htargets]
      rfl
    · rw [held, hlast, Option.map_some, Option.getD_some, htargets]
  simp only [htargets]
  refine .lift_cases (fun e herror => ?_) fun _ hlisted => ?_
  · refine (hR.imp_left fun h => h s hs).resolve_right fun h => ?_
    obtain ⟨hseen, -, listed, hheld, hsome⟩ := hcan h
    have hsame := hopened hseen
    rw [hheld, Option.getD_some] at hsame
    rw [Fallible.ensure, if_pos (Signed.targets.inj hsame ▸ hsome)] at herror
    cases herror
  have hlisted := Fallible.ensure_eq_ok.mp hlisted
  refine .lift_cases (fun e herror => ?_) fun pointer hpointer => ?_
  · refine (hR.imp_left fun h => h s hs).resolve_right fun h => ?_
    obtain ⟨-, ⟨pointer, hpointer⟩, -⟩ := h
    rw [hpointer] at herror
    cases herror
  have hpointer := Fallible.mapError_eq_ok.mp hpointer
  refine .bind (publishTarget_performed hs hlists hmem
    (hR.imp_right fun h => ⟨.inl (hcan h).1, (hcan h).2.1, fun _ hwrote =>
      hwrote.canPublish h.2.2.2 happ (.inl (hcan h).1)⟩)
    (hK role pointer hrole hpointer))
    fun _ s' h => .pure ⟨role, pointer, hrole, hpointer, h.1, hmem, fun hzero => ?_, fun hseen => ?_,
      h.2⟩
  · rw [Instance.openRole, if_pos hzero] at hpublished
    obtain rfl := Except.ok.inj hpublished
    rw [Metadata.initial, initial_targets (.inr happ)] at htargets
    obtain rfl := Signed.targets.inj htargets
    cases hlisted
  have hsame := hopened hseen
  cases hheld : held s.dir role with
  | none =>
    rw [hheld] at hsame
    obtain rfl := Signed.targets.inj hsame
    cases hlisted
  | some signed =>
    rw [hheld, Option.getD_some] at hsame
    exact ⟨targets, congrArg some hsame, hlisted⟩

/-- The first version of the top-level targets. -/
def founding : Effect β where
  content role content := if role = TARGETS then edited id content else content

/-- The change `initialize` makes to the root. -/
def rootChange (backend : SignerBackend) (md : Metadata) :
    Except RepositoryError (Option Signed) :=
  match md.signed with
  | .root root => do
    let root ← (TOP_LEVEL_POLICIES.map (·.2)).foldlM (rootWithRole backend)
      { root with consistentSnapshot := true }
    return some (.root root)
  | _ => .error .AssertionError

theorem rootChange_eq_ok {backend : SignerBackend} {md : Metadata} {signed : Option Signed}
    (h : rootChange backend md = .ok signed) : ∃ root, signed = some (.root root) := by
  unfold rootChange at h
  split at h
  · obtain ⟨root, -, h⟩ := Fallible.bind_eq_ok.mp h
    exact ⟨root, (Except.ok.inj h).symm⟩
  · cases h

/-- `initialize` cannot fail. -/
structure CanFound (s : Session β) : Prop where
  fresh : s.repo.version ROOT = 0
  root : Goes s ROOT (rootChange s.repo.backend)
  targets : Keyed TARGETS s

theorem initialise_performed (hs : Informed s) (hlists : ListsReported out.tuf)
    (hR : (∀ s', Informed s' → R s') ∨ CanFound s ∧ Equipped out s)
    (hK : ∀ stored done dir, Progress founding stored done s.dir dir →
      dir = s.dir ∨ (lastOf ROOT dir.log).isSome → K dir) :
    (initialise out).Ensures s
      (fun _ s' => Performed founding s s' ∧ CanFound s ∧ Keyed SNAPSHOT s ∧ Keyed TIMESTAMP s)
      R (fun s' => K s'.dir) := by
  have hrefl : Progress founding false [] s.dir s.dir := .refl hs.recorded
  have hroot {signed : Signed} {dir : Directory β} (hx : Extended ROOT signed s.dir dir) :
      Progress founding false [ROOT] s.dir dir :=
    hrefl.extended hx fun hlisted => absurd hlisted.targets fun h =>
      h.elim (by decide) fun happ => happ.ne (by decide) rfl
  have hfounded {signed : Signed} {dir : Directory β} (hx : Extended ROOT signed s.dir dir) :
      (lastOf ROOT dir.log).isSome := by
    obtain ⟨md, hlast, -⟩ := hx.lastOf_self
    rw [hlast]
    rfl
  refine .read_bind (.lift_cases (fun e herror => ?_) fun _ hfresh => ?_)
  · refine (hR.imp_left fun h => h s hs).resolve_right fun ⟨hcan, _⟩ => ?_
    rw [Fallible.ensure, if_pos hcan.fresh] at herror
    cases herror
  have hfresh := Fallible.ensure_eq_ok.mp hfresh
  refine .bind (edit_added hs.toReads
    (fun md signed _ hsigned => ?_) (hR.imp (fun h => h s hs) fun h => h.1.root)) ?_
  · obtain ⟨root, hroot'⟩ := rootChange_eq_ok hsigned
    obtain rfl := Option.some.inj hroot'
    exact ⟨⟨rfl, fun h => absurd h (by decide), fun _ h => absurd h List.not_mem_nil,
      fun _ h => absurd h List.not_mem_nil, nofun, nofun⟩,
      hK _ _ _ hrefl (.inl rfl), fun _ dir hx => hK _ _ _ (hroot hx) (.inr (hfounded hx))⟩
  rintro - s₁ ⟨md, hopen, ⟨hskip, -⟩ | ⟨signed, hchange, hkeyed, hadded⟩⟩
  · obtain ⟨root, hroot'⟩ := rootChange_eq_ok hskip
    cases hroot'
  have hsame := hadded.delegated_of_ne (by decide)
  have hs₁ := hadded.informed hs hsame
  have hprogress := hroot hadded.toExtended
  refine .bind (editTargets_added hs₁.toReads (.inl rfl) unchanged_of_signed (.id _)
    (hR.imp (fun h => h s₁ hs₁) fun h =>
      ⟨.inl seen_targets, (hadded.keyed_iff _).mpr h.1.targets⟩)
    (hK _ _ _ hprogress (.inr (hfounded hadded.toExtended)))) ?_
  rintro - s₂ ⟨hkeyed₁, signed₂, hadded₂, ⟨targets, rfl, hbefore⟩, hsigned⟩
  have hsame₂ : delegated s₂.dir.log = delegated s₁.dir.log := by
    rw [hadded₂.toExtended.delegated, if_pos rfl, hbefore rfl]
    rfl
  have hs₂ := hadded₂.informed hs₁ hsame₂
  have hprogress₂ := hprogress.extended hadded₂.toExtended fun hrole => by
    rw [hsigned hrole.seen, hprogress.held_of_not_mem hrole (by decide)]
    rfl
  obtain ⟨md₂, hlast, -, hversion⟩ := hadded₂.toExtended.lastOf_self
  refine (publish_performed hs₂ (by rw [hlast]; rfl) hlists hprogress₂
    (hadded₂.backend.trans hadded.backend) nofun (fun other content _ hother => ?_)
    (hR.imp_right fun h => (hadded₂.equipped (hadded.equipped h.2 (by decide) (.inl (by decide))
      fun name hname => .inl (hsame ▸ hname)) (by decide) (.inl seen_targets)
        fun name hname => .inl (hsame₂ ▸ hname)).canPublish)
    fun dir hdir hend => hK _ _ dir hend (.inr ?_)).mono ?_
  · exact if_neg fun heq => hother (List.mem_cons.mpr (.inl heq))
  · obtain ⟨newer, hnewer⟩ := hadded₂.since.trans hdir.since
    rw [← hnewer]
    exact isSome_append (hfounded hadded.toExtended)
  · rintro - s₃ ⟨hperformed, hkeys⟩
    have hstale : ¬ Snapshotted s₂.dir.log := not_snapshotted_of_newer hs₁.recorded.entered
      (hadded₂.toExtended.lastOf_of_ne (by decide)) seen_targets (.inl rfl) hlast
      (by rw [hversion seen_targets]; exact Nat.lt_succ_self _)
    have hkeyed' (top : String) : Keyed top s₂ ↔ Keyed top s :=
      (hadded₂.keyed_iff top).trans (hadded.keyed_iff top)
    obtain ⟨hsnapshot, htimestamp⟩ := hkeys.resolve_right fun h => hstale h.1
    exact ⟨hperformed, ⟨hfresh, ⟨md, some signed, hopen, hchange, fun _ => hkeyed⟩,
      (hadded.keyed_iff _).mp hkeyed₁⟩, (hkeyed' _).mp hsnapshot, (hkeyed' _).mp htimestamp⟩

/-! ## Every operation -/

/-- What an operation does, where its arguments are valid. -/
def Call.effect (out : Outside β) (backend : SignerBackend) : Call β → Option (Effect β)
  | .initialise => some founding
  | .addApp appId critical => do
    let policy ← (appRolePolicy appId critical).toOption
    return delegating backend policy appId
  | .addRelease key payload info => do
    let role ← (appRoleName key.appId).toOption
    return listing out role key.path payload info
  | .setCurrent key => do
    let role ← (appRoleName key.appId).toOption
    let pointer ← (CurrentRelease.make key.path key.version).toOption
    return listing out role key.channelKey.pointerPath (out.dumps pointer.toJson)
      (pointerInfo key)

/-- An operation founds the repository, delegates to an application, or lists a payload in the
role of one. -/
inductive EffectCases (out : Outside β) (backend : SignerBackend) : Call β → Effect β → Prop
  | founding : EffectCases out backend .initialise founding
  | delegating {appId : String} {critical : Bool} {policy : RolePolicy}
      (valid : appRolePolicy appId critical = .ok policy) :
      EffectCases out backend (.addApp appId critical) (delegating backend policy appId)
  | release {key : TargetKey} {payload : β} {info : ReleaseInfo} {role : String}
      (valid : appRoleName key.appId = .ok role) :
      EffectCases out backend (.addRelease key payload info) (listing out role key.path payload info)
  | pointer {key : TargetKey} {role : String} {pointer : CurrentRelease}
      (valid : appRoleName key.appId = .ok role) :
      EffectCases out backend (.setCurrent key) (listing out role key.channelKey.pointerPath
        (out.dumps pointer.toJson) (pointerInfo key))

theorem eq_ok_of_toOption {ε α : Type} {r : Except ε α} {a : α} (h : r.toOption = some a) :
    r = .ok a := by
  cases r with
  | ok b => exact congrArg _ (Option.some.inj h)
  | error e => cases h

theorem effect_cases {call : Call β} {backend : SignerBackend} {e : Effect β}
    (h : call.effect out backend = some e) : EffectCases out backend call e := by
  cases call with
  | initialise =>
    obtain rfl := Option.some.inj h
    exact .founding
  | addApp appId critical =>
    obtain ⟨policy, hpolicy, h⟩ := Option.bind_eq_some_iff.mp h
    obtain rfl := Option.some.inj h
    exact .delegating (eq_ok_of_toOption hpolicy)
  | addRelease key payload info =>
    obtain ⟨role, hrole, h⟩ := Option.bind_eq_some_iff.mp h
    obtain rfl := Option.some.inj h
    exact .release (eq_ok_of_toOption hrole)
  | setCurrent key =>
    obtain ⟨role, hrole, h⟩ := Option.bind_eq_some_iff.mp h
    obtain ⟨pointer, -, h⟩ := Option.bind_eq_some_iff.mp h
    obtain rfl := Option.some.inj h
    exact .pointer (eq_ok_of_toOption hrole)

/-- The application an operation is about. -/
def Call.appId : Call β → Option String
  | .initialise => none
  | .addApp appId _ => some appId
  | .addRelease key _ _ | .setCurrent key => some key.appId

/-- The operation is about the application of this role. -/
def Call.Own (call : Call β) (role : String) : Prop :=
  ∃ appId ∈ call.appId, appRoleName appId = .ok role

/-- The target that an operation lists in the role of its application. -/
def Call.targetPath : Call β → Option String
  | .initialise | .addApp _ _ => none
  | .addRelease key _ _ => some key.path
  | .setCurrent key => some key.channelKey.pointerPath

/-- The operation is not about an application of whose role a fresh instance misses a file. -/
def Call.Finds (s : Session β) (call : Call β) : Prop :=
  ∀ role, call.Own role → Seen role ∨ Begins role s ∧ ∀ key, call ≠ .setCurrent key

/-- What it takes to publish is there, or the operation does without. -/
def Call.CanPublish (out : Outside β) (s : Session β) (call : Call β) : Prop :=
  Equipped out s ∨ call.targetPath.isSome ∧
    ∀ role, call.Own role → ¬ Seen role ∧ ∀ s', WroteNext role s s' → Core.CanPublish out s'

/-- The operation's arguments are valid for the repository as it is, and its keys are there. -/
def Call.Can (s : Session β) : Call β → Prop
  | .initialise => CanFound s
  | .addApp appId critical => Keyed TARGETS s ∧
      ∃ policy, appRolePolicy appId critical = .ok policy ∧
        s.repo.backend.keyids policy.name ≠ []
  | .addRelease key _ info => info.version = key.version ∧ CanList key.appId s
  | .setCurrent key => (∃ role, appRoleName key.appId = .ok role ∧ role ∈ s.repo.appRoles ∧
      Keyed role s ∧ (Seen role → Lists (held s.dir role) key.path)) ∧
      ∃ pointer, CurrentRelease.make key.path key.version = .ok pointer

/-- What an operation does on the way, when it fails, and when it returns. -/
theorem perform_performed (hs : Informed s) (hlists : ListsReported out.tuf) (call : Call β)
    (hR : (∀ s', Informed s' → R s') ∨ call.Can s ∧ call.Finds s ∧ call.CanPublish out s)
    (hstart : K s.dir)
    (hK : ∀ e, call.effect out s.repo.backend = some e → ∀ stored done dir,
      Progress e stored done s.dir dir → K dir) :
    (call.perform out).Ensures s
      (fun _ s' => ∃ e, call.effect out s.repo.backend = some e ∧ Performed e s s' ∧ call.Can s ∧
        (∀ key, call = .setCurrent key → ∀ role, call.Own role → s.repo.version role ≠ 0) ∧
        (Keyed SNAPSHOT s ∧ Keyed TIMESTAMP s ∨ call.targetPath.isSome ∧
          ∃ role, call.Own role ∧ ¬ Seen role ∧ Repeats out role s))
      R (fun s' => K s'.dir) := by
  cases call with
  | initialise =>
    refine (initialise_performed hs hlists (hR.imp_right fun h =>
      ⟨h.1, h.2.2.resolve_right fun h => (by cases h.1)⟩)
      fun stored done dir h _ => hK founding rfl stored done dir h).mono ?_
    rintro - s' ⟨hperformed, hcan, hkeys⟩
    exact ⟨_, rfl, hperformed, hcan, fun _ heq => (by cases heq), .inl hkeys⟩
  | addApp appId critical =>
    refine .bind (addApp_performed hs hlists (hR.imp_right ?_) (fun policy hpolicy => hK _ ?_)
      hstart) ?_
    · rintro ⟨⟨htargets, policy, hpolicy, hkeys⟩, hfinds, hpublish⟩
      have hequipped := hpublish.resolve_right fun h => (by cases h.1)
      have hfound := (hfinds policy.name ⟨appId, rfl, (appRolePolicy_eq_ok hpolicy).1⟩).imp_right
        And.left
      exact ⟨hequipped, htargets, policy, hpolicy, hfound, hkeys⟩
    · simp [Call.effect, hpolicy, Except.toOption]
    · rintro - s' ⟨policy, hpolicy, hperformed, hkeys, htargets, hkeyed⟩
      refine .pure ⟨_, ?_, hperformed, ⟨htargets, policy, hpolicy, hkeys⟩,
        fun _ heq => (by cases heq), .inl hkeyed⟩
      simp [Call.effect, hpolicy, Except.toOption]
  | addRelease key payload info =>
    refine .bind (addRelease_performed hs hlists (hR.imp_right ?_) fun role hrole => hK _ ?_) ?_
    · rintro ⟨hcan, hfinds, hpublish⟩
      refine ⟨hcan.1, hcan.2, fun role hrole => ?_⟩
      have hfound := (hfinds role ⟨key.appId, rfl, hrole⟩).imp_right And.left
      exact ⟨hfound, fun s' hwrote => hpublish.elim
        (fun hequipped => hwrote.canPublish hequipped ⟨_, hrole⟩ hfound)
        fun h => (h.2 role ⟨key.appId, rfl, hrole⟩).2 s' hwrote⟩
    · simp [Call.effect, hrole, Except.toOption]
    · rintro - s' ⟨role, hrole, hperformed, hversion, hmem, hkeyed, hkeys⟩
      refine .pure ⟨_, ?_, hperformed, ⟨hversion, role, hrole, hmem, hkeyed⟩,
        fun _ heq => (by cases heq), hkeys.imp_right fun h => ⟨rfl, role, ⟨key.appId, rfl, hrole⟩, h⟩⟩
      simp [Call.effect, hrole, Except.toOption]
  | setCurrent key =>
    refine .bind (setCurrent_performed hs hlists (hR.imp_right ?_)
      fun role pointer hrole hpointer => hK _ ?_) ?_
    · rintro ⟨⟨⟨role, hrole, hmem, hkeyed, hlisted⟩, hpointer⟩, hfinds, hpublish⟩
      have hseen := (hfinds role ⟨key.appId, rfl, hrole⟩).resolve_right fun h => h.2 key rfl
      exact ⟨⟨role, hrole, hmem, hkeyed, hlisted hseen⟩, hpointer, (seen_of_appId hrole).mp hseen,
        hpublish.resolve_right fun h => (h.2 role ⟨key.appId, rfl, hrole⟩).1 hseen⟩
    · simp [Call.effect, hrole, hpointer, Except.toOption]
    · rintro - s' ⟨role, pointer, hrole, hpointer, hperformed, hmem, hnew, hlisted, hkeyed, hkeys⟩
      refine .pure ⟨_, ?_, hperformed, ⟨⟨role, hrole, hmem, hkeyed, hlisted⟩, pointer, hpointer⟩,
        fun _ _ other hown => ?_,
        hkeys.imp_right fun h => ⟨rfl, role, ⟨key.appId, rfl, hrole⟩, h⟩⟩
      · simp [Call.effect, hrole, hpointer, Except.toOption]
      · obtain ⟨appId, happ, hother⟩ := hown
        obtain rfl := Option.some.inj happ
        obtain rfl := Except.ok.inj (hrole.symm.trans hother)
        exact hnew

end Operations

end DistPlatform.Core
