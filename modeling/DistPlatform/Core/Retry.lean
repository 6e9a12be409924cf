import DistPlatform.Core.Overlooked

/-!
# Running an operation again

An operation is killed at one of its writes; a fresh instance is opened and the operation run
again. Its edits write the content they find over once more, so the second run ends where an
uninterrupted one would have. The first ceremony cannot be begun again, and a role whose files
the fresh instance does not find begins anew.

## Main definitions

* `announced`, `view` — what the published timestamp leads to, and what a client is served.
* `Retries` — the second run succeeds, and serves the same.
* `Redoes` — beginning the operation's own role anew loses nothing.
-/

namespace DistPlatform.Core

open DistPlatform
open Runs History

/-! ## What is served -/

def Signed.snapshotVersion : Signed → Option Nat
  | .timestamp version => some version
  | _ => none

def Signed.asTargets : Signed → Option Targets
  | .targets content => some content
  | _ => none

/-- The content of a role that the published timestamp names through its snapshot. -/
def announced {β : Type} (dir : Directory β) (role : String) : Option Targets := do
  let timestamp ← dir.metadata.get "timestamp.json"
  let version ← timestamp.signed.snapshotVersion
  let snapshot ← dir.metadata.get (filename SNAPSHOT version)
  let version ← snapshot.signed.metas.get (role ++ ".json")
  let md ← dir.metadata.get (filename role version)
  md.signed.asTargets

/-- Targets as the mappings they are. -/
structure Shown where
  targets : String → Option TargetFile
  delegations : Option ((String → Option String) × (String → Option DelegatedRole))

def Targets.shown (targets : Targets) : Shown where
  targets := targets.targets.get
  delegations := targets.delegations.map fun delegations =>
    (delegations.keys.get, delegations.roles.get)

/-- Targets with the payloads stored for them. -/
structure Served (β : Type) where
  targets : String → Option (TargetFile × Option β)
  delegations : Option ((String → Option String) × (String → Option DelegatedRole))

def Shown.served {β : Type} (shown : Shown) (payloads : Table String β) : Served β where
  targets path := (shown.targets path).map fun file =>
    (file, payloads.get (payloadPath path file.sha256))
  delegations := shown.delegations

/-- What a client is served for a role: version numbers are not in it. -/
def view {β : Type} (dir : Directory β) (role : String) : Option (Served β) :=
  (announced dir role).map fun targets => targets.shown.served dir.payloads

/-- A fresh instance over `dir` runs the operation to its end, and then serves what is served
from `uninterrupted`. -/
def Retries {β : Type} (out : Outside β) (backend : SignerBackend) (call : Call β)
    (dir uninterrupted : Directory β) : Prop :=
  ∃ repo n s rest, Instance.new backend dir = .ok repo ∧
    call.perform out ⟨repo, dir⟩ n = .returned () s rest ∧ view s.dir = view uninterrupted

/-- Nothing is lost where a fresh instance takes the operation's own role for an empty one. -/
structure Redoes {β : Type} (call : Call β) (s : Session β) (dir : Directory β) (role : String) :
    Prop where
  current : ∀ key, call ≠ .setCurrent key
  entry : ∀ version, entry dir role = some version → version ≤ 1
  content : ∀ md targets, s.opens role = .ok md → md.signed = .targets targets →
    targets.delegations = none ∧ ∀ path, call.targetPath ≠ some path → targets.targets.get path = none

def shownOf (content : Option Signed) : Option Shown :=
  (content.bind Signed.asTargets).map Targets.shown

section View

variable {β : Type} {dir dir' : Directory β} {role : String}

theorem Recorded.stored_last (h : Recorded dir) {md : Metadata}
    (hlast : lastOf role dir.log = some md) :
    dir.metadata.get (filename role md.version) = some md := by
  rw [h.stored]
  exact lookup_lastOf (h.entered.mono fun _ _ => Entered.named) hlast

/-- What is announced of a role is the file that the last snapshot names. -/
theorem announced_entry (h : Recorded dir) (hannounced : Announced dir.log) (role : String) :
    announced dir role = (entry dir role).bind fun version =>
      (dir.metadata.get (filename role version)).bind fun md => md.signed.asTargets := by
  obtain ⟨timestamp, snapshot, htimestamp, hsnapshot, hsigned, -⟩ := hannounced
  have htimestamp : dir.metadata.get "timestamp.json" = some timestamp := h.stored_last htimestamp
  simp only [announced, entry, htimestamp, hsigned, Signed.snapshotVersion, hsnapshot,
    h.stored_last hsnapshot, Option.bind_eq_bind, Option.bind_some]

/-- What is announced is the last content of the roles there are. -/
theorem announced_eq (h : Recorded dir) (hannounced : Announced dir.log) (hseen : Seen role) :
    announced dir role = if role = TARGETS ∨ role ∈ delegated dir.log then
      (held dir role).bind Signed.asTargets else none := by
  rw [announced_entry h hannounced]
  obtain ⟨-, snapshot, -, hsnapshot, -, hnames⟩ := hannounced
  rw [entry, hsnapshot, Option.bind_some]
  cases hget : snapshot.signed.metas.get (role ++ ".json") with
  | none =>
    split
    next hrole =>
      cases hlast : lastOf role dir.log with
      | none => rw [held, hlast]; rfl
      | some md => cases hget.symm.trans (hnames.all role hseen hrole md hlast)
    · rfl
  | some version =>
    obtain ⟨other, hother, hrole, hlast⟩ := hnames.only _ _ hget
    obtain rfl := snapshotFile_injective hother
    obtain ⟨md, hmd, rfl⟩ := hlast hseen
    rw [if_pos hrole, Option.bind_some, h.stored_last hmd, held, hmd]
    rfl

/-- The applications, by what is shown of the top-level targets. -/
def Shown.delegates (shown : Option Shown) (role : String) : Bool :=
  match shown.bind Shown.delegations with
  | some (_, roles) => (roles role).isSome
  | none => false

theorem delegates_iff {content : Option Signed} :
    Shown.delegates (shownOf content) role = true ↔
      ∃ signed, content = some signed ∧ role ∈ signed.delegates := by
  cases content with
  | none => simp [shownOf, Shown.delegates]
  | some signed =>
    cases signed with
    | targets content =>
      obtain ⟨files, _ | ⟨keys, roles⟩⟩ := content
      · simp [shownOf, Shown.delegates, Signed.delegates, Signed.asTargets, Targets.shown]
      · simp only [Signed.delegates, shownOf, Option.map_some, Option.bind_some, Signed.asTargets,
          Targets.shown, Shown.delegates, Option.some.injEq, exists_eq_left']
        rw [Table.isSome_get]
    | _ => simp [shownOf, Shown.delegates, Signed.delegates, Signed.asTargets]

theorem mem_delegated_iff :
    role ∈ delegated dir.log ↔ Shown.delegates (shownOf (held dir TARGETS)) role = true := by
  rw [delegates_iff]
  unfold delegated held
  cases lastOf TARGETS dir.log with
  | none => simp
  | some md => simp

theorem announced_congr (h : Recorded dir) (h' : Recorded dir') (hannounced : Announced dir.log)
    (hannounced' : Announced dir'.log) (hentry : entry dir role = entry dir' role)
    (hfiles : ∀ version, dir.metadata.get (filename role version) =
      dir'.metadata.get (filename role version)) : announced dir role = announced dir' role := by
  rw [announced_entry h hannounced, announced_entry h' hannounced', hentry]
  simp only [hfiles]

/-- Two directories that show the same in every role that is seen, and in what is announced of the
others, serve the same. -/
theorem view_congr (h : Recorded dir) (h' : Recorded dir') (hannounced : Announced dir.log)
    (hannounced' : Announced dir'.log)
    (hshown : ∀ name, Listed name → shownOf (held dir name) = shownOf (held dir' name))
    (hmissed : ∀ name, Missed name →
      (announced dir name).map Targets.shown = (announced dir' name).map Targets.shown)
    (hpayloads : ∀ path, dir.payloads.get path = dir'.payloads.get path) :
    view dir = view dir' := by
  have hserved (shown : Shown) : shown.served dir.payloads = shown.served dir'.payloads := by
    simp only [Shown.served, hpayloads]
  have hview {content content' : Option Targets}
      (hsame : content.map Targets.shown = content'.map Targets.shown) :
      (content.map fun targets => targets.shown.served dir.payloads) =
        content'.map fun targets => targets.shown.served dir'.payloads := by
    have hsame := congrArg (Option.map (Shown.served · dir.payloads)) hsame
    simp only [Option.map_map] at hsame
    refine hsame.trans ?_
    congr 1
    exact funext fun content => hserved _
  funext role
  refine hview ?_
  by_cases hseen : Seen role
  · have hdelegated : role ∈ delegated dir.log ↔ role ∈ delegated dir'.log := by
      rw [mem_delegated_iff, mem_delegated_iff, hshown TARGETS ⟨seen_targets, .inl rfl⟩]
    rw [announced_eq h hannounced hseen, announced_eq h' hannounced' hseen]
    by_cases hrole : role = TARGETS ∨ role ∈ delegated dir.log
    · have hlisted : Listed role :=
        ⟨hseen, hrole.imp_right (appRole_of_delegated h.entered)⟩
      rw [if_pos hrole, if_pos (hrole.imp_right hdelegated.mp)]
      exact hshown role hlisted
    · rw [if_neg hrole, if_neg fun h => hrole (h.imp_right hdelegated.mpr)]
  · exact hmissed role hseen

end View

/-! ## Twice is once -/

section Twice

variable {β : Type} {out : Outside β} {backend : SignerBackend}

/-- Made twice, the change shows as made once. -/
def Settles (f : Targets → Targets) : Prop := ∀ content, (f (f content)).shown = (f content).shown

theorem Settles.twice {f : Targets → Targets} (hf : Settles f) (content : Option Signed) :
    shownOf (edited f (edited f content)) = shownOf (edited f content) := by
  unfold edited
  cases content.getD (.targets ⟨[], none⟩) with
  | targets targets => exact congrArg some (hf targets)
  | _ => rfl

theorem settles_id : Settles id := fun _ => rfl

theorem settles_put (path : String) (file : TargetFile) :
    Settles fun content => { content with targets := content.targets.put path file } := by
  intro content
  simp only [Targets.shown, Shown.mk.injEq, and_true]
  funext other
  simp only [Table.get_put]
  split <;> rfl

theorem settles_delegate (policy : RolePolicy) (appId : String) (keyids : List String) :
    Settles (delegate backend policy appId keyids) := by
  intro content
  simp only [Targets.shown, delegate, Option.getD_some, Option.map_some, Shown.mk.injEq, true_and,
    Option.some.injEq, Prod.mk.injEq]
  refine ⟨funext fun keyid => ?_, funext fun role => ?_⟩
  · simp only [Table.get_foldl_put]
    split <;> rfl
  · simp only [Table.get_put]
    split <;> rfl

/-- Every operation's effect on a role, made twice, shows as made once. -/
theorem effect_twice {call : Call β} {e : Effect β} (he : call.effect out backend = some e)
    (role : String) (content : Option Signed) :
    shownOf (e.content role (e.content role content)) = shownOf (e.content role content) := by
  have hlisting (other path : String) (payload : β) (info : ReleaseInfo) :
      shownOf ((listing out other path payload info).content role
        ((listing out other path payload info).content role content)) =
      shownOf ((listing out other path payload info).content role content) := by
    simp only [listing]
    split
    · exact (settles_put _ _).twice content
    · rfl
  cases effect_cases he with
  | founding =>
    simp only [founding]
    split
    · exact settles_id.twice content
    · rfl
  | delegating =>
    simp only [delegating]
    split
    · exact (settles_delegate _ _ _).twice content
    · split
      · exact settles_id.twice content
      · rfl
  | release | pointer => exact hlisting _ _ _ _

theorem payloads_twice (e : Effect β) (payloads : Table String β) (path : String) :
    (e.payloads (e.payloads payloads)).get path = (e.payloads payloads).get path := by
  unfold Effect.payloads
  split
  · rfl
  · simp only [Table.get_put]
    split <;> rfl

end Twice

/-! ## The writes of an operation -/

section Bounds

variable {β : Type} (out : Outside β)

theorem writeMetadata_bounded (role : String) (version : Nat) (md : Metadata) :
    (writeMetadata role version md : Work β Unit).Bounded 2 := by
  refine .bind (.write _) fun _ => ?_
  split
  · exact .write _
  · exact (Process.Bounded.pure ()).mono (Nat.zero_le 1)

theorem close_bounded (role : String) (md : Metadata) : (close out role md).Bounded 2 := by
  refine .bind .read fun s => ?_
  split
  · exact (Process.Bounded.raise _).mono (Nat.zero_le 2)
  · dsimp only
    split
    · exact (Process.Bounded.raise _).mono (Nat.zero_le 2)
    · exact .bind (writeMetadata_bounded _ _ _) fun _ => .update _

theorem edit_bounded (role : String)
    (change : Metadata → Except RepositoryError (Option Signed)) :
    (edit out role change).Bounded 2 := by
  refine .bind .read fun s => .bind (.lift _) fun md => .bind (.lift _) fun result => ?_
  cases result with
  | none => exact (Process.Bounded.pure ()).mono (Nat.zero_le 2)
  | some signed => exact close_bounded out role _

theorem publish_bounded : (publish out).Bounded 4 :=
  .bind (.bind .read fun _ => edit_bounded out SNAPSHOT _) fun _ =>
    .bind .read fun _ => edit_bounded out TIMESTAMP _

theorem publishTarget_bounded (role path : String) (payload : β) (info : ReleaseInfo) :
    (publishTarget out role path payload info).Bounded 7 :=
  .bind (.write _) fun _ => .bind (edit_bounded out role _) fun _ => publish_bounded out

theorem delegatedRole_bounded (appId : String) :
    (delegatedRole appId : Work β String).Bounded 0 :=
  .bind (.lift _) fun _ => .bind .read fun _ => .bind (.lift _) fun _ => .pure _

theorem setCurrent_bounded (key : TargetKey) : (setCurrent out key).Bounded 7 := by
  refine .bind (delegatedRole_bounded _) fun role => .bind .read fun s => .bind (.lift _)
    fun published => ?_
  split
  · exact .bind (.lift _) fun _ => .bind (.lift _) fun pointer =>
      .bind (publishTarget_bounded out _ _ _ _) fun _ => .pure _
  · exact (Process.Bounded.raise _).mono (Nat.zero_le 7)

/-- Every operation ends after eight writes at most. -/
theorem perform_bounded (call : Call β) : (call.perform out).Bounded 8 := by
  cases call with
  | initialise =>
    exact .bind .read fun _ => .bind (.lift _) fun _ => .bind (edit_bounded out ROOT _) fun _ =>
      .bind (edit_bounded out TARGETS _) fun _ => publish_bounded out
  | addApp appId critical =>
    refine .bind (?_ : (addApp out appId critical).Bounded 8) fun _ => .pure ()
    exact .bind (.lift _) fun _ => .bind (.update _) fun _ => .bind .read fun _ =>
      .bind (.lift _) fun _ => .bind (edit_bounded out TARGETS _) fun _ => .bind (.update _)
        fun _ => .bind (edit_bounded out _ _) fun _ => .bind (publish_bounded out) fun _ => .pure _
  | addRelease key payload info =>
    refine Process.Bounded.mono (k := 7) (.bind (?_ : (addRelease out key payload info).Bounded 7)
      fun _ => .pure ()) (by decide)
    exact .bind (.lift _) fun _ => .bind (delegatedRole_bounded _) fun _ =>
      .bind (publishTarget_bounded out _ _ _ _) fun _ => .pure _
  | setCurrent key =>
    exact Process.Bounded.mono (k := 7) (.bind (setCurrent_bounded out key) fun _ => .pure ())
      (by decide)

end Bounds

/-! ## The second run -/

section Again

variable {β : Type} {out : Outside β} {backend : SignerBackend} {call : Call β} {e : Effect β}
  {s s' : Session β} {content : Option Signed} {role path : String}

/-- Where the operation cannot fail, it returns. -/
theorem perform_returns (hs : Informed s) (hlists : ListsReported out.tuf) (hcan : call.Can s)
    (hfinds : call.Finds s) (hpublish : call.CanPublish out s) :
    ∃ n s' rest e, call.perform out s n = .returned () s' rest ∧
      call.effect out s.repo.backend = some e ∧ Performed e s s' := by
  obtain ⟨_, s', rest, hreturned, e, he, hperformed, -⟩ := (perform_performed
    (R := fun _ => False) (K := fun _ => True) hs hlists call (.inr ⟨hcan, hfinds, hpublish⟩)
    trivial fun _ _ _ _ _ _ => trivial).returns (perform_bounded out call)
  exact ⟨_, s', rest, e, hreturned, he, hperformed⟩

theorem Keyed.top (h : Keyed role s) (hs : Informed s) (hs' : Informed s')
    (hbackend : s'.repo.backend = s.repo.backend) {policy : RolePolicy}
    (hrow : (role, policy) ∈ TOP_LEVEL_POLICIES) : Keyed role s' := by
  obtain ⟨known, hknown, henough⟩ := h
  obtain rfl := Option.some.inj ((hs.topPolicies _ hrow).symm.trans hknown)
  exact ⟨policy, hs'.topPolicies _ hrow, hbackend ▸ henough⟩

theorem Keyed.app (h : Keyed role s) (hs : Informed s) (hs' : Informed s')
    (hbackend : s'.repo.backend = s.repo.backend) (hrole : role ∈ s.repo.appRoles)
    (hrole' : role ∈ s'.repo.appRoles) : Keyed role s' := by
  obtain ⟨known, hknown, henough⟩ := h
  obtain ⟨policy, hpolicy, hone⟩ := hs.appPolicies role hrole
  obtain ⟨policy', hpolicy', hone'⟩ := hs'.appPolicies role hrole'
  obtain rfl := Option.some.inj (hpolicy.symm.trans hknown)
  exact ⟨policy', hpolicy', by rw [hone', ← hone, hbackend]; exact henough⟩

theorem Lists.edited {f : Targets → Targets} (h : Lists content path)
    (hf : ∀ targets : Targets, (targets.targets.get path).isSome →
      ((f targets).targets.get path).isSome) : Lists (Core.edited f content) path := by
  obtain ⟨targets, rfl, hsome⟩ := h
  exact ⟨f targets, rfl, hf targets hsome⟩

/-- What is listed stays listed. -/
theorem Lists.effect (h : Lists content path) (he : call.effect out backend = some e)
    (role : String) : Lists (e.content role content) path := by
  have hlisting (other path' : String) (payload : β) (info : ReleaseInfo) :
      Lists ((listing out other path' payload info).content role content) path := by
    simp only [listing]
    split
    · refine h.edited fun targets hsome => ?_
      rw [Table.get_put]
      split
      · rfl
      · exact hsome
    · exact h
  cases effect_cases he with
  | founding =>
    simp only [founding]
    split
    · exact h.edited fun _ hsome => hsome
    · exact h
  | delegating =>
    simp only [delegating]
    split
    · exact h.edited fun _ hsome => hsome
    · split
      · exact h.edited fun _ hsome => hsome
      · exact h
  | release | pointer => exact hlisting _ _ _ _

/-- What the first run could do the second can, as long as there is still nothing to found. -/
theorem Call.Can.again (h : call.Can s) (hs : Informed s) (hs' : Informed s')
    (hbackend : s'.repo.backend = s.repo.backend)
    (hfresh : call = .initialise → s'.dir = s.dir)
    (hdelegated : delegated s.dir.log ⊆ delegated s'.dir.log)
    (hlisted : ∀ role path, Listed role → Lists (held s.dir role) path →
      Lists (held s'.dir role) path) : call.Can s' := by
  have hroles {role : String} (hmem : role ∈ s.repo.appRoles) : role ∈ s'.repo.appRoles :=
    (hs'.appRoles role).mpr (hdelegated ((hs.appRoles role).mp hmem))
  cases call with
  | initialise =>
    obtain ⟨hzero, ⟨md, signed, hopen, hchange, hkeyed⟩, htargets⟩ := h
    have hzero' : s'.repo.version ROOT = 0 := by
      rw [hs'.versions ROOT (by decide), hfresh rfl, ← hs.versions ROOT (by decide), hzero]
    obtain rfl : Metadata.initial ROOT = md := by
      rw [Instance.openRole, if_pos hzero] at hopen
      exact Except.ok.inj hopen
    exact ⟨hzero', ⟨_, signed, if_pos hzero', hbackend ▸ hchange,
      fun hsome => (hkeyed hsome).top hs hs' hbackend (.head _)⟩,
      htargets.top hs hs' hbackend (.tail _ (.head _))⟩
  | addApp appId critical =>
    obtain ⟨htargets, policy, hpolicy, hkeys⟩ := h
    exact ⟨htargets.top hs hs' hbackend (.tail _ (.head _)), policy, hpolicy, hbackend ▸ hkeys⟩
  | addRelease key payload info =>
    obtain ⟨hversion, role, hrole, hmem, hkeyed⟩ := h
    exact ⟨hversion, role, hrole, hroles hmem, hkeyed.app hs hs' hbackend hmem (hroles hmem)⟩
  | setCurrent key =>
    obtain ⟨⟨role, hrole, hmem, hkeyed, hlists⟩, hpointer⟩ := h
    exact ⟨⟨role, hrole, hroles hmem, hkeyed.app hs hs' hbackend hmem (hroles hmem),
      fun hseen => hlisted role _ ⟨hseen, .inr ⟨_, hrole⟩⟩ (hlists hseen)⟩, hpointer⟩

end Again

/-! ## The main result -/

section Main

variable {β : Type} {out : Outside β} {backend : SignerBackend} {call : Call β} {e : Effect β}
  {dir dir' : Directory β} {stored : Bool} {done : List String}

theorem Progress.lists (h : Progress e stored done dir dir') (he : call.effect out backend = some e)
    {role path : String} (hrole : Listed role) (hlists : Lists (held dir role) path) :
    Lists (held dir' role) path := by
  rw [h.content role hrole]
  split
  · exact hlists.effect he role
  · exact hlists

/-- From there, the second run shows what one run would have shown. -/
theorem Progress.shown (h : Progress e stored done dir dir') (he : call.effect out backend = some e)
    {role : String} (hrole : Listed role) :
    shownOf (e.content role (held dir' role)) = shownOf (e.content role (held dir role)) := by
  rw [h.content role hrole]
  split
  · exact effect_twice he role _
  · rfl

theorem Progress.payloads_again (h : Progress e stored done dir dir') (path : String) :
    (e.payloads dir'.payloads).get path = (e.payloads dir.payloads).get path := by
  rw [h.payloads]
  split
  · exact payloads_twice e _ path
  · rfl

/-- Once the root has been written, `initialize` does not return. -/
theorem not_founded_again {s s' : Session β} (hs : Informed s) (hlists : ListsReported out.tuf)
    (hroot : (lastOf ROOT s.dir.log).isSome) {n rest : Nat} :
    Call.initialise.perform out s n ≠ .returned () s' rest := by
  intro hrun
  have hend := perform_performed (R := fun _ => True) (K := fun _ => True) hs hlists .initialise
    (.inl fun _ _ => trivial) trivial (fun _ _ _ _ _ _ => trivial) n
  rw [hrun] at hend
  obtain ⟨-, -, -, hfound, -⟩ := hend
  obtain ⟨root, hroot⟩ := Option.isSome_iff_exists.mp hroot
  have hpos := lastVersion_pos_of_seen hs.recorded.entered (by decide) hroot
  have hzero := hfound.fresh
  rw [hs.versions ROOT (by decide), lastVersion_of_lastOf hroot] at hzero
  omega

/-- What is announced of a missed role of its own is what the operation made of it. -/
theorem Ran.announced {s s' : Session β} {role : String} {md : Metadata} (h : Ran out call e s s')
    (hcall : call.Own role) (hmissed : Missed role) (hopens : s.opens role = .ok md) :
    announced s'.dir role = (e.content role (some md.signed)).bind Signed.asTargets := by
  obtain ⟨-, -, other, md', hother, hget, heffect⟩ := h.wrote role hcall hmissed
  obtain rfl := Except.ok.inj (hopens.symm.trans hother)
  rw [announced_entry h.performed.informed.recorded h.performed.announced, h.entry hcall hmissed,
    Option.bind_some, hget, ← heffect e h.effect]
  rfl

theorem shown_empty_iff (targets : Targets) :
    (⟨[], none⟩ : Targets).shown = targets.shown ↔
      targets.delegations = none ∧ ∀ path, targets.targets.get path = none := by
  obtain ⟨files, delegations⟩ := targets
  simp only [Targets.shown, Shown.mk.injEq, funext_iff, Table.get_nil, Option.map_none,
    eq_comm (a := none), Option.map_eq_none_iff]
  exact and_comm

theorem shown_put_empty_iff (targets : Targets) (path : String) (file : TargetFile) :
    (⟨Table.put [] path file, none⟩ : Targets).shown =
        ({ targets with targets := targets.targets.put path file } : Targets).shown ↔
      targets.delegations = none ∧ ∀ other, path ≠ other → targets.targets.get other = none := by
  obtain ⟨files, delegations⟩ := targets
  simp only [Targets.shown, Shown.mk.injEq, funext_iff, Table.get_put, Table.get_nil,
    Option.map_none, eq_comm (a := none), Option.map_eq_none_iff]
  rw [and_comm]
  refine and_congr_right fun _ => forall_congr' fun other => ?_
  split
  next heq => simp [heq]
  next hne => simp [Ne.symm hne, eq_comm]

/-- The second run makes of an empty role what the operation makes of this one where it has nothing
to keep. -/
theorem effect_empty_iff {role : String} (he : call.effect out backend = some e)
    (hcall : call.Own role) (targets : Targets) :
    shownOf (e.content role (some (Signed.initial role))) =
        shownOf (e.content role (some (.targets targets))) ↔
      targets.delegations = none ∧
        ∀ path, call.targetPath ≠ some path → targets.targets.get path = none := by
  obtain ⟨appId, happ, hrole⟩ := hcall
  have hname : AppRole role := ⟨appId, hrole⟩
  have hempty : Signed.initial role = .targets ⟨[], none⟩ := initial_targets (.inr hname)
  have hlisting (path : String) (payload : β) (info : ReleaseInfo) :
      shownOf ((listing out role path payload info).content role (some (Signed.initial role))) =
          shownOf ((listing out role path payload info).content role (some (.targets targets))) ↔
        targets.delegations = none ∧
          ∀ other, path ≠ other → targets.targets.get other = none := by
    rw [hempty, ← shown_put_empty_iff targets path (targetFile out payload info)]
    simp only [listing, if_true, edited, Option.getD_some, shownOf, Option.bind_some,
      Signed.asTargets, Option.map_some, Option.some.injEq]
  cases effect_cases he with
  | founding => cases happ
  | delegating hvalid =>
    obtain rfl := Option.some.inj happ
    obtain rfl := Except.ok.inj (hrole.symm.trans (appRolePolicy_eq_ok hvalid).1)
    rw [hempty]
    simp only [delegating, if_neg (hname.ne (by decide) : _ ≠ TARGETS), if_true, edited,
      Option.getD_some, shownOf, Option.bind_some, Signed.asTargets, Option.map_some, id_eq,
      Option.some.injEq, shown_empty_iff, Call.targetPath]
    simp
  | release hvalid =>
    obtain rfl := Option.some.inj happ
    obtain rfl := Except.ok.inj (hrole.symm.trans hvalid)
    simpa [Call.targetPath] using hlisting _ _ _
  | pointer hvalid =>
    obtain rfl := Option.some.inj happ
    obtain rfl := Except.ok.inj (hrole.symm.trans hvalid)
    simpa [Call.targetPath] using hlisting _ _ _

/-- Content that is served alike is shown alike. -/
theorem shown_of_served {payloads payloads' : Table String β} {content content' : Option Targets}
    (h : (content.map fun targets => targets.shown.served payloads) =
      content'.map fun targets => targets.shown.served payloads') :
    content.map Targets.shown = content'.map Targets.shown := by
  let unserved (served : Served β) : Shown :=
    ⟨fun path => (served.targets path).map Prod.fst, served.delegations⟩
  have hunserved (shown : Shown) (payloads : Table String β) :
      unserved (shown.served payloads) = shown := by
    simp [unserved, Shown.served, Function.comp_def]
  simpa [Option.map_map, Function.comp_def, hunserved] using congrArg (Option.map unserved) h

/-- Where the second run of an operation serves what the first does, it has lost nothing of the
operation's own role. -/
theorem Ran.redoes {s s' s₁ s₂ : Session β} {e' : Effect β} {role : String}
    (first : Ran out call e s s') (again : Ran out call e' s₁ s₂)
    (hbackend : s₁.repo.backend = s.repo.backend) (hview : view s₂.dir = view s'.dir)
    (hcall : call.Own role) (hmissed : Missed role) (hzero : s₁.repo.version role = 0) :
    Redoes call s s₁.dir role := by
  have heffect := again.effect
  rw [hbackend] at heffect
  obtain rfl := Option.some.inj (first.effect.symm.trans heffect)
  refine ⟨fun key heq => again.current key heq role hcall hzero, fun version hentry => ?_,
    fun md targets hopens hsigned => ?_⟩
  · have hle := again.own role hcall hmissed version hentry
    rwa [hzero] at hle
  · have hempty : s₁.opens role = .ok (Metadata.initial role) := if_pos hzero
    have hserved := congrFun hview role
    rw [view, view, first.announced hcall hmissed hopens, again.announced hcall hmissed hempty,
      hsigned] at hserved
    exact (effect_empty_iff first.effect hcall targets).mp (shown_of_served hserved)

theorem Call.Own.unique {own other : String} (h : call.Own own) (h' : call.Own other) :
    own = other := by
  obtain ⟨appId, happ, hrole⟩ := h
  obtain ⟨appId', happ', hrole'⟩ := h'
  obtain rfl := Option.some.inj (happ.symm.trans happ')
  exact Except.ok.inj (hrole.symm.trans hrole')

/-- What the first run could publish without, the second can do without. -/
theorem Ran.again {s s' s₁ killed : Session β} (first : Ran out call e s s') (hs : Informed s)
    (hs₁ : Informed s₁) (hlists : ListsReported out.tuf) (hrefuses : RefusesRollback out.tuf)
    (hbackend : s₁.repo.backend = s.repo.backend) {m : Nat}
    (hkilled : call.perform out s m = .killed killed) (hdir : s₁.dir = killed.dir)
    (hzero : ∀ role, Missed role → s₁.repo.version role = 0) (hfinds : call.Finds s₁)
    (hbehind : ∀ role, call.Own role → Missed role → ¬ Behind role s) :
    call.CanPublish out s₁ := by
  have hadvances : Advances out s₁ :=
    ⟨hrefuses, fun role _ => (em (Seen role)).imp_right fun hmissed => .inl (hzero role hmissed)⟩
  have hrow : (TIMESTAMP, TIMESTAMP_POLICY) ∈ TOP_LEVEL_POLICIES :=
    .tail _ (.tail _ (.tail _ (.head _)))
  refine first.keyed.imp (fun hkeys => ⟨hadvances, ?_⟩) ?_
  · exact ⟨hkeys.1.top hs hs₁ hbackend (.tail _ (.tail _ (.head _))),
      hkeys.2.top hs hs₁ hbackend hrow⟩
  rintro ⟨htarget, role, hcall, hmissed, hrepeats⟩
  have ⟨hmem, s₂, hwrote, hstands, _⟩ := hrepeats
  have happ := appRole_of_informed hs hmem
  have hsame := perform_repeats hs hlists htarget hcall (fun s₃ hwrote' =>
    (Resumes.refl hs).stands hs hmem hwrote hwrote' hstands) m
  rw [hkilled] at hsame
  change ∀ other ≠ role, lastOf other killed.dir.log = lastOf other s.dir.log at hsame
  rw [← hdir] at hsame
  have hversion := hrepeats.version hs (hbehind role hcall hmissed)
  have hresumes : Resumes role s s₁ := .of_last hs hs₁ happ hsame hzero
    ((hzero role hmissed).trans hversion.symm)
  refine ⟨htarget, fun other hother => ?_⟩
  obtain rfl := hcall.unique hother
  refine ⟨hmissed, fun s₃ hwrote' => hrepeats.again hs hresumes ?_ ?_ hadvances ?_ hwrote'⟩
  · exact hsame TIMESTAMP (Ne.symm (happ.ne (by decide)))
  · exact fun hkeyed => hkeyed.top hs hs₁ hbackend hrow
  · exact (hfinds role hcall).imp_right And.left

/-- What the second `initialize` must find, the first overwrites with its first file. -/
theorem unfounded_of_again {s s₁ s₂ killed : Session β} (hs : Informed s) (hs₁ : Informed s₁)
    (hlists : ListsReported out.tuf) {m n rest : Nat}
    (hkilled : Call.initialise.perform out s m = .killed killed) (hdir : s₁.dir = killed.dir)
    (hrun : Call.initialise.perform out s₁ n = .returned () s₂ rest) : killed.dir = s.dir := by
  have hfound := initialise_performed (R := fun _ => True)
    (K := fun dir => dir = s.dir ∨ (lastOf ROOT dir.log).isSome) hs hlists
    (.inl fun _ _ => trivial) (fun _ _ _ _ h => h) m
  change (Call.initialise.perform out s m).Satisfies _ _ _ at hfound
  rw [hkilled] at hfound
  exact hfound.resolve_right fun hroot => not_founded_again hs₁ hlists (hdir ▸ hroot) hrun

/-- A role of its own that the operation redoes was not behind when it began. -/
theorem Redoes.not_behind {s killed : Session β} {role : String}
    (h : Redoes call s killed.dir role) (hs : Informed s) (hmissed : Missed role)
    (hkilled : Core.entry killed.dir role = Core.entry s.dir role ∨
      Core.entry killed.dir role = some (s.repo.version role + 1)) : ¬ Behind role s := by
  rintro ⟨hversion, version, hrecorded, hlt⟩
  rw [hs.recorded_eq_entry hmissed] at hrecorded
  obtain hsame | hwritten := hkilled
  · have hone := h.entry version (hsame.trans hrecorded)
    omega
  · have hone := h.entry _ hwritten
    omega

/-- Two runs serve the same where the second goes on from what the first has done, and of the other
missed roles neither touches anything. -/
theorem Ran.serves {s s' s₁ s₂ : Session β} (first : Ran out call e s s')
    (again : Ran out call e s₁ s₂) (hs : Informed s)
    (hprogress : Progress e stored done s.dir s₁.dir)
    (hzero : ∀ role, Missed role → s₁.repo.version role = 0)
    (hredoes : ∀ role, call.Own role → Missed role → Redoes call s s₁.dir role)
    (hothers : ∀ role, call.Other role →
      Core.entry s₂.dir role = Core.entry s'.dir role ∧ ∀ version,
        s₂.dir.metadata.get (filename role version) =
          s'.dir.metadata.get (filename role version)) :
    view s₂.dir = view s'.dir := by
  refine view_congr again.performed.informed.recorded first.performed.informed.recorded
    again.performed.announced first.performed.announced (fun role hrole => ?_)
    (fun role hmissed => ?_) fun path => ?_
  · rw [again.performed.content role hrole, first.performed.content role hrole]
    exact hprogress.shown first.effect hrole
  · by_cases hcall : call.Own role
    · obtain ⟨-, -, md, -, hopens, -⟩ := first.wrote role hcall hmissed
      have ⟨appId, _, hrole⟩ := hcall
      obtain ⟨⟨targets, hsigned⟩, -⟩ := hs.open_targets (.inr ⟨appId, hrole⟩) hopens
      have hempty : s₁.opens role = .ok (Metadata.initial role) := if_pos (hzero role hmissed)
      rw [first.announced hcall hmissed hopens, again.announced hcall hmissed hempty, hsigned]
      exact (effect_empty_iff first.effect hcall targets).mpr
        ((hredoes role hcall hmissed).content md targets hopens hsigned)
    · obtain ⟨hentry, hfiles⟩ := hothers role ⟨hmissed, hcall⟩
      exact congrArg _ (announced_congr again.performed.informed.recorded
        first.performed.informed.recorded again.performed.announced first.performed.announced
        hentry hfiles)
  · rw [again.performed.payloads, first.performed.payloads]
    exact hprogress.payloads_again path

/-- An operation that returns when it is left alone and is killed at one of its writes: run again
by a fresh instance it succeeds, and what is served is what the uninterrupted run serves. Only
`initialize` cannot be run again, once its first file is written, and what a fresh instance misses
of the operation's own role. -/
theorem retries_iff {β : Type} {out : Outside β} (hlists : ListsReported out.tuf)
    (hrefuses : RefusesRollback out.tuf) (hkeeps : KeepsRecorded out.tuf) {w : World β}
    (hw : (system out).Reachable w) {repo : Instance} (hrepo : w.repo = some repo) {call : Call β}
    {uninterrupted killed : Session β} {n m rest : Nat}
    (hreturned : call.perform out ⟨repo, w.dir⟩ n = .returned () uninterrupted rest)
    (hkilled : call.perform out ⟨repo, w.dir⟩ m = .killed killed) :
    Retries out repo.backend call killed.dir uninterrupted.dir ↔
      (call = .initialise → killed.dir = w.dir) ∧
        ∀ role, call.Own role → Missed role → Redoes call ⟨repo, w.dir⟩ killed.dir role := by
  have hs : Informed (⟨repo, w.dir⟩ : Session β) := (restartable hlists hw).informed repo hrepo
  have hsteady := steady_of_reachable hlists hrefuses hkeeps hw hrepo
  obtain ⟨e, hfirst⟩ := hsteady.ran hs hlists hrefuses hkeeps hreturned
  have hprogress := perform_performed (R := fun _ => True)
    (K := fun dir => ∃ stored done, Progress e stored done w.dir dir) hs hlists call
    (.inl fun _ _ => trivial) ⟨false, [], .refl hs.recorded⟩ (fun e' he' stored done dir h => by
      obtain rfl := Option.some.inj (hfirst.effect.symm.trans he')
      exact ⟨stored, done, h⟩) m
  have hpart := @perform_wrote _ out ⟨repo, w.dir⟩ hlists call m
  rw [hkilled] at hprogress hpart
  obtain ⟨stored, done, hprogress⟩ := hprogress
  obtain ⟨fresh, hnew, hbackend, hfresh⟩ := hprogress.recorded.informed_new repo.backend
  have hzero {role : String} (hmissed : Missed role) : fresh.version role = 0 :=
    version_new hprogress.recorded hnew hmissed
  have hsteady' : Steady (⟨fresh, killed.dir⟩ : Session β) :=
    ⟨known_new hprogress.recorded hnew, .inl (level_new hprogress.recorded hnew)⟩
  refine ⟨?_, fun ⟨hunfounded, hredoes⟩ => ?_⟩
  · rintro ⟨other, n', s, rest', hnew', hrun, hview⟩
    obtain rfl := Except.ok.inj (hnew.symm.trans hnew')
    obtain ⟨e', hagain⟩ := hsteady'.ran hfresh hlists hrefuses hkeeps hrun
    have hredoes (role : String) (hcall : call.Own role) (hmissed : Missed role) :
        Redoes call ⟨repo, w.dir⟩ (⟨fresh, killed.dir⟩ : Session β).dir role :=
      hfirst.redoes hagain hbackend hview hcall hmissed (hzero hmissed)
    refine ⟨?_, hredoes⟩
    rintro rfl
    exact unfounded_of_again hs hfresh hlists hkilled rfl hrun
  · have hdelegated : delegated w.dir.log ⊆ delegated killed.dir.log := by
      obtain ⟨newer, hnewer⟩ := hprogress.since
      rw [← hnewer]
      exact delegated_mono_of_entered (hnewer ▸ hprogress.recorded.entered)
    have hcan' := hfirst.can.again hs hfresh hbackend hunfounded hdelegated
      fun role path hrole => hprogress.lists hfirst.effect hrole
    have hfinds : call.Finds (⟨fresh, killed.dir⟩ : Session β) := fun role hcall =>
      or_iff_not_imp_left.mpr fun hmissed => ⟨⟨hzero hmissed, (hredoes role hcall hmissed).entry⟩,
        (hredoes role hcall hmissed).current⟩
    have hbehind (role : String) (hcall : call.Own role) (hmissed : Missed role) :
        ¬ Behind role (⟨repo, w.dir⟩ : Session β) :=
      (hredoes role hcall hmissed).not_behind hs hmissed (hpart role hcall hmissed)
    obtain ⟨n', s, rest', e', hrun, he', -⟩ := perform_returns hfresh hlists hcan' hfinds
      (hfirst.again hs hfresh hlists hrefuses hbackend hkilled rfl (fun _ => hzero) hfinds hbehind)
    obtain ⟨e', hagain⟩ := hsteady'.ran hfresh hlists hrefuses hkeeps hrun
    have heffect := hagain.effect
    rw [hbackend] at heffect
    obtain rfl := Option.some.inj (hfirst.effect.symm.trans heffect)
    refine ⟨fresh, n', s, rest', hnew, hrun, ?_⟩
    -- of the other missed roles neither run touches anything
    have hlevels := hfirst.levels hs hsteady hbehind
    have hwhole := perform_untouched hlevels hlists hkeeps call n
    have hcut := perform_untouched hlevels hlists hkeeps call m
    have hrest := perform_untouched (hfresh.levels hsteady'.known
      (level_new hprogress.recorded hnew)) hlists hkeeps call n'
    rw [hreturned] at hwhole
    rw [hkilled] at hcut
    rw [hrun] at hrest
    refine hfirst.serves hagain hs hprogress (fun _ => hzero) hredoes fun role hother =>
      ⟨?_, fun version => ?_⟩
    · exact (hrest.entries role hother).trans
        ((hcut.entries role hother).trans (hwhole.entries role hother).symm)
    · exact (hrest.files role hother version).trans
        ((hcut.files role hother version).trans (hwhole.files role hother version).symm)

end Main

theorem refusesRollback_pythonTuf : RefusesRollback pythonTuf where
  snapshot signed recorded reported e h := by
    change pythonSnapshot signed recorded reported = _ at h
    unfold pythonSnapshot at h
    split at h
    · cases h
    · split at h
      next hback =>
        obtain ⟨⟨file, version'⟩, hrow, hlt⟩ := hback
        cases hget : recorded.get file with
        | none => simp [hget] at hlt
        | some version => exact ⟨file, version, version', hget, hrow, by simpa [hget] using hlt⟩
      · cases h
  timestamp signed recorded reported e h := by
    change pythonTimestamp signed recorded reported = _ at h
    unfold pythonTimestamp at h
    grind

theorem keepsRecorded_pythonTuf : KeepsRecorded pythonTuf where
  unreported signed recorded reported metas h file version hnone hrecorded := by
    change pythonSnapshot signed recorded reported = _ at h
    unfold pythonSnapshot at h
    split at h
    · cases h
    · split at h
      · cases h
      · obtain rfl := Option.some.inj (Except.ok.inj h)
        rw [get_updatedMeta, hnone, Option.none_or, hrecorded]
  rollback signed recorded reported file version version' hrecorded hreported hlt := by
    have hback : ∃ row ∈ reported, row.2 < (recorded.get row.1).getD 0 :=
      ⟨(file, version'), Table.mem_of_get hreported, by simpa [hrecorded] using hlt⟩
    have hdiffer : ¬ (signed = true ∧ ∀ row ∈ reported, recorded.get row.1 = reported.get row.1) := by
      rintro ⟨-, hsame⟩
      have hsame := hsame _ (Table.mem_of_get hreported)
      rw [hrecorded, hreported] at hsame
      obtain rfl := Option.some.inj hsame
      exact Nat.lt_irrefl _ hlt
    refine ⟨"version rollback", ?_⟩
    change pythonSnapshot signed recorded reported = _
    rw [pythonSnapshot, if_neg hdiffer, if_pos hback]

/-- A fresh instance misses the role of the application. Its release is killed after its payload
and its role are written. -/
theorem retries_iff_editor :
    let call := Call.addRelease (editorKey "editor\n" (by decide)) "editor 1.0" editorInfo
    ∃ w repo uninterrupted rest killed,
      System.exec (next textPayloads) [.start fiveKeys, .call .initialise 9,
        .call (.addApp "editor\n" false) 9] .empty = some w ∧
      w.repo = some repo ∧ ¬ Seen "app-editor\n" ∧
      call.perform textPayloads ⟨repo, w.dir⟩ 9 = .returned () uninterrupted rest ∧
      call.perform textPayloads ⟨repo, w.dir⟩ 2 = .killed killed ∧
      (Retries textPayloads repo.backend call killed.dir uninterrupted.dir ↔
        (call = .initialise → killed.dir = w.dir) ∧
          ∀ role, call.Own role → Missed role → Redoes call ⟨repo, w.dir⟩ killed.dir role) := by
  intro call
  have hrun : ((System.exec (next textPayloads) [.start fiveKeys, .call .initialise 9,
      .call (.addApp "editor\n" false) 9] .empty).bind fun w =>
        w.repo.map fun repo =>
          (match call.perform textPayloads ⟨repo, w.dir⟩ 9 with
            | .returned _ _ _ => true
            | _ => false) &&
          (match call.perform textPayloads ⟨repo, w.dir⟩ 2 with
            | .killed _ => true
            | _ => false)) = some true := by
    decide +kernel
  obtain ⟨w, hw, hrun⟩ := Option.bind_eq_some_iff.mp hrun
  obtain ⟨repo, hrepo, hrun⟩ := Option.map_eq_some_iff.mp hrun
  simp only [Bool.and_eq_true] at hrun
  obtain ⟨hreturned, hkilled⟩ := hrun
  cases hend : call.perform textPayloads ⟨repo, w.dir⟩ 9 with
  | returned result uninterrupted rest =>
    cases hend' : call.perform textPayloads ⟨repo, w.dir⟩ 2 with
    | killed killed =>
      exact ⟨w, repo, uninterrupted, rest, killed, hw, hrepo, by decide, hend, hend',
        retries_iff listsReported_pythonTuf refusesRollback_pythonTuf keepsRecorded_pythonTuf
          (System.reachable_exec (.start rfl) hw) hrepo hend hend'⟩
    | returned | raised =>
      rw [hend'] at hkilled
      cases hkilled
  | raised | killed =>
    rw [hend] at hreturned
    cases hreturned

/-- The first ceremony is killed after its first file: the second finds the repository
initialised. -/
theorem killed_ceremony_not_retried :
    ¬ ∀ (out : Outside String), ListsReported out.tuf → RefusesRollback out.tuf →
      KeepsRecorded out.tuf → ∀ (w : World String) (repo : Instance) (call : Call String)
        (uninterrupted killed : Session String) (n m rest : Nat),
        (system out).Reachable w → w.repo = some repo →
        call.perform out ⟨repo, w.dir⟩ n = .returned () uninterrupted rest →
        call.perform out ⟨repo, w.dir⟩ m = .killed killed →
        Retries out repo.backend call killed.dir uninterrupted.dir := by
  intro hclaim
  let dir : Directory String := .empty
  let repo : Instance := ⟨fiveKeys, TOP_LEVEL_POLICIES, [], []⟩
  have hrun : ((match Call.initialise.perform textPayloads ⟨repo, dir⟩ 9 with
        | .returned _ _ _ => true
        | _ => false) &&
      (match Call.initialise.perform textPayloads ⟨repo, dir⟩ 1 with
        | .killed killed => (lastOf ROOT killed.dir.log).isSome
        | _ => false)) = true := by
    decide +kernel
  simp only [Bool.and_eq_true] at hrun
  obtain ⟨hreturned, hkilled⟩ := hrun
  have hstarted : (system textPayloads).step .empty (.start fiveKeys) ⟨some repo, dir⟩ := rfl
  have hw : (system textPayloads).Reachable (⟨some repo, dir⟩ : World String) :=
    .step (.start rfl) hstarted
  cases hend : Call.initialise.perform textPayloads ⟨repo, dir⟩ 9 with
  | returned result uninterrupted rest =>
    cases hend' : Call.initialise.perform textPayloads ⟨repo, dir⟩ 1 with
    | killed killed =>
      rw [hend'] at hkilled
      obtain ⟨fresh, n, s, rest', hnew, hagain, -⟩ := hclaim textPayloads listsReported_pythonTuf
        refusesRollback_pythonTuf keepsRecorded_pythonTuf _ repo .initialise uninterrupted killed 9 1
        rest hw rfl hend hend'
      have hkilled' : (system textPayloads).Reachable (⟨none, killed.dir⟩ : World String) := by
        refine .step hw (a := .call .initialise 1) ?_
        change some (afterCall (Call.initialise.perform textPayloads ⟨repo, dir⟩ 1)) = _
        rw [hend']
        rfl
      obtain ⟨other, hother, -, hinformed⟩ :=
        (restartable listsReported_pythonTuf hkilled').recorded.informed_new fiveKeys
      obtain rfl := Except.ok.inj (hother.symm.trans hnew)
      exact not_founded_again hinformed listsReported_pythonTuf hkilled hagain
    | returned | raised =>
      rw [hend'] at hkilled
      cases hkilled
  | raised | killed =>
    rw [hend] at hreturned
    cases hreturned

end DistPlatform.Core
