import DistPlatform.Core.Editions
import DistPlatform.Client.Delivery
import DistPlatform.Queue.Approved

/-!
# From a poll to the published metadata

The signing worker has the repository to itself: it takes the publish jobs from the queue that the
ingest workers, the operators and the ceremony tool work on, and what it adds and makes current it
does with one instance after another. So whatever the application's metadata lists in any of its
versions, `ingest` has promoted.

## Main definitions

* `Supply`, `supply` — the queue and the repository, and the system of both.
* `Promoted` — a poll of a row of the application was promoted with this artifact.
* `KeepsApp` — a source stays with its application.
* `Supplied` — what both sides hold between any two statements.
-/

namespace DistPlatform.Queue

open Runs History
open DistPlatform.Core (Seen TargetKey CurrentRelease appRoleName filename listedAt)
open Ingest (Bytes IngestPorts Quarantine)
open Registry (Source Statement Store)
open Sign (SignerAct SignerPlace)

/-! ## The system -/

/-- The worker that has the repository. -/
def worker : Party := .signer 0

structure Supply where
  queue : QueueConfig
  store : Core.Catalogue Bytes

inductive SupplyMove
  /-- A statement of anyone but the signing worker. -/
  | turn (p : Party) (act : Act p)
  /-- A statement of the signing worker, and the call of the repository that goes with it. -/
  | sign (now : Nat) (job : Option QueueJob) (budget : Nat)
  | crash (p : Party)

def isSigner : Party → Bool
  | .signer _ => true
  | _ => false

/-- The call that the signing worker has come to. -/
def called : SignerPlace → Option (Core.Call Bytes)
  | .adding _ _ release => some (.addRelease release.key release.artifact release.info)
  | .pointing _ _ release => some (.setCurrent release.key)
  | _ => none

section System

variable (ports : IngestPorts) (quarantine : Quarantine) (out : Core.Outside Bytes)
  (text : Core.RepositoryError → String)

/-- What the repository answers, and is then; `text` is what is recorded of an error. -/
def Supply.answer (c : Supply) (budget : Nat) :
    Option (Core.Catalogue Bytes × Except String Unit) :=
  match called (c.queue.place worker) with
  | none => some (c.store, .ok ())
  | some call => (c.store.next out (.call call budget)).map fun store =>
    (store, match call.perform out c.store.session budget with
      | .raised e _ _ => .error (text e)
      | _ => .ok ())

/-- A signing worker that starts again scans the directory. -/
def Supply.restarted (c : Supply) (p : Party) : Option (Core.Catalogue Bytes) :=
  if p = worker then c.store.next out .restart else some c.store

def Supply.next (c : Supply) : SupplyMove → Option Supply
  | .turn p act =>
    if isSigner p then none
    else ((parties ports quarantine).next c.queue (.turn p act)).map fun queue => ⟨queue, c.store⟩
  | .sign now job budget => do
    let (store, answer) ← c.answer out text budget
    let act : SignerAct := ⟨now, job, c.store.session.repo.appRoles, answer, answer⟩
    let queue ← (parties ports quarantine).next c.queue (.turn worker act)
    return ⟨queue, store⟩
  | .crash p => do
    let queue ← (parties ports quarantine).next c.queue (.crash p)
    let store ← c.restarted out p
    return ⟨queue, store⟩

/-- The run begins when the application has been delegated to. -/
def supply (backend : Core.SignerBackend) (appId : String) : System Supply SupplyMove where
  start c := c.queue = (parties ports quarantine).initial ∧
    (Core.catalogue out backend appId).start c.store
  step c move c' := c.next ports quarantine out text move = some c'

end System

/-- `ingest` promoted this artifact, in a poll of a row of `sources` that is this application's. -/
def Promoted (ports : IngestPorts) (log : Log) (appId sha256 version filename : String) : Prop :=
  ∃ ingestWorker poll source polled,
    Decided ports log (.ingest ingestWorker) poll source polled ∧ source.appId = appId ∧
      Approves polled sha256 version filename

section Projections

variable {ports : IngestPorts} {quarantine : Quarantine} {out : Core.Outside Bytes}
  {text : Core.RepositoryError → String} {backend : Core.SignerBackend} {appId : String}
  {c c' : Supply} {budget : Nat} {store : Core.Catalogue Bytes} {answer : Except String Unit}

/-- The repository stands still, or makes the call that the worker has come to. -/
theorem answer_cases (h : c.answer out text budget = some (store, answer)) :
    called (c.queue.place worker) = none ∧ store = c.store ∨
      ∃ call, called (c.queue.place worker) = some call ∧
        c.store.next out (.call call budget) = some store := by
  unfold Supply.answer at h
  split at h
  next hcalled =>
    obtain ⟨rfl, -⟩ := Prod.mk.inj (Option.some.inj h)
    exact .inl ⟨hcalled, rfl⟩
  next call hcalled =>
    obtain ⟨next, hnext, heq⟩ := Option.map_eq_some_iff.mp h
    obtain ⟨rfl, -⟩ := Prod.mk.inj heq
    exact .inr ⟨call, hcalled, hnext⟩

/-- The two sides of a statement of the signing worker. -/
theorem next_sign {now : Nat} {job : Option QueueJob}
    (h : c.next ports quarantine out text (.sign now job budget) = some c') :
    ∃ answer, c.answer out text budget = some (c'.store, answer) ∧
      (parties ports quarantine).next c.queue (.turn worker
        (⟨now, job, c.store.session.repo.appRoles, answer, answer⟩ : SignerAct)) =
          some c'.queue := by
  obtain ⟨⟨store, answer⟩, hanswer, h⟩ := Option.bind_eq_some_iff.mp h
  obtain ⟨queue, hqueue, h⟩ := Option.bind_eq_some_iff.mp h
  obtain rfl := Option.some.inj h
  exact ⟨answer, hanswer, hqueue⟩

/-- The two sides of a crash. -/
theorem next_crash {p : Party} (h : c.next ports quarantine out text (.crash p) = some c') :
    (parties ports quarantine).next c.queue (.crash p) = some c'.queue ∧
      (c.store.next out .restart = some c'.store ∨ c'.store = c.store) := by
  simp only [Supply.next, Fallible.bind_eq_some] at h
  obtain ⟨queue, hqueue, store, hstore, h⟩ := h
  obtain rfl := Option.some.inj h
  refine ⟨hqueue, ?_⟩
  unfold Supply.restarted at hstore
  split at hstore
  · exact .inl hstore
  · exact .inr (Option.some.inj hstore).symm

/-- A run of both is a run of the queue. -/
theorem queue_of_supply (h : (supply ports quarantine out text backend appId).Reachable c) :
    (system ports quarantine).Reachable c.queue := by
  induction h with
  | start h0 => exact .start h0.1
  | @step c move c' _ hnext ih =>
    have hnext : c.next ports quarantine out text move = some c' := hnext
    cases move with
    | turn p act =>
      simp only [Supply.next] at hnext
      split at hnext
      · cases hnext
      · obtain ⟨queue, hqueue, rfl⟩ := Option.map_eq_some_iff.mp hnext
        exact .step ih hqueue
    | sign now job budget =>
      obtain ⟨answer, -, hqueue⟩ := next_sign hnext
      exact .step ih hqueue
    | crash p => exact .step ih (next_crash hnext).1

/-- And a run of the repository. -/
theorem store_of_supply (h : (supply ports quarantine out text backend appId).Reachable c) :
    (Core.catalogue out backend appId).Reachable c.store := by
  induction h with
  | start h0 => exact .start h0.2
  | @step c move c' _ hnext ih =>
    have hnext : c.next ports quarantine out text move = some c' := hnext
    cases move with
    | turn p act =>
      simp only [Supply.next] at hnext
      split at hnext
      · cases hnext
      · obtain ⟨queue, -, rfl⟩ := Option.map_eq_some_iff.mp hnext
        exact ih
    | sign now job budget =>
      obtain ⟨answer, hanswer, -⟩ := next_sign hnext
      obtain ⟨-, hsame⟩ | ⟨call, -, hcall⟩ := answer_cases hanswer
      · exact hsame ▸ ih
      · exact .step ih hcall
    | crash p =>
      obtain ⟨-, hrestart | hsame⟩ := next_crash hnext
      · exact .step ih hrestart
      · exact hsame ▸ ih

end Projections

/-! ## What the worker adds -/

section Added

variable {ports : IngestPorts} {quarantine : Quarantine} {c : QueueConfig}

/-- The worker adds a release under the application of the source. -/
def OwnApp : ∀ p, Place p → Prop
  | .signer _, place => match place with
    | .adding _ source release => release.key.appId = source.appId
    | _ => True
  | _, _ => True

theorem ownApp_signer {lib : Ingest.Libraries} {act : SignerAct} {db : Db} {place : SignerPlace}
    {turn : Turn SignerPlace} {id : Nat}
    (h : Sign.signerTurn lib act db quarantine place = some turn) :
    OwnApp (.signer id) turn.next := by
  cases place with
  | claiming => obtain rfl | ⟨row, -, -, -, rfl⟩ := claimJob_eq_some h <;> trivial
  | fetching job =>
    obtain rfl := Option.some.inj h
    dsimp only [Queue.fetchSource]
    split <;> trivial
  | publishing job source =>
    simp only [Sign.signerTurn] at h
    split at h
    · obtain rfl := Option.some.inj h
      trivial
    next release hrelease =>
      obtain rfl := Option.some.inj h
      obtain ⟨-, -, happ, -⟩ := Sign.releaseOf_eq_ok hrelease
      exact happ
  | adding job source release | pointing job source release =>
    obtain rfl := Option.some.inj h
    dsimp only [Turn.goto]
    split <;> trivial
  | _ =>
    obtain rfl := Option.some.inj h
    trivial

/-- What is added goes under the application of the row that the signer read. -/
def AddsOwn : Party × Event → Prop
  | (_, .effect (.added _ source key _)) => source.appId = key.appId
  | _ => True

theorem addsOwn_invariant (ports : IngestPorts) (quarantine : Quarantine) :
    (parties ports quarantine).Invariant (fun _ _ => True)
      (fun s => ∀ entry ∈ s.log, AddsOwn entry) fun p _ place => OwnApp p place where
  start _ h := by cases h
  idle p _ := by cases p <;> trivial
  own c p act shared place _ hI hL h := by
    obtain ⟨turn, hturn, hcommit⟩ := Option.map_eq_some_iff.mp h
    obtain ⟨rfl, rfl⟩ := Prod.mk.inj hcommit
    refine ⟨?_, ?_⟩
    · obtain hlog | ⟨event, hevent, hlog⟩ | ⟨effect, heffect, hlog⟩ := commit_log hturn
      · exact hlog ▸ hI
      · refine hlog ▸ List.forall_mem_cons.mpr ⟨?_, hI⟩
        cases event with
        | effect effect => exact absurd hevent eventOf_ne_effect
        | _ => trivial
      · refine hlog ▸ List.forall_mem_cons.mpr ⟨?_, hI⟩
        cases p with
        | ingest id =>
          obtain ⟨-, _, _, ⟨-, -, -, rfl⟩ | ⟨_, -, rfl, -⟩⟩ := ingestTurn_effect hturn heffect <;>
            trivial
        | signer id =>
          have hown := hL (.signer id)
          obtain ⟨-, _, _, ⟨-, -, -, rfl⟩ | ⟨release, hplace, rfl⟩⟩ :=
            signerTurn_effect hturn heffect
          · trivial
          · rw [hplace] at hown
            exact hown.symm
        | request id =>
          obtain rfl := Option.some.inj hturn
          cases adminTurn_effect.symm.trans heffect
        | ceremony =>
          obtain rfl := Option.some.inj hturn
          cases heffect
    · cases p with
      | signer id => exact ownApp_signer hturn
      | _ => trivial
  other c p act shared place q _ _ _ hL _ := hL q

theorem appId_of_added (hc : (system ports quarantine).Reachable c) {p : Party} {job : QueueJob}
    {source : Source} {key : TargetKey} {artifact : Bytes}
    (h : (p, .effect (.added job source key artifact)) ∈ c.shared.log) :
    source.appId = key.appId :=
  ((addsOwn_invariant ports quarantine).holds (hc.to_when fun _ _ => trivial)).1 _ h

/-- A source stays with its application: every row that was ever read under an id, and the row
stored there, are of one application. -/
structure KeepsApp (s : Shared) : Prop where
  numbered : s.db.Numbered
  given : ∀ p job source, (p, .effect (.fetched job source)) ∈ s.log → source.id < s.db.nextSource
  stored : ∀ p job source, (p, .effect (.fetched job source)) ∈ s.log →
    ∀ row, s.db.getSource source.id = some row → row.appId = source.appId
  read : ∀ p job source, (p, .effect (.fetched job source)) ∈ s.log →
    ∀ p' job' source', (p', .effect (.fetched job' source')) ∈ s.log → source'.id = source.id →
      source'.appId = source.appId

/-- A row that a turn reads is the stored one. -/
theorem fetched_commit {s : Shared} {p : Party} {act : Act p} {place : Place p}
    {turn : Turn (Place p)} (h : turnOf ports s.db s.quarantine p act place = some turn)
    {q : Party} {job : QueueJob} {source : Source}
    (hmem : (q, .effect (.fetched job source)) ∈ (s.commit p turn).log) :
    (q, .effect (.fetched job source)) ∈ s.log ∨
      turn.statement = .select ∧ s.db.getSource source.id = some source := by
  obtain hlog | ⟨event, hevent, hlog⟩ | ⟨effect, heffect, hlog⟩ := commit_log h
  · exact .inl (hlog ▸ hmem)
  · rw [hlog] at hmem
    obtain heq | hmem := List.mem_cons.mp hmem
    · obtain ⟨-, rfl⟩ := Prod.mk.inj heq
      exact absurd hevent eventOf_ne_effect
    · exact .inl hmem
  · rw [hlog] at hmem
    obtain heq | hmem := List.mem_cons.mp hmem
    · obtain ⟨rfl, hsame⟩ := Prod.mk.inj heq
      obtain rfl := Event.effect.inj hsame
      have hsource := source_of_fetched h heffect
      exact .inr ⟨turnOf_effect h heffect, (Store.id_of_getSource hsource).symm ▸ hsource⟩
    · exact .inl hmem

theorem KeepsApp.commit {s : Shared} {p : Party} {act : Act p} {place : Place p}
    {turn : Turn (Place p)} (hs : KeepsApp s)
    (h : turnOf ports s.db s.quarantine p act place = some turn) :
    KeepsApp (s.commit p turn) := by
  refine ⟨hs.numbered.exec turn.statement, fun q job source hmem => ?_,
    fun q job source hmem row hrow => ?_, fun q job source hmem q' job' source' hmem' hid => ?_⟩
  · refine Nat.lt_of_lt_of_le ?_ turn.statement.nextSource_le
    obtain hold | ⟨-, hsource⟩ := fetched_commit h hmem
    · exact hs.given q job source hold
    · exact hs.numbered.id_lt hsource
  · obtain hold | ⟨hstatement, hsource⟩ := fetched_commit h hmem
    · obtain ⟨old, hwas, rfl⟩ | ⟨-, hnew⟩ := Statement.getSource_exec_eq_some hrow
      · exact (turn.statement.named_updateRow old).2.trans (hs.stored q job source hold old hwas)
      · -- an id that was given out is not given out again
        have hid := (Store.id_of_getSource hrow).symm.trans (Statement.registered_eq_some hnew).1
        exact absurd hid (hs.given q job source hold).ne
    · simp only [Shared.commit, hstatement] at hrow
      exact congrArg Source.appId (Option.some.inj (hrow.symm.trans hsource))
  · obtain hold | ⟨-, hsource⟩ := fetched_commit h hmem
    · obtain hold' | ⟨-, hsource'⟩ := fetched_commit h hmem'
      · exact hs.read q job source hold q' job' source' hold' hid
      · exact hs.stored q job source hold source' (hid ▸ hsource')
    · obtain hold' | ⟨-, hsource'⟩ := fetched_commit h hmem'
      · exact (hs.stored q' job' source' hold' source (hid.symm ▸ hsource)).symm
      · exact congrArg Source.appId (Option.some.inj ((hid ▸ hsource').symm.trans hsource))

theorem keepsApp_invariant (ports : IngestPorts) (quarantine : Quarantine) :
    (parties ports quarantine).Invariant (fun _ _ => True) KeepsApp fun _ _ _ => True where
  start := by
    refine ⟨fun _ h => absurd h List.not_mem_nil, ?_, ?_, ?_⟩ <;>
      exact fun _ _ _ h => absurd h List.not_mem_nil
  idle _ _ := trivial
  own c p act shared place _ hI _ h := by
    obtain ⟨turn, hturn, hcommit⟩ := Option.map_eq_some_iff.mp h
    obtain ⟨rfl, rfl⟩ := Prod.mk.inj hcommit
    exact ⟨hI.commit hturn, trivial⟩
  other _ _ _ _ _ _ _ _ _ _ _ := trivial

theorem keepsApp (hc : (system ports quarantine).Reachable c) : KeepsApp c.shared :=
  ((keepsApp_invariant ports quarantine).holds (hc.to_when fun _ _ => trivial)).1

/-- What the worker has added, `ingest` promoted before, for the same application. -/
theorem promoted_of_added (hc : (system ports quarantine).Reachable c) {p : Party} {job : QueueJob}
    {source : Source} {key : TargetKey} {artifact : Bytes}
    (h : (p, .effect (.added job source key artifact)) ∈ c.shared.log) :
    Promoted ports c.shared.log key.appId (ports.lib.sha256 artifact) key.version
      key.filename := by
  obtain ⟨hlog, -⟩ := sound hc
  obtain ⟨newer, older, hsplit⟩ := List.append_of_mem h
  obtain ⟨hfetch, ingestWorker, poll, row, polled, hmem, hpoll, happroves⟩ :=
    (hsplit ▸ hlog).of_append
  have holder : ∀ entry ∈ older, entry ∈ c.shared.log := fun entry hentry => by
    simp [hsplit, hentry]
  have hdecided := decided_of_mem hlog (holder _ hmem)
  obtain ⟨newer', older', hsplit', hread⟩ := hdecided.read
  have hrow : (.ingest ingestWorker, .effect (.fetched poll row)) ∈ c.shared.log := by
    simp [hsplit', mem_of_lastFetch hread]
  have happ := (keepsApp hc).read _ _ _ (holder _ (mem_of_lastFetch hfetch)) _ _ _ hrow
    (hdecided.id.trans hpoll)
  exact ⟨ingestWorker, poll, row, polled, hdecided, happ.trans (appId_of_added hc h),
    happroves⟩

end Added

/-! ## What the repository lists -/

section Supplied

variable {ports : IngestPorts} {quarantine : Quarantine} {out : Core.Outside Bytes}
  {text : Core.RepositoryError → String} {backend : Core.SignerBackend} {appId role : String}
  {c c' : Supply}

/-- What has happened stays in the log. -/
theorem mem_log_next {queue queue' : QueueConfig} {move : QueueMove}
    (h : (parties ports quarantine).next queue move = some queue') {entry : Party × Event}
    (hmem : entry ∈ queue.shared.log) : entry ∈ queue'.shared.log := by
  cases move with
  | turn p act =>
    obtain ⟨shared, place, hturn, rfl⟩ := Parties.next_turn h
    obtain ⟨turn, -, hcommit⟩ := Option.map_eq_some_iff.mp hturn
    obtain ⟨rfl, -⟩ := Prod.mk.inj hcommit
    exact List.mem_append_right _ hmem
  | crash p =>
    obtain rfl := Parties.next_crash h
    exact hmem

/-- A worker that has come to add a release does so in its next statement. -/
theorem added_next {queue queue' : QueueConfig} {act : SignerAct} {job : QueueJob}
    {source : Source} {release : Sign.Release} (hplace : queue.place worker =
      SignerPlace.adding job source release)
    (h : (parties ports quarantine).next queue (.turn worker act) = some queue') :
    (worker, .effect (.added job source release.key release.artifact)) ∈ queue'.shared.log := by
  obtain ⟨shared, place, hturn, rfl⟩ := Parties.next_turn h
  obtain ⟨turn, hsigns, hcommit⟩ := Option.map_eq_some_iff.mp hturn
  obtain ⟨rfl, -⟩ := Prod.mk.inj hcommit
  rw [hplace] at hsigns
  obtain rfl := Option.some.inj hsigns
  exact List.mem_cons_self

/-- The worker has added every release that is in the repository. -/
def Supplied (c : Supply) : Prop :=
  ∀ key artifact info, .addRelease key artifact info ∈ c.store.calls → ∃ job source,
    (worker, .effect (.added job source key artifact)) ∈ c.queue.shared.log

theorem Supplied.mono (h : Supplied c) (hcalls : c'.store.calls = c.store.calls)
    (hlog : ∀ entry ∈ c.queue.shared.log, entry ∈ c'.queue.shared.log) : Supplied c' := by
  intro key artifact info hmem
  obtain ⟨job, source, hadded⟩ := h key artifact info (hcalls ▸ hmem)
  exact ⟨job, source, hlog _ hadded⟩

theorem supplied_sign {now : Nat} {job : Option QueueJob} {budget : Nat} (h : Supplied c)
    (hnext : c.next ports quarantine out text (.sign now job budget) = some c') : Supplied c' := by
  obtain ⟨answer, hanswer, hqueue⟩ := next_sign hnext
  have hlog : ∀ entry ∈ c.queue.shared.log, entry ∈ c'.queue.shared.log := fun _ =>
    mem_log_next hqueue
  obtain ⟨-, hsame⟩ | ⟨call, hcalled, hcall⟩ := answer_cases hanswer
  · exact h.mono (congrArg Core.Catalogue.calls hsame) hlog
  · obtain hsame | ⟨call', budget', heq, hcalls⟩ := Core.calls_next hcall
    · exact h.mono hsame hlog
    · obtain ⟨rfl, rfl⟩ := Core.Turn.call.inj heq
      intro key artifact info hmem
      rw [hcalls] at hmem
      obtain rfl | hmem := List.mem_cons.mp hmem
      · -- the call is the one that the worker had come to
        generalize hplace : c.queue.place worker = place at hcalled
        cases place with
        | adding job source release =>
          obtain ⟨rfl, rfl, -⟩ := Core.Call.addRelease.inj (Option.some.inj hcalled)
          exact ⟨job, source, added_next hplace hqueue⟩
        | _ => cases hcalled
      · obtain ⟨job, source, hadded⟩ := h key artifact info hmem
        exact ⟨job, source, hlog _ hadded⟩

theorem supplied_of_reachable (h : (supply ports quarantine out text backend appId).Reachable c) :
    Supplied c := by
  induction h with
  | start h0 =>
    intro key artifact info hmem
    rw [h0.2.2] at hmem
    cases hmem
  | @step c move c' _ hnext ih =>
    have hnext : c.next ports quarantine out text move = some c' := hnext
    cases move with
    | turn p act =>
      simp only [Supply.next] at hnext
      split at hnext
      · cases hnext
      · obtain ⟨queue, hqueue, rfl⟩ := Option.map_eq_some_iff.mp hnext
        exact ih.mono rfl fun entry => mem_log_next hqueue
    | sign now job budget => exact supplied_sign ih hnext
    | crash p =>
      obtain ⟨hqueue, hstore⟩ := next_crash hnext
      refine ih.mono ?_ fun entry => mem_log_next hqueue
      obtain hrestart | hsame := hstore
      · obtain hcalls | ⟨_, _, heq, -⟩ := Core.calls_next hrestart
        · exact hcalls
        · cases heq
      · rw [hsame]

/-- A listed file is a release of the application that was promoted, or points to one. -/
inductive Supplies (ports : IngestPorts) (out : Core.Outside Bytes) (log : Log)
    (appId path : String) : Core.TargetFile → Prop
  | release {key : TargetKey} {artifact : Bytes} {info : Core.ReleaseInfo}
      (named : key.path = path) (version : info.version = key.version)
      (promoted : Promoted ports log appId (out.sha256 artifact) key.version key.filename) :
      Supplies ports out log appId path (Core.targetFile out artifact info)
  | pointer {key key' : TargetKey} {artifact : Bytes} {pointer : CurrentRelease}
      (named : key.channelKey.pointerPath = path)
      (points : CurrentRelease.make key.path key.version = .ok pointer)
      (same : key'.path = key.path) (version : key'.version = key.version)
      (promoted : Promoted ports log appId (out.sha256 artifact) key'.version key'.filename) :
      Supplies ports out log appId path
        (Core.targetFile out (out.dumps pointer.toJson) (Core.pointerInfo key))

/-- A release that is in the repository was promoted for its application. -/
theorem promoted_of_call (h : (supply ports quarantine out text backend appId).Reachable c)
    (hsha : ∀ artifact, out.sha256 artifact = ports.lib.sha256 artifact)
    {key : TargetKey} {artifact : Bytes} {info : Core.ReleaseInfo}
    (hmem : .addRelease key artifact info ∈ c.store.calls) :
    Promoted ports c.queue.shared.log key.appId (out.sha256 artifact) key.version
      key.filename := by
  obtain ⟨job, source, hadded⟩ := supplied_of_reachable h key artifact info hmem
  exact hsha artifact ▸ promoted_of_added (queue_of_supply h) hadded

theorem supplies_of_listedAt (h : (supply ports quarantine out text backend appId).Reachable c)
    (hsha : ∀ artifact, out.sha256 artifact = ports.lib.sha256 artifact)
    (hrole : appRoleName appId = .ok role) {calls : List (Core.Call Bytes)}
    (hcalls : calls ⊆ c.store.calls)
    (hchecked : Justified (fun call older => call.Checked out role older) calls) {path : String}
    {payload : Bytes} {info : Core.ReleaseInfo}
    (hlisted : listedAt out path calls = some (payload, info)) :
    Supplies ports out c.queue.shared.log appId path (Core.targetFile out payload info) := by
  obtain ⟨key, hmem, hpath, hname, hversion⟩ |
    ⟨key, pointer, hmem, hpath, -, hpointer, rfl, rfl⟩ := Core.listedAt_cases hchecked hlisted
  · obtain rfl := Core.appRoleName_injective hname hrole
    exact .release hpath hversion (promoted_of_call h hsha (hcalls hmem))
  · obtain ⟨release, payload, info, hrelease, hsame, hversion, -, -⟩ :=
      Core.released_of_setCurrent hchecked hmem
    obtain ⟨_, _, -, hname, -⟩ := Core.checked_of_mem hchecked hrelease
    obtain rfl := Core.appRoleName_injective hname hrole
    exact .pointer hpath hpointer hsame hversion (promoted_of_call h hsha (hcalls hrelease))

end Supplied

/-! ## The editor's release, from its registration to the metadata -/

section Editor

open Client (bytePayloads fourKeys editorKey editorListing editorPayload lastFiles)

/-- The digest of the payload, as it is written. -/
def editorSha256 : String := "85baff541a93d1c5024020c40c79890a3123993997761a4f8ec7010c0c363d14"

/-- An attested build of the payload. -/
def builtStatement : Json := .obj [
  ("_type", .str "https://in-toto.io/Statement/v1"),
  ("subject", .arr [.obj [("digest", .obj [("sha256", .str editorSha256)])]]),
  ("predicateType", .str "https://slsa.dev/provenance/v1"),
  ("predicate", .obj [
    ("buildDefinition", .obj [("resolvedDependencies",
      .arr [.obj [("uri", .str "git+https://github.com/example/editor@refs/tags/v1.0")]])]),
    ("runDetails", .obj [("builder", .obj [("id", .str
      "https://github.com/example/editor/.github/workflows/release.yml@refs/tags/v1.0")])])])]

def builtPorts : IngestPorts :=
  { Ingest.editorPorts with
    lib := { Ingest.editorLibraries with
      loads := fun _ => .ok builtStatement
      sha256 := bytePayloads.sha256 } }

def linuxSource : Source := { Ingest.editorSource with platform := "linux", arch := "x64" }

/-- The source is registered, validated and activated, and polled; what the poll promotes is
signed. -/
def supplying : List SupplyMove :=
  let asks := fun request => SupplyMove.turn (.request 0) ⟨0, "alice", request⟩
  let ingests := fun job => SupplyMove.turn (.ingest 0) ⟨0, [], none, none, job,
    { editorForge "v1.0" with download := fun _ => .ok editorPayload },
    ["malware", "publisher", "sbom"]⟩
  let publish := queuedJob 3 .PUBLISH "ingest" (some ⟨editorSha256, "1.0", "editor.zip", "v1.0"⟩)
  List.replicate 3 (asks (.create linuxSource)) ++
    [none, none, some (queuedJob 1 .VALIDATE "alice" none), none, none, none, none].map ingests ++
    [.turn .ceremony "editor"] ++
    List.replicate 2 (asks (.act 1 .poll)) ++
    [none, none, some (queuedJob 2 .POLL "alice" none), none, none, none, none].map ingests ++
    [none, some publish, none, none, none, none, none].map fun job => .sign 0 job 9

/-- What the run ends with. -/
def suppliedEditor : Option Supply := do
  let s ← Core.opened bytePayloads fourKeys "editor" false 9
  System.exec (Supply.next builtPorts ⟨1000, []⟩ bytePayloads fun _ => "") supplying
    ⟨(parties builtPorts ⟨1000, []⟩).initial, ⟨s, []⟩⟩

theorem suppliedEditor_calls : ∃ c, suppliedEditor = some c ∧
    c.store.calls = [.setCurrent editorKey, .addRelease editorKey editorPayload Core.editorInfo] ∧
    c.store.session.dir.metadata.get (filename "app-editor" 3) =
      lastFiles.get "3.app-editor.json" := by
  have hrun : suppliedEditor.map (fun c => decide
      (c.store.calls =
          [.setCurrent editorKey, .addRelease editorKey editorPayload Core.editorInfo] ∧
        c.store.session.dir.metadata.get (filename "app-editor" 3) =
          lastFiles.get "3.app-editor.json")) = some true := by
    decide +kernel
  obtain ⟨c, hc, hwritten⟩ := Option.map_eq_some_iff.mp hrun
  exact ⟨c, hc, of_decide_eq_true hwritten⟩

theorem reachable_suppliedEditor {c : Supply} (h : suppliedEditor = some c) :
    (supply builtPorts ⟨1000, []⟩ bytePayloads (fun _ => "") fourKeys "editor").Reachable c := by
  unfold suppliedEditor at h
  obtain ⟨s, hopened, hexec⟩ := Option.bind_eq_some_iff.mp h
  exact System.reachable_of_exec (fun _ _ _ h => h) (.start ⟨rfl, ⟨false, 9, hopened⟩, rfl⟩) hexec

end Editor

end DistPlatform.Queue
