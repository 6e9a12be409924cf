import DistPlatform.Queue.Approved

/-!
# Who may finish a job

A claim makes a worker responsible for a job until it finishes it, and so does queueing a job
only to file it. This module says which stale resets and claims leave every job with one
responsible worker, and what follows for the records of finished jobs.

## Main definitions

* `latestClaim`, `queuedBy` — who claimed a job last, and who queued it.
* `OwnershipSafe` — the steps that take no job from a worker that still has it.
* `OwnedStep` — what a step may do to the records.
-/

namespace DistPlatform.Queue

open Runs History
open Ingest (IngestPorts Quarantine)
open Registry (Job JobId Statement)

def latestClaim (id : JobId) : Log → Option Party :=
  latest fun
    | (p, .claimed job _) => if job = id then some p else none
    | _ => none

def queuedBy (id : JobId) : Log → Option Party :=
  latest fun
    | (p, .enqueued job) => if job.id = id then some p else none
    | _ => none

/-- The worker still has the job in hand. -/
def HasInHand (c : QueueConfig) (p : Party) (id : JobId) : Prop :=
  ∃ held ∈ hold p (c.place p), held.job.id = id

/-- A reset takes no job from the worker that claimed it last while it is still running it,
and a claim none from the tick that is about to file it. -/
def StatementSafe (c : QueueConfig) : QueueStatement → Prop
  | .resetStale olderThan now => ∀ row ∈ c.shared.db.jobs, row.isStale olderThan now = true →
      ∀ p ∈ latestClaim row.id c.shared.log, ¬ HasInHand c p row.id
  | .claim id _ => ∀ p ∈ queuedBy id c.shared.log, ¬ HasInHand c p id
  | _ => True

def OwnershipSafe (ports : IngestPorts) (c : QueueConfig) : QueueMove → Prop
  | .crash _ => True
  | .turn p act => ∀ turn ∈ turnOf ports c.shared.db c.shared.quarantine p act (c.place p),
      StatementSafe c turn.statement

instance (c : QueueConfig) (p : Party) (id : JobId) : Decidable (HasInHand c p id) :=
  inferInstanceAs (Decidable (∃ held ∈ hold _ _, _))

instance (c : QueueConfig) (statement : QueueStatement) : Decidable (StatementSafe c statement) :=
  match statement with
  | .resetStale olderThan now => inferInstanceAs (Decidable (∀ row ∈ c.shared.db.jobs,
      row.isStale olderThan now = true → ∀ p ∈ latestClaim row.id c.shared.log,
        ¬ HasInHand c p row.id))
  | .claim id _ => inferInstanceAs (Decidable (∀ p ∈ queuedBy id c.shared.log,
      ¬ HasInHand c p id))
  | .select | .addSource _ | .updateSource _ _ | .setStatus .. | .recordIdentity ..
  | .markDelegated _ | .deleteSource _ | .enqueue .. | .finish .. => .isTrue trivial

instance (ports : IngestPorts) (c : QueueConfig) (move : QueueMove) :
    Decidable (OwnershipSafe ports c move) :=
  match move with
  | .crash _ => .isTrue trivial
  | .turn p act => inferInstanceAs (Decidable (∀ turn ∈
      turnOf ports c.shared.db c.shared.quarantine p act (c.place p),
        StatementSafe c turn.statement))

/-- A worker in charge of a job: it claimed it last and the job is running, or it queued it,
nobody claimed it, and it is queued. -/
def InCharge (s : Shared) (p : Party) : Hold → Prop
  | .running job => latestClaim job.id s.log = some p ∧
      ∀ row ∈ s.db.jobs, row.id = job.id → row.state = .RUNNING
  | .filing job => latestClaim job.id s.log = none ∧ (p, .enqueued job) ∈ s.log ∧
      ∀ row ∈ s.db.jobs, row.id = job.id → row.state = .QUEUED

/-- Only jobs that exist were claimed. -/
def ClaimsKnown (s : Shared) : Prop :=
  ∀ id, s.db.nextJob ≤ id → latestClaim id s.log = none

/-! ## What a turn does to the claims -/

section Log

variable {ports : IngestPorts} {s : Shared} {p q : Party} {act : Act p} {place : Place p}
  {turn : Turn (Place p)} {id : JobId}

/-- Only a claim of the job itself changes its latest claim. -/
theorem latestClaim_commit (h : turnOf ports s.db s.quarantine p act place = some turn)
    (hclaim : ∀ now, turn.statement ≠ .claim id now) :
    latestClaim id (s.commit p turn).log = latestClaim id s.log := by
  refine latest_commit h (fun event hevent => ?_) fun _ _ => rfl
  cases event with
  | claimed job stored =>
    refine if_neg fun hid => ?_
    unfold eventOf at hevent
    split at hevent
    next found now hstatement =>
      obtain ⟨rfl, -⟩ := Event.claimed.inj (Option.some.inj hevent)
      exact hclaim now (hid ▸ hstatement)
    · simp at hevent
  | _ => rfl

theorem latestClaim_claim {now : Nat} (hclaim : turn.statement = .claim id now) :
    latestClaim id (s.commit p turn).log = some p := by
  simp only [Shared.commit, hclaim, eventOf, Option.toList_some, List.cons_append,
    List.map_cons]
  exact latest_cons_of_some (if_pos rfl)

theorem queuedBy_of_enqueued (hI : Accounted s) {job : QueueJob}
    (h : (p, .enqueued job) ∈ s.log) : queuedBy job.id s.log = some p := by
  obtain ⟨q, hq⟩ := Option.isSome_iff_exists.mp (latest_isSome h (by simp) :
    (queuedBy job.id s.log).isSome)
  obtain ⟨⟨r, event⟩, hmem, hevent⟩ := exists_of_latest hq
  split at hevent
  next heq =>
    cases heq
    split at hevent
    next hid =>
      cases hevent
      exact hq.trans (congrArg some (hI.unique hmem h hid).1)
    · cases hevent
  · cases hevent

end Log

/-! ## Staying in charge -/

section InCharge

variable {ports : IngestPorts} {s : Shared} {p q : Party} {act : Act p} {place : Place p}
  {turn : Turn (Place p)} {held : Hold}

/-- The rows of a job after a statement that neither finishes nor claims it. -/
theorem mem_exec_of_known {statement : QueueStatement} {row : QueueJob} {id : JobId}
    (hrow : row ∈ (statement.exec s.db).jobs) (hid : row.id = id) (hlt : id < s.db.nextJob)
    (htarget : statement.target ≠ some id) : ∃ old ∈ s.db.jobs, old.id = id ∧
      (row = old ∨ ∃ olderThan now, statement = .resetStale olderThan now ∧
        old.isStale olderThan now = true) := by
  obtain ⟨old, hold, -, rfl⟩ | hinserted := Statement.mem_exec.mp hrow
  · rw [Statement.id_update] at hid
    refine ⟨old, hold, hid, ?_⟩
    cases statement with
    | claim job now | finish job state result error now =>
      exact .inl (if_neg fun h => htarget (by rw [← hid, h]; rfl))
    | resetStale olderThan now =>
      simp only [Statement.update]
      split
      next hstale => exact .inr ⟨olderThan, now, rfl, hstale⟩
      · exact .inl rfl
    | _ => exact .inl rfl
  · obtain ⟨_, _, _, _, _, -, -, -, rfl, -⟩ := Statement.inserted_eq_some hinserted
    exact absurd hid.symm (Nat.ne_of_lt hlt)

/-- A worker stays in charge under any statement that does not concern the job, and no reset
that finds it stale. -/
theorem InCharge.commit (hlt : held.job.id < s.db.nextJob) (h : InCharge s q held)
    (hturn : turnOf ports s.db s.quarantine p act place = some turn)
    (htarget : turn.statement.target ≠ some held.job.id)
    (hreset : ∀ olderThan now, turn.statement = .resetStale olderThan now →
      ∀ row ∈ s.db.jobs, row.id = held.job.id → row.isStale olderThan now = false) :
    InCharge (s.commit p turn) q held := by
  have hlatest : latestClaim held.job.id (s.commit p turn).log =
      latestClaim held.job.id s.log :=
    latestClaim_commit hturn fun now hclaim => htarget (by rw [hclaim]; rfl)
  have hrows {state} (hstate : ∀ row ∈ s.db.jobs, row.id = held.job.id → row.state = state) :
      ∀ row ∈ (s.commit p turn).db.jobs, row.id = held.job.id → row.state = state := by
    intro row hrow hid
    obtain ⟨old, hold, hidold, rfl | ⟨olderThan, now, hstatement, hstale⟩⟩ :=
      mem_exec_of_known hrow hid hlt htarget
    · exact hstate row hold hid
    · exact absurd hstale (by simp [hreset olderThan now hstatement old hold hidold])
  cases held with
  | running job => exact ⟨hlatest.trans h.1, hrows h.2⟩
  | filing job => exact ⟨hlatest.trans h.1, mem_commit_of_mem h.2.1, hrows h.2.2⟩

/-- Two workers are never in charge of one job. -/
theorem inCharge_unique {other : Hold} (hI : Accounted s) (hp : InCharge s p held)
    (hq : InCharge s q other) (hid : held.job.id = other.job.id) : p = q := by
  have hlatest : latestClaim other.job.id s.log = latestClaim held.job.id s.log := by rw [hid]
  cases held with
  | running job =>
    cases other with
    | running job' => exact Option.some.inj (hp.1.symm.trans (hlatest.symm.trans hq.1))
    | filing job' => cases hp.1.symm.trans (hlatest.symm.trans hq.1)
  | filing job =>
    cases other with
    | running job' => cases hp.1.symm.trans (hlatest.symm.trans hq.1)
    | filing job' => exact (hI.unique hp.2.1 hq.2.1 hid).1

end InCharge

section Runs

variable {ports : IngestPorts} {c : QueueConfig} {p q : Party} {act : Act p}
  {turn : Turn (Place p)} {held : Hold}

/-- A safe reset finds no job stale that a worker has in hand. -/
theorem not_stale_of_inCharge (hsafe : StatementSafe c turn.statement)
    (hhold : hold q (c.place q) = some held) (h : InCharge c.shared q held) {olderThan now : Nat}
    (hreset : turn.statement = .resetStale olderThan now) {row : QueueJob}
    (hrow : row ∈ c.shared.db.jobs) (hid : row.id = held.job.id) :
    row.isStale olderThan now = false := by
  rw [hreset] at hsafe
  cases held with
  | running job =>
    by_contra hstale
    refine hsafe row hrow (by simpa using hstale) q ?_ ⟨_, hhold, hid.symm⟩
    rw [hid]
    exact h.1
  | filing job => simp [Job.isStale, h.2.2 row hrow hid]

/-- Another party's turn is not about a job that a worker has in hand. -/
theorem target_ne_of_inCharge (hs : Standing ports c) (hsafe : StatementSafe c turn.statement)
    (hcharge : ∀ q held, hold q (c.place q) = some held → InCharge c.shared q held)
    (hturn : turnOf ports c.shared.db c.shared.quarantine p act (c.place p) = some turn)
    (hpq : p ≠ q) (hhold : hold q (c.place q) = some held) :
    turn.statement.target ≠ some held.job.id := by
  have hq := hcharge q held hhold
  have hcases := turnOf_cases hturn
  generalize turn.statement = statement at hcases hsafe
  intro htarget
  cases hcases with
  | @claim row now present queued _ _ _ =>
    have hid : row.id = held.job.id := Option.some.inj htarget
    cases held with
    | running job => cases queued.symm.trans (hq.2 row present hid)
    | filing job =>
      refine hsafe q ?_ ⟨_, hhold, hid.symm⟩
      rw [hid]
      exact queuedBy_of_enqueued hs.accounted hq.2.1
  | @finish other _ _ _ _ holds _ _ =>
    have hid : other.job.id = held.job.id := Option.some.inj htarget
    exact hpq (inCharge_unique hs.accounted (hcharge p other holds) hq hid)
  | file inserted _ _ =>
    obtain ⟨_, _, _, _, _, rfl, -⟩ := Statement.inserted_eq_some inserted
    cases htarget
  | keep _ target => cases target.symm.trans htarget

theorem inCharge_other (hs : Standing ports c) (hsafe : StatementSafe c turn.statement)
    (hcharge : ∀ q held, hold q (c.place q) = some held → InCharge c.shared q held)
    (hturn : turnOf ports c.shared.db c.shared.quarantine p act (c.place p) = some turn)
    (hpq : p ≠ q) (hhold : hold q (c.place q) = some held) :
    InCharge (c.shared.commit p turn) q held :=
  (hcharge q held hhold).commit (hs.accounted.id_lt (hs.known q held hhold)) hturn
    (target_ne_of_inCharge hs hsafe hcharge hturn hpq hhold)
    fun _ _ hreset _ hrow hid => not_stale_of_inCharge hsafe hhold (hcharge q held hhold) hreset
      hrow hid

theorem inCharge_own (hs : Standing ports c) (hclaims : ClaimsKnown c.shared)
    (hsafe : StatementSafe c turn.statement)
    (hcharge : ∀ q held, hold q (c.place q) = some held → InCharge c.shared q held)
    (hturn : turnOf ports c.shared.db c.shared.quarantine p act (c.place p) = some turn)
    (hhold : hold p turn.next = some held) : InCharge (c.shared.commit p turn) p held := by
  have hcases := turnOf_cases hturn
  generalize hstatement : turn.statement = statement at hcases
  cases hcases with
  | @claim row now present _ _ _ hnext =>
    obtain rfl := Option.some.inj (hnext.symm.trans hhold)
    refine ⟨latestClaim_claim hstatement, fun row' hrow' hid => ?_⟩
    simp only [Shared.commit, hstatement] at hrow'
    obtain ⟨old, -, -, rfl⟩ | hinserted := Statement.mem_exec.mp hrow'
    · rw [Statement.id_update] at hid
      simp only [Statement.update, if_pos (show old.id = row.id from hid), Job.claimed]
    · cases hinserted
  | finish _ _ free => cases free.symm.trans hhold
  | @file _ job inserted _ hnext =>
    obtain rfl := Option.some.inj (hnext.symm.trans hhold)
    subst hstatement
    obtain ⟨_, _, _, _, _, henqueue, -, -, hjob, hexec⟩ := Statement.inserted_eq_some inserted
    have hid : job.id = c.shared.db.nextJob := by rw [hjob]; rfl
    have hlatest : latestClaim job.id (c.shared.commit p turn).log =
        latestClaim job.id c.shared.log :=
      latestClaim_commit hturn fun now => by rw [henqueue]; simp
    refine ⟨hlatest.trans (hclaims _ hid.ge), enqueued_mem_commit.mpr (.inl ⟨rfl, inserted⟩), ?_⟩
    intro row hrow hrowid
    simp only [Shared.commit, hexec, List.mem_append, List.mem_singleton] at hrow
    obtain hrow | rfl := hrow
    · have hlt := hs.accounted.id_lt (hs.accounted.known row hrow)
      exact absurd (hrowid.trans hid) hlt.ne
    · rw [hjob]
      rfl
  | keep same target =>
    rw [same] at hhold
    refine (hcharge p held hhold).commit (hs.accounted.id_lt (hs.known p held hhold)) hturn ?_ ?_
    · rw [hstatement, target]
      exact (Option.some_ne_none _).symm
    · intro olderThan now hreset row hrow hid
      exact not_stale_of_inCharge hsafe hhold (hcharge p held hhold) hreset hrow hid

theorem claimsKnown_commit (hs : Standing ports c) (hclaims : ClaimsKnown c.shared)
    (hturn : turnOf ports c.shared.db c.shared.quarantine p act (c.place p) = some turn) :
    ClaimsKnown (c.shared.commit p turn) := by
  intro id hid
  have hnext : (c.shared.commit p turn).db.nextJob =
      c.shared.db.nextJob + (turn.statement.inserted c.shared.db).toList.length :=
    Statement.nextJob_exec turn.statement
  have hle : c.shared.db.nextJob ≤ id := Nat.le_trans (hnext ▸ Nat.le_add_right _ _) hid
  refine (latestClaim_commit hturn fun now hclaim => ?_).trans (hclaims id hle)
  have hcases := turnOf_cases hturn
  rw [hclaim] at hcases
  cases hcases with
  | claim present => 
    exact Nat.not_lt.mpr hle (hs.accounted.id_lt (hs.accounted.known _ present))
  | file inserted => cases inserted
  | keep _ target => cases target

end Runs

theorem ownership_invariant (ports : IngestPorts) (quarantine : Quarantine) :
    (parties ports quarantine).Invariant
      (fun c move => OwnershipSafe ports c move ∧ Standing ports c) ClaimsKnown
      (fun p s place => ∀ held, hold p place = some held → InCharge s p held) where
  start := fun _ _ => rfl
  idle p s held h := by cases p <;> cases h
  own c p act shared place hok hI hL h := by
    obtain ⟨turn, hturn, hcommit⟩ := Option.map_eq_some_iff.mp h
    obtain ⟨rfl, rfl⟩ := Prod.mk.inj hcommit
    exact ⟨claimsKnown_commit hok.2 hI hturn, fun held hhold =>
      inCharge_own hok.2 hI (hok.1 turn hturn) hL hturn hhold⟩
  other c p act shared place q hq hok _ hL h := by
    obtain ⟨turn, hturn, hcommit⟩ := Option.map_eq_some_iff.mp h
    obtain ⟨rfl, rfl⟩ := Prod.mk.inj hcommit
    exact fun held hhold => inCharge_other hok.2 (hok.1 turn hturn) hL hturn hq.symm hhold

theorem inCharge {ports : IngestPorts} {quarantine : Quarantine} {c : QueueConfig}
    (hc : ((system ports quarantine).when (OwnershipSafe ports)).Reachable c) {p : Party}
    {held : Hold} (hhold : hold p (c.place p) = some held) : InCharge c.shared p held :=
  ((ownership_invariant ports quarantine).holds
    (hc.when_and fun _ h => standing h.of_when)).2 p held hhold

/-! ## The records of finished jobs -/

/-- What a step does to the records of jobs. -/
structure OwnedStep (ports : IngestPorts) (c : QueueConfig) (move : QueueMove)
    (c' : QueueConfig) : Prop where
  /-- A finish that reaches a row is the latest claimant's, or that of the party that queued
  the job, which nobody has claimed. -/
  finish : ∀ p act turn id state result error now, move = .turn p act →
    turnOf ports c.shared.db c.shared.quarantine p act (c.place p) = some turn →
    turn.statement = .finish id state result error now → (∃ row ∈ c.shared.db.jobs, row.id = id) →
    latestClaim id c.shared.log = some p ∨
      latestClaim id c.shared.log = none ∧ (∃ job, hold p (c.place p) = some (.filing job)) ∧
        queuedBy id c.shared.log = some p
  /-- The record of a closed job is final. -/
  final : ∀ row ∈ c.shared.db.jobs, row.isOpen = false → ∀ row' ∈ c'.shared.db.jobs,
    row'.id = row.id → row' = row
  /-- A job is closed by its latest claimant, where it has one. -/
  closes : ∀ row ∈ c.shared.db.jobs, row.isOpen = true → ∀ row' ∈ c'.shared.db.jobs,
    row'.id = row.id → row'.isOpen = false →
    ∀ q, latestClaim row.id c.shared.log = some q → move.party = q

section Result

variable {ports : IngestPorts} {c : QueueConfig} {p : Party} {act : Act p}
  {turn : Turn (Place p)}

/-- The party that finishes a job is in charge of it. -/
theorem finishes_inCharge
    (hcharge : ∀ q held, hold q (c.place q) = some held → InCharge c.shared q held)
    (hturn : turnOf ports c.shared.db c.shared.quarantine p act (c.place p) = some turn)
    {id : JobId} {state result error now}
    (hfinish : turn.statement = .finish id state result error now) :
    ∃ held, hold p (c.place p) = some held ∧ held.job.id = id ∧ InCharge c.shared p held := by
  have hcases := turnOf_cases hturn
  rw [hfinish] at hcases
  cases hcases with
  | @finish held _ _ _ _ holds _ _ => exact ⟨held, holds, rfl, hcharge p held holds⟩
  | file inserted => cases inserted
  | keep _ target => cases target

/-- The rows of the job that a party in charge has in hand are open. -/
theorem InCharge.isOpen {s : Shared} {held : Hold} (h : InCharge s p held) {row : QueueJob}
    (hrow : row ∈ s.db.jobs) (hid : row.id = held.job.id) : row.isOpen = true := by
  cases held with
  | running job => simp [Job.isOpen, h.2 row hrow hid]
  | filing job => simp [Job.isOpen, h.2.2 row hrow hid]

theorem ownedStep_turn (hs : Standing ports c)
    (hcharge : ∀ q held, hold q (c.place q) = some held → InCharge c.shared q held)
    (hturn : turnOf ports c.shared.db c.shared.quarantine p act (c.place p) = some turn) :
    OwnedStep ports c (.turn p act)
      ⟨c.shared.commit p turn, Function.update c.place p turn.next⟩ := by
  -- A row afterwards is an earlier one with the same id, so the only candidate is that one.
  have hback {row row' : QueueJob} (hrow : row ∈ c.shared.db.jobs)
      (hrow' : row' ∈ (turn.statement.exec c.shared.db).jobs) (hid : row'.id = row.id) :
      row' = turn.statement.update row := by
    obtain ⟨old, hold, -, rfl⟩ | hinserted := Statement.mem_exec.mp hrow'
    · rw [Statement.id_update] at hid
      rw [hs.accounted.ids old hold row hrow hid]
    · obtain ⟨_, _, _, _, _, -, -, -, rfl, -⟩ := Statement.inserted_eq_some hinserted
      exact absurd hid.symm (hs.accounted.id_lt (hs.accounted.known row hrow)).ne
  refine ⟨?finish, ?final, ?closes⟩
  case finish =>
    intro p' act' turn' id state result error now hmove hturn' hfinish hrow
    cases hmove
    obtain ⟨held, hheld, rfl, hin⟩ := finishes_inCharge hcharge hturn' hfinish
    cases held with
    | running job => exact .inl hin.1
    | filing job => exact .inr ⟨hin.1, ⟨job, hheld⟩, queuedBy_of_enqueued hs.accounted hin.2.1⟩
  case final =>
    intro row hrow hclosed row' hrow' hid
    obtain rfl := hback hrow hrow' hid
    refine Statement.update_of_closed hclosed fun htarget => ?_
    have hcases := turnOf_cases hturn
    generalize turn.statement = statement at hcases htarget
    cases hcases with
    | @claim row₀ now present queued =>
      obtain rfl := hs.accounted.ids row₀ present row hrow (Option.some.inj htarget)
      simp [Job.isOpen, queued] at hclosed
    | @finish held _ _ _ _ holds _ _ =>
      have hopen := (hcharge p held holds).isOpen hrow (Option.some.inj htarget).symm
      rw [hclosed] at hopen
      cases hopen
    | file inserted =>
      obtain ⟨_, _, _, _, _, rfl, -⟩ := Statement.inserted_eq_some inserted
      cases htarget
    | keep _ target => cases target.symm.trans htarget
  case closes =>
    intro row hrow hopen row' hrow' hid hclosed q hlatest
    obtain rfl := hback hrow hrow' hid
    obtain hsame | ⟨state, result, error, now, hfinish, -⟩ := Statement.update_closed hclosed
    · rw [hsame, hopen] at hclosed
      cases hclosed
    · obtain ⟨held, -, hheld, hin⟩ := finishes_inCharge hcharge hturn hfinish
      cases held with
      | running job =>
        have hclaim := hin.1
        rw [show job.id = row.id from hheld, hlatest] at hclaim
        exact (Option.some.inj hclaim).symm
      | filing job =>
        have hclaim := hin.1
        rw [show job.id = row.id from hheld, hlatest] at hclaim
        cases hclaim

theorem ownedStep_crash (hs : Standing ports c) : OwnedStep ports c (.crash p)
    ⟨c.shared, Function.update c.place p (idle p)⟩ := by
  refine ⟨?finish, ?final, ?closes⟩
  case finish => exact fun _ _ _ _ _ _ _ _ hmove => by cases hmove
  case final => exact fun row hrow _ row' hrow' hid => hs.accounted.ids row' hrow' row hrow hid
  case closes =>
    intro row hrow hopen row' hrow' hid hclosed
    obtain rfl := hs.accounted.ids row' hrow' row hrow hid
    cases hopen.symm.trans hclosed

end Result

/-- In every run whose resets and claims are safe, each further step keeps to the ownership
of jobs. -/
theorem owned_step {ports : IngestPorts} {quarantine : Quarantine} {c c' : QueueConfig}
    {move : QueueMove} (hc : ((system ports quarantine).when (OwnershipSafe ports)).Reachable c)
    (hstep : (system ports quarantine).step c move c') : OwnedStep ports c move c' := by
  have hs := standing hc.of_when
  have hcharge : ∀ q held, hold q (c.place q) = some held → InCharge c.shared q held :=
    fun _ _ hhold => inCharge hc hhold
  cases move with
  | turn p act =>
    obtain ⟨shared, place, hmove, rfl⟩ := Parties.next_turn hstep
    obtain ⟨turn, hturn, hcommit⟩ := Option.map_eq_some_iff.mp hmove
    obtain ⟨rfl, rfl⟩ := Prod.mk.inj hcommit
    exact ownedStep_turn hs hcharge hturn
  | crash p =>
    obtain rfl := Parties.next_crash hstep
    exact ownedStep_crash hs

theorem owned_step_editor : ∃ c c' : QueueConfig,
    OwnedStep Ingest.editorPorts c (ingestMove 0 0 none) c' ∧
      jobStates c = [(1, .VALIDATE, .DONE), (2, .POLL, .RUNNING)] ∧
      jobStates c' = [(1, .VALIDATE, .DONE), (2, .POLL, .DONE)] := by
  have hrun : (System.exec (fun c move => if OwnershipSafe Ingest.editorPorts c move then
        editorParties.next c move else none) (registration ++ polling.dropLast)
      editorParties.initial).map
        (fun c => (jobStates c, (editorParties.next c (ingestMove 0 0 none)).map jobStates)) =
      some ([(1, .VALIDATE, .DONE), (2, .POLL, .RUNNING)],
        some [(1, .VALIDATE, .DONE), (2, .POLL, .DONE)]) := by
    decide +kernel
  obtain ⟨c, hc, hend⟩ := Option.map_eq_some_iff.mp hrun
  obtain ⟨hbefore, hnext⟩ := Prod.mk.inj hend
  obtain ⟨c', hstep, hafter⟩ := Option.map_eq_some_iff.mp hnext
  exact ⟨c, c', owned_step (System.reachable_exec_when (.start rfl) hc) hstep, hbefore, hafter⟩

/-- Worker 0 claims the validation; an hour later worker 1 resets, claims and finishes it. -/
def overtaken : List QueueMove :=
  List.replicate 3 (requestMove 0 (.create Ingest.editorSource)) ++
    [none, none, some (queuedJob 1 .VALIDATE "alice" none), none, none, none].map
      (ingestMove 0 0) ++
    [none, none, some { queuedJob 1 .VALIDATE "alice" none with attempts := 1 }, none, none, none,
      none].map (ingestMove 1 3600)

def finishing : Ingest.IngestPlace → Option JobId
  | .finishing job _ _ => some job.id
  | _ => none

/-- Worker 0 then finishes the job a second time, which is no longer its own. -/
theorem overtaken_worker_finishes :
    ¬ ∀ (ports : IngestPorts) (quarantine : Quarantine) (c c' : QueueConfig) (move : QueueMove),
      (system ports quarantine).Reachable c → (system ports quarantine).step c move c' →
      OwnedStep ports c move c' := by
  intro hclaim
  have hrun : (endOf overtaken).map (fun c => (latestClaim 1 c.shared.log,
        finishing (c.place (.ingest 0)), c.shared.db.jobs.any (·.id == 1))) =
      some (some (.ingest 1), some 1, true) := by
    decide +kernel
  obtain ⟨c, hc, hend⟩ := Option.map_eq_some_iff.mp hrun
  obtain ⟨hlatest, hrest⟩ := Prod.mk.inj hend
  obtain ⟨hplace, hrow⟩ := Prod.mk.inj hrest
  obtain ⟨row, hrow, hid⟩ := List.any_eq_true.mp hrow
  have howned (c' : QueueConfig) := hclaim _ _ c c' (ingestMove 0 3600 none) (reachable_endOf hc)
  generalize hat : (c.place (.ingest 0) : Ingest.IngestPlace) = place at hplace
  cases place with
  | finishing job source result =>
    have hjob : job.id = 1 := Option.some.inj hplace
    have hturn : ∃ turn, turnOf Ingest.editorPorts c.shared.db c.shared.quarantine (.ingest 0)
        ⟨3600, [], none, none, none, editorForge "v1.0", ["malware", "publisher", "sbom"]⟩
        (c.place (.ingest 0)) = some turn ∧
          turn.statement = .finish job.id .DONE (some result) none 3600 := by
      rw [hat]
      exact ⟨_, rfl, rfl⟩
    obtain ⟨turn, hturn, hfinish⟩ := hturn
    have hstep := howned _ (Option.map_eq_some_iff.mpr ⟨_, Option.map_eq_some_iff.mpr
      ⟨turn, hturn, rfl⟩, rfl⟩)
    obtain hmine | ⟨hnone, -⟩ := hstep.finish _ _ turn _ _ _ _ _ rfl hturn hfinish
      ⟨row, hrow, (beq_iff_eq.mp hid).trans hjob.symm⟩
    · cases hlatest.symm.trans (hjob ▸ hmine)
    · cases hlatest.symm.trans (hjob ▸ hnone)
  | _ => cases hplace

end DistPlatform.Queue
