import DistPlatform.Queue.Approved

/-!
# From a promoted poll to its publish job

The record of a poll and the publish job for it are two statements. This module says what has
to hold in between for every promoted record to have its job.

## Main definitions

* `pending` — the publish job a worker has still to queue.
* `HandOffSafe` — the steps that lose none.
* `NothingLost` — the invariant.
-/

namespace DistPlatform.Queue

open Runs History
open Ingest (IngestPorts JobResult PollRecord PublishPayload Quarantine handOffPayload
  outcomeRecord)
open Registry (Job JobId Source SourceId Statement Store)

def pending : ∀ p, Place p → Option (SourceId × PublishPayload)
  | .ingest _, place => match place with
    | .handingOff _ source payload => some (source.id, payload)
    | _ => none
  | .signer _, _ => none
  | .request _, _ => none
  | .ceremony, _ => none

/-- A publish job for the artifact, open or finished. -/
def HasPublishJob (db : Db) (source : SourceId) (payload : PublishPayload) : Prop :=
  ∃ job ∈ db.jobs, job.kind = .PUBLISH ∧ job.sourceId = source ∧ job.payload = some payload

/-- Nothing is left to queue: there is a job already, or the source is gone. -/
def Settled (db : Db) (source : SourceId) (payload : PublishPayload) : Prop :=
  (db.getSource source).isNone ∨ HasPublishJob db source payload

/-- A worker does not die before its hand-off, and at the hand-off the source has no open
job. -/
def HandOffSafe (c : QueueConfig) : QueueMove → Prop
  | .crash p => ∀ due ∈ pending p (c.place p), Settled c.shared.db due.1 due.2
  | .turn p _ => ∀ due ∈ pending p (c.place p),
      c.shared.db.hasOpenJob due.1 = false ∨ Settled c.shared.db due.1 due.2

instance (db : Db) (source : SourceId) (payload : PublishPayload) :
    Decidable (HasPublishJob db source payload) :=
  inferInstanceAs (Decidable (∃ job ∈ db.jobs, _))

instance (db : Db) (source : SourceId) (payload : PublishPayload) :
    Decidable (Settled db source payload) :=
  inferInstanceAs (Decidable (_ ∨ _))

instance (c : QueueConfig) (move : QueueMove) : Decidable (HandOffSafe c move) :=
  match move with
  | .crash _ => inferInstanceAs (Decidable (∀ due ∈ pending _ _, _))
  | .turn _ _ => inferInstanceAs (Decidable (∀ due ∈ pending _ _, _))

/-- Every done poll that was promoted has its publish job, or a worker is about to queue it. -/
def NothingLost (c : QueueConfig) : Prop :=
  ∀ row ∈ c.shared.db.jobs, ∀ payload, row.state = .DONE →
    row.result.bind (handOffPayload row.kind) = some payload →
    HasPublishJob c.shared.db row.sourceId payload ∨
      ∃ p, pending p (c.place p) = some (row.sourceId, payload)

/-! ## One step -/

section Step

variable {ports : IngestPorts} {s : Shared} {p : Party} {act : Act p} {place : Place p}
  {turn : Turn (Place p)} {row : QueueJob} {payload : PublishPayload}

/-- A statement that keeps a job of the source keeps its publish jobs. -/
theorem HasPublishJob.exec {statement : QueueStatement}
    (h : HasPublishJob s.db row.sourceId payload) (hkeeps : statement.keeps row = true) :
    HasPublishJob (statement.exec s.db) row.sourceId payload := by
  obtain ⟨job, hjob, hkind, hsource, hpayload⟩ := h
  obtain ⟨-, hsource', hkind', hpayload'⟩ := Job.fixed_inj.mp (statement.fixed_update job)
  have hkeeps' : statement.keeps job = true := by
    cases statement with
    | deleteSource id => simpa [Statement.keeps, hsource] using hkeeps
    | _ => rfl
  exact ⟨_, Statement.mem_exec.mpr (.inl ⟨job, hjob, hkeeps', rfl⟩), hkind'.trans hkind,
    hsource'.trans hsource, hpayload'.trans hpayload⟩

/-- The turn of a worker that has a publish job to queue. -/
theorem turnOf_pending {source : SourceId}
    (h : turnOf ports s.db s.quarantine p act place = some turn)
    (hpending : pending p place = some (source, payload)) :
    ∃ now, turn.statement = .enqueue source .PUBLISH "ingest" (some payload) now := by
  cases p with
  | ingest worker =>
    cases place with
    | handingOff job found payload' =>
      obtain ⟨rfl, rfl⟩ := Prod.mk.inj (Option.some.inj hpending)
      obtain rfl := Option.some.inj h
      exact ⟨act.now, rfl⟩
    | _ => cases hpending
  | _ => cases hpending

/-- It is queued where the source has no open job. -/
theorem hasPublishJob_enqueue {source : SourceId} {requestedBy : String} {now : Nat}
    (hsource : (s.db.getSource source).isSome) (hopen : s.db.hasOpenJob source = false) :
    HasPublishJob ((Statement.enqueue source .PUBLISH requestedBy (some payload) now).exec s.db)
      source payload := by
  have hnone : (s.db.getSource source).isNone = false := by
    simpa [Option.isSome_iff_ne_none] using hsource
  refine ⟨s.db.newJob source .PUBLISH requestedBy (some payload) now, ?_, rfl, rfl, rfl⟩
  simp [Statement.exec, Store.enqueue, hopen, hnone]

/-- A finish with the record of a promoted poll is followed by its hand-off. -/
theorem turnOf_promotes {id : JobId} {state error now} {result : JobResult}
    (hI : Accounted s) (hhold : ∀ held, hold p place = some held → Known s.log held.job)
    (hplace : PlaceSound ports s.log p place) (hrow : Known s.log row) (hid : row.id = id)
    (h : turnOf ports s.db s.quarantine p act place = some turn)
    (hfinish : turn.statement = .finish id state (some result) error now)
    (hpayload : handOffPayload row.kind result = some payload) :
    pending p turn.next = some (row.sourceId, payload) := by
  obtain ⟨-, record, rfl, -⟩ := Ingest.handOffPayload_eq_some hpayload
  cases p with
  | ingest worker =>
    obtain ⟨job, source, rfl, rfl, -, hnext⟩ := ingestTurn_polled h hfinish
    have hfixed := Job.fixed_inj.mp (hI.fixed_of_id hrow (hhold _ rfl) hid)
    rw [hnext payload (hfixed.2.2.1 ▸ hpayload), hfixed.2.1]
    exact congrArg (fun id => some (id, payload)) hplace.1
  | signer worker => exact absurd hfinish (signerTurn_polled h)
  | request id =>
    obtain rfl := Option.some.inj h
    cases (adminTurn_target _ _ _).symm.trans (congrArg Statement.target hfinish)
  | ceremony =>
    obtain rfl := Option.some.inj h
    cases hfinish

end Step

theorem nothingLost_crash {c : QueueConfig} {p : Party} (hI : Accounted c.shared)
    (hok : HandOffSafe c (.crash p)) (h : NothingLost c) :
    NothingLost ⟨c.shared, Function.update c.place p (idle p)⟩ := by
  intro row hrow payload hdone hresult
  obtain hjob | ⟨q, hpending⟩ := h row hrow payload hdone hresult
  · exact .inl hjob
  · by_cases hq : q = p
    · subst hq
      obtain hgone | hjob := hok _ hpending
      · simp [Option.isSome_iff_ne_none.mp (hI.sourced row hrow)] at hgone
      · exact .inl hjob
    · exact .inr ⟨q, by simpa only [Function.update_of_ne hq] using hpending⟩

theorem nothingLost_turn {ports : IngestPorts} {c : QueueConfig} {p : Party} {act : Act p}
    {turn : Turn (Place p)} (hs : Standing ports c) (hok : HandOffSafe c (.turn p act))
    (h : NothingLost c)
    (hturn : turnOf ports c.shared.db c.shared.quarantine p act (c.place p) = some turn) :
    NothingLost ⟨c.shared.commit p turn, Function.update c.place p turn.next⟩ := by
  intro row hrow payload hdone hresult
  obtain ⟨old, hold, hkeeps, rfl⟩ | hinserted := Statement.mem_exec.mp hrow
  · have hsome := hs.accounted.sourced old hold
    have hclosed : (turn.statement.update old).isOpen = false := by simp [Job.isOpen, hdone]
    obtain hsame | ⟨state, result, error, now, hstatement, hfinished⟩ :=
      Statement.update_closed hclosed
    · rw [hsame] at hdone hresult ⊢
      obtain hjob | ⟨q, hpending⟩ := h old hold payload hdone hresult
      · exact .inl (hjob.exec hkeeps)
      · by_cases hq : q = p
        · subst hq
          obtain hopen | hgone | hjob := hok _ hpending
          · obtain ⟨now, hstatement⟩ := turnOf_pending hturn hpending
            refine .inl ?_
            simp only [Shared.commit, hstatement]
            exact hasPublishJob_enqueue hsome hopen
          · simp [Option.isSome_iff_ne_none.mp hsome] at hgone
          · exact .inl (hjob.exec hkeeps)
        · exact .inr ⟨q, by simpa only [Function.update_of_ne hq] using hpending⟩
    · rw [hfinished] at hresult ⊢
      obtain ⟨found, rfl, hpayload⟩ := Option.bind_eq_some_iff.mp hresult
      have hpending := turnOf_promotes hs.accounted (hs.known p) (hs.places p)
        (hs.accounted.known old hold) rfl hturn hstatement hpayload
      refine .inr ⟨p, ?_⟩
      simp only [Function.update_self]
      exact hpending
  · obtain ⟨_, _, _, _, _, -, -, -, rfl, -⟩ := Statement.inserted_eq_some hinserted
    cases hdone

theorem nothingLost {ports : IngestPorts} {quarantine : Quarantine} {c : QueueConfig}
    (hc : ((system ports quarantine).when HandOffSafe).Reachable c) : NothingLost c := by
  induction hc with
  | start h0 =>
    obtain rfl : _ = (parties ports quarantine).initial := h0
    exact fun _ h => absurd h List.not_mem_nil
  | @step c move c' hc hstep ih =>
    have hs := standing hc.of_when
    obtain ⟨hok, hnext⟩ := hstep
    cases move with
    | turn p act =>
      obtain ⟨shared, place, hmove, rfl⟩ := Parties.next_turn hnext
      obtain ⟨turn, hturn, hcommit⟩ := Option.map_eq_some_iff.mp hmove
      obtain ⟨rfl, rfl⟩ := Prod.mk.inj hcommit
      exact nothingLost_turn hs hok ih hturn
    | crash p =>
      obtain rfl := Parties.next_crash hnext
      exact nothingLost_crash hs.accounted hok ih

/-! ## The result -/

/-- The records of polls in the database are what `do_poll` reported. -/
def ResultsPolled (ports : IngestPorts) (s : Shared) : Prop :=
  ∀ row ∈ s.db.jobs, ∀ record, row.result = some (.polled record) →
    ∃ source polled, Polls ports source polled ∧ record = outcomeRecord polled

theorem resultsPolled_invariant (ports : IngestPorts) (quarantine : Quarantine) :
    (parties ports quarantine).Invariant (fun c _ => True ∧ Standing ports c)
      (ResultsPolled ports) (fun _ _ _ => True) where
  start := fun _ h => absurd h List.not_mem_nil
  idle _ _ := trivial
  own c p act shared place hok hI _ h := by
    obtain ⟨turn, hturn, hcommit⟩ := Option.map_eq_some_iff.mp h
    obtain ⟨rfl, rfl⟩ := Prod.mk.inj hcommit
    refine ⟨fun row hrow record hresult => ?_, trivial⟩
    obtain ⟨old, hold, -, rfl⟩ | hinserted := Statement.mem_exec.mp hrow
    · obtain hkept | ⟨state, result, error, now, hstatement, hwritten⟩ :=
        Statement.result_update turn.statement old
      · exact hI old hold record (hkept.symm.trans hresult)
      · obtain rfl := hwritten.symm.trans hresult
        have hplace := hok.2.places p
        cases p with
        | ingest worker =>
          generalize c.place (.ingest worker) = place at hturn hplace
          obtain ⟨job, source, rfl, -⟩ := ingestTurn_polled hturn hstatement
          obtain ⟨polled, hrecord, hlast⟩ := hplace.2 record rfl
          exact ⟨source, polled, (decided_of_mem hok.2.log (mem_of_lastDecision hlast)).polls,
            hrecord⟩
        | signer worker => exact absurd hstatement (signerTurn_polled hturn)
        | request id =>
          obtain rfl := Option.some.inj hturn
          cases (adminTurn_target _ _ _).symm.trans (congrArg Statement.target hstatement)
        | ceremony =>
          obtain rfl := Option.some.inj hturn
          cases hstatement
    · obtain ⟨_, _, _, _, _, -, -, -, rfl, -⟩ := Statement.inserted_eq_some hinserted
      cases hresult
  other _ _ _ _ _ _ _ _ _ _ _ := trivial

theorem resultsPolled {ports : IngestPorts} {quarantine : Quarantine} {c : QueueConfig}
    (hc : (system ports quarantine).Reachable c) : ResultsPolled ports c.shared :=
  ((resultsPolled_invariant ports quarantine).holds
    ((hc.to_when fun _ _ => trivial).when_and fun _ h => standing h.of_when)).1

/-- Every poll recorded as done with a promotion has a publish job with what it found. -/
def PromotedAreQueued (db : Db) : Prop :=
  ∀ row ∈ db.jobs, row.kind = .POLL → row.state = .DONE → ∀ record,
    row.result = some (.polled record) → record.decision = .PROMOTE →
    ∃ job ∈ db.jobs, job.kind = .PUBLISH ∧ job.sourceId = row.sourceId ∧ ∃ payload,
      job.payload = some payload ∧ record.sha256 = some payload.sha256 ∧
        record.version = payload.version ∧ record.filename = payload.filename

/-- In every run that only takes safe steps at a hand-off, no promoted poll is lost. -/
theorem promoted_are_queued {ports : IngestPorts} {quarantine : Quarantine} {c : QueueConfig}
    (hc : ((system ports quarantine).when HandOffSafe).Reachable c)
    (hquiet : ∀ p, pending p (c.place p) = none) : PromotedAreQueued c.shared.db := by
  intro row hrow hkind hdone record hresult hpromote
  obtain ⟨source, polled, ⟨-, skipNamed, answers, quarantine', hpoll⟩, rfl⟩ :=
    resultsPolled hc.of_when row hrow record hresult
  obtain ⟨sha256, hsha⟩ := Ingest.outcomeRecord_sha256 hpoll hpromote
  obtain ⟨payload, hpayload⟩ : ∃ payload,
      handOffPayload row.kind (.polled (outcomeRecord polled)) = some payload := by
    simp [handOffPayload, hkind, hpromote, hsha]
  obtain ⟨job, hjob, hpublish, hsource, hcarries⟩ | ⟨p, hpending⟩ :=
    nothingLost hc row hrow payload hdone (by rw [hresult]; exact hpayload)
  · obtain ⟨-, found, hfound, -, -, hversion, hfilename, hsha'⟩ :=
      Ingest.handOffPayload_eq_some hpayload
    obtain rfl := JobResult.polled.inj hfound
    exact ⟨job, hjob, hpublish, hsource, payload, hcarries, hsha', hversion, hfilename⟩
  · cases (hquiet p).symm.trans hpending

def isOtherWorker : Party → Bool
  | .ingest worker => worker != 0
  | _ => false

/-- Nobody but worker 0 ever has a job to queue in the editor's runs. -/
theorem quiet_endOf {moves : List QueueMove} {c : QueueConfig} (h : endOf moves = some c)
    (hworkers : (moves.all fun move => !isOtherWorker move.party) = true)
    (hzero : (c.place (.ingest 0) : Ingest.IngestPlace) = .idle) (p : Party) :
    pending p (c.place p) = none := by
  cases p with
  | ingest worker =>
    by_cases hw : worker = 0
    · subst hw
      rw [hzero]
      rfl
    · have hparty : ∀ move ∈ moves, Party.ingest worker ≠ move.party := by
        intro move hmove heq
        have := List.all_eq_true.mp hworkers move hmove
        simp [← heq, isOtherWorker, hw] at this
      rw [Parties.place_exec h hparty]
      rfl
  | _ => rfl

/-- A done poll in the database was promoted. -/
def somePromoted (c : QueueConfig) : Bool :=
  c.shared.db.jobs.any fun row => row.kind == .POLL && row.state == .DONE &&
    (row.result.bind (handOffPayload row.kind)).isSome

theorem promoted_are_queued_editor :
    ∃ c : QueueConfig, somePromoted c = true ∧ PromotedAreQueued c.shared.db := by
  have hrun : (System.exec (fun c move => if HandOffSafe c move then editorParties.next c move
      else none) (registration ++ polling ++ signing) editorParties.initial).map
        (fun c => (somePromoted c, (c.place (.ingest 0) : Ingest.IngestPlace))) =
      some (true, .idle) := by
    decide +kernel
  obtain ⟨c, hc, hend⟩ := Option.map_eq_some_iff.mp hrun
  obtain ⟨hsome, hzero⟩ := Prod.mk.inj hend
  have hquiet := quiet_endOf (System.exec_of_when hc) rfl hzero
  exact ⟨c, hsome, promoted_are_queued (System.reachable_exec_when (.start rfl) hc) hquiet⟩

/-- Between the record of the poll and its hand-off an operator queues another job. -/
theorem promoted_poll_lost :
    ¬ ∀ (ports : IngestPorts) (quarantine : Quarantine) (c : QueueConfig),
      (system ports quarantine).Reachable c → (∀ p, pending p (c.place p) = none) →
      PromotedAreQueued c.shared.db := by
  intro hclaim
  have hrun : (endOf (registration ++ polling ++ List.replicate 2 (requestMove 2 (.act 1 .poll)) ++
      [ingestMove 0 0 none])).map
        (fun c => (somePromoted c, c.shared.db.jobs.all (·.kind != .PUBLISH),
          (c.place (.ingest 0) : Ingest.IngestPlace))) =
      some (true, true, .idle) := by
    decide +kernel
  obtain ⟨c, hc, hend⟩ := Option.map_eq_some_iff.mp hrun
  obtain ⟨hsome, hrest⟩ := Prod.mk.inj hend
  obtain ⟨hnone, hzero⟩ := Prod.mk.inj hrest
  have hqueued := hclaim _ _ c (reachable_endOf hc) (quiet_endOf hc rfl hzero)
  obtain ⟨row, hrow, hpromoted⟩ := List.any_eq_true.mp hsome
  simp only [Bool.and_eq_true, beq_iff_eq] at hpromoted
  obtain ⟨⟨hkind, hdone⟩, hpayload⟩ := hpromoted
  obtain ⟨payload, hpayload⟩ := Option.isSome_iff_exists.mp hpayload
  obtain ⟨result, hresult, hpayload⟩ := Option.bind_eq_some_iff.mp hpayload
  obtain ⟨-, record, rfl, hpromote, -⟩ := Ingest.handOffPayload_eq_some hpayload
  obtain ⟨job, hjob, hpublish, -⟩ := hqueued row hrow hkind hdone record hresult hpromote
  have := List.all_eq_true.mp hnone job hjob
  simp [hpublish] at this

end DistPlatform.Queue
