import DistPlatform.Queue.Sources

/-!
# Sources that are being validated

A handler queues a validate job and then marks the source, in two statements. The mark is taken
back by the worker that reports on the job, so it is stuck where that worker has reported
already, or where no validate job was queued because another job is open.

## Main definitions

* `reporting` — the source on whose validation a worker has still to report.
* `Awaited` — a report on a source is still to come.
* `MarksAwaited` — a handler marks a source only where a report is to come.
-/

namespace DistPlatform.Queue

open Runs
open Admin (RequestPlace)
open Ingest (IngestPlace IngestPorts Quarantine)
open Registry (Job JobId Source SourceId SourceStatus Statement Store)

/-- The source on whose validation a party has still to report. -/
def reporting : ∀ p, Place p → Option SourceId
  | .ingest _, .fetching job => if job.kind = .VALIDATE then some job.sourceId else none
  | .ingest _, .working job source | .ingest _, .failing job source _ =>
    if job.kind = .VALIDATE then some source.id else none
  | .ingest _, .recording _ source _ | .ingest _, .invalidating source _ => some source.id
  | _, _ => none

/-- A party is responsible for the job. -/
def Held (c : QueueConfig) (job : JobId) : Prop :=
  ∃ p held, hold p (c.place p) = some held ∧ held.job.id = job

/-- A validate job of the source is open and in nobody's hands, or somebody has still to report
on one. -/
def Awaited (c : QueueConfig) (id : SourceId) : Prop :=
  (∃ job ∈ c.shared.db.jobs, job.kind = .VALIDATE ∧ job.sourceId = id ∧ job.isOpen = true ∧
    ¬ Held c job.id) ∨ ∃ p, reporting p (c.place p) = some id

/-- The configuration after a party has died. -/
def afterCrash (c : QueueConfig) (p : Party) : QueueConfig :=
  ⟨c.shared, Function.update c.place p (idle p)⟩

/-- A handler marks a source, if it is still there, only where a report on it is to come; and
a worker that dies before its report leaves it to another. -/
def MarksAwaited (c : QueueConfig) : QueueMove → Prop
  | .turn (.request request) _ => ∀ id, c.place (.request request) = .marking id →
      (c.shared.db.getSource id).isSome → Awaited c id
  | .turn _ _ => True
  | .crash p => ∀ id, reporting p (c.place p) = some id → Awaited (afterCrash c p) id

/-! ## A report stays to come -/

section Turn

variable {ports : IngestPorts} {db : Db} {quarantine : Quarantine} {p : Party} {act : Act p}
  {place : Place p} {turn : Turn (Place p)}

/-- The source whose status a statement writes. -/
def statusOf : QueueStatement → Option SourceId
  | .setStatus id _ _ | .recordIdentity id _ _ => some id
  | _ => none

/-- A party that has still to report reports now, or still has to. -/
theorem reporting_turn {id : SourceId} (hsource : (db.getSource id).isSome)
    (hreporting : reporting p place = some id)
    (h : turnOf ports db quarantine p act place = some turn) :
    statusOf turn.statement = some id ∨ reporting p turn.next = some id := by
  cases p with
  | ingest worker =>
    cases place with
    | fetching job =>
      obtain rfl := Option.some.inj h
      simp only [reporting] at hreporting
      split at hreporting
      next hkind =>
        obtain rfl := Option.some.inj hreporting
        obtain ⟨source, hsource⟩ := Option.isSome_iff_exists.mp hsource
        simp only [Queue.fetchSource, hsource, reporting, hkind, if_true,
          Store.id_of_getSource hsource]
        exact .inr trivial
      · cases hreporting
    | working job source =>
      obtain rfl := Option.some.inj h
      simp only [reporting] at hreporting
      split at hreporting
      next hkind =>
        obtain rfl := Option.some.inj hreporting
        right
        unfold Ingest.workTurn
        rw [if_pos hkind]
        split <;> simp [Turn.goto, reporting, hkind]
      · cases hreporting
    | recording job source result | invalidating source message =>
      obtain rfl := Option.some.inj h
      exact .inl hreporting
    | failing job source message =>
      obtain rfl := Option.some.inj h
      simp only [reporting] at hreporting
      split at hreporting
      next hkind =>
        simp only [hkind, if_true]
        exact .inr hreporting
      · cases hreporting
    | _ => cases hreporting
  | _ => cases hreporting

/-- Who claims a validate job has to report on it. -/
theorem reporting_claim {id : JobId} {now : Nat}
    (h : turnOf ports db quarantine p act place = some turn)
    (hstatement : turn.statement = .claim id now) :
    ∃ row ∈ db.jobs, row.id = id ∧
      (row.kind = .VALIDATE → reporting p turn.next = some row.sourceId) := by
  have hcases := turnOf_cases h
  rw [hstatement] at hcases
  cases p with
  | ingest worker =>
    cases place with
    | scanning due =>
      cases due with
      | nil =>
        obtain rfl | ⟨row, hrow, -, -, rfl⟩ := claimJob_eq_some h
        · cases hstatement
        · obtain ⟨rfl, -⟩ := Statement.claim.inj hstatement
          exact ⟨row, hrow, rfl, fun hkind => if_pos hkind⟩
      | cons source due =>
        simp only [turnOf, Ingest.ingestTurn] at h
        split at h
        · obtain rfl := Option.some.inj h
          cases hstatement
        · cases h
    | selecting =>
      simp only [turnOf, Ingest.ingestTurn] at h
      split at h
      · obtain rfl := Option.some.inj h
        cases hstatement
      · cases h
    | working job source =>
      obtain rfl := Option.some.inj h
      cases Ingest.workTurn_cases.1.symm.trans hstatement
    | _ =>
      obtain rfl := Option.some.inj h
      cases hstatement
  | signer worker =>
    generalize turn.next = next at hcases ⊢
    cases hcases with
    | @claim row _ hrow _ hkind =>
      refine ⟨row, hrow, rfl, fun hvalidate => ?_⟩
      rw [hvalidate] at hkind
      simp [kinds, Sign.CLAIMS] at hkind
    | file inserted => cases inserted
    | keep _ target => cases target
  | request _ =>
    obtain rfl := Option.some.inj h
    have htarget := adminTurn_target act db place
    rw [hstatement] at htarget
    cases htarget
  | ceremony =>
    obtain rfl := Option.some.inj h
    cases hstatement

end Turn

/-! ## The invariant -/

section Step

variable {ports : IngestPorts} {c : QueueConfig} {p : Party} {act : Act p} {turn : Turn (Place p)}

/-- The configuration after a turn. -/
def afterTurn (c : QueueConfig) (p : Party) (turn : Turn (Place p)) : QueueConfig :=
  ⟨c.shared.commit p turn, Function.update c.place p turn.next⟩

theorem place_afterTurn_self : (afterTurn c p turn).place p = turn.next :=
  Function.update_self ..

theorem place_afterTurn_of_ne {q : Party} (hq : q ≠ p) :
    (afterTurn c p turn).place q = c.place q :=
  Function.update_of_ne hq ..

/-- An open validate job in nobody's hands stays so, unless it is claimed. -/
theorem unheld_turn (hs : Accounted c.shared)
    (hturn : turnOf ports c.shared.db c.shared.quarantine p act (c.place p) = some turn)
    {job : QueueJob} (hjob : job ∈ c.shared.db.jobs) (hkind : job.kind = .VALIDATE)
    (hopen : job.isOpen = true) (hfree : ¬ Held c job.id)
    (hkeep : turn.statement ≠ .deleteSource job.sourceId) :
    Awaited (afterTurn c p turn) job.sourceId := by
  have hid := turn.statement.id_update job
  obtain ⟨-, hsource, hkind', -⟩ := Job.fixed_inj.mp (turn.statement.fixed_update job)
  have hstays : turn.statement.keeps job = true := by
    cases hstatement : turn.statement with
    | deleteSource id =>
      rw [hstatement] at hkeep
      simpa [Statement.keeps] using fun heq => hkeep (by rw [heq])
    | _ => rfl
  have hmem : turn.statement.update job ∈ (afterTurn c p turn).shared.db.jobs :=
    Statement.mem_exec.mpr (.inl ⟨job, hjob, hstays, rfl⟩)
  -- it is enough that the party itself does not come to hold the job
  have hstill (hopen' : (turn.statement.update job).isOpen = true)
      (hown : ∀ held, hold p turn.next = some held → held.job.id ≠ job.id) :
      Awaited (afterTurn c p turn) job.sourceId := by
    refine .inl ⟨_, hmem, hkind'.trans hkind, hsource, hopen', ?_⟩
    rintro ⟨q, held, hheld, hsame⟩
    rw [hid] at hsame
    by_cases hq : q = p
    · subst hq
      rw [place_afterTurn_self] at hheld
      exact hown held hheld hsame
    · rw [place_afterTurn_of_ne hq] at hheld
      exact hfree ⟨q, held, hheld, hsame⟩
  have hcases := turnOf_cases hturn
  generalize hstatement : turn.statement = statement at hcases
  cases hcases with
  | @claim row now present _ _ _ hnext =>
    by_cases hrow : row.id = job.id
    · obtain ⟨claimed, hclaimed, hsame, hreports⟩ := reporting_claim hturn hstatement
      obtain rfl := hs.ids claimed hclaimed job hjob (hsame.trans hrow)
      refine .inr ⟨p, ?_⟩
      rw [place_afterTurn_self]
      exact hreports hkind
    · refine hstill ?_ fun held hheld => ?_
      · simp only [hstatement, Statement.update]
        rwa [if_neg (Ne.symm hrow)]
      · obtain rfl := Option.some.inj (hnext.symm.trans hheld)
        exact hrow
  | @finish held state result error now holds _ free =>
    refine hstill ?_ fun held' hheld' => by cases free.symm.trans hheld'
    simp only [hstatement, Statement.update]
    rwa [if_neg fun heq => hfree ⟨p, held, holds, heq.symm⟩]
  | file inserted _ hnext =>
    refine hstill ?_ fun held hheld => ?_
    · obtain ⟨_, _, _, _, _, rfl, -⟩ := Statement.inserted_eq_some inserted
      rw [hstatement]
      exact hopen
    · obtain rfl := Option.some.inj (hnext.symm.trans hheld)
      obtain ⟨_, _, _, _, _, -, -, -, rfl, -⟩ := Statement.inserted_eq_some inserted
      exact (hs.id_lt (hs.known job hjob)).ne'
  | keep same target =>
    refine hstill ?_ fun held hheld heq => hfree ⟨p, held, same.symm.trans hheld, heq⟩
    rw [hstatement]
    cases statement with
    | claim | finish => cases target
    | resetStale olderThan now =>
      simp only [Statement.update]
      split
      · rfl
      · exact hopen
    | _ => exact hopen

/-- What is to come stays to come while the source is there and nobody has reported. -/
theorem awaited_turn (hs : Accounted c.shared)
    (hturn : turnOf ports c.shared.db c.shared.quarantine p act (c.place p) = some turn)
    {id : SourceId} (hsource : (c.shared.db.getSource id).isSome)
    (hkeep : turn.statement ≠ .deleteSource id) (hstatus : statusOf turn.statement ≠ some id)
    (h : Awaited c id) : Awaited (afterTurn c p turn) id := by
  obtain ⟨job, hjob, hkind, rfl, hopen, hfree⟩ | ⟨q, hq⟩ := h
  · exact unheld_turn hs hturn hjob hkind hopen hfree hkeep
  · by_cases hqp : q = p
    · subst hqp
      refine .inr ⟨q, ?_⟩
      rw [place_afterTurn_self]
      exact (reporting_turn hsource hq hturn).resolve_left hstatus
    · exact .inr ⟨q, by rw [place_afterTurn_of_ne hqp, hq]⟩

/-- A handler's turn on `sources` takes no report away. -/
theorem awaited_request {request : Nat} {turn : Turn (Place (.request request))} {id : SourceId}
    (h : Awaited c id)
    (hjobs : turn.statement.onJobs = false) : Awaited (afterTurn c (.request request) turn) id := by
  obtain ⟨job, hjob, hkind, hsource, hopen, hfree⟩ | ⟨q, hq⟩ := h
  · refine .inl ⟨job, ?_, hkind, hsource, hopen, ?_⟩
    · rwa [afterTurn, Shared.commit, (Statement.jobs_of_not_onJobs hjobs).1]
    · rintro ⟨q, held, hheld, hsame⟩
      by_cases hq : q = .request request
      · subst hq
        cases hheld
      · rw [place_afterTurn_of_ne hq] at hheld
        exact hfree ⟨q, held, hheld, hsame⟩
  · have hqp : q ≠ .request request := by
      rintro rfl
      cases hq
    exact .inr ⟨q, by rw [place_afterTurn_of_ne hqp, hq]⟩

end Step

/-- A report is to come on every source that is being validated. -/
def ReportsToCome (c : QueueConfig) : Prop :=
  ∀ row ∈ c.shared.db.sources, row.status = .VALIDATING → Awaited c row.id

/-- A source is being validated after a turn that marked it, or it was before and the turn did
not report on it. -/
theorem validating_updateRow {db : Db} {p : Party} {place next : Place p}
    {statement : QueueStatement} (hcases : StatusCases p place statement next) {old : Source}
    (h : (statement.updateRow db old).status = .VALIDATING) :
    (∃ request, p = .request request ∧ HEq place (RequestPlace.marking old.id) ∧
        statement = .setStatus old.id .VALIDATING none) ∨
      old.status = .VALIDATING ∧ statusOf statement ≠ some old.id := by
  cases hcases with
  | validating request id =>
    simp only [Statement.updateRow] at h
    split at h
    next hsame => exact .inl ⟨request, rfl, by rw [hsame.1], by rw [hsame.1]⟩
    next hother => exact .inr ⟨h, fun heq => hother ⟨(Option.some.inj heq).symm, by simp⟩⟩
  | paused _ source | invalid _ source message =>
    simp only [Statement.updateRow] at h
    split at h
    · cases h
    next hother => exact .inr ⟨h, fun heq => hother ⟨(Option.some.inj heq).symm, by simp⟩⟩
  | identified _ job source result =>
    simp only [Statement.updateRow] at h
    split at h
    · cases h
    next hother => exact .inr ⟨h, fun heq => hother (Option.some.inj heq).symm⟩
  | delegated appId =>
    simp only [Statement.updateRow] at h
    refine .inr ⟨?_, by simp [statusOf]⟩
    split at h
    · exact h
    · split at h
      · cases h
      · exact h
  | other hsame =>
    cases statement with
    | setStatus | recordIdentity | markDelegated => cases hsame
    | updateSource id edit =>
      simp only [Statement.updateRow] at h
      refine .inr ⟨?_, by simp [statusOf]⟩
      split at h <;> exact h
    | _ => exact .inr ⟨h, by simp [statusOf]⟩

theorem reportsToCome_step {ports : IngestPorts} {quarantine : Quarantine} {c c' : QueueConfig}
    {move : QueueMove} (hs : Accounted c.shared) (hok : MarksAwaited c move)
    (h : ReportsToCome c) (hnext : (parties ports quarantine).next c move = some c') :
    ReportsToCome c' := by
  intro row hrow hvalidating
  cases move with
  | crash p =>
    obtain rfl := Parties.next_crash hnext
    obtain ⟨job, hjob, hkind, hsource, hopen, hfree⟩ | ⟨q, hq⟩ := h row hrow hvalidating
    · refine .inl ⟨job, hjob, hkind, hsource, hopen, ?_⟩
      rintro ⟨q, held, hheld, hsame⟩
      by_cases hqp : q = p
      · subst hqp
        simp only [Function.update_self] at hheld
        cases q <;> cases hheld
      · simp only [Function.update_of_ne hqp] at hheld
        exact hfree ⟨q, held, hheld, hsame⟩
    · by_cases hqp : q = p
      · subst hqp
        exact hok row.id hq
      · exact .inr ⟨q, by simpa only [Function.update_of_ne hqp] using hq⟩
  | turn p act =>
    obtain ⟨shared, place, hcommit, rfl⟩ := Parties.next_turn hnext
    obtain ⟨turn, hturn, hcommit⟩ := Option.map_eq_some_iff.mp hcommit
    obtain ⟨rfl, rfl⟩ := Prod.mk.inj hcommit
    obtain ⟨old, hold, hkept, rfl⟩ | hregistered := Statement.mem_sources_exec.mp hrow
    · have hsource : (c.shared.db.getSource old.id).isSome :=
        Store.getSource_isSome.mpr ⟨old, hold, rfl⟩
      rw [Statement.id_updateRow]
      obtain ⟨request, rfl, hplace, hstatement⟩ | ⟨hbefore, hstatus⟩ :=
        validating_updateRow (turnOf_status hturn) hvalidating
      · refine awaited_request (hok old.id (eq_of_heq hplace) hsource) ?_
        rw [hstatement]
        rfl
      · refine awaited_turn hs hturn hsource ?_ hstatus (h old hold hbefore)
        intro hdelete
        simp [hdelete, Statement.keepsRow] at hkept
    · obtain ⟨-, hdraft, -⟩ := Statement.registered_eq_some hregistered
      cases hdraft.symm.trans hvalidating

theorem reportsToCome {ports : IngestPorts} {quarantine : Quarantine} {c : QueueConfig}
    (hc : ((system ports quarantine).when MarksAwaited).Reachable c) : ReportsToCome c := by
  induction hc with
  | start h0 =>
    obtain rfl := h0
    exact fun _ h => absurd h List.not_mem_nil
  | step hr hstep ih => exact reportsToCome_step (accounted hr.of_when).1 hstep.1 ih hstep.2

/-- Nobody is between two statements. -/
def AtRest (c : QueueConfig) : Prop := ∀ p, c.place p = idle p

/-! ## Two orders of one validation -/

section Runner

open Ingest (editorSource)

/-- A statement of the request that registers the editor. -/
def registering : QueueMove := requestMove 0 (.create editorSource)

/-- The operator's request to its end, before any worker looks at the job. -/
def markedFirst : List QueueMove := List.replicate 2 registering ++ [registering]

/-- A worker validates the source between the request's second statement and its third. -/
def markedLast : List QueueMove :=
  List.replicate 2 registering ++
    [none, none, some (queuedJob 1 .VALIDATE "alice" none), none, none, none, none].map
      (ingestMove 0 0) ++
    [registering]

/-- Everyone but the parties of a run is where they started. -/
theorem atRest_of_endOf {moves : List QueueMove} {c : QueueConfig} (h : endOf moves = some c)
    (hparties : ∀ move ∈ moves, c.place move.party = idle move.party) : AtRest c := by
  intro p
  by_cases hp : ∃ move ∈ moves, move.party = p
  · obtain ⟨move, hmove, rfl⟩ := hp
    exact hparties move hmove
  · exact Parties.place_exec h fun move hmove heq => hp ⟨move, hmove, heq.symm⟩

/-- A move that is no mark and no crash. -/
def marksNothing (c : QueueConfig) : QueueMove → Bool
  | .turn (.request request) _ => match c.place (.request request) with
    | .marking _ => false
    | _ => true
  | .turn _ _ => true
  | .crash _ => false

theorem marksAwaited_of_marksNothing {c : QueueConfig} {move : QueueMove}
    (h : marksNothing c move = true) : MarksAwaited c move := by
  cases move with
  | crash p => cases h
  | turn p act =>
    cases p with
    | request request =>
      intro id hplace
      simp only [marksNothing, hplace] at h
      cases h
    | _ => trivial

/-- What one of the runs ends with: the states of the sources, the jobs that are open, and
where its two parties are. -/
structure Ended where
  sources : List (SourceId × SourceStatus)
  openJobs : List QueueJob
  worker : IngestPlace
  request : RequestPlace
  deriving DecidableEq

def ended (c : QueueConfig) : Ended where
  sources := c.shared.db.sources.map fun row => (row.id, row.status)
  openJobs := c.shared.db.jobs.filter Job.isOpen
  worker := c.place (.ingest 0)
  request := c.place (.request 0)

theorem validating_of_ended {c : QueueConfig} {id : SourceId}
    (h : (ended c).sources = [(id, .VALIDATING)]) :
    ∃ row ∈ c.shared.db.sources, row.id = id ∧ row.status = .VALIDATING := by
  have hmem : (id, SourceStatus.VALIDATING) ∈ (ended c).sources := by
    rw [h]
    exact List.mem_singleton_self _
  obtain ⟨row, hrow, heq⟩ := List.mem_map.mp hmem
  exact ⟨row, hrow, Prod.mk.inj heq⟩

end Runner

/-! ## The result -/

/-- Where every mark and every crash leaves a report to come, a source that is being validated
while everyone is at rest has an open validate job. -/
theorem validating_has_job {ports : IngestPorts} {quarantine : Quarantine} {c : QueueConfig}
    (hc : ((system ports quarantine).when MarksAwaited).Reachable c) (hrest : AtRest c)
    {row : Source} (hrow : row ∈ c.shared.db.sources) (hvalidating : row.status = .VALIDATING) :
    ∃ job ∈ c.shared.db.jobs, job.sourceId = row.id ∧ job.kind = .VALIDATE ∧
      job.isOpen = true := by
  obtain ⟨job, hjob, hkind, hsource, hopen, -⟩ | ⟨p, hp⟩ := reportsToCome hc row hrow hvalidating
  · exact ⟨job, hjob, hsource, hkind, hopen⟩
  · rw [hrest p] at hp
    cases p <;> cases hp

theorem validating_has_job_registered : ∃ c, endOf markedFirst = some c ∧ AtRest c ∧
    ∃ row ∈ c.shared.db.sources, row.status = .VALIDATING ∧
      ∃ job ∈ c.shared.db.jobs, job.sourceId = row.id ∧ job.kind = .VALIDATE ∧
        job.isOpen = true := by
  have hrun : (System.exec (fun c move => if marksNothing c move = true then
        editorParties.next c move else none) (List.replicate 2 registering)
        editorParties.initial).map (fun c =>
          (ended c, (editorParties.next c registering).map ended)) =
      some (⟨[(1, .DRAFT)], [queuedJob 1 .VALIDATE "alice" none], .idle, .marking 1⟩,
        some ⟨[(1, .VALIDATING)], [queuedJob 1 .VALIDATE "alice" none], .idle, .idle⟩) := by
    decide +kernel
  obtain ⟨c, hc, hend⟩ := Option.map_eq_some_iff.mp hrun
  obtain ⟨hqueued, hnext⟩ := Prod.mk.inj hend
  obtain ⟨c', hc', hmarked⟩ := Option.map_eq_some_iff.mp hnext
  have hreach : ((system Ingest.editorPorts ⟨1000, []⟩).when MarksAwaited).Reachable c :=
    (System.reachable_exec_when (.start rfl) hc).mono fun _ _ => marksAwaited_of_marksNothing
  -- the job is open, and the only party that has moved holds none
  have hplaces (p : Party) (hp : p ≠ .request 0) : c.place p = idle p :=
    Parties.place_exec (System.exec_of_when hc) (by simp [registering, requestMove, Move.party, hp])
  have hopen : queuedJob 1 .VALIDATE "alice" none ∈ (ended c).openJobs := by
    rw [hqueued]
    exact List.mem_singleton_self _
  have hawaited : Awaited c 1 := by
    refine .inl ⟨queuedJob 1 .VALIDATE "alice" none, (List.mem_filter.mp hopen).1, rfl, rfl, rfl,
      ?_⟩
    rintro ⟨p, held, hheld, -⟩
    by_cases hp : p = .request 0
    · subst hp
      cases hheld
    · rw [hplaces p hp] at hheld
      cases p <;> cases hheld
  have hmarks : MarksAwaited c registering := by
    intro id hplace _
    obtain rfl := RequestPlace.marking.inj ((congrArg Ended.request hqueued).symm.trans hplace)
    exact hawaited
  have hend : endOf markedFirst = some c' := by
    rw [endOf, markedFirst, System.exec_append, System.exec_of_when hc, Option.bind_some,
      System.exec, hc']
    rfl
  have hrest : AtRest c' := atRest_of_endOf hend fun move hmove => by
    obtain rfl : move = registering := by simpa [markedFirst] using hmove
    exact congrArg Ended.request hmarked
  obtain ⟨row, hrow, -, hvalidating⟩ := validating_of_ended (congrArg Ended.sources hmarked)
  exact ⟨c', hend, hrest, row, hrow, hvalidating,
    validating_has_job (hreach.step ⟨hmarks, hc'⟩) hrest hrow hvalidating⟩

/-- The report on the validation is there before the mark, which nothing takes back. -/
theorem validating_without_job :
    ¬ ∀ (ports : IngestPorts) (quarantine : Quarantine) (c : QueueConfig),
      (system ports quarantine).Reachable c → AtRest c →
        ∀ row ∈ c.shared.db.sources, row.status = .VALIDATING →
          ∃ job ∈ c.shared.db.jobs, job.sourceId = row.id ∧ job.kind = .VALIDATE ∧
            job.isOpen = true := by
  intro hclaim
  have hrun : (endOf markedLast).map ended = some ⟨[(1, .VALIDATING)], [], .idle, .idle⟩ := by
    decide +kernel
  obtain ⟨c, hc, hend⟩ := Option.map_eq_some_iff.mp hrun
  have hrest : AtRest c := atRest_of_endOf hc fun move hmove => by
    have hparty : move.party = .ingest 0 ∨ move.party = .request 0 := by
      simp only [markedLast, List.mem_append, List.mem_replicate, List.mem_map,
        List.mem_singleton] at hmove
      obtain (⟨-, rfl⟩ | ⟨_, -, rfl⟩) | rfl := hmove
      · exact .inr rfl
      · exact .inl rfl
      · exact .inr rfl
    generalize move.party = p at hparty ⊢
    obtain rfl | rfl := hparty
    · exact congrArg Ended.worker hend
    · exact congrArg Ended.request hend
  obtain ⟨row, hrow, -, hvalidating⟩ := validating_of_ended (congrArg Ended.sources hend)
  obtain ⟨job, hjob, -, -, hopen⟩ := hclaim _ _ c (reachable_endOf hc) hrest row hrow hvalidating
  have hnone : job ∈ (ended c).openJobs := List.mem_filter.mpr ⟨hjob, hopen⟩
  rw [hend] at hnone
  cases hnone

end DistPlatform.Queue
