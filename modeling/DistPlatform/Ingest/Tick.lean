import DistPlatform.Queue.Turn

/-!
# The ingest worker's loop (`dist_ingest.worker`: `tick`, `run_job`)

One pass resets stale jobs, files or queues a poll for every source that is due, claims one
job and runs it. An exception that leaves the pass, as one from the database does, ends it
where it stands; that is a crash of the party and no turn of its own. `audit` writes a table
that nothing reads back and is left out.

## Main definitions

* `unchangedSinceLastPoll` — the record filed in place of a poll.
* `IngestPlace`, `ingestTurn` — the places of the loop, and what each does.
-/

namespace DistPlatform.Ingest

open Queue (Db QueueJob Turn claimJob fetchSource)
open Registry (JobKind JobState Source SourceStatus present)

/-- In seconds, as all times here. -/
def POLL_INTERVAL := 15 * 60

def STALE_AFTER := 30 * 60

def MAX_CONSECUTIVE_SKIPS := 24

/-! ## The cheap check -/

/-- `result.get("tag")`; a validation reports its tag under another name. -/
def JobResult.tag : JobResult → Option String
  | .polled record => record.tag
  | .unchanged tag _ => tag
  | _ => none

/-- `result.get("consecutive_skips", 0)` -/
def JobResult.consecutiveSkips : JobResult → Nat
  | .unchanged _ consecutiveSkips => consecutiveSkips
  | _ => 0

/-- The record of a poll that was not worth it. -/
structure Unchanged where
  tag : String
  consecutiveSkips : Nat
  deriving DecidableEq, Repr

def Unchanged.result (unchanged : Unchanged) : JobResult :=
  .unchanged unchanged.tag unchanged.consecutiveSkips

/-- `_unchanged_since_last_poll`, from the answer of `last_poll` and that of
`newest_tag_hint`, which is nothing where the request failed. -/
def unchangedSinceLastPoll (last : Option QueueJob) (hint : Option (Option String)) :
    Option Unchanged := do
  let result ← (← last).result
  let known ← present result.tag
  if MAX_CONSECUTIVE_SKIPS ≤ result.consecutiveSkips then none
  else if hint = some (some known) then some ⟨known, result.consecutiveSkips + 1⟩
  else none

/-! ## The loop -/

/-- `f"{type(exc).__name__}: {exc}"` -/
def JobError.recorded : JobError → String
  | .ForgeError error => "ForgeError: " ++ error.message
  | .SourceConfigError message => "SourceConfigError: " ++ message
  | .Other message => message

/-- Where a worker stands, by the statement that comes next; `due` are the sources the loop of
`tick` has still to look at. -/
inductive IngestPlace
  | idle
  | selecting
  | scanning (due : List Source)
  | scheduling (source : Source) (unchanged : Option Unchanged) (due : List Source)
  | filing (job : QueueJob) (unchanged : Unchanged) (due : List Source)
  | fetching (job : QueueJob)
  | abandoning (job : QueueJob)
  | working (job : QueueJob) (source : Source)
  | recording (job : QueueJob) (source : Source) (result : Validated)
  | finishing (job : QueueJob) (source : Source) (result : JobResult)
  | handingOff (job : QueueJob) (source : Source) (payload : PublishPayload)
  | failing (job : QueueJob) (source : Source) (message : String)
  | invalidating (source : Source) (message : String)
  deriving DecidableEq

/-- What a turn is told: the clock, the answers of the queries that leave a choice, and the
forge's. -/
structure IngestAct where
  now : Nat
  due : List Source
  last : Option QueueJob
  hint : Option (Option String)
  job : Option QueueJob
  answers : ForgeAnswers
  skipNamed : List String

/-- The work of a job. -/
def workTurn (ports : IngestPorts) (act : IngestAct) (quarantine : Quarantine) (job : QueueJob)
    (source : Source) : Turn IngestPlace :=
  if job.kind = .VALIDATE then
    match doValidate source act.answers with
    | .error e => .goto (.failing job source e.recorded)
    | .ok result => .goto (.recording job source result)
  else if !source.pollable then
    .goto (.failing job source (JobError.recorded (.SourceConfigError (source.appId ++
      " has no delegation yet; refusing to fetch artifacts that could not be promoted"))))
  else
    let (answer, quarantine') := doPoll ports act.skipNamed source act.answers quarantine
    { statement := .select
      next := match answer with
        | .error e => .failing job source e.recorded
        | .ok result => .finishing job source result
      quarantine := quarantine'
      effect := match (poll ports act.skipNamed source act.answers quarantine).1 with
        | .ok (some polled) => some (.decided job source polled)
        | _ => none }

/-- `tick` and `run_job`, from one statement to the next. -/
def ingestTurn (ports : IngestPorts) (act : IngestAct) (db : Db) (quarantine : Quarantine) :
    IngestPlace → Option (Turn IngestPlace)
  | .idle => some { statement := .resetStale STALE_AFTER act.now, next := .selecting }
  | .selecting =>
    if act.due.Perm (db.dueSources POLL_INTERVAL act.now) then some (.goto (.scanning act.due))
    else none
  | .scanning (source :: due) =>
    if db.IsLastPoll source.id act.last then
      some (.goto (.scheduling source (unchangedSinceLastPoll act.last act.hint) due))
    else none
  | .scheduling source unchanged due => some
      { statement := .enqueue source.id .POLL "schedule" none act.now
        next := match db.enqueue source.id .POLL "schedule" none act.now, unchanged with
          | .error _, _ => .idle
          | .ok (some job, _), some unchanged => .filing job unchanged due
          | .ok _, _ => .scanning due }
  | .filing job unchanged due => some
      { statement := .finish job.id .DONE (some unchanged.result) none act.now, next := .scanning due }
  | .scanning [] => claimJob db [.VALIDATE, .POLL] act.now act.job .idle .fetching
  | .fetching job => some (fetchSource db job (.abandoning job) (.working job))
  | .abandoning job => some
      { statement := .finish job.id .FAILED none (some "source was deleted") act.now
        next := .idle }
  | .working job source => some (workTurn ports act quarantine job source)
  | .recording job source result => some
      { statement := .recordIdentity source.id result.identity.repositoryId
          result.identity.repositoryOwnerId
        next := .finishing job source (.validated result) }
  | .finishing job source result => some
      { statement := .finish job.id .DONE (some result) none act.now
        next := match handOffPayload job.kind result with
          | none => .idle
          | some payload => .handingOff job source payload }
  -- A job already open answers nothing, and a source gone since ends the pass.
  | .handingOff _ source payload => some
      { statement := .enqueue source.id .PUBLISH "ingest" (some payload) act.now, next := .idle }
  | .failing job source message => some
      { statement := .finish job.id .FAILED none (some message) act.now
        next := if job.kind = .VALIDATE then .invalidating source message else .idle }
  | .invalidating source message => some
      { statement := .setStatus source.id .INVALID (some message), next := .idle }

/-- The job a worker is running. -/
def IngestPlace.running : IngestPlace → Option QueueJob
  | .fetching job | .abandoning job | .working job _ | .recording job _ _ | .finishing job _ _
  | .failing job _ _ => some job
  | _ => none

/-! ## What the work of a job comes to -/

section Work

variable {ports : IngestPorts} {act : IngestAct} {quarantine : Quarantine} {job : QueueJob}
  {source : Source}

theorem doPoll_eq_ok {skipNamed : List String} {answers : ForgeAnswers} {result : JobResult}
    (h : (doPoll ports skipNamed source answers quarantine).1 = .ok result) :
    (result = .noRelease ∧ (poll ports skipNamed source answers quarantine).1 = .ok none) ∨
      ∃ polled, result = .polled (outcomeRecord polled) ∧
        (poll ports skipNamed source answers quarantine).1 = .ok (some polled) := by
  unfold doPoll at h
  split at h
  · cases h
  next hpoll => exact .inl ⟨(Except.ok.inj h).symm, congrArg Prod.fst hpoll⟩
  next polled _ hpoll => exact .inr ⟨polled, (Except.ok.inj h).symm, congrArg Prod.fst hpoll⟩

theorem doPoll_eq_error {skipNamed : List String} {answers : ForgeAnswers} {e : JobError}
    (h : (doPoll ports skipNamed source answers quarantine).1 = .error e) :
    (poll ports skipNamed source answers quarantine).1 = .error e := by
  unfold doPoll at h
  split at h
  next hpoll =>
    obtain rfl := Except.error.inj h
    exact congrArg Prod.fst hpoll
  · cases h
  · cases h

/-- The work commits nothing. It fails, is a validation, finds no release, or reaches a
decision, which is then what is reported. -/
inductive WorkCases (ports : IngestPorts) (act : IngestAct) (quarantine : Quarantine)
    (job : QueueJob) (source : Source) : IngestPlace → Option Queue.Effect → Prop
  | failed (message : String) :
      WorkCases ports act quarantine job source (.failing job source message) none
  | validated {result : Validated} (kind : job.kind = .VALIDATE)
      (valid : doValidate source act.answers = .ok result) :
      WorkCases ports act quarantine job source (.recording job source result) none
  | noRelease :
      WorkCases ports act quarantine job source (.finishing job source .noRelease) none
  | decided {polled : Polled} (pollable : source.pollable = true)
      (decides : (poll ports act.skipNamed source act.answers quarantine).1 = .ok (some polled)) :
      WorkCases ports act quarantine job source
        (.finishing job source (.polled (outcomeRecord polled))) (some (.decided job source polled))

theorem workTurn_cases :
    (workTurn ports act quarantine job source).statement = .select ∧
      WorkCases ports act quarantine job source (workTurn ports act quarantine job source).next
        (workTurn ports act quarantine job source).effect := by
  unfold workTurn
  split
  next hkind =>
    split
    · exact ⟨rfl, .failed _⟩
    next result hvalid => exact ⟨rfl, .validated hkind hvalid⟩
  · split
    · exact ⟨rfl, .failed _⟩
    next hpollable =>
      refine ⟨rfl, ?_⟩
      dsimp only
      cases hanswer : (doPoll ports act.skipNamed source act.answers quarantine).1 with
      | error e =>
        simp only [doPoll_eq_error hanswer]
        exact .failed _
      | ok result =>
        obtain ⟨rfl, hpoll⟩ | ⟨polled, rfl, hpoll⟩ := doPoll_eq_ok hanswer
        · simp only [hpoll]
          exact .noRelease
        · simp only [hpoll]
          exact .decided (by simpa using hpollable) hpoll

end Work

end DistPlatform.Ingest
