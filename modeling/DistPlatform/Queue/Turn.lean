import DistPlatform.Ingest.Worker
import DistPlatform.Registry.Store

/-!
# Turns of the programs around the job queue

Two kinds of worker, the operator UI and the ceremony tool work on one database. Between two
of its SQL statements each of them is at a place of its program; a turn is one statement with
what the program computes before the next one.

## Main definitions

* `Db`, `QueueJob` — the store, with the payloads and results this system puts in it.
* `Turn` — the statement, the place after it, and what happened besides.
* `claimJob` — the two outcomes of `claim_job`.
-/

namespace DistPlatform.Queue

open DistPlatform.Core (TargetKey)
open Ingest (Bytes JobResult Polled PublishPayload Quarantine)
open Registry (Job JobId JobKind Source Statement Store)

abbrev QueueJob := Job PublishPayload JobResult

abbrev Db := Store PublishPayload JobResult

abbrev QueueStatement := Statement PublishPayload JobResult

/-- What a turn does besides its statement. -/
inductive Effect
  /-- `get_source` answered with the row of the job's source. -/
  | fetched (job : QueueJob) (source : Source)
  /-- The outcome of `ingest` for a poll job, of that row. -/
  | decided (job : QueueJob) (source : Source) (polled : Polled)
  /-- `add_release` was called. -/
  | added (job : QueueJob) (source : Source) (key : TargetKey) (artifact : Bytes)
  deriving DecidableEq

/-- What is remembered of a run. -/
inductive Event
  | enqueued (job : QueueJob)
  /-- With the row of the job's source at that moment. -/
  | claimed (job : JobId) (stored : Option Source)
  | effect (effect : Effect)
  deriving DecidableEq

structure Turn (Place : Type) where
  statement : QueueStatement
  next : Place
  /-- The quarantine, where the turn changed it. -/
  quarantine : Option Quarantine := none
  effect : Option Effect := none

/-- A turn between two statements. -/
def Turn.goto {Place : Type} (next : Place) : Turn Place := { statement := .select, next }

/-- `get_source`, with the two ways `run_job` goes on. -/
def fetchSource {Place : Type} (db : Db) (job : QueueJob) (missing : Place)
    (found : Source → Place) : Turn Place where
  statement := .select
  next := match db.getSource job.sourceId with
    | none => missing
    | some source => found source
  effect := (db.getSource job.sourceId).map (.fetched job)

/-- `claim_job` returns the row `job`, as updated; nothing where no row is queued. -/
def claimJob {Place : Type} (db : Db) (kinds : List JobKind) (now : Nat) (job : Option QueueJob)
    (idle : Place) (claimed : QueueJob → Place) : Option (Turn Place) :=
  match job with
  | none =>
    if db.jobs.all fun job => !(job.state == .QUEUED && kinds.contains job.kind) then
      some (.goto idle)
    else none
  | some job =>
    if job ∈ db.jobs ∧ db.claimable kinds job then
      some { statement := .claim job.id now, next := claimed (job.claimed now) }
    else none

/-- A claim is of a queued job of one of the kinds. -/
theorem claimJob_eq_some {Place : Type} {db : Db} {kinds : List JobKind} {now : Nat}
    {job : Option QueueJob} {idle : Place} {claimed : QueueJob → Place} {turn : Turn Place}
    (h : claimJob db kinds now job idle claimed = some turn) :
    turn = .goto idle ∨ ∃ row ∈ db.jobs, row.state = .QUEUED ∧ row.kind ∈ kinds ∧
      turn = { statement := .claim row.id now, next := claimed (row.claimed now) } := by
  unfold claimJob at h
  split at h
  · split at h
    · exact .inl (Option.some.inj h).symm
    · cases h
  next row =>
    split at h
    next hrow =>
      obtain ⟨hmem, hclaimable⟩ := hrow
      simp only [Store.claimable, Bool.and_eq_true, beq_iff_eq, List.contains_eq_mem,
        decide_eq_true_eq] at hclaimable
      exact .inr ⟨row, hmem, hclaimable.1.1, hclaimable.1.2, (Option.some.inj h).symm⟩
    · cases h

end DistPlatform.Queue
