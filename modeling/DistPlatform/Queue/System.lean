import DistPlatform.Admin.Handlers
import DistPlatform.Ingest.Tick
import DistPlatform.Library.Parties
import DistPlatform.Sign.Worker

/-!
# The job queue and everyone who works on it

Any number of ingest workers, signing workers and operator requests, and the tool that runs
after a ceremony, interleaved statement by statement from an empty database. The log is no
part of the program: it remembers what the theorems speak about.

## Main definitions

* `Party`, `Place`, `turnOf` — the programs.
* `Shared`, `parties` — the shared state, and the system.
* `Hold`, `TurnCases` — the job a party is responsible for, and what a turn may do to it.
-/

namespace DistPlatform.Queue

open Runs
open Admin (AdminAct RequestPlace adminTurn)
open Ingest (IngestAct IngestPlace IngestPorts Libraries Quarantine ingestTurn)
open Registry (Job JobId JobKind JobState Statement Store)
open Sign (SignerAct SignerPlace signerTurn)

inductive Party
  | ingest (worker : Nat)
  | signer (worker : Nat)
  | request (id : Nat)
  | ceremony
  deriving DecidableEq, Repr

abbrev Place : Party → Type
  | .ingest _ => IngestPlace
  | .signer _ => SignerPlace
  | .request _ => RequestPlace
  | .ceremony => Unit

/-- The ceremony tool is told the application's id. -/
abbrev Act : Party → Type
  | .ingest _ => IngestAct
  | .signer _ => SignerAct
  | .request _ => AdminAct
  | .ceremony => String

def idle : ∀ p, Place p
  | .ingest _ => IngestPlace.idle
  | .signer _ => SignerPlace.idle
  | .request _ => RequestPlace.idle
  | .ceremony => ()

def turnOf (ports : IngestPorts) (db : Db) (quarantine : Quarantine) :
    ∀ p, Act p → Place p → Option (Turn (Place p))
  | .ingest _, act, place => ingestTurn ports act db quarantine place
  | .signer _, act, place => signerTurn ports.lib act db quarantine place
  | .request _, act, place => some (adminTurn act db place)
  | .ceremony, appId, _ => some { statement := .markDelegated appId, next := () }

/-- `log` is newest first. -/
structure Shared where
  db : Db
  quarantine : Quarantine
  log : List (Party × Event)
  deriving DecidableEq

/-- What a statement adds to the log. -/
def eventOf (db : Db) : QueueStatement → Option Event
  | .claim job _ => some (.claimed job
      ((db.jobs.find? (·.id == job)).bind fun row => db.getSource row.sourceId))
  | statement => (statement.inserted db).map .enqueued

def Shared.commit {α : Type} (s : Shared) (p : Party) (turn : Turn α) : Shared where
  db := turn.statement.exec s.db
  quarantine := turn.quarantine.getD s.quarantine
  log := ((eventOf s.db turn.statement).toList ++ (turn.effect.map Event.effect).toList).map (p, ·) ++
    s.log

abbrev QueueConfig := Config Party Shared Place

abbrev QueueMove := Move Party Act

/-- `quarantine` is what is stored when the run begins. -/
def parties (ports : IngestPorts) (quarantine : Quarantine) :
    Parties Party Shared Place Act where
  init := ⟨Store.empty, quarantine, []⟩
  idle := idle
  turn p act s place := (turnOf ports s.db s.quarantine p act place).map fun turn =>
    (s.commit p turn, turn.next)

def system (ports : IngestPorts) (quarantine : Quarantine) : System QueueConfig QueueMove :=
  (parties ports quarantine).system

/-! ## The job a party is responsible for -/

/-- A worker has claimed a job and not finished it, or queued one only to file it as done. -/
inductive Hold
  | running (job : QueueJob)
  | filing (job : QueueJob)
  deriving DecidableEq

def Hold.job : Hold → QueueJob
  | .running job | .filing job => job

def hold : ∀ p, Place p → Option Hold
  | .ingest _, .filing job _ _ => some (.filing job)
  | .ingest _, place => place.running.map .running
  | .signer _, place => place.running.map .running
  | .request _, _ => none
  | .ceremony, _ => none

/-- The kinds a party claims. -/
def kinds : Party → List JobKind
  | .ingest _ => [.VALIDATE, .POLL]
  | .signer _ => Sign.CLAIMS
  | _ => []

/-- A claim, a finish and the queueing of a job to file are the only turns that change what
the party is responsible for, and the only claims and finishes. -/
inductive TurnCases (p : Party) (db : Db) (place next : Place p) : QueueStatement → Prop
  | claim {row : QueueJob} {now : Nat} (present : row ∈ db.jobs) (queued : row.state = .QUEUED)
      (kind : row.kind ∈ kinds p) (free : hold p place = none)
      (held : hold p next = some (.running (row.claimed now))) :
      TurnCases p db place next (.claim row.id now)
  | finish {held : Hold} {state : JobState} {result error now} (holds : hold p place = some held)
      (closes : state = .DONE ∨ state = .FAILED) (free : hold p next = none) :
      TurnCases p db place next (.finish held.job.id state result error now)
  | file {statement : QueueStatement} {job : QueueJob} (inserted : statement.inserted db = some job)
      (free : hold p place = none) (held : hold p next = some (.filing job)) :
      TurnCases p db place next statement
  | keep {statement : QueueStatement} (same : hold p next = hold p place)
      (target : statement.target = none) :
      TurnCases p db place next statement

theorem claimJob_cases {p : Party} {db : Db} {now : Nat} {job : Option QueueJob}
    {start : Place p} {claimed : QueueJob → Place p} {place : Place p} {turn : Turn (Place p)}
    (hidle : hold p start = none) (hclaimed : ∀ job, hold p (claimed job) = some (.running job))
    (hplace : hold p place = none)
    (h : claimJob db (kinds p) now job start claimed = some turn) :
    TurnCases p db place turn.next turn.statement := by
  obtain rfl | ⟨row, hrow, hqueued, hkind, rfl⟩ := claimJob_eq_some h
  · exact .keep (hidle.trans hplace.symm) rfl
  · exact .claim hrow hqueued hkind hplace (hclaimed _)

theorem ingestTurn_cases {ports : IngestPorts} {worker : Nat} {act : IngestAct} {db : Db}
    {quarantine : Quarantine} {place : IngestPlace} {turn : Turn IngestPlace}
    (h : ingestTurn ports act db quarantine place = some turn) :
    TurnCases (.ingest worker) db place turn.next turn.statement := by
  cases place with
  | idle =>
    obtain rfl := Option.some.inj h
    exact .keep rfl rfl
  | selecting =>
    simp only [ingestTurn] at h
    split at h
    · obtain rfl := Option.some.inj h
      exact .keep rfl rfl
    · cases h
  | scanning due =>
    cases due with
    | nil => exact claimJob_cases rfl (fun _ => rfl) rfl h
    | cons source due =>
      simp only [ingestTurn] at h
      split at h
      · obtain rfl := Option.some.inj h
        exact .keep rfl rfl
      · cases h
  | scheduling source unchanged due =>
    obtain rfl := Option.some.inj h
    split
    · exact .keep rfl rfl
    next job _ result hq =>
      exact .file (by simp only [Statement.inserted, hq]) rfl rfl
    · exact .keep rfl rfl
  | filing job unchanged due =>
    obtain rfl := Option.some.inj h
    exact @TurnCases.finish _ db _ _ (.filing job) _ _ _ _ rfl (.inl rfl) rfl
  | fetching job =>
    obtain rfl := Option.some.inj h
    refine .keep ?_ rfl
    dsimp only [fetchSource]
    cases db.getSource job.sourceId <;> rfl
  | abandoning job =>
    obtain rfl := Option.some.inj h
    exact @TurnCases.finish _ db _ _ (.running job) _ _ _ _ rfl (.inr rfl) rfl
  | working job source =>
    obtain rfl := Option.some.inj h
    obtain ⟨hstatement, hwork⟩ := @Ingest.workTurn_cases ports act quarantine job source
    generalize Ingest.workTurn ports act quarantine job source = turn at hstatement hwork ⊢
    obtain ⟨statement, next, _, event⟩ := turn
    obtain rfl : statement = .select := hstatement
    refine .keep ?_ rfl
    cases hwork <;> rfl
  | recording job source result =>
    obtain rfl := Option.some.inj h
    exact .keep rfl rfl
  | finishing job source result =>
    obtain rfl := Option.some.inj h
    refine @TurnCases.finish _ db _ _ (.running job) _ _ _ _ rfl (.inl rfl) ?_
    dsimp only
    split <;> rfl
  | handingOff job source payload =>
    obtain rfl := Option.some.inj h
    exact .keep rfl rfl
  | failing job source message =>
    obtain rfl := Option.some.inj h
    refine @TurnCases.finish _ db _ _ (.running job) _ _ _ _ rfl (.inr rfl) ?_
    dsimp only
    split <;> rfl
  | invalidating source message =>
    obtain rfl := Option.some.inj h
    exact .keep rfl rfl

theorem signerTurn_cases {lib : Libraries} {worker : Nat} {act : SignerAct} {db : Db}
    {quarantine : Quarantine} {place : SignerPlace} {turn : Turn SignerPlace}
    (h : signerTurn lib act db quarantine place = some turn) :
    TurnCases (.signer worker) db place turn.next turn.statement := by
  cases place with
  | idle =>
    obtain rfl := Option.some.inj h
    exact .keep rfl rfl
  | claiming => exact claimJob_cases rfl (fun _ => rfl) rfl h
  | fetching job =>
    obtain rfl := Option.some.inj h
    refine .keep ?_ rfl
    dsimp only [fetchSource]
    cases db.getSource job.sourceId <;> rfl
  | abandoning job | failing job source message =>
    obtain rfl := Option.some.inj h
    exact @TurnCases.finish _ db _ _ (.running job) _ _ _ _ rfl (.inr rfl) rfl
  | publishing job source =>
    simp only [signerTurn] at h
    split at h <;> obtain rfl := Option.some.inj h <;> exact .keep rfl rfl
  | adding job source release =>
    obtain rfl := Option.some.inj h
    refine .keep ?_ rfl
    dsimp only
    split <;> rfl
  | pointing job source release =>
    obtain rfl := Option.some.inj h
    refine .keep ?_ rfl
    dsimp only [Turn.goto]
    split <;> rfl
  | finishing job source result =>
    obtain rfl := Option.some.inj h
    exact @TurnCases.finish _ db _ _ (.running job) _ _ _ _ rfl (.inl rfl) rfl

/-- The only statements of an operator's requests are reads, and those that queue a job
without a payload, write to `sources`, or delete. -/
theorem adminTurn_target (act : AdminAct) (db : Db) (place : RequestPlace) :
    (adminTurn act db place).statement.target = none := by
  unfold adminTurn
  split
  · split <;> rfl
  · rfl
  · unfold Admin.actionTurn
    split
    · rfl
    · split <;> rfl
    all_goals rfl
  · rfl

theorem turnOf_cases {ports : IngestPorts} {db : Db} {quarantine : Quarantine} {p : Party}
    {act : Act p} {place : Place p} {turn : Turn (Place p)}
    (h : turnOf ports db quarantine p act place = some turn) :
    TurnCases p db place turn.next turn.statement := by
  cases p with
  | ingest worker => exact ingestTurn_cases h
  | signer worker => exact signerTurn_cases h
  | request id =>
    obtain rfl := Option.some.inj h
    exact .keep rfl (adminTurn_target act db place)
  | ceremony =>
    obtain rfl := Option.some.inj h
    exact .keep rfl rfl

/-! ## What a turn queues, and what it does besides -/

theorem ingestTurn_inserted {ports : IngestPorts} {act : IngestAct} {db : Db}
    {quarantine : Quarantine} {place : IngestPlace} {turn : Turn IngestPlace} {job : QueueJob}
    (h : ingestTurn ports act db quarantine place = some turn)
    (hjob : turn.statement.inserted db = some job) :
    job.kind = .POLL ∨ ∃ poll source payload, place = .handingOff poll source payload ∧
      job.kind = .PUBLISH ∧ job.sourceId = source.id ∧ job.payload = some payload := by
  cases place with
  | scheduling source unchanged due =>
    obtain rfl := Option.some.inj h
    obtain ⟨_, _, _, _, _, hstatement, -, -, rfl, -⟩ := Statement.inserted_eq_some hjob
    cases hstatement
    exact .inl rfl
  | handingOff poll source payload =>
    obtain rfl := Option.some.inj h
    obtain ⟨_, _, _, _, _, hstatement, -, -, rfl, -⟩ := Statement.inserted_eq_some hjob
    cases hstatement
    exact .inr ⟨poll, source, payload, rfl, rfl, rfl, rfl⟩
  | selecting =>
    simp only [ingestTurn] at h
    split at h
    · obtain rfl := Option.some.inj h
      cases hjob
    · cases h
  | scanning due =>
    cases due with
    | nil =>
      obtain rfl | ⟨row, -, -, -, rfl⟩ := claimJob_eq_some h <;> cases hjob
    | cons source due =>
      simp only [ingestTurn] at h
      split at h
      · obtain rfl := Option.some.inj h
        cases hjob
      · cases h
  | working poll source =>
    obtain rfl := Option.some.inj h
    rw [Ingest.workTurn_cases.1] at hjob
    cases hjob
  | _ =>
    obtain rfl := Option.some.inj h
    cases hjob

theorem ingestTurn_effect {ports : IngestPorts} {act : IngestAct} {db : Db}
    {quarantine : Quarantine} {place : IngestPlace} {turn : Turn IngestPlace} {effect : Effect}
    (h : ingestTurn ports act db quarantine place = some turn) (heffect : turn.effect = some effect) :
    turn.statement = .select ∧ ∃ job source,
      place = .fetching job ∧ db.getSource job.sourceId = some source ∧
          turn.next = .working job source ∧ effect = .fetched job source ∨
        ∃ polled, place = .working job source ∧ effect = .decided job source polled ∧
          source.pollable = true ∧
          (Ingest.poll ports act.skipNamed source act.answers quarantine).1 = .ok (some polled) := by
  cases place with
  | fetching job =>
    obtain rfl := Option.some.inj h
    obtain ⟨source, hsource, rfl⟩ := Option.map_eq_some_iff.mp heffect
    exact ⟨rfl, job, source, .inl ⟨rfl, hsource, by simp only [fetchSource, hsource], rfl⟩⟩
  | working job source =>
    obtain rfl := Option.some.inj h
    obtain ⟨hstatement, hwork⟩ := @Ingest.workTurn_cases ports act quarantine job source
    refine ⟨hstatement, ?_⟩
    rw [heffect] at hwork
    generalize (Ingest.workTurn ports act quarantine job source).next = next at hwork
    cases hwork with
    | decided pollable decides => exact ⟨job, source, .inr ⟨_, rfl, rfl, pollable, decides⟩⟩
  | selecting =>
    simp only [ingestTurn] at h
    split at h
    · obtain rfl := Option.some.inj h
      cases heffect
    · cases h
  | scanning due =>
    cases due with
    | nil =>
      obtain rfl | ⟨row, -, -, -, rfl⟩ := claimJob_eq_some h <;> cases heffect
    | cons source due =>
      simp only [ingestTurn] at h
      split at h
      · obtain rfl := Option.some.inj h
        cases heffect
      · cases h
  | _ =>
    obtain rfl := Option.some.inj h
    cases heffect

/-- The record of a poll is written by the worker that polled, which then hands it off. -/
theorem ingestTurn_polled {ports : IngestPorts} {act : IngestAct} {db : Db}
    {quarantine : Quarantine} {place : IngestPlace} {turn : Turn IngestPlace} {id : JobId}
    {state : JobState} {record : Ingest.PollRecord} {error : Option String} {now : Nat}
    (h : ingestTurn ports act db quarantine place = some turn)
    (hfinish : turn.statement = .finish id state (some (.polled record)) error now) :
    ∃ job source, place = .finishing job source (.polled record) ∧ id = job.id ∧
      state = .DONE ∧ ∀ payload, Ingest.handOffPayload job.kind (.polled record) = some payload →
        turn.next = .handingOff job source payload := by
  cases place with
  | finishing job source result =>
    obtain rfl := Option.some.inj h
    cases hfinish
    refine ⟨job, source, rfl, rfl, rfl, fun payload hpayload => ?_⟩
    simp only [hpayload]
  | working job source =>
    obtain rfl := Option.some.inj h
    cases Ingest.workTurn_cases.1.symm.trans hfinish
  | selecting =>
    simp only [ingestTurn] at h
    split at h
    · obtain rfl := Option.some.inj h
      cases hfinish
    · cases h
  | scanning due =>
    cases due with
    | nil =>
      obtain rfl | ⟨row, -, -, -, rfl⟩ := claimJob_eq_some h <;> cases hfinish
    | cons source due =>
      simp only [ingestTurn] at h
      split at h
      · obtain rfl := Option.some.inj h
        cases hfinish
      · cases h
  | _ =>
    obtain rfl := Option.some.inj h
    cases hfinish

theorem signerTurn_polled {lib : Libraries} {act : SignerAct} {db : Db}
    {quarantine : Quarantine} {place : SignerPlace} {turn : Turn SignerPlace} {id : JobId}
    {state : JobState} {record : Ingest.PollRecord} {error : Option String} {now : Nat}
    (h : signerTurn lib act db quarantine place = some turn) :
    turn.statement ≠ .finish id state (some (.polled record)) error now := by
  intro hfinish
  cases place with
  | claiming =>
    obtain rfl | ⟨row, -, -, -, rfl⟩ := claimJob_eq_some h <;> cases hfinish
  | publishing job source =>
    simp only [signerTurn] at h
    split at h <;> obtain rfl := Option.some.inj h <;> cases hfinish
  | _ =>
    obtain rfl := Option.some.inj h
    cases hfinish

theorem signerTurn_inserted {lib : Libraries} {act : SignerAct} {db : Db}
    {quarantine : Quarantine} {place : SignerPlace} {turn : Turn SignerPlace}
    (h : signerTurn lib act db quarantine place = some turn) :
    turn.statement.inserted db = none := by
  cases place with
  | claiming => obtain rfl | ⟨row, -, -, -, rfl⟩ := claimJob_eq_some h <;> rfl
  | publishing job source =>
    simp only [signerTurn] at h
    split at h <;> obtain rfl := Option.some.inj h <;> rfl
  | _ =>
    obtain rfl := Option.some.inj h
    rfl

theorem signerTurn_effect {lib : Libraries} {act : SignerAct} {db : Db}
    {quarantine : Quarantine} {place : SignerPlace} {turn : Turn SignerPlace} {effect : Effect}
    (h : signerTurn lib act db quarantine place = some turn) (heffect : turn.effect = some effect) :
    turn.statement = .select ∧ ∃ job source,
      place = .fetching job ∧ db.getSource job.sourceId = some source ∧
          turn.next = .publishing job source ∧ effect = .fetched job source ∨
        ∃ release, place = .adding job source release ∧
          effect = .added job source release.key release.artifact := by
  cases place with
  | fetching job =>
    obtain rfl := Option.some.inj h
    obtain ⟨source, hsource, rfl⟩ := Option.map_eq_some_iff.mp heffect
    exact ⟨rfl, job, source, .inl ⟨rfl, hsource, by simp only [fetchSource, hsource], rfl⟩⟩
  | adding job source release =>
    obtain rfl := Option.some.inj h
    exact ⟨rfl, job, source, .inr ⟨release, rfl, (Option.some.inj heffect).symm⟩⟩
  | claiming => obtain rfl | ⟨row, -, -, -, rfl⟩ := claimJob_eq_some h <;> cases heffect
  | publishing job source =>
    simp only [signerTurn] at h
    split at h <;> obtain rfl := Option.some.inj h <;> cases heffect
  | _ =>
    obtain rfl := Option.some.inj h
    cases heffect

theorem adminTurn_effect {act : AdminAct} {db : Db} {place : RequestPlace} :
    (adminTurn act db place).effect = none := by
  unfold adminTurn
  split
  · split <;> rfl
  · rfl
  · unfold Admin.actionTurn
    split
    · rfl
    · split <;> rfl
    all_goals rfl
  · rfl

/-- An operator never queues a publish job, and never one with a payload. -/
theorem adminTurn_inserted {act : AdminAct} {db : Db} {place : RequestPlace} {job : QueueJob}
    (hjob : (adminTurn act db place).statement.inserted db = some job) :
    job.kind ≠ .PUBLISH ∧ job.payload = none := by
  obtain ⟨_, _, _, _, _, hstatement, -, -, rfl, -⟩ := Statement.inserted_eq_some hjob
  unfold adminTurn at hstatement
  split at hstatement
  · split at hstatement <;> cases hstatement
  · cases hstatement
    exact ⟨nofun, rfl⟩
  · unfold Admin.actionTurn at hstatement
    split at hstatement
    · cases hstatement
      exact ⟨nofun, rfl⟩
    · split at hstatement
      · cases hstatement
        exact ⟨nofun, rfl⟩
      · cases hstatement
    all_goals cases hstatement
  · cases hstatement

end DistPlatform.Queue
