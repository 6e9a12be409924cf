import DistPlatform.Library.Streaks
import DistPlatform.Queue.Approved

/-!
# Polls that are skipped

Where one ingest worker runs, what it reads of the last poll is still the last poll when it
files a record in place of a poll. The records of a source are then streaks: each counts one
further than the record before it and repeats its tag, until a poll is due whatever the feed says.

## Main definitions

* `OneWorker` — the steps of a run with one ingest worker, and with times that increase.
* `SkipsSound` — the done polls of every source are streaks.
* `PlaceSkips` — what the worker knows between its statements.
* `SkipsBounded` — what a run says about the records of a source.
-/

namespace DistPlatform.Queue

open Runs
open Ingest (IngestAct IngestPlace IngestPorts JobResult MAX_CONSECUTIVE_SKIPS Quarantine Unchanged
  unchangedSinceLastPoll)
open Registry (Job JobId JobKind JobState Source SourceId Statement Store present)

/-- `result.get("consecutive_skips")`, of the record of a poll that was skipped. -/
def skips (job : QueueJob) : Option Nat :=
  match job.result with
  | some (.unchanged _ consecutiveSkips) => some consecutiveSkips
  | _ => none

def tag (job : QueueJob) : Option String := job.result.bind JobResult.tag

/-- A statement finishes a job later than all that have finished. -/
def FinishesLater (db : Db) : QueueStatement → Prop
  | .finish _ _ _ _ now => ∀ row ∈ db.jobs, ∀ finished ∈ row.finishedAt, finished < now
  | _ => True

def isOtherIngest (worker : Nat) : Party → Bool
  | .ingest other => other != worker
  | _ => false

/-- A step of nobody but the one worker among the ingest workers, that finishes nothing at a time
that has been. -/
def OneWorker (ports : IngestPorts) (worker : Nat) (c : QueueConfig) : QueueMove → Prop
  | .crash _ => True
  | .turn p act => isOtherIngest worker p = false ∧
      ∀ turn ∈ turnOf ports c.shared.db c.shared.quarantine p act (c.place p),
        FinishesLater c.shared.db turn.statement

instance (db : Db) (statement : QueueStatement) : Decidable (FinishesLater db statement) :=
  match statement with
  | .finish _ _ _ _ now =>
    inferInstanceAs (Decidable (∀ row ∈ db.jobs, ∀ finished ∈ row.finishedAt, finished < now))
  | .select | .addSource _ | .updateSource _ _ | .setStatus .. | .recordIdentity ..
  | .markDelegated _ | .deleteSource _ | .enqueue .. | .claim .. | .resetStale .. => .isTrue trivial

instance (ports : IngestPorts) (worker : Nat) (c : QueueConfig) (move : QueueMove) :
    Decidable (OneWorker ports worker c move) :=
  match move with
  | .crash _ => .isTrue trivial
  | .turn _ _ => inferInstanceAs (Decidable (_ ∧ ∀ turn ∈ turnOf _ _ _ _ _ _, _))

/-! ## The invariant -/

/-- The done polls of a source are streaks. -/
def SkipsSound (db : Db) (source : SourceId) : Prop :=
  Streaks (· ∈ db.donePolls source) Store.finishedKey skips tag MAX_CONSECUTIVE_SKIPS

/-- The record continues the last done poll of the source. -/
def Files (db : Db) (source : SourceId) (unchanged : Unchanged) : Prop :=
  ∃ last ∈ db.donePolls source,
    (∀ other ∈ db.donePolls source, Store.finishedKey other ≤ Store.finishedKey last) ∧
      Continues skips tag MAX_CONSECUTIVE_SKIPS last unchanged.consecutiveSkips (some unchanged.tag)

/-- What a worker knows between the answer of `last_poll` and the record it files for it. -/
def PlaceFiles (db : Db) : IngestPlace → Prop
  | .scanning due => ∀ source ∈ due, source.id < db.nextSource
  | .scheduling source unchanged due => (∀ other ∈ source :: due, other.id < db.nextSource) ∧
      ∀ record ∈ unchanged, (db.getSource source.id).isSome → Files db source.id record
  | .filing job unchanged due => (∀ source ∈ due, source.id < db.nextSource) ∧
      job.kind = .POLL ∧
      ∀ row ∈ db.jobs, row.id = job.id → Files db job.sourceId unchanged
  | .finishing _ _ result => ∀ tag consecutiveSkips, result ≠ .unchanged tag consecutiveSkips
  | _ => True

/-- The other ingest workers stand still, and the job that the one has in hand is open. -/
def PlaceSkips (worker : Nat) (s : Shared) : ∀ p, Place p → Prop
  | .ingest other, place => (other ≠ worker → place = .idle) ∧ PlaceFiles s.db place ∧
      ∀ held, hold (.ingest other) place = some held →
        ∀ row ∈ s.db.jobs, row.id = held.job.id → row.isOpen = true
  | _, _ => True

structure Skipping (s : Shared) : Prop where
  numbered : s.db.Numbered
  nodup : s.db.jobs.Nodup
  sound : ∀ source, SkipsSound s.db source

/-! ## The done polls after a statement -/

section DonePolls

variable {db : Db} {statement : QueueStatement} {source : SourceId} {job : QueueJob}

theorem mem_donePolls : job ∈ db.donePolls source ↔
    job ∈ db.jobs ∧ job.sourceId = source ∧ job.kind = .POLL ∧ job.state = .DONE := by
  simp [Store.donePolls, and_assoc]

theorem isOpen_of_done (h : job.state = .DONE) : job.isOpen = false := by
  simp [Job.isOpen, h]

/-- A statement that claims or finishes only open polls keeps the done ones, as long as their
source is there, and adds the one that it finishes as done. -/
theorem mem_donePolls_exec (htarget : ∀ row ∈ db.jobs, row.kind = .POLL →
      statement.target = some row.id → row.isOpen = true) :
    job ∈ (statement.exec db).donePolls source ↔
      (job ∈ db.donePolls source ∧ statement.keeps job = true) ∨
        ∃ old ∈ db.jobs, ∃ result error now, statement = .finish old.id .DONE result error now ∧
          old.kind = .POLL ∧ old.sourceId = source ∧
            job = old.finished .DONE result error now := by
  rw [mem_donePolls, mem_donePolls]
  constructor
  · rintro ⟨hmem, hsource, hkind, hdone⟩
    obtain ⟨old, hold, hkeeps, rfl⟩ | hinserted := Statement.mem_exec.mp hmem
    · obtain hsame | ⟨state, result, error, now, hstatement, hfinished⟩ :=
        Statement.update_closed (isOpen_of_done hdone)
      · rw [hsame] at hsource hkind hdone ⊢
        exact .inl ⟨⟨hold, hsource, hkind, hdone⟩, hkeeps⟩
      · rw [hfinished] at hsource hkind hdone ⊢
        obtain rfl : state = .DONE := hdone
        exact .inr ⟨old, hold, result, error, now, hstatement, hkind, hsource, rfl⟩
    · obtain ⟨_, _, _, _, _, -, -, -, rfl, -⟩ := Statement.inserted_eq_some hinserted
      cases hdone
  · rintro (⟨⟨hmem, hsource, hkind, hdone⟩, hkeeps⟩ |
      ⟨old, hold, result, error, now, rfl, hkind, hsource, rfl⟩)
    · have hsame : statement.update job = job := by
        refine Statement.update_of_closed (isOpen_of_done hdone) fun heq => ?_
        exact Bool.false_ne_true ((isOpen_of_done hdone).symm.trans (htarget job hmem hkind heq))
      exact ⟨Statement.mem_exec.mpr (.inl ⟨job, hmem, hkeeps, hsame⟩), hsource, hkind, hdone⟩
    · refine ⟨Statement.mem_exec.mpr (.inl ⟨old, hold, rfl, ?_⟩), hsource, hkind, rfl⟩
      exact if_pos rfl

/-- The polls of a source are kept or deleted together. -/
theorem keeps_of_keeps {other : QueueJob} (hsame : other.sourceId = job.sourceId)
    (h : statement.keeps job = true) : statement.keeps other = true := by
  cases statement with
  | deleteSource => simpa [Statement.keeps, hsame] using h
  | _ => rfl

/-- What is known of the last poll outlasts every statement that finishes none, as long as the
source has polls. -/
theorem Files.exec {unchanged : Unchanged} (h : Files db source unchanged)
    (htarget : ∀ row ∈ db.jobs, row.kind = .POLL → statement.target = some row.id →
      row.isOpen = true)
    (hother : ∀ old ∈ db.jobs, ∀ result error now,
      statement = .finish old.id .DONE result error now → old.kind ≠ .POLL)
    (hkeeps : ∀ row : QueueJob, row.sourceId = source → statement.keeps row = true) :
    Files (statement.exec db) source unchanged := by
  have hiff (job : QueueJob) :
      job ∈ (statement.exec db).donePolls source ↔ job ∈ db.donePolls source := by
    rw [mem_donePolls_exec htarget]
    constructor
    · rintro (⟨hmem, -⟩ | ⟨old, hold, result, error, now, hstatement, hkind, -⟩)
      · exact hmem
      · exact absurd hkind (hother old hold result error now hstatement)
    · exact fun hmem => .inl ⟨hmem, hkeeps job (mem_donePolls.mp hmem).2.1⟩
  obtain ⟨last, hlast, hlatest, hcontinues⟩ := h
  exact ⟨last, (hiff last).mpr hlast, fun other hmem => hlatest other ((hiff other).mp hmem),
    hcontinues⟩

theorem finishedKey_lt {id : JobId} {state : JobState} {result : Option JobResult}
    {error : Option String} {now : Nat} (h : FinishesLater db (.finish id state result error now))
    (hmem : job ∈ db.jobs) : Store.finishedKey job < now + 1 := by
  have hlater := h job hmem
  unfold Store.finishedKey
  cases hfinished : job.finishedAt with
  | none => exact Nat.succ_pos now
  | some finished => exact Nat.succ_lt_succ (hlater finished hfinished)

theorem skips_eq_some {k : Nat} (h : skips job = some k) :
    ∃ tag, job.result = some (.unchanged tag k) := by
  unfold skips at h
  split at h
  next tag count hresult =>
    obtain rfl := Option.some.inj h
    exact ⟨tag, hresult⟩
  · cases h

/-- A finish adds a record that continues the streak, or starts another one. -/
theorem SkipsSound.exec (h : SkipsSound db source)
    (hids : ∀ row ∈ db.jobs, ∀ other ∈ db.jobs, row.id = other.id → row = other)
    (htarget : ∀ row ∈ db.jobs, row.kind = .POLL → statement.target = some row.id →
      row.isOpen = true)
    (hlater : FinishesLater db statement)
    (hfiles : ∀ old ∈ db.jobs, ∀ tag consecutiveSkips error now,
      statement = .finish old.id .DONE (some (.unchanged tag consecutiveSkips)) error now →
        Files db old.sourceId ⟨tag, consecutiveSkips⟩) :
    SkipsSound (statement.exec db) source := by
  by_cases hnew : ∃ old ∈ db.jobs, ∃ result error now,
      statement = .finish old.id .DONE result error now ∧ old.kind = .POLL ∧ old.sourceId = source
  · obtain ⟨old, hold, result, error, now, rfl, hkind, rfl⟩ := hnew
    have hsame (job : QueueJob) :
        job ∈ ((Statement.finish old.id .DONE result error now).exec db).donePolls old.sourceId ↔
          job ∈ db.donePolls old.sourceId ∨ job = old.finished .DONE result error now := by
      rw [mem_donePolls_exec htarget]
      refine or_congr (and_iff_left rfl) ⟨?_, fun hjob => ?_⟩
      · rintro ⟨other, hother, _, _, _, hstatement, -, -, rfl⟩
        obtain ⟨hid, -, rfl, rfl, rfl⟩ := Statement.finish.inj hstatement
        rw [hids old hold other hother hid]
      · exact ⟨old, hold, result, error, now, rfl, hkind, rfl, hjob⟩
    refine Streaks.insert h hsame (fun job hjob => ?_) fun k hk => ?_
    · exact finishedKey_lt hlater (mem_donePolls.mp hjob).1
    · obtain ⟨tag, hresult⟩ := skips_eq_some hk
      obtain rfl : result = some (.unchanged tag k) := hresult
      obtain ⟨last, hlast, hlatest, hcontinues⟩ := hfiles old hold tag k error now rfl
      exact ⟨last, ⟨hlast, finishedKey_lt hlater (mem_donePolls.mp hlast).1,
        fun other hother _ => hlatest other hother⟩, hcontinues⟩
  · have hiff (job : QueueJob) : job ∈ (statement.exec db).donePolls source ↔
        job ∈ db.donePolls source ∧ statement.keeps job = true := by
      rw [mem_donePolls_exec htarget]
      refine or_iff_left ?_
      rintro ⟨old, hold, result, error, now, hstatement, hkind, hsource, -⟩
      exact hnew ⟨old, hold, result, error, now, hstatement, hkind, hsource⟩
    by_cases hkept : ∃ job ∈ db.donePolls source, statement.keeps job = true
    · obtain ⟨job, hjob, hkeeps⟩ := hkept
      refine Streaks.congr h fun other => (hiff other).trans (and_iff_left_of_imp fun hother => ?_)
      refine keeps_of_keeps ?_ hkeeps
      rw [(mem_donePolls.mp hother).2.1, (mem_donePolls.mp hjob).2.1]
    · exact Streaks.empty fun job hjob => hkept ⟨job, (hiff job).mp hjob⟩

end DonePolls

/-! ## What a turn finishes -/

/-- The record of a skipped poll is filed by the tick that queued its job, unless a worker comes
to it as the result of a job. -/
theorem ingestTurn_unchanged {ports : IngestPorts} {act : IngestAct} {db : Db}
    {quarantine : Quarantine} {place : IngestPlace} {turn : Turn IngestPlace} {id : JobId}
    {state : JobState} {tag : String} {consecutiveSkips : Nat} {error : Option String} {now : Nat}
    (h : Ingest.ingestTurn ports act db quarantine place = some turn)
    (hfinish : turn.statement =
      .finish id state (some (.unchanged tag consecutiveSkips)) error now) :
    (∃ job due, place = .filing job ⟨tag, consecutiveSkips⟩ due ∧ id = job.id) ∨
      ∃ job source, place = .finishing job source (.unchanged tag consecutiveSkips) := by
  cases place with
  | filing job unchanged due =>
    obtain rfl := Option.some.inj h
    cases hfinish
    exact .inl ⟨job, due, rfl, rfl⟩
  | finishing job source result =>
    obtain rfl := Option.some.inj h
    cases hfinish
    exact .inr ⟨job, source, rfl⟩
  | working job source =>
    obtain rfl := Option.some.inj h
    cases Ingest.workTurn_cases.1.symm.trans hfinish
  | selecting =>
    simp only [Ingest.ingestTurn] at h
    split at h
    · obtain rfl := Option.some.inj h
      cases hfinish
    · cases h
  | scanning due =>
    cases due with
    | nil =>
      obtain rfl | ⟨row, -, -, -, rfl⟩ := claimJob_eq_some h <;> cases hfinish
    | cons source due =>
      simp only [Ingest.ingestTurn] at h
      split at h
      · obtain rfl := Option.some.inj h
        cases hfinish
      · cases h
  | _ =>
    obtain rfl := Option.some.inj h
    cases hfinish

theorem signerTurn_unchanged {lib : Ingest.Libraries} {act : Sign.SignerAct} {db : Db}
    {quarantine : Quarantine} {place : Sign.SignerPlace} {turn : Turn Sign.SignerPlace} {id : JobId}
    {state : JobState} {tag : String} {consecutiveSkips : Nat} {error : Option String} {now : Nat}
    (h : Sign.signerTurn lib act db quarantine place = some turn) :
    turn.statement ≠ .finish id state (some (.unchanged tag consecutiveSkips)) error now := by
  intro hfinish
  cases place with
  | claiming =>
    obtain rfl | ⟨row, -, -, -, rfl⟩ := claimJob_eq_some h <;> cases hfinish
  | publishing job source =>
    simp only [Sign.signerTurn] at h
    split at h <;> obtain rfl := Option.some.inj h <;> cases hfinish
  | _ =>
    obtain rfl := Option.some.inj h
    cases hfinish

section Turns

variable {ports : IngestPorts} {worker : Nat} {c : QueueConfig} {p : Party} {act : Act p}
  {turn : Turn (Place p)}

/-- All but the ingest workers have jobs to publish in hand. -/
theorem kind_of_held (hheld : HeldSound c) {held : Hold}
    (hhold : hold p (c.place p) = some held) (hp : ∀ worker, p ≠ .ingest worker) :
    held.job.kind = .PUBLISH := by
  cases p with
  | ingest worker => exact absurd rfl (hp worker)
  | signer worker =>
    obtain ⟨job, -, rfl⟩ := Option.map_eq_some_iff.mp hhold
    have hkind := (hheld (.signer worker) job hhold).2
    simp only [kinds, Sign.CLAIMS, List.mem_singleton] at hkind
    exact hkind
  | request id | ceremony => cases hhold

/-- A turn claims or finishes no poll that is done. -/
theorem isOpen_of_target (hs : Standing ports c) (hheld : HeldSound c)
    (hL : ∀ q, PlaceSkips worker c.shared q (c.place q))
    (h : turnOf ports c.shared.db c.shared.quarantine p act (c.place p) = some turn) :
    ∀ row ∈ c.shared.db.jobs, row.kind = .POLL → turn.statement.target = some row.id →
      row.isOpen = true := by
  intro row hrow hkind htarget
  have hcases := turnOf_cases h
  generalize turn.statement = statement at hcases htarget
  cases hcases with
  | @claim claimed now present queued =>
    obtain rfl := hs.accounted.ids claimed present row hrow (Option.some.inj htarget)
    simp [Job.isOpen, queued]
  | @finish held state result error now holds closes free =>
    have hid : held.job.id = row.id := Option.some.inj htarget
    by_cases hp : ∃ worker, p = .ingest worker
    · obtain ⟨other, rfl⟩ := hp
      exact (hL (.ingest other)).2.2 held holds row hrow hid.symm
    · have hpublish := kind_of_held hheld holds fun worker hworker => hp ⟨worker, hworker⟩
      have hfixed := hs.accounted.fixed_of_id (hs.known p held holds)
        (hs.accounted.known row hrow) hid
      rw [(Job.fixed_inj.mp hfixed).2.2.1, hkind] at hpublish
      cases hpublish
  | file inserted =>
    obtain ⟨_, _, _, _, _, rfl, -⟩ := Statement.inserted_eq_some inserted
    cases htarget
  | keep _ target => cases target.symm.trans htarget

/-- What is filed as unchanged continues the last poll of the source. -/
theorem files_of_finish (hs : Standing ports c)
    (hL : ∀ q, PlaceSkips worker c.shared q (c.place q))
    (h : turnOf ports c.shared.db c.shared.quarantine p act (c.place p) = some turn) :
    ∀ old ∈ c.shared.db.jobs, ∀ tag consecutiveSkips error now,
      turn.statement = .finish old.id .DONE (some (.unchanged tag consecutiveSkips)) error now →
        Files c.shared.db old.sourceId ⟨tag, consecutiveSkips⟩ := by
  intro old hold tag consecutiveSkips error now hfinish
  cases p with
  | ingest other =>
    obtain ⟨-, hplace, -⟩ := hL (.ingest other)
    obtain ⟨job, due, heq, hid⟩ | ⟨job, source, heq⟩ := ingestTurn_unchanged h hfinish
    · have hknown := hs.known (.ingest other) (.filing job) (by rw [heq]; rfl)
      have hfixed := hs.accounted.fixed_of_id (hs.accounted.known old hold) hknown hid
      rw [heq] at hplace
      rw [(Job.fixed_inj.mp hfixed).2.1]
      exact hplace.2.2 old hold hid
    · rw [heq] at hplace
      exact absurd rfl (hplace tag consecutiveSkips)
  | signer other => exact absurd hfinish (signerTurn_unchanged h)
  | request id =>
    obtain rfl := Option.some.inj h
    have htarget := adminTurn_target act c.shared.db (c.place (.request id))
    rw [hfinish] at htarget
    cases htarget
  | ceremony =>
    obtain rfl := Option.some.inj h
    cases hfinish

end Turns

/-! ## What is known of the last poll -/

section Places

variable {db : Db} {source : SourceId}

theorem eq_some_of_present {text : Option String} {known : String} (h : present text = some known) :
    text = some known := by
  unfold present at h
  split at h
  · cases h
  · exact h

/-- The record that the cheap check asks for continues the last poll. -/
theorem files_of_unchanged {last : Option QueueJob} {hint : Option (Option String)}
    {record : Unchanged} (hlast : db.IsLastPoll source last)
    (h : unchangedSinceLastPoll last hint = some record) : Files db source record := by
  simp only [unchangedSinceLastPoll, Option.bind_eq_bind, Option.bind_eq_some_iff] at h
  obtain ⟨job, rfl, result, hresult, known, hknown, h⟩ := h
  have hskips : (skips job).getD 0 = result.consecutiveSkips := by
    rw [skips, hresult]
    cases result <;> rfl
  have htag : tag job = some known := by
    rw [tag, hresult]
    exact eq_some_of_present hknown
  split at h
  · cases h
  next hbelow =>
    split at h
    · obtain rfl := Option.some.inj h
      refine ⟨job, hlast.1, hlast.2, ?_, ?_, htag.symm⟩
      · rw [hskips]
        exact Nat.lt_of_not_le hbelow
      · rw [hskips]
    · cases h

theorem ids_lt_exec {sources : List Source} (h : ∀ other ∈ sources, other.id < db.nextSource)
    (statement : QueueStatement) : ∀ other ∈ sources, other.id < (statement.exec db).nextSource :=
  fun other hother => Nat.lt_of_lt_of_le (h other hother) statement.nextSource_le

/-- The jobs with an id stay open under all but a finish. -/
theorem isOpen_exec {id : JobId} {statement : QueueStatement}
    (hopen : ∀ row ∈ db.jobs, row.id = id → row.isOpen = true)
    (hfinish : ∀ state result error now, statement ≠ .finish id state result error now) :
    ∀ row ∈ (statement.exec db).jobs, row.id = id → row.isOpen = true := by
  intro row hrow hid
  obtain ⟨old, hold, -, rfl⟩ | hinserted := Statement.mem_exec.mp hrow
  · rw [Statement.id_update] at hid
    by_contra hclosed
    obtain hsame | ⟨state, result, error, now, hstatement, -⟩ :=
      Statement.update_closed (Bool.not_eq_true _ ▸ hclosed)
    · exact hclosed (hsame.symm ▸ hopen old hold hid)
    · exact hfinish state result error now (hid ▸ hstatement)
  · obtain ⟨_, _, _, _, _, -, -, -, rfl, -⟩ := Statement.inserted_eq_some hinserted
    rfl

/-- A source that is there after a statement was not deleted by it. -/
theorem keeps_of_getSource {statement : QueueStatement} (hlt : source < db.nextSource)
    (h : ((statement.exec db).getSource source).isSome) :
    (db.getSource source).isSome ∧
      ∀ row : QueueJob, row.sourceId = source → statement.keeps row = true := by
  obtain ⟨row, hrow⟩ := Option.isSome_iff_exists.mp h
  constructor
  · obtain ⟨old, hold, -⟩ | ⟨-, hregistered⟩ := Statement.getSource_exec_eq_some hrow
    · rw [hold]
      rfl
    · have hid := (Statement.registered_eq_some hregistered).1
      rw [Store.id_of_getSource hrow] at hid
      exact absurd hid hlt.ne
  · intro job hjob
    cases statement with
    | deleteSource id =>
      by_cases hid : id = source
      · subst hid
        simp [Statement.exec, Store.deleteSource, Store.getSource] at h
      · simpa [Statement.keeps, hjob] using Ne.symm hid
    | _ => rfl

/-- What a worker knows outlasts the statements of the others. -/
theorem PlaceFiles.exec {s : Shared} {statement : QueueStatement}
    {worker : Nat} {place : IngestPlace} (h : PlaceFiles s.db place) (haccounted : Accounted s)
    (hknown : ∀ held, hold (.ingest worker) place = some held → Known s.log held.job)
    (htarget : ∀ row ∈ s.db.jobs, row.kind = .POLL → statement.target = some row.id →
      row.isOpen = true)
    (hother : ∀ old ∈ s.db.jobs, ∀ result error now,
      statement = .finish old.id .DONE result error now → old.kind ≠ .POLL) :
    PlaceFiles (statement.exec s.db) place := by
  cases place with
  | scanning due => exact ids_lt_exec h statement
  | scheduling source unchanged due =>
    refine ⟨ids_lt_exec h.1 statement, fun record hrecord hsource => ?_⟩
    obtain ⟨hbefore, hkeeps⟩ := keeps_of_getSource (h.1 source List.mem_cons_self) hsource
    exact (h.2 record hrecord hbefore).exec htarget hother hkeeps
  | filing job unchanged due =>
    obtain ⟨hdue, hkind, hfiles⟩ := h
    refine ⟨ids_lt_exec hdue statement, hkind, fun row hrow hid => ?_⟩
    have hjob := hknown (.filing job) rfl
    obtain ⟨old, hold, hkeeps, rfl⟩ | hinserted := Statement.mem_exec.mp hrow
    · rw [Statement.id_update] at hid
      have hfixed := haccounted.fixed_of_id (haccounted.known old hold) hjob hid
      have hsource := (Job.fixed_inj.mp hfixed).2.1
      exact (hfiles old hold hid).exec htarget hother fun other hother =>
        keeps_of_keeps (hother.trans hsource.symm) hkeeps
    · obtain ⟨_, _, _, _, _, -, -, -, rfl, -⟩ := Statement.inserted_eq_some hinserted
      exact absurd hid.symm (haccounted.id_lt hjob).ne
  | finishing job source result => exact h
  | _ => trivial

end Places

section Steps

variable {ports : IngestPorts} {c : QueueConfig} {p q : Party} {act : Act p}
  {turn : Turn (Place p)}

/-- The jobs that all but the ingest workers finish are not polls. -/
theorem kind_of_finish (hs : Standing ports c) (hheld : HeldSound c)
    (hp : ∀ worker, p ≠ .ingest worker)
    (h : turnOf ports c.shared.db c.shared.quarantine p act (c.place p) = some turn) {job : QueueJob}
    (hjob : Known c.shared.log job) {state : JobState} {result error now}
    (hfinish : turn.statement = .finish job.id state result error now) : job.kind = .PUBLISH := by
  have hcases := turnOf_cases h
  rw [hfinish] at hcases
  generalize hid : job.id = id at hcases
  cases hcases with
  | @finish held _ _ _ _ holds _ _ =>
    have hfixed := hs.accounted.fixed_of_id hjob (hs.known p held holds) hid
    rw [(Job.fixed_inj.mp hfixed).2.2.1]
    exact kind_of_held hheld holds hp
  | file inserted => cases inserted
  | keep _ target => cases target

theorem kind_of_filing {db : Db} {worker : Nat} {place : IngestPlace} (h : PlaceFiles db place)
    {job : QueueJob} (hhold : hold (.ingest worker) place = some (.filing job)) :
    job.kind = .POLL := by
  cases place with
  | filing filed unchanged due =>
    obtain rfl := Hold.filing.inj (Option.some.inj hhold)
    exact h.2.1
  | _ => cases hhold

/-- What a worker knows, after a turn of its own. -/
theorem placeFiles_own {act : IngestAct} {place : IngestPlace} {turn : Turn IngestPlace}
    {quarantine : Quarantine} {db : Db} (hnumbered : db.Numbered) (h : PlaceFiles db place)
    (hturn : Ingest.ingestTurn ports act db quarantine place = some turn)
    (htarget : ∀ row ∈ db.jobs, row.kind = .POLL → turn.statement.target = some row.id →
      row.isOpen = true) : PlaceFiles (turn.statement.exec db) turn.next := by
  cases place with
  | selecting =>
    simp only [Ingest.ingestTurn] at hturn
    split at hturn
    next hdue =>
      obtain rfl := Option.some.inj hturn
      intro source hsource
      exact hnumbered source (List.mem_filter.mp (hdue.mem_iff.mp hsource)).1
    · cases hturn
  | scanning due =>
    cases due with
    | nil =>
      obtain rfl | ⟨row, -, -, -, rfl⟩ := claimJob_eq_some hturn <;> trivial
    | cons source due =>
      simp only [Ingest.ingestTurn] at hturn
      split at hturn
      next hlast =>
        obtain rfl := Option.some.inj hturn
        exact ⟨h, fun record hrecord _ => files_of_unchanged hlast hrecord⟩
      · cases hturn
  | scheduling source unchanged due =>
    obtain rfl := Option.some.inj hturn
    have hdue := ids_lt_exec (fun other hother => h.1 other (List.mem_cons_of_mem _ hother))
      (.enqueue source.id .POLL "schedule" none act.now)
    split
    · trivial
    next job _ record heq =>
      obtain ⟨-, hsource, rfl, -⟩ := Store.enqueue_eq_some heq
      exact ⟨hdue, rfl, fun _ _ _ => (h.2 record rfl hsource).exec htarget (by simp) fun _ _ => rfl⟩
    · exact hdue
  | filing job unchanged due =>
    obtain rfl := Option.some.inj hturn
    exact ids_lt_exec h.1 _
  | fetching job =>
    obtain rfl := Option.some.inj hturn
    dsimp only [Queue.fetchSource]
    cases db.getSource job.sourceId <;> trivial
  | working job source =>
    obtain rfl := Option.some.inj hturn
    obtain ⟨-, hwork⟩ := @Ingest.workTurn_cases ports act quarantine job source
    generalize (Ingest.workTurn ports act quarantine job source).next = next,
      (Ingest.workTurn ports act quarantine job source).effect = effect at hwork
    cases hwork with
    | failed | validated => trivial
    | noRelease | decided => exact fun _ _ => by simp
  | recording job source result =>
    obtain rfl := Option.some.inj hturn
    exact fun _ _ => by simp
  | finishing job source result =>
    obtain rfl := Option.some.inj hturn
    dsimp only
    split <;> trivial
  | failing job source message =>
    obtain rfl := Option.some.inj hturn
    dsimp only
    split <;> trivial
  | _ =>
    obtain rfl := Option.some.inj hturn
    trivial

theorem isOpen_own (hs : Standing ports c)
    (h : turnOf ports c.shared.db c.shared.quarantine p act (c.place p) = some turn)
    (hopen : ∀ held, hold p (c.place p) = some held →
      ∀ row ∈ c.shared.db.jobs, row.id = held.job.id → row.isOpen = true) {held : Hold}
    (hhold : hold p turn.next = some held) :
    ∀ row ∈ (turn.statement.exec c.shared.db).jobs, row.id = held.job.id → row.isOpen = true := by
  have hcases := turnOf_cases h
  generalize turn.statement = statement at hcases
  cases hcases with
  | @claim row now present queued _ _ hnext =>
    obtain rfl := Option.some.inj (hnext.symm.trans hhold)
    refine isOpen_exec (fun other hother hid => ?_) (by simp)
    rw [hs.accounted.ids other hother row present hid]
    simp [Job.isOpen, queued]
  | finish _ _ free => cases free.symm.trans hhold
  | @file _ job inserted _ hnext =>
    obtain rfl := Option.some.inj (hnext.symm.trans hhold)
    obtain ⟨_, _, _, _, _, rfl, -, -, rfl, -⟩ := Statement.inserted_eq_some inserted
    refine isOpen_exec (fun other hother hid => ?_) (by simp)
    exact absurd hid (hs.accounted.id_lt (hs.accounted.known other hother)).ne
  | keep same target =>
    refine isOpen_exec (hopen held (same ▸ hhold)) fun _ _ _ _ heq => ?_
    rw [heq] at target
    cases target

/-- A turn of the worker keeps what it knows. -/
theorem placeSkips_own {worker : Nat} (hs : Standing ports c) (hheld : HeldSound c)
    (hI : Skipping c.shared) (hL : ∀ q, PlaceSkips worker c.shared q (c.place q))
    (hp : isOtherIngest worker p = false)
    (h : turnOf ports c.shared.db c.shared.quarantine p act (c.place p) = some turn) :
    PlaceSkips worker (c.shared.commit p turn) p turn.next := by
  cases p with
  | ingest other =>
    obtain ⟨-, hplace, hopen⟩ := hL (.ingest other)
    refine ⟨fun hne => ?_, ?_, fun held hhold => isOpen_own hs h hopen hhold⟩
    · simp [isOtherIngest, hne] at hp
    · exact placeFiles_own hI.numbered hplace h (isOpen_of_target hs hheld hL h)
  | signer other => trivial
  | request id => trivial
  | ceremony => trivial

/-- A turn of another party keeps what the worker knows. -/
theorem placeSkips_other {worker : Nat} (hs : Standing ports c) (hheld : HeldSound c)
    (hL : ∀ q, PlaceSkips worker c.shared q (c.place q))
    (hp : isOtherIngest worker p = false) (hpq : q ≠ p)
    (h : turnOf ports c.shared.db c.shared.quarantine p act (c.place p) = some turn) :
    PlaceSkips worker (c.shared.commit p turn) q (c.place q) := by
  cases q with
  | ingest other =>
    obtain ⟨hidle, hplace, hopen⟩ := hL (.ingest other)
    by_cases hworker : other = worker
    · have hnobody : ∀ worker, p ≠ .ingest worker := by
        rintro another rfl
        obtain rfl : another = worker := by simpa [isOtherIngest] using hp
        exact hpq (by rw [hworker])
      have hknown := hs.known (.ingest other)
      refine ⟨hidle, ?_, fun held hhold => isOpen_exec (hopen held hhold) ?_⟩
      · refine hplace.exec hs.accounted hknown (isOpen_of_target hs hheld hL h) ?_
        intro old hold result error now hfinish hpoll
        cases (kind_of_finish hs hheld hnobody h (hs.accounted.known old hold) hfinish).symm.trans
          hpoll
      · intro state result error now hfinish
        have hpublish := kind_of_finish hs hheld hnobody h (hknown held hhold) hfinish
        cases held with
        | running job =>
          have hkind := (hheld (.ingest other) job hhold).2
          rw [show job.kind = .PUBLISH from hpublish] at hkind
          simp [kinds] at hkind
        | filing job =>
          cases (show job.kind = .PUBLISH from hpublish).symm.trans (kind_of_filing hplace hhold)
    · refine ⟨hidle, ?_, ?_⟩
      · rw [hidle hworker]
        trivial
      · rw [hidle hworker]
        exact fun held hhold => by cases hhold
  | signer other => trivial
  | request id => trivial
  | ceremony => trivial

theorem nodup_exec {s : Shared} {statement : QueueStatement} (haccounted : Accounted s)
    (h : s.db.jobs.Nodup) : (statement.exec s.db).jobs.Nodup := by
  rw [Statement.jobs_exec]
  refine List.Nodup.append ?_ ?_ ?_
  · refine List.Nodup.map_on (fun job hjob other hother heq => ?_) (h.filter _)
    refine haccounted.ids job (List.mem_filter.mp hjob).1 other (List.mem_filter.mp hother).1 ?_
    rw [← statement.id_update job, heq, statement.id_update]
  · cases statement.inserted s.db <;> simp
  · intro job hjob hinserted
    obtain ⟨old, hold, rfl⟩ := List.mem_map.mp hjob
    obtain ⟨_, _, _, _, _, -, -, -, hnew, -⟩ :=
      Statement.inserted_eq_some (Option.mem_toList.mp hinserted)
    have hid : old.id = s.db.nextJob := by
      rw [← statement.id_update old, hnew]
      rfl
    exact absurd hid
      (haccounted.id_lt (haccounted.known old (List.mem_filter.mp hold).1)).ne

theorem skipping_commit {worker : Nat} (hs : Standing ports c) (hheld : HeldSound c)
    (hI : Skipping c.shared) (hL : ∀ q, PlaceSkips worker c.shared q (c.place q))
    (h : turnOf ports c.shared.db c.shared.quarantine p act (c.place p) = some turn)
    (hlater : FinishesLater c.shared.db turn.statement) :
    Skipping (c.shared.commit p turn) where
  numbered := hI.numbered.exec turn.statement
  nodup := nodup_exec hs.accounted hI.nodup
  sound source := (hI.sound source).exec hs.accounted.ids (isOpen_of_target hs hheld hL h) hlater
    (files_of_finish hs hL h)

end Steps

/-! ## The runs -/

theorem skipping_initial (quarantine : Quarantine) : Skipping ⟨Store.empty, quarantine, []⟩ where
  numbered _ hrow := absurd hrow List.not_mem_nil
  nodup := List.nodup_nil
  sound _ := Streaks.empty fun _ => List.not_mem_nil

theorem skipping_invariant (ports : IngestPorts) (quarantine : Quarantine) (worker : Nat) :
    (parties ports quarantine).Invariant
      (fun c move => OneWorker ports worker c move ∧ Standing ports c ∧ HeldSound c) Skipping
      (fun p s place => PlaceSkips worker s p place) where
  start := skipping_initial quarantine
  idle p s := by
    cases p with
    | ingest other => exact ⟨fun _ => rfl, trivial, fun held hhold => by cases hhold⟩
    | signer other => trivial
    | request id => trivial
    | ceremony => trivial
  own c p act shared place hok hI hL h := by
    obtain ⟨turn, hturn, hcommit⟩ := Option.map_eq_some_iff.mp h
    obtain ⟨rfl, rfl⟩ := Prod.mk.inj hcommit
    obtain ⟨⟨hp, hlater⟩, hs, hheld⟩ := hok
    exact ⟨skipping_commit hs hheld hI hL hturn (hlater turn hturn),
      placeSkips_own hs hheld hI hL hp hturn⟩
  other c p act shared place q hq hok _ hL h := by
    obtain ⟨turn, hturn, hcommit⟩ := Option.map_eq_some_iff.mp h
    obtain ⟨rfl, rfl⟩ := Prod.mk.inj hcommit
    exact placeSkips_other hok.2.1 hok.2.2 hL hok.1.1 hq hturn

theorem skipping {ports : IngestPorts} {quarantine : Quarantine} {worker : Nat} {c : QueueConfig}
    (hc : ((system ports quarantine).when (OneWorker ports worker)).Reachable c) :
    Skipping c.shared :=
  ((skipping_invariant ports quarantine worker).holds (hc.when_and fun _ h =>
    ⟨standing h.of_when, heldSound h.of_when⟩)).1

/-! ## The result -/

/-- A poll that was made: it finished, whether well or not, and is no record of a skipped one. -/
def IsAttempt (source : SourceId) (job : QueueJob) : Prop :=
  job.sourceId = source ∧ job.kind = .POLL ∧ (job.state = .DONE ∨ job.state = .FAILED) ∧
    skips job = none

/-- The records of skipped polls of a source that were filed between two times. -/
def skippedBetween (db : Db) (source : SourceId) (lo hi : Nat) : List QueueJob :=
  (db.donePolls source).filter fun job =>
    (skips job).isSome && lo < Store.finishedKey job && Store.finishedKey job < hi

/-- What a run says about the records of a source. -/
structure SkipsBounded (db : Db) (source : SourceId) : Prop where
  /-- Between two times with no poll between them. -/
  bounded : ∀ lo hi, (∀ job ∈ db.jobs, IsAttempt source job →
      ¬ (lo < Store.finishedKey job ∧ Store.finishedKey job < hi)) →
    (skippedBetween db source lo hi).length ≤ MAX_CONSECUTIVE_SKIPS
  /-- A record has the tag of the last poll that was done before it. -/
  repeats : ∀ job ∈ db.donePolls source, (skips job).isSome →
    ∃ poll, Last (fun row => row ∈ db.donePolls source ∧ skips row = none) Store.finishedKey poll
      (Store.finishedKey job) ∧ tag poll = tag job

theorem mem_skippedBetween {db : Db} {source : SourceId} {lo hi : Nat} {job : QueueJob} :
    job ∈ skippedBetween db source lo hi ↔ job ∈ db.donePolls source ∧ (skips job).isSome ∧
      lo < Store.finishedKey job ∧ Store.finishedKey job < hi := by
  simp [skippedBetween, and_assoc]

/-- Over every interleaving of one ingest worker with the signers, the operators and the ceremony
tool, whatever the feeds show. -/
theorem skips_bounded {ports : IngestPorts} {quarantine : Quarantine} {worker : Nat}
    {c : QueueConfig} (hc : ((system ports quarantine).when (OneWorker ports worker)).Reachable c)
    (source : SourceId) : SkipsBounded c.shared.db source := by
  have hsound := (skipping hc).sound source
  constructor
  case bounded =>
    intro lo hi hnone
    refine hsound.length_le (((skipping hc).nodup.filter _).filter _) (fun job hjob => ?_) ?_
    · obtain ⟨hmem, hskips, -⟩ := mem_skippedBetween.mp hjob
      exact ⟨hmem, hskips⟩
    · rintro first hfirst second hsecond poll hpoll hskips ⟨hafter, hbefore⟩
      obtain ⟨-, -, hlo, -⟩ := mem_skippedBetween.mp hfirst
      obtain ⟨-, -, -, hhi⟩ := mem_skippedBetween.mp hsecond
      obtain ⟨hmem, hsource, hkind, hdone⟩ := mem_donePolls.mp hpoll
      exact hnone poll hmem ⟨hsource, hkind, .inl hdone, hskips⟩
        ⟨hlo.trans hafter, hbefore.trans hhi⟩
  case repeats =>
    intro job hjob hskips
    obtain ⟨k, hk⟩ := Option.isSome_iff_exists.mp hskips
    exact hsound.base hjob hk

/-! ## A quiet feed -/

section QuietFeed

open Ingest (POLL_INTERVAL)

/-- A turn of worker 0, for which no gate is left out, while the feed shows the release. -/
def feedMove (now : Nat) (due : List Source) (last job : Option QueueJob) : QueueMove :=
  .turn (.ingest 0) ⟨now, due, last, some (some "v1.0"), job, editorForge "v1.0", []⟩

/-- A poll of the release, which is not promoted. -/
def heldPoll : List QueueMove :=
  registration ++ List.replicate 2 (requestMove 1 (.act 1 .poll)) ++
    [none, none, some (queuedJob 2 .POLL "alice" none), none, none, none].map
      (feedMove 1 [] none)

/-- One more tick, when the source is due again. -/
def thenTick (moves : List QueueMove) (now : Nat) : List QueueMove :=
  moves ++ List.replicate 6 (feedMove now
    (((endOf moves).map fun c => c.shared.db.sources).getD [])
    ((endOf moves).bind fun c => (c.shared.db.donePolls 1).getLast?) none)

def quietFeed : List QueueMove :=
  thenTick (thenTick heldPoll (1 + POLL_INTERVAL)) (1 + 2 * POLL_INTERVAL)

def pollRecords (c : QueueConfig) : List (Option String × Option Nat) :=
  (c.shared.db.donePolls 1).map fun job => (tag job, skips job)

theorem skips_bounded_quietFeed : ∃ c : QueueConfig,
    pollRecords c = [(some "v1.0", none), (some "v1.0", some 1), (some "v1.0", some 2)] ∧
      SkipsBounded c.shared.db 1 := by
  have hrun : (System.exec (fun c move => if OneWorker Ingest.editorPorts 0 c move then
        editorParties.next c move else none) quietFeed editorParties.initial).map pollRecords =
      some [(some "v1.0", none), (some "v1.0", some 1), (some "v1.0", some 2)] := by
    decide +kernel
  obtain ⟨c, hc, hrecords⟩ := Option.map_eq_some_iff.mp hrun
  exact ⟨c, hrecords, skips_bounded (System.reachable_exec_when (.start rfl) hc) 1⟩

end QuietFeed

end DistPlatform.Queue
