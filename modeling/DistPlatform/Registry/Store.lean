import DistPlatform.Core.Naming
import DistPlatform.Registry.Models
import Mathlib.Data.List.Nodup

/-!
# The registry's store (`dist_registry.store`)

Two tables and the statements on them. Every function of the store is one statement that
commits on its own, so a statement is the unit that interleaves. `π` is what a job's payload
holds and `ρ` what its result holds.

## Main definitions

* `Job`, `Store` — the rows, with the two counters that stand for fresh uuids.
* `enqueue`, `claimable`, `dueSources`, `IsLastPoll` — the answers of the statements.
* `Statement`, `Statement.exec` — what each statement changes.
-/

namespace DistPlatform.Registry

open DistPlatform.Core (appIdBody CHANNELS)

abbrev JobId := Nat

/-- A unit of work for one of the two services that hold a credential. -/
structure Job (π ρ : Type) where
  id : JobId
  sourceId : SourceId
  kind : JobKind
  state : JobState
  requestedBy : String
  requestedAt : Nat
  startedAt : Option Nat
  finishedAt : Option Nat
  attempts : Nat
  payload : Option π
  result : Option ρ
  error : Option String
  deriving DecidableEq, Repr

structure Store (π ρ : Type) where
  sources : List Source
  jobs : List (Job π ρ)
  nextSource : SourceId
  nextJob : JobId
  deriving DecidableEq, Repr

def Store.empty {π ρ : Type} : Store π ρ := ⟨[], [], 1, 1⟩

/-- Why a statement failed. -/
inductive StoreFailure
  | StoreError (message : String)
  | ForeignKeyViolation
  | CheckViolation
  deriving DecidableEq, Repr

/-- The columns `update_source` will write; `none` leaves a column as it is. -/
structure SourceEdit where
  assetName : Option String := none
  tagPrefix : Option String := none
  requireTagRefPrefix : Option String := none
  maxAssetBytes : Option Nat := none
  critical : Option Bool := none
  channel : Option String := none
  platform : Option String := none
  arch : Option String := none
  deriving DecidableEq, Repr

def SourceEdit.apply (edit : SourceEdit) (source : Source) : Source :=
  { source with
    assetName := edit.assetName.getD source.assetName
    tagPrefix := edit.tagPrefix.getD source.tagPrefix
    requireTagRefPrefix := edit.requireTagRefPrefix.getD source.requireTagRefPrefix
    maxAssetBytes := edit.maxAssetBytes.getD source.maxAssetBytes
    critical := edit.critical.getD source.critical
    channel := edit.channel.getD source.channel
    platform := edit.platform.getD source.platform
    arch := edit.arch.getD source.arch }

section Statements

variable {π ρ : Type}

namespace Job

/-- `state IN ('queued', 'running')` -/
def isOpen (job : Job π ρ) : Bool := job.state == .QUEUED || job.state == .RUNNING

def claimed (now : Nat) (job : Job π ρ) : Job π ρ :=
  { job with state := .RUNNING, startedAt := some now, attempts := job.attempts + 1 }

def finished (state : JobState) (result : Option ρ) (error : Option String) (now : Nat)
    (job : Job π ρ) : Job π ρ :=
  { job with state, finishedAt := some now, result, error }

/-- `state = 'running' AND started_at < now() - older_than` -/
def isStale (olderThan now : Nat) (job : Job π ρ) : Bool :=
  job.state == .RUNNING && job.startedAt.any fun started => started + olderThan < now

def requeued (job : Job π ρ) : Job π ρ := { job with state := .QUEUED, startedAt := none }

end Job

namespace Store

/-! ## Sources -/

def getSource (s : Store π ρ) (id : SourceId) : Option Source :=
  s.sources.find? fun source => source.id == id

def mapSource (s : Store π ρ) (id : SourceId) (f : Source → Source) : Store π ρ :=
  { s with sources := s.sources.map fun source => if source.id = id then f source else source }

/-- The checks of `sources` that an insert has to pass. PostgreSQL's `$` matches at the very
end only. -/
def insertable (source : Source) : Bool :=
  appIdBody source.appId.toList && CHANNELS.contains source.channel

/-- `add_source`: always a draft without pinned ids. -/
def addSource (s : Store π ρ) (source : Source) : Except StoreFailure (Source × Store π ρ) :=
  if s.sources.any (·.appId == source.appId) then
    .error (.StoreError ("application id " ++ Text.quoted source.appId ++
      " is already registered"))
  else if !insertable source then .error .CheckViolation
  else
    let row := { source with
      id := s.nextSource, status := .DRAFT, repositoryId := none, repositoryOwnerId := none,
      lastError := none }
    .ok (row, { s with sources := s.sources ++ [row], nextSource := s.nextSource + 1 })

/-- `update_source`. The check on the channel column is left out: a database that was migrated has
none. -/
def updateSource (s : Store π ρ) (id : SourceId) (edit : SourceEdit) :
    Except StoreFailure (Store π ρ) :=
  if (s.getSource id).isNone then .error (.StoreError "source was deleted")
  else .ok (s.mapSource id edit.apply)

/-- `set_status`. -/
def setStatus (s : Store π ρ) (id : SourceId) (status : SourceStatus) (error : Option String) :
    Except StoreFailure (Store π ρ) :=
  if status = .ACTIVE then
    .error (.StoreError ("a source becomes active only when its app-<id> delegation exists; " ++
      "run the signing ceremony and use mark_delegated"))
  else .ok (s.mapSource id fun source => { source with status, lastError := error })

/-- `record_identity`. -/
def recordIdentity (s : Store π ρ) (id : SourceId) (repositoryId repositoryOwnerId : String) :
    Store π ρ :=
  s.mapSource id fun source => { source with
    repositoryId := some repositoryId
    repositoryOwnerId := some repositoryOwnerId
    status := .PENDING_DELEGATION
    lastError := none }

/-- The two `active_needs` constraints: the pins of the forge's provenance route. -/
def pinned (source : Source) : Bool :=
  match source.forge with
  | .GITHUB => source.workflowUri.isSome && source.oidcIssuer.isSome &&
      source.repositoryId.isSome && source.repositoryOwnerId.isSome
  | .GITLAB => source.builderId.isSome && source.builderKeyid.isSome &&
      source.builderPublicKeyPem.isSome

/-- `mark_delegated`. -/
def markDelegated (s : Store π ρ) (appId : String) : Except StoreFailure (Store π ρ) :=
  match s.sources.find? fun source => source.appId == appId &&
      (source.status == .PENDING_DELEGATION || source.status == .PAUSED) with
  | none => .error (.StoreError ("no source for " ++ Text.quoted appId ++
      " is waiting for a delegation"))
  | some source =>
    if pinned source then
      .ok (s.mapSource source.id fun row => { row with status := .ACTIVE, lastError := none })
    else .error .CheckViolation

/-- `delete_source`; the jobs go with it (`ON DELETE CASCADE`). -/
def deleteSource (s : Store π ρ) (id : SourceId) : Store π ρ :=
  { s with
    sources := s.sources.filter (·.id ≠ id)
    jobs := s.jobs.filter (·.sourceId ≠ id) }

/-! ## Jobs -/

def hasOpenJob (s : Store π ρ) (source : SourceId) : Bool :=
  s.jobs.any fun job => job.sourceId == source && job.isOpen

def newJob (s : Store π ρ) (source : SourceId) (kind : JobKind) (requestedBy : String)
    (payload : Option π) (now : Nat) : Job π ρ where
  id := s.nextJob
  sourceId := source
  kind := kind
  state := .QUEUED
  requestedBy := requestedBy
  requestedAt := now
  startedAt := none
  finishedAt := none
  attempts := 0
  payload := payload
  result := none
  error := none

/-- `enqueue`: `ON CONFLICT DO NOTHING` on `jobs_one_open_per_source`. -/
def enqueue (s : Store π ρ) (source : SourceId) (kind : JobKind) (requestedBy : String)
    (payload : Option π) (now : Nat) : Except StoreFailure (Option (Job π ρ) × Store π ρ) :=
  if s.hasOpenJob source then .ok (none, s)
  else if (s.getSource source).isNone then .error .ForeignKeyViolation
  else
    let job := s.newJob source kind requestedBy payload now
    .ok (some job, { s with jobs := s.jobs ++ [job], nextJob := s.nextJob + 1 })

def mapJob (s : Store π ρ) (id : JobId) (f : Job π ρ → Job π ρ) : Store π ρ :=
  { s with jobs := s.jobs.map fun job => if job.id = id then f job else job }

/-- `claim_job` may take this row: queued, of one of the kinds, and no such row is older. -/
def claimable (s : Store π ρ) (kinds : List JobKind) (job : Job π ρ) : Bool :=
  job.state == .QUEUED && kinds.contains job.kind &&
    s.jobs.all fun other => !(other.state == .QUEUED && kinds.contains other.kind) ||
      job.requestedAt ≤ other.requestedAt

/-- `reset_stale_jobs`. -/
def resetStale (s : Store π ρ) (olderThan now : Nat) : Store π ρ :=
  { s with jobs := s.jobs.map fun job =>
      if job.isStale olderThan now then job.requeued else job }

/-- `sources_due_for_poll`. -/
def dueSources (s : Store π ρ) (interval now : Nat) : List Source :=
  s.sources.filter fun source => source.status == .ACTIVE && !s.hasOpenJob source.id &&
    !s.jobs.any fun job => job.sourceId == source.id && job.kind == .POLL &&
      job.finishedAt.any fun finished => now < finished + interval

/-- The rows `last_poll` looks at. -/
def donePolls (s : Store π ρ) (source : SourceId) : List (Job π ρ) :=
  s.jobs.filter fun job => job.sourceId == source && job.kind == .POLL && job.state == .DONE

/-- `ORDER BY finished_at DESC NULLS LAST` -/
def finishedKey (job : Job π ρ) : Nat := job.finishedAt.elim 0 (· + 1)

/-- An answer of `last_poll`: rows that finished at the same time are in no order. -/
def IsLastPoll (s : Store π ρ) (source : SourceId) : Option (Job π ρ) → Prop
  | none => s.donePolls source = []
  | some job => job ∈ s.donePolls source ∧
      ∀ other ∈ s.donePolls source, finishedKey other ≤ finishedKey job

instance [DecidableEq π] [DecidableEq ρ] (s : Store π ρ) (source : SourceId)
    (row : Option (Job π ρ)) : Decidable (s.IsLastPoll source row) :=
  match row with
  | none => inferInstanceAs (Decidable (s.donePolls source = []))
  | some _ => inferInstanceAs (Decidable (_ ∧ _))

end Store

/-! ## Statements -/

/-- One statement with its arguments. `select` is any of the reads. -/
inductive Statement (π ρ : Type)
  | select
  | addSource (source : Source)
  | updateSource (source : SourceId) (edit : SourceEdit)
  | setStatus (source : SourceId) (status : SourceStatus) (error : Option String)
  | recordIdentity (source : SourceId) (repositoryId repositoryOwnerId : String)
  | markDelegated (appId : String)
  | deleteSource (source : SourceId)
  | enqueue (source : SourceId) (kind : JobKind) (requestedBy : String) (payload : Option π)
      (now : Nat)
  | claim (job : JobId) (now : Nat)
  | finish (job : JobId) (state : JobState) (result : Option ρ) (error : Option String)
      (now : Nat)
  | resetStale (olderThan now : Nat)

/-- What a statement leaves behind; one that fails leaves nothing. -/
def Statement.exec (s : Store π ρ) : Statement π ρ → Store π ρ
  | .select => s
  | .addSource source => match s.addSource source with
    | .ok (_, s') => s'
    | .error _ => s
  | .updateSource source edit => (s.updateSource source edit).toOption.getD s
  | .setStatus source status error => (s.setStatus source status error).toOption.getD s
  | .recordIdentity source repositoryId repositoryOwnerId =>
    s.recordIdentity source repositoryId repositoryOwnerId
  | .markDelegated appId => (s.markDelegated appId).toOption.getD s
  | .deleteSource source => s.deleteSource source
  | .enqueue source kind requestedBy payload now =>
    match s.enqueue source kind requestedBy payload now with
    | .ok (_, s') => s'
    | .error _ => s
  | .claim job now => s.mapJob job (Job.claimed now)
  | .finish job state result error now => s.mapJob job (Job.finished state result error now)
  | .resetStale olderThan now => s.resetStale olderThan now

/-- The row a statement inserts into `jobs`. -/
def Statement.inserted (s : Store π ρ) : Statement π ρ → Option (Job π ρ)
  | .enqueue source kind requestedBy payload now =>
    match s.enqueue source kind requestedBy payload now with
    | .ok (job, _) => job
    | .error _ => none
  | _ => none

/-- The job a claim or a finish is about. -/
def Statement.target : Statement π ρ → Option JobId
  | .claim job _ => some job
  | .finish job _ _ _ _ => some job
  | _ => none

/-- What a statement makes of a row that stays. -/
def Statement.update : Statement π ρ → Job π ρ → Job π ρ
  | .claim id now => fun job => if job.id = id then job.claimed now else job
  | .finish id state result error now => fun job =>
    if job.id = id then job.finished state result error now else job
  | .resetStale olderThan now => fun job =>
    if job.isStale olderThan now then job.requeued else job
  | _ => id

/-- The rows that stay. -/
def Statement.keeps : Statement π ρ → Job π ρ → Bool
  | .deleteSource source => fun job => job.sourceId ≠ source
  | _ => fun _ => true

/-- The statements on `jobs`; a deletion reaches them by the foreign key. -/
def Statement.onJobs : Statement π ρ → Bool
  | .deleteSource _ | .enqueue .. | .claim .. | .finish .. | .resetStale .. => true
  | _ => false

/-! ## What a statement does to the jobs -/

/-- The columns of a job that only its insertion writes. -/
def Job.fixed (job : Job π ρ) : JobId × SourceId × JobKind × Option π :=
  (job.id, job.sourceId, job.kind, job.payload)

theorem Job.fixed_inj {job other : Job π ρ} : job.fixed = other.fixed ↔ job.id = other.id ∧
    job.sourceId = other.sourceId ∧ job.kind = other.kind ∧ job.payload = other.payload := by
  simp [Job.fixed]

theorem Statement.fixed_update (statement : Statement π ρ) (job : Job π ρ) :
    (statement.update job).fixed = job.fixed := by
  cases statement with
  | claim id now | finish id state result error now | resetStale olderThan now =>
    simp only [Statement.update]
    split <;> rfl
  | _ => rfl

theorem Statement.id_update (statement : Statement π ρ) (job : Job π ρ) :
    (statement.update job).id = job.id :=
  (Job.fixed_inj.mp (statement.fixed_update job)).1

section Specs

variable {s s' : Store π ρ} {source : SourceId} {kind : JobKind} {requestedBy : String}
  {payload : Option π} {now : Nat} {job : Job π ρ}

theorem Store.id_of_getSource {id : SourceId} {row : Source} (h : s.getSource id = some row) :
    row.id = id := by
  simpa using List.find?_some h

/-- `enqueue` inserts a fresh job, for a source that is there and has none open. -/
theorem Store.enqueue_eq_some
    (h : s.enqueue source kind requestedBy payload now = .ok (some job, s')) :
    s.hasOpenJob source = false ∧ (s.getSource source).isSome ∧
      job = s.newJob source kind requestedBy payload now ∧
      s' = { s with jobs := s.jobs ++ [job], nextJob := s.nextJob + 1 } := by
  unfold Store.enqueue at h
  split at h
  · cases h
  next hopen =>
    split at h
    · cases h
    next hsource =>
      obtain ⟨hjob, rfl⟩ := Prod.mk.inj (Except.ok.inj h)
      obtain rfl := Option.some.inj hjob
      refine ⟨by simpa using hopen, ?_, rfl, rfl⟩
      cases hget : s.getSource source with
      | none => simp [hget] at hsource
      | some row => rfl

theorem Store.enqueue_eq_none
    (h : s.enqueue source kind requestedBy payload now = .ok (none, s')) :
    s.hasOpenJob source = true ∧ s' = s := by
  unfold Store.enqueue at h
  split at h
  next hopen => exact ⟨hopen, (Prod.mk.inj (Except.ok.inj h)).2.symm⟩
  · split at h <;> cases h

/-- Only a finish closes a job or changes a closed one, and only it writes a result. -/
theorem Statement.update_closed {statement : Statement π ρ}
    (h : (statement.update job).isOpen = false) : statement.update job = job ∨
      ∃ state result error now, statement = .finish job.id state result error now ∧
        statement.update job = job.finished state result error now := by
  cases statement with
  | claim id now =>
    simp only [Statement.update] at h ⊢
    split at h
    · cases h
    next hid => exact .inl (if_neg hid)
  | finish id state result error now =>
    simp only [Statement.update]
    split
    next hid => exact .inr ⟨state, result, error, now, hid ▸ rfl, rfl⟩
    · exact .inl rfl
  | resetStale olderThan now =>
    simp only [Statement.update] at h ⊢
    split at h
    · cases h
    next hstale => exact .inl (if_neg hstale)
  | _ => exact .inl rfl

/-- A closed job is only touched by a claim or a finish of it. -/
theorem Statement.update_of_closed {statement : Statement π ρ} (h : job.isOpen = false)
    (htarget : statement.target ≠ some job.id) : statement.update job = job := by
  cases statement with
  | claim id now | finish id state result error now =>
    exact if_neg fun hid => htarget (congrArg some hid.symm)
  | resetStale olderThan now =>
    refine if_neg fun hstale => ?_
    simp only [Job.isOpen, Job.isStale, Bool.or_eq_false_iff, Bool.and_eq_true] at h hstale
    exact Bool.false_ne_true (h.2.symm.trans hstale.1)
  | _ => rfl

theorem Statement.result_update (statement : Statement π ρ) (job : Job π ρ) :
    (statement.update job).result = job.result ∨ ∃ state result error now,
      statement = .finish job.id state result error now ∧
        (statement.update job).result = result := by
  cases statement with
  | claim id now | resetStale olderThan now =>
    simp only [Statement.update]
    split <;> exact .inl rfl
  | finish id state result error now =>
    simp only [Statement.update]
    split
    next hid => exact .inr ⟨state, result, error, now, hid ▸ rfl, rfl⟩
    · exact .inl rfl
  | _ => exact .inl rfl

/-- An insertion is an `enqueue` that found the source and no open job. -/
theorem Statement.inserted_eq_some {statement : Statement π ρ}
    (h : statement.inserted s = some job) : ∃ source kind requestedBy payload now,
      statement = .enqueue source kind requestedBy payload now ∧
        s.hasOpenJob source = false ∧ (s.getSource source).isSome ∧
        job = s.newJob source kind requestedBy payload now ∧
        statement.exec s = { s with jobs := s.jobs ++ [job], nextJob := s.nextJob + 1 } := by
  cases statement with
  | enqueue source kind requestedBy payload now =>
    simp only [Statement.inserted] at h
    cases hq : s.enqueue source kind requestedBy payload now with
    | error e => simp only [hq, reduceCtorEq] at h
    | ok answer =>
      obtain ⟨inserted, s'⟩ := answer
      simp only [hq] at h
      subst h
      obtain ⟨hopen, hsource, rfl, rfl⟩ := Store.enqueue_eq_some hq
      exact ⟨source, kind, requestedBy, payload, now, rfl, hopen, hsource, rfl,
        by simp only [Statement.exec, hq]⟩
  | _ => cases h

theorem Statement.jobs_of_not_onJobs {statement : Statement π ρ}
    (h : statement.onJobs = false) :
    (statement.exec s).jobs = s.jobs ∧ (statement.exec s).nextJob = s.nextJob := by
  cases statement with
  | select | recordIdentity => exact ⟨rfl, rfl⟩
  | addSource row =>
    simp only [Statement.exec, Store.addSource]
    split
    next heq =>
      split at heq
      · cases heq
      · split at heq
        · cases heq
        · obtain ⟨-, rfl⟩ := Prod.mk.inj (Except.ok.inj heq)
          exact ⟨rfl, rfl⟩
    · exact ⟨rfl, rfl⟩
  | updateSource id edit =>
    simp only [Statement.exec, Store.updateSource]
    split <;> exact ⟨rfl, rfl⟩
  | setStatus id status error =>
    simp only [Statement.exec, Store.setStatus]
    split <;> exact ⟨rfl, rfl⟩
  | markDelegated appId =>
    simp only [Statement.exec, Store.markDelegated]
    split
    · exact ⟨rfl, rfl⟩
    · split <;> exact ⟨rfl, rfl⟩
  | deleteSource | enqueue | claim | finish | resetStale => cases h

theorem Statement.exec_enqueue_of_none
    (h : (Statement.enqueue source kind requestedBy payload now).inserted s = none) :
    (Statement.enqueue source kind requestedBy payload now).exec s = s := by
  simp only [Statement.inserted] at h
  simp only [Statement.exec]
  split
  next answer hq =>
    simp only [hq] at h
    subst h
    exact (Store.enqueue_eq_none hq).2
  · rfl

/-- The counter moves past every id that is given out. -/
theorem Statement.nextJob_exec (statement : Statement π ρ) :
    (statement.exec s).nextJob = s.nextJob + (statement.inserted s).toList.length := by
  cases statement with
  | enqueue source kind requestedBy payload now =>
    cases hinserted : (Statement.enqueue source kind requestedBy payload now).inserted s with
    | some job =>
      obtain ⟨_, _, _, _, _, -, -, -, -, hexec⟩ := Statement.inserted_eq_some hinserted
      rw [hexec]
      rfl
    | none => rw [Statement.exec_enqueue_of_none hinserted]; rfl
  | deleteSource | claim | finish | resetStale => rfl
  | _ => exact (Statement.jobs_of_not_onJobs rfl).2

/-- The rows after a statement: those it keeps, updated, and the one it inserts. -/
theorem Statement.jobs_exec (statement : Statement π ρ) :
    (statement.exec s).jobs = (s.jobs.filter statement.keeps).map statement.update ++
      (statement.inserted s).toList := by
  cases statement with
  | enqueue source kind requestedBy payload now =>
    cases hinserted : (Statement.enqueue source kind requestedBy payload now).inserted s with
    | some job =>
      obtain ⟨_, _, _, _, _, -, -, -, -, hexec⟩ := Statement.inserted_eq_some hinserted
      simp [hexec, Statement.update, Statement.keeps]
    | none =>
      simp [Statement.exec_enqueue_of_none hinserted, Statement.update, Statement.keeps]
  | deleteSource | claim | finish | resetStale =>
    simp [Statement.exec, Store.deleteSource, Store.mapJob, Store.resetStale, Statement.keeps,
      Statement.inserted, Statement.update]
  | _ =>
    rw [(Statement.jobs_of_not_onJobs rfl).1]
    simp [Statement.inserted, Statement.update, Statement.keeps]

theorem Statement.mem_exec {statement : Statement π ρ} :
    job ∈ (statement.exec s).jobs ↔
      (∃ old ∈ s.jobs, statement.keeps old = true ∧ statement.update old = job) ∨
        statement.inserted s = some job := by
  simp [Statement.jobs_exec, and_assoc]

/-! ## The foreign key -/

theorem Store.getSource_isSome {id : SourceId} :
    (s.getSource id).isSome ↔ ∃ row ∈ s.sources, row.id = id := by
  simp [Store.getSource]

theorem Store.getSource_mapSource {id : SourceId} {f : Source → Source}
    (hf : ∀ row, (f row).id = row.id) (h : (s.getSource id).isSome) :
    ((s.mapSource source f).getSource id).isSome := by
  obtain ⟨row, hrow, rfl⟩ := Store.getSource_isSome.mp h
  refine Store.getSource_isSome.mpr ⟨_, List.mem_map_of_mem hrow, ?_⟩
  split
  · exact hf row
  · rfl

/-- Only its deletion removes a source. -/
theorem Statement.getSource_exec {statement : Statement π ρ} {id : SourceId}
    (h : (s.getSource id).isSome) (hkeep : statement ≠ .deleteSource id) :
    ((statement.exec s).getSource id).isSome := by
  cases statement with
  | select | claim | finish | resetStale => exact h
  | recordIdentity => exact Store.getSource_mapSource (fun _ => rfl) h
  | addSource row =>
    simp only [Statement.exec, Store.addSource]
    split
    next heq =>
      split at heq
      · cases heq
      · split at heq
        · cases heq
        · obtain ⟨-, rfl⟩ := Prod.mk.inj (Except.ok.inj heq)
          obtain ⟨old, hold, hid⟩ := Store.getSource_isSome.mp h
          exact Store.getSource_isSome.mpr ⟨old, List.mem_append_left _ hold, hid⟩
    · exact h
  | updateSource id' edit =>
    simp only [Statement.exec, Store.updateSource]
    split
    · exact h
    · exact Store.getSource_mapSource (fun _ => rfl) h
  | setStatus id' status error =>
    simp only [Statement.exec, Store.setStatus]
    split
    · exact h
    · exact Store.getSource_mapSource (fun _ => rfl) h
  | markDelegated appId =>
    simp only [Statement.exec, Store.markDelegated]
    split
    · exact h
    · split
      · exact Store.getSource_mapSource (fun _ => rfl) h
      · exact h
  | deleteSource id' =>
    obtain ⟨row, hrow, hid⟩ := Store.getSource_isSome.mp h
    have hne : row.id ≠ id' := fun heq => hkeep (by rw [← hid, heq])
    exact Store.getSource_isSome.mpr ⟨row, List.mem_filter.mpr ⟨hrow, by simpa using hne⟩, hid⟩
  | enqueue source' kind requestedBy payload now =>
    cases hinserted : (Statement.enqueue source' kind requestedBy payload now).inserted s with
    | none => exact (Statement.exec_enqueue_of_none hinserted).symm ▸ h
    | some job =>
      obtain ⟨_, _, _, _, _, -, -, -, -, hexec⟩ := Statement.inserted_eq_some hinserted
      rw [hexec]
      exact h

/-- Every job is of a source that is there. -/
def Store.Sourced (s : Store π ρ) : Prop := ∀ job ∈ s.jobs, (s.getSource job.sourceId).isSome

theorem Store.Sourced.exec (h : s.Sourced) (statement : Statement π ρ) :
    (statement.exec s).Sourced := by
  intro job hjob
  obtain ⟨old, hold, hkeeps, rfl⟩ | hinserted := Statement.mem_exec.mp hjob
  · rw [(Job.fixed_inj.mp (statement.fixed_update old)).2.1]
    refine Statement.getSource_exec (h old hold) ?_
    rintro rfl
    simp [Statement.keeps] at hkeeps
  · obtain ⟨_, _, _, _, _, rfl, -, hsource, rfl, hexec⟩ := Statement.inserted_eq_some hinserted
    exact Statement.getSource_exec hsource nofun

/-! ## The rows of the sources -/

/-- What a statement makes of a source that stays. -/
def Statement.updateRow (s : Store π ρ) : Statement π ρ → Source → Source
  | .updateSource id edit => fun row => if row.id = id then edit.apply row else row
  | .setStatus id status error => fun row =>
    if row.id = id ∧ status ≠ .ACTIVE then { row with status, lastError := error } else row
  | .recordIdentity id repositoryId repositoryOwnerId => fun row =>
    if row.id = id then
      { row with
        repositoryId := some repositoryId
        repositoryOwnerId := some repositoryOwnerId
        status := .PENDING_DELEGATION
        lastError := none }
    else row
  | .markDelegated appId => fun row =>
    match s.sources.find? (fun source => source.appId == appId &&
        (source.status == .PENDING_DELEGATION || source.status == .PAUSED)) with
    | none => row
    | some source =>
      if row.id = source.id ∧ Store.pinned source = true then
        { row with status := .ACTIVE, lastError := none }
      else row
  | _ => id

def Statement.keepsRow : Statement π ρ → Source → Bool
  | .deleteSource id => fun row => row.id ≠ id
  | _ => fun _ => true

/-- The row a statement inserts into `sources`. -/
def Statement.registered (s : Store π ρ) : Statement π ρ → Option Source
  | .addSource source => (s.addSource source).toOption.map (·.1)
  | _ => none

theorem Statement.registered_eq_some {statement : Statement π ρ} {row : Source}
    (h : statement.registered s = some row) : row.id = s.nextSource ∧ row.status = .DRAFT ∧
      row.repositoryId = none ∧ row.repositoryOwnerId = none ∧
      statement.exec s = { s with sources := s.sources ++ [row], nextSource := s.nextSource + 1 } := by
  cases statement with
  | addSource source =>
    simp only [Statement.registered] at h
    simp only [Statement.exec]
    cases hadd : s.addSource source with
    | error e => simp [hadd, Except.toOption] at h
    | ok added =>
      obtain ⟨created, s'⟩ := added
      simp only [hadd, Except.toOption, Option.map_some, Option.some.injEq] at h
      subst h
      unfold Store.addSource at hadd
      split at hadd
      · cases hadd
      · split at hadd
        · cases hadd
        · obtain ⟨rfl, rfl⟩ := Prod.mk.inj (Except.ok.inj hadd)
          exact ⟨rfl, rfl, rfl, rfl, rfl⟩
  | _ => cases h

theorem Statement.exec_addSource_of_none {row : Source}
    (h : (Statement.addSource row).registered s = none) : (Statement.addSource row).exec s = s := by
  simp only [Statement.registered] at h
  simp only [Statement.exec]
  cases hadd : s.addSource row with
  | error e => rfl
  | ok added => simp [hadd, Except.toOption] at h

/-- The sources after a statement: those it keeps, updated, and the one it inserts. -/
theorem Statement.sources_exec (statement : Statement π ρ) :
    (statement.exec s).sources = (s.sources.filter statement.keepsRow).map (statement.updateRow s) ++
      (statement.registered s).toList := by
  cases statement with
  | addSource row =>
    cases hregistered : (Statement.addSource row).registered s with
    | some created =>
      obtain ⟨-, -, -, -, hexec⟩ := Statement.registered_eq_some hregistered
      simp [hexec, Statement.updateRow, Statement.keepsRow]
    | none =>
      simp [Statement.exec_addSource_of_none hregistered, Statement.updateRow,
        Statement.keepsRow]
  | updateSource id edit =>
    simp only [Statement.exec, Store.updateSource]
    split
    next hnone =>
      have hother : ∀ row ∈ s.sources, row.id ≠ id := by
        simpa [Store.getSource] using hnone
      have hsame : s.sources.map (fun row => if row.id = id then edit.apply row else row) =
          s.sources := by
        conv_rhs => rw [← List.map_id s.sources]
        exact List.map_congr_left fun row hrow => if_neg (hother row hrow)
      simp [Except.toOption, Statement.updateRow, Statement.keepsRow, Statement.registered, hsame]
    · simp [Except.toOption, Store.mapSource, Statement.updateRow, Statement.keepsRow,
        Statement.registered]
  | setStatus id status error =>
    simp only [Statement.exec, Store.setStatus]
    split
    next hactive =>
      simp [hactive, Except.toOption, Statement.updateRow, Statement.keepsRow,
        Statement.registered]
    next hactive =>
      simp [hactive, Except.toOption, Store.mapSource, Statement.updateRow, Statement.keepsRow,
        Statement.registered]
  | markDelegated appId =>
    simp only [Statement.exec, Store.markDelegated]
    split
    next hnone =>
      simp [hnone, Except.toOption, Statement.updateRow, Statement.keepsRow,
        Statement.registered]
    next source hsome =>
      split
      next hpinned =>
        simp [hsome, hpinned, Except.toOption, Store.mapSource, Statement.updateRow,
          Statement.keepsRow, Statement.registered]
      next hpinned =>
        simp [hsome, hpinned, Except.toOption, Statement.updateRow, Statement.keepsRow,
          Statement.registered]
  | recordIdentity | deleteSource =>
    simp [Statement.exec, Store.recordIdentity, Store.mapSource, Store.deleteSource,
      Statement.updateRow, Statement.keepsRow, Statement.registered]
  | enqueue source' kind requestedBy payload now =>
    cases hinserted : (Statement.enqueue source' kind requestedBy payload now).inserted s with
    | none =>
      simp [Statement.exec_enqueue_of_none hinserted, Statement.updateRow, Statement.keepsRow,
        Statement.registered]
    | some job =>
      obtain ⟨_, _, _, _, _, -, -, -, -, hexec⟩ := Statement.inserted_eq_some hinserted
      simp [hexec, Statement.updateRow, Statement.keepsRow, Statement.registered]
  | select | claim | finish | resetStale =>
    simp [Statement.exec, Store.mapJob, Store.resetStale, Statement.updateRow,
      Statement.keepsRow, Statement.registered]

theorem Statement.mem_sources_exec {statement : Statement π ρ} {row : Source} :
    row ∈ (statement.exec s).sources ↔
      (∃ old ∈ s.sources, statement.keepsRow old = true ∧ statement.updateRow s old = row) ∨
        statement.registered s = some row := by
  simp [Statement.sources_exec, and_assoc]

/-- No statement gives a source another id, or another application. -/
theorem Statement.named_updateRow (statement : Statement π ρ) (row : Source) :
    (statement.updateRow s row).id = row.id ∧
      (statement.updateRow s row).appId = row.appId := by
  cases statement with
  | markDelegated appId =>
    simp only [Statement.updateRow]
    split
    · exact ⟨rfl, rfl⟩
    · split <;> exact ⟨rfl, rfl⟩
  | updateSource | setStatus | recordIdentity =>
    simp only [Statement.updateRow]
    split <;> exact ⟨rfl, rfl⟩
  | _ => exact ⟨rfl, rfl⟩

theorem Statement.id_updateRow (statement : Statement π ρ) (row : Source) :
    (statement.updateRow s row).id = row.id :=
  (statement.named_updateRow row).1

/-- The row of a source after a statement: its row before, updated, or a new one. -/
theorem Statement.getSource_exec_eq_some {statement : Statement π ρ} {id : SourceId}
    {row : Source} (h : (statement.exec s).getSource id = some row) :
    (∃ old, s.getSource id = some old ∧ statement.updateRow s old = row) ∨
      s.getSource id = none ∧ statement.registered s = some row := by
  have hkept : (s.sources.filter statement.keepsRow).find? (·.id == id) = s.getSource id ∨
      statement = .deleteSource id := by
    cases statement with
    | deleteSource id' =>
      by_cases hid : id' = id
      · exact .inr (by rw [hid])
      · refine .inl ?_
        rw [List.find?_filter, Store.getSource]
        congr 1
        funext row
        by_cases hrow : row.id = id
        · simp [Statement.keepsRow, hrow, Ne.symm hid]
        · simp [hrow]
    | _ => exact .inl (by simp [Statement.keepsRow, Store.getSource])
  have hfind : ((s.sources.filter statement.keepsRow).map (statement.updateRow s)).find?
      (·.id == id) = ((s.sources.filter statement.keepsRow).find? (·.id == id)).map
        (statement.updateRow s) := by
    rw [List.find?_map]
    congr 2
    funext row
    simp [Statement.id_updateRow]
  rw [Store.getSource, Statement.sources_exec, List.find?_append, hfind] at h
  obtain hkept | rfl := hkept
  · rw [hkept] at h
    cases hold : s.getSource id with
    | some old =>
      rw [hold] at h
      exact .inl ⟨old, rfl, by simpa using h⟩
    | none =>
      rw [hold] at h
      have hnew : (statement.registered s).toList.find? (·.id == id) = some row := by
        simpa using h
      exact .inr ⟨rfl, Option.mem_toList.mp (List.mem_of_find?_eq_some hnew)⟩
  · have hgone : (s.sources.filter (Statement.deleteSource id : Statement π ρ).keepsRow).find?
        (·.id == id) = none := by
      simp [Statement.keepsRow]
    simp [hgone, Statement.registered] at h

theorem Statement.nextSource_le (statement : Statement π ρ) :
    s.nextSource ≤ (statement.exec s).nextSource := by
  cases statement with
  | addSource row =>
    cases hregistered : (Statement.addSource row).registered s with
    | some created =>
      obtain ⟨-, -, -, -, hexec⟩ := Statement.registered_eq_some hregistered
      rw [hexec]
      exact Nat.le_succ _
    | none => rw [Statement.exec_addSource_of_none hregistered]
  | enqueue source' kind requestedBy payload now =>
    cases hinserted : (Statement.enqueue source' kind requestedBy payload now).inserted s with
    | none => rw [Statement.exec_enqueue_of_none hinserted]
    | some job =>
      obtain ⟨_, _, _, _, _, -, -, -, -, hexec⟩ := Statement.inserted_eq_some hinserted
      rw [hexec]
  | updateSource id edit =>
    simp only [Statement.exec, Store.updateSource]
    split <;> exact Nat.le_refl _
  | setStatus id status error =>
    simp only [Statement.exec, Store.setStatus]
    split <;> exact Nat.le_refl _
  | markDelegated appId =>
    simp only [Statement.exec, Store.markDelegated]
    split
    · exact Nat.le_refl _
    · split <;> exact Nat.le_refl _
  | _ => exact Nat.le_refl _

/-- The ids of the sources were given out by the counter. -/
def Store.Numbered (s : Store π ρ) : Prop := ∀ row ∈ s.sources, row.id < s.nextSource

theorem Store.Numbered.exec (h : s.Numbered) (statement : Statement π ρ) :
    (statement.exec s).Numbered := by
  intro row hrow
  rw [Statement.sources_exec, List.mem_append] at hrow
  obtain hrow | hrow := hrow
  · obtain ⟨old, hold, rfl⟩ := List.mem_map.mp hrow
    rw [Statement.id_updateRow]
    exact Nat.lt_of_lt_of_le (h old (List.mem_filter.mp hold).1) statement.nextSource_le
  · obtain ⟨hid, -, -, -, hexec⟩ := Statement.registered_eq_some (Option.mem_toList.mp hrow)
    rw [hexec, hid]
    exact Nat.lt_succ_self _

theorem Store.Numbered.id_lt (h : s.Numbered) {id : SourceId} {row : Source}
    (hrow : s.getSource id = some row) : id < s.nextSource :=
  Store.id_of_getSource hrow ▸ h row (List.mem_of_find?_eq_some hrow)

end Specs

end Statements

end DistPlatform.Registry
