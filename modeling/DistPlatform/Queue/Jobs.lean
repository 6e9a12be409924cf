import DistPlatform.Queue.System

/-!
# The jobs of a run

Every job there is, in the database or in the hands of a worker, was queued once, and keeps
from then on what it was queued with.

## Main definitions

* `Known` — a job agrees with one that was queued in what never changes.
* `Accounted` — the invariant, with the ids.
-/

namespace DistPlatform.Queue

open Runs
open Ingest (IngestPorts Quarantine)
open Registry (Job Statement)

/-- A job as `enqueue` returned it to `p` has the fixed columns of this one. -/
def Known (log : List (Party × Event)) (job : QueueJob) : Prop :=
  ∃ p row, (p, .enqueued row) ∈ log ∧ row.fixed = job.fixed

structure Accounted (s : Shared) : Prop where
  fresh : ∀ {p job}, (p, .enqueued job) ∈ s.log → job.id < s.db.nextJob
  unique : ∀ {p job q other}, (p, .enqueued job) ∈ s.log → (q, .enqueued other) ∈ s.log →
    job.id = other.id → p = q ∧ job = other
  known : ∀ job ∈ s.db.jobs, Known s.log job
  ids : ∀ job ∈ s.db.jobs, ∀ other ∈ s.db.jobs, job.id = other.id → job = other
  sourced : s.db.Sourced

section Commit

variable {α : Type} {s : Shared} {p q : Party} {turn : Turn α} {job : QueueJob}

theorem eventOf_eq_enqueued {db : Db} {statement : QueueStatement} :
    eventOf db statement = some (.enqueued job) ↔ statement.inserted db = some job := by
  cases statement <;> simp [eventOf, Statement.inserted]

theorem enqueued_mem_commit : (q, .enqueued job) ∈ (s.commit p turn).log ↔
    (q = p ∧ turn.statement.inserted s.db = some job) ∨ (q, .enqueued job) ∈ s.log := by
  simp [Shared.commit, eventOf_eq_enqueued, and_comm, @eq_comm _ p q]

theorem mem_commit_of_mem {e : Event} (h : (q, e) ∈ s.log) : (q, e) ∈ (s.commit p turn).log := by
  simp [Shared.commit, h]

theorem Known.commit (h : Known s.log job) : Known (s.commit p turn).log job := by
  obtain ⟨q, row, hrow, hfixed⟩ := h
  exact ⟨q, row, mem_commit_of_mem hrow, hfixed⟩

theorem Known.of_inserted (h : turn.statement.inserted s.db = some job) :
    Known (s.commit p turn).log job :=
  ⟨p, job, enqueued_mem_commit.mpr (.inl ⟨rfl, h⟩), rfl⟩

theorem Known.of_fixed {log : List (Party × Event)} {other : QueueJob} (h : Known log job)
    (hfixed : other.fixed = job.fixed) : Known log other := by
  obtain ⟨q, row, hrow, hrow'⟩ := h
  exact ⟨q, row, hrow, hrow'.trans hfixed.symm⟩

end Commit

/-- The id fixes the other columns that never change. -/
theorem Accounted.fixed_of_id {s : Shared} (h : Accounted s) {job other : QueueJob}
    (hjob : Known s.log job) (hother : Known s.log other) (hid : job.id = other.id) :
    job.fixed = other.fixed := by
  obtain ⟨p, row, hrow, hfixed⟩ := hjob
  obtain ⟨q, row', hrow', hfixed'⟩ := hother
  have hids : row.id = row'.id := by
    rw [(Job.fixed_inj.mp hfixed).1, (Job.fixed_inj.mp hfixed').1, hid]
  obtain ⟨-, rfl⟩ := h.unique hrow hrow' hids
  exact hfixed.symm.trans hfixed'

theorem Accounted.id_lt {s : Shared} (h : Accounted s) {job : QueueJob}
    (hjob : Known s.log job) : job.id < s.db.nextJob := by
  obtain ⟨p, row, hrow, hfixed⟩ := hjob
  exact (Job.fixed_inj.mp hfixed).1 ▸ h.fresh hrow

theorem Accounted.commit {α : Type} {s : Shared} (h : Accounted s) (p : Party) (turn : Turn α) :
    Accounted (s.commit p turn) := by
  have hnext : (s.commit p turn).db.nextJob =
      s.db.nextJob + (turn.statement.inserted s.db).toList.length :=
    Statement.nextJob_exec turn.statement
  have hnew {job : QueueJob} (hjob : turn.statement.inserted s.db = some job) :
      job.id = s.db.nextJob ∧ (s.commit p turn).db.nextJob = s.db.nextJob + 1 := by
    obtain ⟨_, _, _, _, _, -, -, -, rfl, -⟩ := Statement.inserted_eq_some hjob
    exact ⟨rfl, by simp [hnext, hjob]⟩
  have hold {q : Party} {job : QueueJob} (hjob : (q, .enqueued job) ∈ s.log) : job.id < s.db.nextJob := h.fresh hjob
  refine ⟨?fresh, ?unique, ?known, ?ids, h.sourced.exec turn.statement⟩
  case fresh =>
    intro q job hjob
    obtain ⟨-, hinserted⟩ | hlogged := enqueued_mem_commit.mp hjob
    · rw [(hnew hinserted).1, (hnew hinserted).2]
      exact Nat.lt_succ_self _
    · exact Nat.lt_of_lt_of_le (hold hlogged) (hnext ▸ Nat.le_add_right _ _)
  case unique =>
    intro q job q' other hjob hother hid
    obtain ⟨hq, hinserted⟩ | hlogged := enqueued_mem_commit.mp hjob <;>
      obtain ⟨hq', hinserted'⟩ | hlogged' := enqueued_mem_commit.mp hother
    · exact ⟨hq.trans hq'.symm, Option.some.inj (hinserted.symm.trans hinserted')⟩
    · exact absurd (hid.symm.trans (hnew hinserted).1) (hold hlogged').ne
    · exact absurd (hid.trans (hnew hinserted').1) (hold hlogged).ne
    · exact h.unique hlogged hlogged' hid
  case known =>
    intro job hjob
    obtain ⟨old, hmem, -, rfl⟩ | hinserted := Statement.mem_exec.mp hjob
    · exact (h.known old hmem).commit.of_fixed (Statement.fixed_update _ _)
    · exact .of_inserted hinserted
  case ids =>
    have hbelow {old : QueueJob} (hmem : old ∈ s.db.jobs) :
        (turn.statement.update old).id < s.db.nextJob :=
      Statement.id_update turn.statement old ▸ h.id_lt (h.known old hmem)
    intro job hjob other hother hid
    obtain ⟨old, hmem, -, rfl⟩ | hinserted := Statement.mem_exec.mp hjob <;>
      obtain ⟨old', hmem', -, rfl⟩ | hinserted' := Statement.mem_exec.mp hother
    · rw [Statement.id_update, Statement.id_update] at hid
      rw [h.ids old hmem old' hmem' hid]
    · exact absurd (hid.trans (hnew hinserted').1) (hbelow hmem).ne
    · exact absurd (hid.symm.trans (hnew hinserted).1) (hbelow hmem').ne
    · exact Option.some.inj (hinserted.symm.trans hinserted')

theorem accounted_invariant (ports : IngestPorts) (quarantine : Quarantine) :
    (parties ports quarantine).Invariant (fun _ _ => True) Accounted
      fun p s place => ∀ held, hold p place = some held → Known s.log held.job where
  start :=
    { fresh := fun h => absurd h List.not_mem_nil
      unique := fun h => absurd h List.not_mem_nil
      known := fun _ h => absurd h List.not_mem_nil
      ids := fun _ h => absurd h List.not_mem_nil
      sourced := fun _ h => absurd h List.not_mem_nil }
  idle p s held h := by cases p <;> cases h
  own c p act shared place _ hI hL h := by
    obtain ⟨turn, hturn, hcommit⟩ := Option.map_eq_some_iff.mp h
    obtain ⟨rfl, rfl⟩ := Prod.mk.inj hcommit
    refine ⟨hI.commit p turn, fun held hheld => ?_⟩
    have hcases := turnOf_cases hturn
    generalize hstatement : turn.statement = statement at hcases
    cases hcases with
    | claim present _ _ _ hnext =>
      obtain rfl := Option.some.inj (hnext.symm.trans hheld)
      exact (hI.known _ present).commit.of_fixed rfl
    | finish _ _ free => cases free.symm.trans hheld
    | file inserted _ hnext =>
      obtain rfl := Option.some.inj (hnext.symm.trans hheld)
      exact .of_inserted (hstatement ▸ inserted)
    | keep same _ => exact (hL p held (same.symm.trans hheld)).commit
  other c p act shared place q _ _ _ hL h held hheld := by
    obtain ⟨turn, hturn, hcommit⟩ := Option.map_eq_some_iff.mp h
    obtain ⟨rfl, rfl⟩ := Prod.mk.inj hcommit
    exact (hL q held hheld).commit

theorem accounted {ports : IngestPorts} {quarantine : Quarantine} {c : QueueConfig}
    (hc : (system ports quarantine).Reachable c) :
    Accounted c.shared ∧ ∀ p held, hold p (c.place p) = some held → Known c.shared.log held.job :=
  (accounted_invariant ports quarantine).holds (hc.to_when fun _ _ => trivial)

end DistPlatform.Queue
