import Mathlib.Tactic.Common

/-!
# Runs of a transition system

States, labelled steps, and the states that some run reaches. An invariant is proved once for
the start and once for a step; a condition on the steps of a run restricts the system itself,
so that "every run whose steps all meet the condition" is reachability in the restricted one.

## Main definitions

* `System`, `Reachable` — the system, and what its runs reach.
* `System.when` — the same system with only the steps that meet a condition.
* `System.recordNext` — steps that also add to a record.
* `Leads` — what the runs from a state come to.
* `Inductive` — a predicate that the start has and every step keeps.
-/

namespace DistPlatform.Runs

structure System (σ α : Type) where
  start : σ → Prop
  step : σ → α → σ → Prop

namespace System

variable {σ α : Type} (m : System σ α)

inductive Reachable : σ → Prop
  | start {s : σ} : m.start s → Reachable s
  | step {s : σ} {a : α} {s' : σ} : Reachable s → m.step s a s' → Reachable s'

/-- Only the steps that meet `ok`. -/
def when (ok : σ → α → Prop) : System σ α where
  start := m.start
  step s a s' := ok s a ∧ m.step s a s'

/-- The system of a partial step function. -/
def ofNext (init : σ) (next : σ → α → Option σ) : System σ α where
  start s := s = init
  step s a s' := next s a = some s'

/-- `P` holds at the start and no step loses it; `J` is what is already known of every
reachable state. -/
structure Inductive (J P : σ → Prop) : Prop where
  start : ∀ s, m.start s → P s
  step : ∀ s a s', J s → P s → m.step s a s' → P s'

variable {m}

theorem Inductive.holds {J P : σ → Prop} (h : m.Inductive J P)
    (hJ : ∀ s, m.Reachable s → J s) {s : σ} (hs : m.Reachable s) : P s := by
  induction hs with
  | start h0 => exact h.start _ h0
  | step hr hstep ih => exact h.step _ _ _ (hJ _ hr) ih hstep

/-- A run of the restricted system is a run of the system. -/
theorem Reachable.of_when {ok : σ → α → Prop} {s : σ} (h : (m.when ok).Reachable s) :
    m.Reachable s := by
  induction h with
  | start h0 => exact .start h0
  | step _ hstep ih => exact .step ih hstep.2

theorem Reachable.mono {ok ok' : σ → α → Prop} (h : ∀ s a, ok s a → ok' s a) {s : σ}
    (hs : (m.when ok).Reachable s) : (m.when ok').Reachable s := by
  induction hs with
  | start h0 => exact .start h0
  | step _ hstep ih => exact .step ih ⟨h _ _ hstep.1, hstep.2⟩

/-- A condition that every step meets restricts nothing. -/
theorem Reachable.to_when {ok : σ → α → Prop} (hok : ∀ s a, ok s a) {s : σ}
    (h : m.Reachable s) : (m.when ok).Reachable s := by
  induction h with
  | start h0 => exact .start h0
  | step _ hstep ih => exact .step ih ⟨hok _ _, hstep⟩

/-- What is known of every state a run reaches may be assumed of the states it steps from. -/
theorem Reachable.when_and {ok : σ → α → Prop} {J : σ → Prop}
    (hJ : ∀ s, (m.when ok).Reachable s → J s) {s : σ} (h : (m.when ok).Reachable s) :
    (m.when fun s a => ok s a ∧ J s).Reachable s := by
  induction h with
  | start h0 => exact .start h0
  | step hr hstep ih => exact .step ih ⟨⟨hstep.1, hJ _ hr⟩, hstep.2⟩

/-- Run a list of labels. -/
def exec (next : σ → α → Option σ) : List α → σ → Option σ
  | [], s => some s
  | a :: as, s => (next s a).bind (exec next as)

theorem exec_append {next : σ → α → Option σ} {as bs : List α} {s : σ} :
    exec next (as ++ bs) s = (exec next as s).bind (exec next bs) := by
  induction as generalizing s with
  | nil => rfl
  | cons a as ih =>
    simp only [List.cons_append, exec, Option.bind_assoc]
    exact congrArg _ (funext fun s => ih)

theorem reachable_exec {init : σ} {next : σ → α → Option σ} {as : List α} {s s' : σ}
    (h : (ofNext init next).Reachable s) (hexec : exec next as s = some s') :
    (ofNext init next).Reachable s' := by
  induction as generalizing s with
  | nil => exact Option.some.inj hexec ▸ h
  | cons a as ih =>
    obtain ⟨s₁, hnext, hrest⟩ := Option.bind_eq_some_iff.mp hexec
    exact ih (.step h hnext) hrest

/-- A run from any reachable state of a system that has at least these steps. -/
theorem reachable_of_exec {m : System σ α} {next : σ → α → Option σ}
    (hstep : ∀ s a s', next s a = some s' → m.step s a s') {as : List α} {s s' : σ}
    (h : m.Reachable s) (hexec : exec next as s = some s') : m.Reachable s' := by
  induction as generalizing s with
  | nil => exact Option.some.inj hexec ▸ h
  | cons a as ih =>
    obtain ⟨s₁, hnext, hrest⟩ := Option.bind_eq_some_iff.mp hexec
    exact ih (.step h (hstep s a s₁ hnext)) hrest

/-- A run all of whose steps meet the condition, which is checked on the way. -/
theorem reachable_exec_when {init : σ} {next : σ → α → Option σ} {ok : σ → α → Prop}
    [∀ s a, Decidable (ok s a)] {as : List α} {s s' : σ}
    (h : ((ofNext init next).when ok).Reachable s)
    (hexec : exec (fun s a => if ok s a then next s a else none) as s = some s') :
    ((ofNext init next).when ok).Reachable s' := by
  induction as generalizing s with
  | nil => exact Option.some.inj hexec ▸ h
  | cons a as ih =>
    obtain ⟨s₁, hnext, hrest⟩ := Option.bind_eq_some_iff.mp hexec
    dsimp only at hnext
    split at hnext
    next hok => exact ih (.step h ⟨hok, hnext⟩) hrest
    · cases hnext

/-- A run whose labels meet the condition in every state. -/
theorem reachable_exec_all {init : σ} {next : σ → α → Option σ} {ok : σ → α → Prop} {as : List α}
    {s s' : σ} (hok : ∀ a ∈ as, ∀ s, ok s a) (h : ((ofNext init next).when ok).Reachable s)
    (hexec : exec next as s = some s') : ((ofNext init next).when ok).Reachable s' := by
  induction as generalizing s with
  | nil => exact Option.some.inj hexec ▸ h
  | cons a as ih =>
    obtain ⟨s₁, hnext, hrest⟩ := Option.bind_eq_some_iff.mp hexec
    exact ih (fun b hb => hok b (List.mem_cons_of_mem _ hb))
      (.step h ⟨hok a List.mem_cons_self s, hnext⟩) hrest

theorem exec_of_when {next : σ → α → Option σ} {ok : σ → α → Prop}
    [∀ s a, Decidable (ok s a)] {as : List α} {s s' : σ}
    (hexec : exec (fun s a => if ok s a then next s a else none) as s = some s') :
    exec next as s = some s' := by
  induction as generalizing s with
  | nil => exact hexec
  | cons a as ih =>
    obtain ⟨s₁, hnext, hrest⟩ := Option.bind_eq_some_iff.mp hexec
    dsimp only at hnext
    split at hnext
    · exact Option.bind_eq_some_iff.mpr ⟨s₁, hnext, ih hrest⟩
    · cases hnext

/-! ## Records -/

/-- A step that also adds what it reports to a record, newest first. -/
def recordNext {ε : Type} (next : σ → α → Option σ) (report : σ → α → List ε)
    (s : σ × List ε) (a : α) : Option (σ × List ε) :=
  (next s.1 a).map fun s' => (s', report s.1 a ++ s.2)

theorem recordNext_eq_some {ε : Type} {next : σ → α → Option σ} {report : σ → α → List ε}
    {s s' : σ × List ε} {a : α} :
    recordNext next report s a = some s' ↔
      next s.1 a = some s'.1 ∧ s'.2 = report s.1 a ++ s.2 := by
  rw [recordNext, Option.map_eq_some_iff]
  constructor
  · rintro ⟨next, hnext, rfl⟩
    exact ⟨hnext, rfl⟩
  · rintro ⟨hnext, hrecord⟩
    exact ⟨s'.1, hnext, by rw [← hrecord]⟩

/-! ## Runs from a state -/

variable (m) in
inductive Leads : σ → σ → Prop
  | refl (s : σ) : Leads s s
  | step {s s' s'' : σ} {a : α} : Leads s s' → m.step s' a s'' → Leads s s''

theorem Leads.reachable {s s' : σ} (h : m.Leads s s') (hs : m.Reachable s) : m.Reachable s' := by
  induction h with
  | refl => exact hs
  | step _ hstep ih => exact .step ih hstep

theorem leads_exec {init : σ} {next : σ → α → Option σ} {as : List α} {s s' s'' : σ}
    (h : (ofNext init next).Leads s s') (hexec : exec next as s' = some s'') :
    (ofNext init next).Leads s s'' := by
  induction as generalizing s' with
  | nil => exact Option.some.inj hexec ▸ h
  | cons a as ih =>
    obtain ⟨s₁, hnext, hrest⟩ := Option.bind_eq_some_iff.mp hexec
    exact ih (.step h hnext) hrest

theorem leads_exec_when {init : σ} {next : σ → α → Option σ} {ok : σ → α → Prop}
    [∀ s a, Decidable (ok s a)] {as : List α} {s s' s'' : σ}
    (h : ((ofNext init next).when ok).Leads s s')
    (hexec : exec (fun s a => if ok s a then next s a else none) as s' = some s'') :
    ((ofNext init next).when ok).Leads s s'' := by
  induction as generalizing s' with
  | nil => exact Option.some.inj hexec ▸ h
  | cons a as ih =>
    obtain ⟨s₁, hnext, hrest⟩ := Option.bind_eq_some_iff.mp hexec
    dsimp only at hnext
    split at hnext
    next hok => exact ih (.step h ⟨hok, hnext⟩) hrest
    · cases hnext

end System

end DistPlatform.Runs
