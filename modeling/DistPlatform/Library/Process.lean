import Mathlib.Tactic.Common

/-!
# Processes that can be killed

A process works on a state, part of it durable and part of it its own. It may raise an error,
and it may be killed at any of its durable writes: the budget says how many it still gets to
make. What it ensures is stated for the three ways it can end.

## Main definitions

* `Process`, `Process.write` — the computation, and the step at which it can be killed.
* `Process.Ensures` — what holds when it returns, when it raises and when it is killed.
* `Process.Ends` — the same, with the error that it raises.
* `Process.Keeps` — an invariant of the process's every step.
* `Process.Bounded` — the number of writes it gets by with.
-/

namespace DistPlatform

/-- How a process ends. -/
inductive Ending (σ ε α : Type)
  | returned (result : α) (state : σ) (budget : Nat)
  | raised (error : ε) (state : σ) (budget : Nat)
  | killed (state : σ)

def Process (σ ε α : Type) := σ → Nat → Ending σ ε α

namespace Process

variable {σ ε α β : Type}

protected def pure (a : α) : Process σ ε α := fun s n => .returned a s n

protected def bind (m : Process σ ε α) (f : α → Process σ ε β) : Process σ ε β := fun s n =>
  match m s n with
  | .returned a s' n' => f a s' n'
  | .raised e s' n' => .raised e s' n'
  | .killed s' => .killed s'

instance : Monad (Process σ ε) where
  pure := Process.pure
  bind := Process.bind

def read : Process σ ε σ := fun s n => .returned s s n

def raise (e : ε) : Process σ ε α := fun s n => .raised e s n

def lift : Except ε α → Process σ ε α
  | .ok a => Process.pure a
  | .error e => raise e

/-- A change of the process's own memory. -/
def update (f : σ → σ) : Process σ ε Unit := fun s n => .returned () (f s) n

/-- A durable write, the only step a process can be killed at. -/
def write (f : σ → σ) : Process σ ε Unit := fun s n =>
  match n with
  | 0 => .killed s
  | n + 1 => .returned () (f s) n

theorem bind_apply (m : Process σ ε α) (f : α → Process σ ε β) (s : σ) (n : Nat) :
    (m >>= f) s n = match m s n with
      | .returned a s' n' => f a s' n'
      | .raised e s' n' => .raised e s' n'
      | .killed s' => .killed s' := rfl

theorem bind_assoc {γ : Type} (m : Process σ ε α) (f : α → Process σ ε β)
    (g : β → Process σ ε γ) : m >>= f >>= g = m >>= fun a => f a >>= g := by
  funext s n
  rw [bind_apply, bind_apply, bind_apply]
  cases m s n <;> rfl

end Process

/-- `Q` if it returned, `R` if it raised and `K` if it was killed. -/
def Ending.Satisfies {σ ε α : Type} (e : Ending σ ε α) (Q : α → σ → Prop) (R K : σ → Prop) :
    Prop :=
  match e with
  | .returned a s _ => Q a s
  | .raised _ s _ => R s
  | .killed s => K s

namespace Process

variable {σ ε α β : Type}

/-- What holds at the end of `m`, however many writes it gets to make from `s`. -/
def Ensures (m : Process σ ε α) (s : σ) (Q : α → σ → Prop) (R K : σ → Prop) : Prop :=
  ∀ n, (m s n).Satisfies Q R K

section Rules

variable {s : σ} {m : Process σ ε α} {f : α → Process σ ε β} {Q Q' : α → σ → Prop}
  {R K : σ → Prop}

theorem Ensures.pure {a : α} (h : Q a s) : (Pure.pure a : Process σ ε α).Ensures s Q R K :=
  fun _ => h

theorem Ensures.bind {Q' : β → σ → Prop} (hm : m.Ensures s Q R K)
    (hf : ∀ a s', Q a s' → (f a).Ensures s' Q' R K) : (m >>= f).Ensures s Q' R K := by
  intro n
  have hmn := hm n
  rw [bind_apply]
  cases hms : m s n with
  | returned a s' n' =>
    rw [hms] at hmn
    exact hf a s' hmn n'
  | raised e s' n' =>
    rw [hms] at hmn
    exact hmn
  | killed s' =>
    rw [hms] at hmn
    exact hmn

theorem Ensures.mono (h : m.Ensures s Q R K) (hQ : ∀ a s', Q a s' → Q' a s') :
    m.Ensures s Q' R K := by
  intro n
  have hn := h n
  cases hms : m s n with
  | returned a s' n' =>
    rw [hms] at hn
    exact hQ a s' hn
  | raised e s' n' =>
    rw [hms] at hn
    exact hn
  | killed s' =>
    rw [hms] at hn
    exact hn

/-- Two things that are ensured are ensured together. -/
theorem Ensures.and {R' : σ → Prop} (h : m.Ensures s Q R K) (h' : m.Ensures s Q' R' K) :
    m.Ensures s (fun a s' => Q a s' ∧ Q' a s') (fun s' => R s' ∧ R' s') K := by
  intro n
  have hn := h n
  have hn' := h' n
  cases hms : m s n with
  | returned a s' n' =>
    rw [hms] at hn hn'
    exact ⟨hn, hn'⟩
  | raised e s' n' =>
    rw [hms] at hn hn'
    exact ⟨hn, hn'⟩
  | killed s' =>
    rw [hms] at hn
    exact hn

theorem Ensures.mono_raised {R' : σ → Prop} (h : m.Ensures s Q R K) (hR : ∀ s', R s' → R' s') :
    m.Ensures s Q R' K := by
  intro n
  have hn := h n
  cases hms : m s n with
  | returned a s' n' =>
    rw [hms] at hn
    exact hn
  | raised e s' n' =>
    rw [hms] at hn
    exact hR s' hn
  | killed s' =>
    rw [hms] at hn
    exact hn

theorem Ensures.mono_killed {K' : σ → Prop} (h : m.Ensures s Q R K) (hK : ∀ s', K s' → K' s') :
    m.Ensures s Q R K' := by
  intro n
  have hn := h n
  cases hms : m s n with
  | returned a s' n' =>
    rw [hms] at hn
    exact hn
  | raised e s' n' =>
    rw [hms] at hn
    exact hn
  | killed s' =>
    rw [hms] at hn
    exact hK s' hn

theorem Ensures.raise {e : ε} (h : R s) : (Process.raise e : Process σ ε α).Ensures s Q R K :=
  fun _ => h

theorem Ensures.read_bind {f : σ → Process σ ε α} (h : (f s).Ensures s Q R K) :
    (Process.read >>= f).Ensures s Q R K :=
  fun n => h n

theorem Ensures.lift_cases {r : Except ε α} {Q : β → σ → Prop}
    (herr : ∀ e, r = .error e → R s) (hok : ∀ a, r = .ok a → (f a).Ensures s Q R K) :
    (Process.lift r >>= f).Ensures s Q R K := by
  cases r with
  | ok a => exact fun n => hok a rfl n
  | error e => exact fun _ => herr e rfl

theorem Ensures.lift_bind {r : Except ε α} {Q : β → σ → Prop} (herr : R s)
    (hok : ∀ a, r = .ok a → (f a).Ensures s Q R K) : (Process.lift r >>= f).Ensures s Q R K :=
  .lift_cases (fun _ _ => herr) hok

theorem Ensures.update {g : σ → σ} {Q : Unit → σ → Prop} (h : Q () (g s)) :
    (Process.update g : Process σ ε Unit).Ensures s Q R K :=
  fun _ => h

theorem Ensures.update_bind {g : σ → σ} {f : Unit → Process σ ε α}
    (h : (f ()).Ensures (g s) Q R K) : (Process.update g >>= f).Ensures s Q R K :=
  fun n => h n

/-- A write is killed before it is made, or made. -/
theorem Ensures.write {g : σ → σ} {Q : Unit → σ → Prop} (hK : K s) (h : Q () (g s)) :
    (Process.write g : Process σ ε Unit).Ensures s Q R K := by
  intro n
  cases n with
  | zero => exact hK
  | succ n => exact h

end Rules

/-! ## Invariants -/

/-- `m` keeps `I`, wherever it is killed. -/
def Keeps (I : σ → Prop) (m : Process σ ε α) : Prop :=
  ∀ s, I s → m.Ensures s (fun _ => I) I I

section KeepsRules

variable {I : σ → Prop} {m : Process σ ε α} {f : α → Process σ ε β}

theorem Keeps.pure (a : α) : (Pure.pure a : Process σ ε α).Keeps I := fun _ hs _ => hs

theorem Keeps.raise (e : ε) : (Process.raise e : Process σ ε α).Keeps I := fun _ hs _ => hs

theorem Keeps.bind (hm : m.Keeps I) (hf : ∀ a, (f a).Keeps I) : (m >>= f).Keeps I :=
  fun s hs => .bind (hm s hs) fun a s' hs' => hf a s' hs'

theorem Keeps.read_bind {f : σ → Process σ ε α} (h : ∀ s, (f s).Keeps I) :
    (Process.read >>= f).Keeps I :=
  fun s hs => .read_bind (h s s hs)

theorem Keeps.lift_bind {r : Except ε α} (h : ∀ a, r = .ok a → (f a).Keeps I) :
    (Process.lift r >>= f).Keeps I :=
  fun s hs => .lift_bind hs fun a ha => h a ha s hs

theorem Keeps.update {g : σ → σ} (h : ∀ s, I s → I (g s)) :
    (Process.update g : Process σ ε Unit).Keeps I :=
  fun s hs => .update (h s hs)

theorem Keeps.write {g : σ → σ} (h : ∀ s, I s → I (g s)) :
    (Process.write g : Process σ ε Unit).Keeps I :=
  fun s hs => .write hs (h s hs)

end KeepsRules

/-! ## Which error -/

/-- What holds at the end of `m`, and `R` of the error if it raised one. -/
def Ends (m : Process σ ε α) (s : σ) (Q : α → σ → Prop) (R : ε → σ → Prop) (K : σ → Prop) :
    Prop :=
  ∀ n, match m s n with
    | .returned a s' _ => Q a s'
    | .raised e s' _ => R e s'
    | .killed s' => K s'

section EndsRules

variable {s : σ} {m : Process σ ε α} {f : α → Process σ ε β} {Q Q' : α → σ → Prop}
  {R R' : ε → σ → Prop} {K K' : σ → Prop}

theorem Ends.pure {a : α} (h : Q a s) : (Pure.pure a : Process σ ε α).Ends s Q R K :=
  fun _ => h

theorem Ends.raise {e : ε} (h : R e s) : (Process.raise e : Process σ ε α).Ends s Q R K :=
  fun _ => h

theorem Ends.bind {Q' : β → σ → Prop} (hm : m.Ends s Q R K)
    (hf : ∀ a s', Q a s' → (f a).Ends s' Q' R K) : (m >>= f).Ends s Q' R K := by
  intro n
  have hmn := hm n
  rw [bind_apply]
  cases hms : m s n with
  | returned a s' n' =>
    rw [hms] at hmn
    exact hf a s' hmn n'
  | raised e s' n' =>
    rw [hms] at hmn
    exact hmn
  | killed s' =>
    rw [hms] at hmn
    exact hmn

theorem Ends.mono (h : m.Ends s Q R K) (hQ : ∀ a s', Q a s' → Q' a s')
    (hR : ∀ e s', R e s' → R' e s') (hK : ∀ s', K s' → K' s') : m.Ends s Q' R' K' := by
  intro n
  have hn := h n
  cases hms : m s n with
  | returned a s' n' =>
    rw [hms] at hn
    exact hQ a s' hn
  | raised e s' n' =>
    rw [hms] at hn
    exact hR e s' hn
  | killed s' =>
    rw [hms] at hn
    exact hK s' hn

theorem Ends.read_bind {f : σ → Process σ ε α} (h : (f s).Ends s Q R K) :
    (Process.read >>= f).Ends s Q R K :=
  fun n => h n

theorem Ends.lift_bind {r : Except ε α} {Q : β → σ → Prop} (herr : ∀ e, r = .error e → R e s)
    (hok : ∀ a, r = .ok a → (f a).Ends s Q R K) : (Process.lift r >>= f).Ends s Q R K := by
  cases r with
  | ok a => exact fun n => hok a rfl n
  | error e => exact fun _ => herr e rfl

theorem Ends.update_bind {g : σ → σ} {f : Unit → Process σ ε α} (h : (f ()).Ends (g s) Q R K) :
    (Process.update g >>= f).Ends s Q R K :=
  fun n => h n

theorem Ends.update {g : σ → σ} {Q : Unit → σ → Prop} (h : Q () (g s)) :
    (Process.update g : Process σ ε Unit).Ends s Q R K :=
  fun _ => h

theorem Ends.write {g : σ → σ} {Q : Unit → σ → Prop} (hK : K s) (h : Q () (g s)) :
    (Process.write g : Process σ ε Unit).Ends s Q R K := by
  intro n
  cases n with
  | zero => exact hK
  | succ n => exact h

/-- Which error it was can be forgotten. -/
theorem Ends.ensures (h : m.Ends s Q R K) : m.Ensures s Q (fun s' => ∃ e, R e s') K := by
  intro n
  have hn := h n
  cases hms : m s n with
  | returned a s' n' =>
    rw [hms] at hn
    exact hn
  | raised e s' n' =>
    rw [hms] at hn
    exact ⟨e, hn⟩
  | killed s' =>
    rw [hms] at hn
    exact hn

theorem Ends.of_ensures {R : σ → Prop} (h : m.Ensures s Q R K) : m.Ends s Q (fun _ => R) K := by
  intro n
  have hn := h n
  cases hms : m s n with
  | returned a s' n' =>
    rw [hms] at hn
    exact hn
  | raised e s' n' =>
    rw [hms] at hn
    exact hn
  | killed s' =>
    rw [hms] at hn
    exact hn

end EndsRules

/-! ## How many writes -/

/-- `m` makes at most `k` writes. -/
def Bounded (k : Nat) (m : Process σ ε α) : Prop :=
  ∀ s n, match m s (k + n) with
    | .returned _ _ n' => n ≤ n'
    | .raised _ _ _ => True
    | .killed _ => False

section Bounded

variable {k k' : Nat} {m : Process σ ε α} {f : α → Process σ ε β}

theorem Bounded.pure (a : α) : (Pure.pure a : Process σ ε α).Bounded 0 :=
  fun _ n => Nat.le_of_eq (Nat.zero_add n).symm

theorem Bounded.read : (Process.read : Process σ ε σ).Bounded 0 :=
  fun _ n => Nat.le_of_eq (Nat.zero_add n).symm

theorem Bounded.raise (e : ε) : (Process.raise e : Process σ ε α).Bounded 0 := fun _ _ => trivial

theorem Bounded.lift (r : Except ε α) : (Process.lift r : Process σ ε α).Bounded 0 := by
  cases r with
  | ok a => exact Bounded.pure a
  | error e => exact Bounded.raise e

theorem Bounded.update (g : σ → σ) : (Process.update g : Process σ ε Unit).Bounded 0 :=
  fun _ n => Nat.le_of_eq (Nat.zero_add n).symm

theorem Bounded.write (g : σ → σ) : (Process.write g : Process σ ε Unit).Bounded 1 := by
  intro s n
  rw [Nat.add_comm]
  exact Nat.le_refl n

theorem Bounded.bind (hm : m.Bounded k) (hf : ∀ a, (f a).Bounded k') :
    (m >>= f).Bounded (k' + k) := by
  intro s n
  have hmn := hm s (k' + n)
  rw [bind_apply, Nat.add_comm k', Nat.add_assoc]
  cases hms : m s (k + (k' + n)) with
  | returned a s' n' =>
    rw [hms] at hmn
    obtain ⟨rest, rfl⟩ := Nat.exists_eq_add_of_le hmn
    have hfn := hf a s' (n + rest)
    rw [← Nat.add_assoc] at hfn
    dsimp only
    cases hfs : f a s' (k' + n + rest) with
    | returned b s'' n'' =>
      rw [hfs] at hfn
      exact Nat.le_trans (Nat.le_add_right n rest) hfn
    | raised => trivial
    | killed =>
      rw [hfs] at hfn
      exact hfn
  | raised => trivial
  | killed =>
    rw [hms] at hmn
    exact hmn

theorem Bounded.mono (hm : m.Bounded k) (hle : k ≤ k') : m.Bounded k' := by
  intro s n
  obtain ⟨rest, rfl⟩ := Nat.exists_eq_add_of_le hle
  have hmn := hm s (rest + n)
  rw [← Nat.add_assoc] at hmn
  cases hms : m s (k + rest + n) with
  | returned a s' n' =>
    rw [hms] at hmn
    exact Nat.le_trans (Nat.le_add_left n rest) hmn
  | raised => trivial
  | killed =>
    rw [hms] at hmn
    exact hmn

theorem Bounded.lift_bind {r : Except ε α} (h : ∀ a, r = .ok a → (f a).Bounded k) :
    (Process.lift r >>= f).Bounded k := by
  cases r with
  | ok a => exact fun s n => h a rfl s n
  | error e => exact fun _ _ => trivial

/-- What cannot raise and gets its writes returns. -/
theorem Ensures.returns {s : σ} {Q : α → σ → Prop} {K : σ → Prop}
    (h : m.Ensures s Q (fun _ => False) K) (hm : m.Bounded k) :
    ∃ a s' n, m s k = .returned a s' n ∧ Q a s' := by
  have hk := h k
  have hb := hm s 0
  rw [Nat.add_zero] at hb
  cases hms : m s k with
  | returned a s' n =>
    rw [hms] at hk
    exact ⟨a, s', n, rfl, hk⟩
  | raised e s' n =>
    rw [hms] at hk
    exact hk.elim
  | killed s' =>
    rw [hms] at hb
    exact hb.elim

theorem Ends.returns {s : σ} {Q : α → σ → Prop} {K : σ → Prop}
    (h : m.Ends s Q (fun _ _ => False) K) (hm : m.Bounded k) :
    ∃ a s' n, m s k = .returned a s' n ∧ Q a s' :=
  (h.ensures.mono_raised fun _ hraised => hraised.elim fun _ hfalse => hfalse).returns hm

/-- What cannot return and gets its writes raises. -/
theorem Ends.raises {s : σ} {R : ε → σ → Prop} {K : σ → Prop}
    (h : m.Ends s (fun _ _ => False) R K) (hm : m.Bounded k) :
    ∃ e s' n, m s k = .raised e s' n ∧ R e s' := by
  have hk := h k
  have hb := hm s 0
  rw [Nat.add_zero] at hb
  cases hms : m s k with
  | returned a s' n =>
    rw [hms] at hk
    exact hk.elim
  | raised e s' n =>
    rw [hms] at hk
    exact ⟨e, s', n, rfl, hk⟩
  | killed s' =>
    rw [hms] at hb
    exact hb.elim

end Bounded

end Process

end DistPlatform
