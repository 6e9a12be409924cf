import Mathlib.Data.List.Forall2

/-!
# Computations that may fail

Inversion of a sequence of fallible steps: a sequence succeeds exactly when each step does.
The models run their sources' early returns in `Except`, and every proof about a run starts
by taking it apart with these lemmas.
-/

namespace DistPlatform.Fallible

variable {ε α β : Type}

@[simp] theorem bind_eq_ok {x : Except ε α} {f : α → Except ε β} {b : β} :
    x >>= f = .ok b ↔ ∃ a, x = .ok a ∧ f a = .ok b := by
  cases x <;> simp [bind, Except.bind]

theorem bind_eq_error {x : Except ε α} {f : α → Except ε β} {e : ε} :
    x >>= f = .error e ↔ x = .error e ∨ ∃ a, x = .ok a ∧ f a = .error e := by
  cases x <;> simp [bind, Except.bind]

theorem map_eq_ok {x : Except ε α} {f : α → β} {b : β} :
    f <$> x = .ok b ↔ ∃ a, x = .ok a ∧ f a = b := by
  cases x <;> simp [Functor.map, Except.map]

@[simp] theorem pure_eq_ok {a b : α} : (pure a : Except ε α) = .ok b ↔ a = b := by
  simp [pure, Except.pure]

@[simp] theorem throw_ne_ok {e : ε} {b : α} : (throw e : Except ε α) ≠ .ok b := nofun

@[simp] theorem mapError_eq_ok {δ : Type} {x : Except ε α} {f : ε → δ} {a : α} :
    x.mapError f = .ok a ↔ x = .ok a := by
  cases x <;> simp [Except.mapError]

theorem mapError_eq_error {δ : Type} {x : Except ε α} {f : ε → δ} {e : δ} :
    x.mapError f = .error e ↔ ∃ e', x = .error e' ∧ f e' = e := by
  cases x <;> simp [Except.mapError]

/-- Go on only where `p` holds; `if not p: raise e`. -/
def ensure (p : Prop) [Decidable p] (e : ε) : Except ε Unit := if p then .ok () else .error e

@[simp] theorem ensure_eq_ok {p : Prop} [Decidable p] {e : ε} {u : Unit} :
    ensure p e = .ok u ↔ p := by
  unfold ensure
  split <;> simp_all

theorem ensure_eq_error {p : Prop} [Decidable p] {e e' : ε} :
    ensure p e = .error e' ↔ ¬ p ∧ e = e' := by
  unfold ensure
  split <;> simp_all

/-- Go on only where `p` holds, with nothing said about why not. -/
def require (p : Prop) [Decidable p] : Option Unit := if p then some () else none

@[simp] theorem require_eq_some {p : Prop} [Decidable p] {u : Unit} : require p = some u ↔ p := by
  simp [require]

theorem bind_eq_some {x : Option α} {f : α → Option β} {b : β} :
    x >>= f = some b ↔ ∃ a, x = some a ∧ f a = some b :=
  Option.bind_eq_some_iff

/-- A list is mapped where each of its elements is. -/
theorem mapM_eq_some {f : α → Option β} {xs : List α} {ys : List β} :
    xs.mapM f = some ys ↔ List.Forall₂ (fun x y => f x = some y) xs ys := by
  induction xs generalizing ys with
  | nil => cases ys <;> simp
  | cons x xs ih =>
    rw [List.mapM_cons]
    cases ys with
    | nil => simp [Option.bind_eq_some_iff]
    | cons y ys =>
      rw [List.forall₂_cons, ← ih]
      simp [Option.bind_eq_some_iff]

theorem exists_mapM {f : α → Option β} {xs : List α} (h : ∀ x ∈ xs, (f x).isSome) :
    ∃ ys, xs.mapM f = some ys := by
  simp only [mapM_eq_some]
  induction xs with
  | nil => exact ⟨[], .nil⟩
  | cons x xs ih =>
    obtain ⟨y, hy⟩ := Option.isSome_iff_exists.mp (h x List.mem_cons_self)
    obtain ⟨ys, hys⟩ := ih fun x hx => h x (List.mem_cons_of_mem _ hx)
    exact ⟨y :: ys, .cons hy hys⟩

theorem bind_ok {a : α} {f : α → Except ε β} : (Except.ok a : Except ε α) >>= f = f a := rfl

theorem bind_error {e : ε} {f : α → Except ε β} :
    (Except.error e : Except ε α) >>= f = .error e := rfl

/-- A guard that refuses: the sequence succeeds only past it. -/
theorem ite_error_eq_ok {p : Prop} [Decidable p] {e : ε} {x : Except ε α} {b : α} :
    (if p then .error e else x) = .ok b ↔ ¬ p ∧ x = .ok b := by
  split <;> simp_all

/-- What holds of a result, if there is one. -/
instance decidableForallOk {x : Except ε α} {P : α → Prop} [DecidablePred P] :
    Decidable (∀ a, x = .ok a → P a) :=
  match x with
  | .ok a => decidable_of_iff (P a) (by simp)
  | .error _ => .isTrue nofun

end DistPlatform.Fallible
