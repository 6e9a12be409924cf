import Mathlib.Data.List.Nodup
import Mathlib.Data.List.Range
import Mathlib.Data.List.Perm.Subperm

/-!
# Streaks in a history of records

Records have distinct times. Some of them only continue the record before them: they repeat its
value and count one further than it, which they may do up to a bound. So every streak of such
records is bounded, and has the value of the record that it started from.

## Main definitions

* `Last` — the record before another.
* `Streaks` — the invariant of the history.
-/

namespace DistPlatform

variable {α τ : Type} {S S' : α → Prop} {key : α → Nat} {count : α → Option Nat} {value : α → τ}
  {bound : Nat}

/-- `x` is the last record before the time `t`. -/
structure Last (S : α → Prop) (key : α → Nat) (x : α) (t : Nat) : Prop where
  mem : S x
  before : key x < t
  latest : ∀ z, S z → key z < t → key z ≤ key x

/-- `y` counts one further than the record before it, where that has not come to the bound. -/
structure Continues (count : α → Option Nat) (value : α → τ) (bound : Nat) (x : α) (k : Nat)
    (v : τ) : Prop where
  below : (count x).getD 0 < bound
  counts : k = (count x).getD 0 + 1
  repeats : v = value x

structure Streaks (S : α → Prop) (key : α → Nat) (count : α → Option Nat) (value : α → τ)
    (bound : Nat) : Prop where
  distinct : ∀ x y, S x → S y → key x = key y → x = y
  continues : ∀ y k, S y → count y = some k →
    ∃ x, Last S key x (key y) ∧ Continues count value bound x k (value y)

namespace Streaks

theorem empty (h : ∀ x, ¬ S x) : Streaks S key count value bound :=
  ⟨fun x _ hx => absurd hx (h x), fun y _ hy => absurd hy (h y)⟩

theorem congr (h : Streaks S key count value bound) (hsame : ∀ x, S' x ↔ S x) :
    Streaks S' key count value bound := by
  obtain rfl : S' = S := funext fun x => propext (hsame x)
  exact h

/-- A record that is later than all others may start a streak, or continue the last one. -/
theorem insert (h : Streaks S key count value bound) {new : α}
    (hsame : ∀ x, S' x ↔ S x ∨ x = new) (hlater : ∀ x, S x → key x < key new)
    (hnew : ∀ k, count new = some k →
      ∃ x, Last S key x (key new) ∧ Continues count value bound x k (value new)) :
    Streaks S' key count value bound := by
  obtain rfl : S' = fun x => S x ∨ x = new := funext fun x => propext (hsame x)
  refine ⟨fun x y hx hy hkey => ?_, fun y k hy hk => ?_⟩
  · obtain hx | rfl := hx <;> obtain hy | rfl := hy
    · exact h.distinct x y hx hy hkey
    · exact absurd hkey (hlater x hx).ne
    · exact absurd hkey.symm (hlater y hy).ne
    · rfl
  · obtain hy | rfl := hy
    · obtain ⟨x, hlast, hcontinues⟩ := h.continues y k hy hk
      refine ⟨x, ⟨.inl hlast.mem, hlast.before, fun z hz hlt => ?_⟩, hcontinues⟩
      obtain hz | rfl := hz
      · exact hlast.latest z hz hlt
      · exact absurd hlt (hlater y hy).asymm
    · obtain ⟨x, hlast, hcontinues⟩ := hnew k hk
      refine ⟨x, ⟨.inl hlast.mem, hlast.before, fun z hz hlt => ?_⟩, hcontinues⟩
      obtain hz | rfl := hz
      · exact hlast.latest z hz hlt
      · exact absurd hlt (lt_irrefl _)

/-- A streak has the value of the last record before it that continues nothing. -/
theorem base (h : Streaks S key count value bound) {y : α} {k : Nat} (hy : S y)
    (hk : count y = some k) :
    ∃ x, Last (fun z => S z ∧ count z = none) key x (key y) ∧ value x = value y := by
  induction ht : key y using Nat.strong_induction_on generalizing y k with
  | _ t ih =>
    subst ht
    obtain ⟨x, hlast, hcontinues⟩ := h.continues y k hy hk
    cases hx : count x with
    | none =>
      exact ⟨x, ⟨⟨hlast.mem, hx⟩, hlast.before, fun z hz => hlast.latest z hz.1⟩,
        hcontinues.repeats.symm⟩
    | some j =>
      obtain ⟨w, hbase, hvalue⟩ := ih (key x) hlast.before hlast.mem hx rfl
      refine ⟨w, ⟨hbase.mem, hbase.before.trans hlast.before, fun z hz hlt => ?_⟩,
        hvalue.trans hcontinues.repeats.symm⟩
      -- no base record stands between the streak's last but one record and its last
      obtain hlt | heq := (hlast.latest z hz.1 hlt).lt_or_eq
      · exact hbase.latest z hz hlt
      · obtain rfl := h.distinct z x hz.1 hlast.mem heq
        cases hz.2.symm.trans hx

/-- Within a streak the count grows. -/
theorem count_lt (h : Streaks S key count value bound) {x y : α} {j k : Nat} (hx : S x) (hy : S y)
    (hj : count x = some j) (hk : count y = some k) (hlt : key x < key y)
    (hstreak : ∀ z, S z → count z = none → ¬ (key x < key z ∧ key z < key y)) : j < k := by
  induction ht : key y using Nat.strong_induction_on generalizing y k with
  | _ t ih =>
    subst ht
    obtain ⟨w, hlast, hcontinues⟩ := h.continues y k hy hk
    obtain hbetween | heq := (hlast.latest x hx hlt).lt_or_eq
    · cases hw : count w with
      | none => exact absurd ⟨hbetween, hlast.before⟩ (hstreak w hlast.mem hw)
      | some i =>
        have hji : j < i := ih (key w) hlast.before hlast.mem hw hbetween
          (fun z hz hnone hlt => hstreak z hz hnone ⟨hlt.1, hlt.2.trans hlast.before⟩) rfl
        rw [hcontinues.counts, hw, Option.getD_some]
        exact hji.trans (Nat.lt_succ_self i)
    · obtain rfl := h.distinct x w hx hlast.mem heq
      rw [hcontinues.counts, hj, Option.getD_some]
      exact Nat.lt_succ_self j

theorem count_mem (h : Streaks S key count value bound) {y : α} {k : Nat} (hy : S y)
    (hk : count y = some k) : k ∈ List.range' 1 bound := by
  obtain ⟨x, -, hcontinues⟩ := h.continues y k hy hk
  have := hcontinues.below
  have := hcontinues.counts
  rw [List.mem_range'_1]
  omega

/-- A streak is not longer than the bound. -/
theorem length_le (h : Streaks S key count value bound) {xs : List α} (hnodup : xs.Nodup)
    (hcounts : ∀ x ∈ xs, S x ∧ (count x).isSome)
    (hstreak : ∀ x ∈ xs, ∀ y ∈ xs, ∀ z, S z → count z = none →
      ¬ (key x < key z ∧ key z < key y)) : xs.length ≤ bound := by
  have hcount {x : α} (hx : x ∈ xs) : count x = some ((count x).getD 0) := by
    obtain ⟨k, hk⟩ := Option.isSome_iff_exists.mp (hcounts x hx).2
    rw [hk, Option.getD_some]
  have hlt {x y : α} (hx : x ∈ xs) (hy : y ∈ xs) (hlt : key x < key y) :
      (count x).getD 0 < (count y).getD 0 :=
    h.count_lt (hcounts x hx).1 (hcounts y hy).1 (hcount hx) (hcount hy) hlt (hstreak x hx y hy)
  have hinjective : (xs.map fun x => (count x).getD 0).Nodup := by
    refine List.Nodup.map_on (fun x hx y hy heq => ?_) hnodup
    obtain hless | hkey | hless := Nat.lt_trichotomy (key x) (key y)
    · exact absurd heq (hlt hx hy hless).ne
    · exact h.distinct x y (hcounts x hx).1 (hcounts y hy).1 hkey
    · exact absurd heq.symm (hlt hy hx hless).ne
  have hsubset : (xs.map fun x => (count x).getD 0) ⊆ List.range' 1 bound := by
    intro k hk
    obtain ⟨x, hx, rfl⟩ := List.mem_map.mp hk
    exact h.count_mem (hcounts x hx).1 (hcount hx)
  simpa using (List.subperm_of_subset hinjective hsubset).length_le

end Streaks

end DistPlatform
