import DistPlatform.Library.Runs
import Mathlib.Logic.Function.Basic

/-!
# Parties that take turns on a shared state

Each party runs its own program and stands at a place of it; all of them work on one shared
state. A turn is atomic, any party may take the next one, and a crash puts a party back to the
start of its program.

An invariant of such a system has a part about the shared state and a part about each party,
and a party's part has to survive its own turns and everyone else's (`Invariant.own` and
`Invariant.other`).

## Main definitions

* `Parties`, `Parties.system` — the programs, and all their interleavings.
* `Invariant` — what has to be shown of a turn for an invariant to hold of every run.
-/

namespace DistPlatform.Runs

/-- The programs: where a party starts, and what one turn of it does. `Act p` is what `p` is
told by the world around it in a turn. -/
structure Parties (P σ : Type) (Place Act : P → Type) where
  init : σ
  idle : ∀ p, Place p
  turn : ∀ p, Act p → σ → Place p → Option (σ × Place p)

/-- The shared state, and where each party stands. -/
structure Config (P σ : Type) (Place : P → Type) where
  shared : σ
  place : ∀ p, Place p

inductive Move (P : Type) (Act : P → Type)
  | turn (p : P) (act : Act p)
  | crash (p : P)

def Move.party {P : Type} {Act : P → Type} : Move P Act → P
  | .turn p _ => p
  | .crash p => p

variable {P σ : Type} {Place Act : P → Type} [DecidableEq P]

namespace Parties

variable (m : Parties P σ Place Act)

def next (c : Config P σ Place) : Move P Act → Option (Config P σ Place)
  | .turn p act => (m.turn p act c.shared (c.place p)).map fun (shared, place) =>
      ⟨shared, Function.update c.place p place⟩
  | .crash p => some ⟨c.shared, Function.update c.place p (m.idle p)⟩

def initial : Config P σ Place := ⟨m.init, m.idle⟩

def system : System (Config P σ Place) (Move P Act) := .ofNext m.initial m.next

variable {m}

theorem next_turn {c c' : Config P σ Place} {p : P} {act : Act p}
    (h : m.next c (.turn p act) = some c') : ∃ shared place,
      m.turn p act c.shared (c.place p) = some (shared, place) ∧
        c' = ⟨shared, Function.update c.place p place⟩ := by
  obtain ⟨⟨shared, place⟩, hturn, rfl⟩ := Option.map_eq_some_iff.mp h
  exact ⟨shared, place, hturn, rfl⟩

theorem next_crash {c c' : Config P σ Place} {p : P} (h : m.next c (.crash p) = some c') :
    c' = ⟨c.shared, Function.update c.place p (m.idle p)⟩ :=
  (Option.some.inj h).symm

/-- A party stands still while the others move. -/
theorem place_next {c c' : Config P σ Place} {move : Move P Act} {q : P}
    (h : m.next c move = some c') (hq : q ≠ move.party) : c'.place q = c.place q := by
  cases move with
  | turn p act =>
    obtain ⟨shared, place, -, rfl⟩ := next_turn h
    exact Function.update_of_ne hq _ _
  | crash p =>
    obtain rfl := next_crash h
    exact Function.update_of_ne hq _ _

theorem place_exec {moves : List (Move P Act)} {c c' : Config P σ Place} {q : P}
    (h : System.exec m.next moves c = some c') (hq : ∀ move ∈ moves, q ≠ move.party) :
    c'.place q = c.place q := by
  induction moves generalizing c with
  | nil => rw [Option.some.inj h]
  | cons move moves ih =>
    obtain ⟨c₁, hnext, hrest⟩ := Option.bind_eq_some_iff.mp h
    rw [ih hrest fun m hm => hq m (List.mem_cons_of_mem _ hm),
      place_next hnext (hq move List.mem_cons_self)]

variable (m) in
/-- `I` of the shared state and `L` of every party, over the moves that meet `ok`. -/
structure Invariant (ok : Config P σ Place → Move P Act → Prop) (I : σ → Prop)
    (L : ∀ p, σ → Place p → Prop) : Prop where
  start : I m.init
  idle : ∀ p shared, L p shared (m.idle p)
  own : ∀ (c : Config P σ Place) p act shared place, ok c (.turn p act) → I c.shared →
    (∀ q, L q c.shared (c.place q)) → m.turn p act c.shared (c.place p) = some (shared, place) →
    I shared ∧ L p shared place
  other : ∀ (c : Config P σ Place) p act shared place q, q ≠ p → ok c (.turn p act) →
    I c.shared → (∀ q, L q c.shared (c.place q)) →
    m.turn p act c.shared (c.place p) = some (shared, place) → L q shared (c.place q)

theorem Invariant.holds {ok : Config P σ Place → Move P Act → Prop} {I : σ → Prop}
    {L : ∀ p, σ → Place p → Prop} (h : m.Invariant ok I L) {c : Config P σ Place}
    (hc : (m.system.when ok).Reachable c) : I c.shared ∧ ∀ p, L p c.shared (c.place p) := by
  induction hc with
  | start h0 =>
    obtain rfl : _ = m.initial := h0
    exact ⟨h.start, fun p => h.idle p _⟩
  | @step c move c' _ hstep ih =>
    obtain ⟨hok, hnext⟩ := hstep
    obtain ⟨hI, hL⟩ := ih
    cases move with
    | turn p act =>
      obtain ⟨shared, place, hturn, rfl⟩ := next_turn hnext
      obtain ⟨hshared, hplace⟩ := h.own c p act shared place hok hI hL hturn
      refine ⟨hshared, fun q => ?_⟩
      by_cases hq : q = p
      · subst hq
        simpa only [Function.update_self] using hplace
      · simpa only [Function.update_of_ne hq] using
          h.other c p act shared place q hq hok hI hL hturn
    | crash p =>
      obtain rfl := next_crash hnext
      refine ⟨hI, fun q => ?_⟩
      by_cases hq : q = p
      · subst hq
        simpa only [Function.update_self] using h.idle q c.shared
      · simpa only [Function.update_of_ne hq] using hL q

end Parties

end DistPlatform.Runs
