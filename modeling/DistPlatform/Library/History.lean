import Mathlib.Tactic.Common

/-!
# Histories

A history is a list of events, newest first. A property of what led to an event speaks about
the event and the older ones.

## Main definitions

* `latest` — what the newest event that says anything says.
* `Justified` — every event of a history has the property, with the events older than it.
-/

namespace DistPlatform.History

variable {α β : Type} {P : α → List α → Prop}

def latest (f : α → Option β) (log : List α) : Option β := log.findSome? f

theorem latest_cons_of_none {f : α → Option β} {e : α} {log : List α} (h : f e = none) :
    latest f (e :: log) = latest f log := by
  rw [latest, List.findSome?_cons, h]
  rfl

theorem latest_cons_of_some {f : α → Option β} {e : α} {log : List α} {b : β} (h : f e = some b) :
    latest f (e :: log) = some b := by
  rw [latest, List.findSome?_cons, h]

/-- After an event that says something under a condition. -/
theorem latest_cons_ite {f : α → Option β} {e : α} {b : β} {c : Prop} [Decidable c]
    (h : f e = if c then some b else none) (log : List α) :
    latest f (e :: log) = if c then some b else latest f log := by
  split at h
  next hc => rw [if_pos hc, latest_cons_of_some h]
  next hc => rw [if_neg hc, latest_cons_of_none h]

theorem exists_of_latest {f : α → Option β} {log : List α} {b : β} (h : latest f log = some b) :
    ∃ e ∈ log, f e = some b :=
  List.exists_of_findSome?_eq_some h

/-- The newest event that says anything, with the newer ones, which do not. -/
theorem split_of_latest {f : α → Option β} {log : List α} {b : β} (h : latest f log = some b) :
    ∃ newer e older, log = newer ++ e :: older ∧ f e = some b ∧ ∀ e ∈ newer, f e = none := by
  induction log with
  | nil => cases h
  | cons e older ih =>
    cases he : f e with
    | some b' =>
      rw [latest_cons_of_some he] at h
      exact ⟨[], e, older, rfl, he.trans h, fun _ hmem => by cases hmem⟩
    | none =>
      rw [latest_cons_of_none he] at h
      obtain ⟨newer, e', rest, rfl, hsaid, hnewer⟩ := ih h
      exact ⟨e :: newer, e', rest, rfl, hsaid, List.forall_mem_cons.mpr ⟨he, hnewer⟩⟩

theorem latest_isSome {f : α → Option β} {log : List α} {e : α} (he : e ∈ log)
    (h : (f e).isSome) : (latest f log).isSome := by
  rw [latest, List.findSome?_isSome_iff]
  exact ⟨e, he, h⟩

def Justified (P : α → List α → Prop) : List α → Prop
  | [] => True
  | e :: older => P e older ∧ Justified P older

theorem Justified.cons {e : α} {older : List α} (h : Justified P older) (he : P e older) :
    Justified P (e :: older) :=
  ⟨he, h⟩

theorem Justified.mono {Q : α → List α → Prop} {log : List α} (h : Justified P log)
    (himp : ∀ e older, P e older → Q e older) : Justified Q log := by
  induction log with
  | nil => trivial
  | cons e older ih => exact ⟨himp e older h.1, ih h.2⟩

theorem Justified.of_append {newer older : List α} {e : α}
    (h : Justified P (newer ++ e :: older)) : P e older := by
  induction newer with
  | nil => exact h.1
  | cons _ newer ih => exact ih h.2

theorem Justified.older {newer older : List α} (h : Justified P (newer ++ older)) :
    Justified P older := by
  induction newer with
  | nil => exact h
  | cons _ newer ih => exact ih h.2

/-- Of two events, one is older than the other. -/
theorem older_or_older {log : List α} {a b : α} (ha : a ∈ log) (hb : b ∈ log) :
    a = b ∨ (∃ newer older, log = newer ++ b :: older ∧ a ∈ older) ∨
      ∃ newer older, log = newer ++ a :: older ∧ b ∈ older := by
  induction log with
  | nil => cases ha
  | cons e older ih =>
    obtain ha | ha := List.mem_cons.mp ha <;> obtain hb | hb := List.mem_cons.mp hb
    · exact .inl (ha.trans hb.symm)
    · exact .inr (.inr ⟨[], older, by rw [ha]; rfl, hb⟩)
    · exact .inr (.inl ⟨[], older, by rw [hb]; rfl, ha⟩)
    · obtain heq | ⟨newer, rest, rfl, hmem⟩ | ⟨newer, rest, rfl, hmem⟩ := ih ha hb
      · exact .inl heq
      · exact .inr (.inl ⟨e :: newer, rest, rfl, hmem⟩)
      · exact .inr (.inr ⟨e :: newer, rest, rfl, hmem⟩)

/-- The same, of one history split at each of the two. -/
theorem older_of_split {a b : α} {newer older newer' older' : List α} (hne : a ≠ b)
    (h : newer ++ a :: older = newer' ++ b :: older') :
    (∃ between, newer' = newer ++ a :: between ∧ older = between ++ b :: older') ∨
      ∃ between, newer = newer' ++ b :: between ∧ older' = between ++ a :: older := by
  obtain ⟨between, hnewer, hrest⟩ | ⟨between, hnewer, hrest⟩ := List.append_eq_append_iff.mp h
  · cases between with
    | nil => exact absurd (List.cons.inj hrest).1 hne
    | cons first between =>
      obtain ⟨rfl, rfl⟩ := List.cons.inj hrest
      exact .inl ⟨between, hnewer, rfl⟩
  · cases between with
    | nil => exact absurd (List.cons.inj hrest).1.symm hne
    | cons first between =>
      obtain ⟨rfl, rfl⟩ := List.cons.inj hrest
      exact .inr ⟨between, hnewer, rfl⟩

theorem latest_isSome_append {f : α → Option β} {newer older : List α}
    (h : (latest f older).isSome) : (latest f (newer ++ older)).isSome := by
  obtain ⟨b, hb⟩ := Option.isSome_iff_exists.mp h
  obtain ⟨e, he, hspeaks⟩ := exists_of_latest hb
  exact latest_isSome (List.mem_append_right _ he) (by rw [hspeaks]; rfl)

/-- What the events say, where each is related to what was said last before it. -/
theorem Justified.pairwise {f : α → Option β} {R : β → β → Prop}
    (htrans : ∀ a b c, R a b → R b c → R a c) {log : List α} (h : Justified P log)
    (hnext : ∀ e older b b', P e older → f e = some b → latest f older = some b' → R b' b) :
    (log.filterMap f).Pairwise fun later earlier => R earlier later := by
  induction log with
  | nil => exact .nil
  | cons e older ih =>
    have hrest := ih h.2
    cases he : f e with
    | none => rwa [List.filterMap_cons_none he]
    | some b =>
      rw [List.filterMap_cons_some he, List.pairwise_cons]
      refine ⟨fun b'' hb'' => ?_, hrest⟩
      have hlatest := List.head?_filterMap (f := f) (l := older)
      cases hsaid : older.filterMap f with
      | nil =>
        rw [hsaid] at hb''
        cases hb''
      | cons b' rest =>
        rw [hsaid, List.head?_cons] at hlatest
        have hlast := hnext e older b b' h.1 he hlatest.symm
        rw [hsaid] at hb'' hrest
        obtain rfl | hb'' := List.mem_cons.mp hb''
        · exact hlast
        · exact htrans _ _ _ ((List.pairwise_cons.mp hrest).1 b'' hb'') hlast

end DistPlatform.History
