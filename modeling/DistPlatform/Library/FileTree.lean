import Mathlib.Data.List.Infix

/-!
# File trees with symbolic links

A place is the list of names from the top. A path is followed step by step from a directory: a
name that is a link is replaced by the link's target, and what does not exist yet is taken by its
name. A tree is closed under a root where every link below the root leads to a place below it; a
path without steps up then stays below it.

## Main definitions

* `Step`, `Target`, `Node`, `Tree` — paths, links and what stands at a place.
* `resolve` — follow a path; `Leads` is the relation it computes.
* `Closed` — every link below a root leads below it.
-/

namespace DistPlatform.FileTree

variable {α : Type}

abbrev Place (α : Type) := List α

/-- A step to the parent directory, or to an entry. -/
inductive Step (α : Type)
  | up
  | into (name : α)
  deriving DecidableEq, Repr

structure Target (α : Type) where
  absolute : Bool
  steps : List (Step α)
  deriving DecidableEq, Repr

inductive Node (α : Type)
  | dir
  | file
  | link (target : Target α)
  deriving DecidableEq, Repr

/-- What stands at each place, if anything does. -/
abbrev Tree (α : Type) := Place α → Option (Node α)

/-- The target of the link at a place, if it is a link. -/
def Tree.link? (tree : Tree α) (place : Place α) : Option (Target α) :=
  match tree place with
  | some (.link target) => some target
  | _ => none

def Tree.put [DecidableEq α] (tree : Tree α) (place : Place α) (node : Node α) : Tree α :=
  fun other => if other = place then some node else tree other

/-- The directory that a target is followed from. -/
def Target.start (target : Target α) (directory : Place α) : Place α :=
  if target.absolute then [] else directory

/-- Follow a path from a directory; nothing after too many steps, as in a loop of links. -/
def resolve (tree : Tree α) : Nat → Place α → List (Step α) → Option (Place α)
  | _, place, [] => some place
  | 0, _, _ :: _ => none
  | fuel + 1, place, .up :: steps => resolve tree fuel place.dropLast steps
  | fuel + 1, place, .into name :: steps =>
    match tree.link? (place ++ [name]) with
    | some target => resolve tree fuel (target.start place) (target.steps ++ steps)
    | none => resolve tree fuel (place ++ [name]) steps

/-- The path leads from the directory to the place. -/
inductive Leads (tree : Tree α) : Place α → List (Step α) → Place α → Prop
  | arrived {place : Place α} : Leads tree place [] place
  | up {place result : Place α} {steps : List (Step α)} :
      Leads tree place.dropLast steps result → Leads tree place (.up :: steps) result
  | into {place result : Place α} {name : α} {steps : List (Step α)} :
      tree.link? (place ++ [name]) = none → Leads tree (place ++ [name]) steps result →
      Leads tree place (.into name :: steps) result
  | follow {place result : Place α} {name : α} {steps : List (Step α)} {target : Target α} :
      tree.link? (place ++ [name]) = some target →
      Leads tree (target.start place) (target.steps ++ steps) result →
      Leads tree place (.into name :: steps) result

/-- Every link below the root leads below it. -/
def Closed (tree : Tree α) (root : Place α) : Prop :=
  ∀ directory name target, root <+: directory → tree.link? (directory ++ [name]) = some target →
    ∀ place, Leads tree (target.start directory) target.steps place → root <+: place

section

variable {tree tree' : Tree α} {root place place' result : Place α} {steps steps' : List (Step α)}
  {fuel : Nat}

/-- What is put where no link is, and is none, leaves the links as they are. -/
theorem link?_put [DecidableEq α] {node : Node α} (hplace : tree.link? place = none)
    (hnode : ∀ target, node ≠ .link target) : (tree.put place node).link? = tree.link? := by
  funext other
  by_cases hother : other = place
  · rw [hother, hplace]
    unfold Tree.link? Tree.put
    rw [if_pos rfl]
    cases node with
    | dir => rfl
    | file => rfl
    | link target => exact absurd rfl (hnode target)
  · unfold Tree.link? Tree.put
    rw [if_neg hother]

theorem leads_of_resolve (h : resolve tree fuel place steps = some result) :
    Leads tree place steps result := by
  induction fuel generalizing place steps with
  | zero =>
    cases steps with
    | nil => exact Option.some.inj h ▸ .arrived
    | cons step steps => cases h
  | succ fuel ih =>
    cases steps with
    | nil => exact Option.some.inj h ▸ .arrived
    | cons step steps =>
      cases step with
      | up => exact .up (ih h)
      | into name =>
        rw [resolve] at h
        cases hlink : tree.link? (place ++ [name]) with
        | none =>
          rw [hlink] at h
          exact .into hlink (ih h)
        | some target =>
          rw [hlink] at h
          exact .follow hlink (ih h)

/-- A path in two parts leads to where the second leads from the end of the first. -/
theorem Leads.of_append (h : Leads tree place (steps ++ steps') result) :
    ∃ middle, Leads tree place steps middle ∧ Leads tree middle steps' result := by
  generalize hwhole : steps ++ steps' = whole at h
  induction h generalizing steps with
  | arrived =>
    obtain ⟨rfl, rfl⟩ := List.append_eq_nil_iff.mp hwhole
    exact ⟨_, .arrived, .arrived⟩
  | up hrest ih =>
    cases steps with
    | nil =>
      obtain rfl : steps' = _ := hwhole
      exact ⟨_, .arrived, .up hrest⟩
    | cons step steps =>
      obtain ⟨rfl, hrest'⟩ := List.cons.inj hwhole
      obtain ⟨middle, hfirst, hsecond⟩ := ih hrest'
      exact ⟨middle, .up hfirst, hsecond⟩
  | into hlink hrest ih =>
    cases steps with
    | nil =>
      obtain rfl : steps' = _ := hwhole
      exact ⟨_, .arrived, .into hlink hrest⟩
    | cons step steps =>
      obtain ⟨rfl, hrest'⟩ := List.cons.inj hwhole
      obtain ⟨middle, hfirst, hsecond⟩ := ih hrest'
      exact ⟨middle, .into hlink hfirst, hsecond⟩
  | follow hlink hrest ih =>
    cases steps with
    | nil =>
      obtain rfl : steps' = _ := hwhole
      exact ⟨_, .arrived, .follow hlink hrest⟩
    | cons step steps =>
      obtain ⟨rfl, rfl⟩ := List.cons.inj hwhole
      obtain ⟨middle, hfirst, hsecond⟩ := ih (List.append_assoc ..)
      exact ⟨middle, .follow hlink hfirst, hsecond⟩

/-- Where a path leads depends on the links of the tree only. -/
theorem Leads.congr (hlinks : tree.link? = tree'.link?) (h : Leads tree place steps result) :
    Leads tree' place steps result := by
  induction h with
  | arrived => exact .arrived
  | up _ ih => exact .up ih
  | into hlink _ ih => exact .into (congrFun hlinks _ ▸ hlink) ih
  | follow hlink _ ih => exact .follow (congrFun hlinks _ ▸ hlink) ih

theorem Closed.congr (hlinks : tree.link? = tree'.link?) (h : Closed tree root) :
    Closed tree' root := by
  intro directory name target hdirectory hlink place hleads
  rw [← hlinks] at hlink
  exact h directory name target hdirectory hlink place (hleads.congr hlinks.symm)

/-- A tree is closed where the links below the root are relative and have no steps up. -/
theorem closed_of_plain (h : ∀ place target, root <+: place → tree.link? place = some target →
    target.absolute = false ∧ .up ∉ target.steps) : Closed tree root := by
  have hbelow : ∀ place steps result, Leads tree place steps result → root <+: place →
      .up ∉ steps → root <+: result := by
    intro place steps result hleads
    induction hleads with
    | arrived => exact fun hplace _ => hplace
    | up _ _ => exact fun _ hsteps => absurd List.mem_cons_self hsteps
    | into _ _ ih =>
      exact fun hplace hsteps => ih (hplace.trans (List.prefix_append _ _))
        fun hup => hsteps (List.mem_cons_of_mem _ hup)
    | follow hlink _ ih =>
      intro hplace hsteps
      obtain ⟨hrelative, hplain⟩ := h _ _ (hplace.trans (List.prefix_append _ _)) hlink
      refine ih (by rwa [Target.start, hrelative]) fun hup => ?_
      obtain hup | hup := List.mem_append.mp hup
      · exact hplain hup
      · exact hsteps (List.mem_cons_of_mem _ hup)
  intro directory name target hdirectory hlink place hleads
  obtain ⟨hrelative, hplain⟩ := h _ _ (hdirectory.trans (List.prefix_append _ _)) hlink
  exact hbelow _ _ _ hleads (by rwa [Target.start, hrelative]) hplain

/-- In a closed tree a path without steps up stays below the root. -/
theorem Closed.below (hclosed : Closed tree root) (hplace : root <+: place)
    (hsteps : .up ∉ steps) (h : Leads tree place steps result) : root <+: result := by
  induction steps generalizing place with
  | nil =>
    cases h
    exact hplace
  | cons step steps ih =>
    have hrest : .up ∉ steps := fun hup => hsteps (List.mem_cons_of_mem _ hup)
    cases h with
    | up h => exact absurd List.mem_cons_self hsteps
    | into hlink h => exact ih (hplace.trans (List.prefix_append _ _)) hrest h
    | follow hlink h =>
      obtain ⟨middle, htarget, hrest'⟩ := h.of_append
      exact ih (hclosed _ _ _ hplace hlink _ htarget) hrest hrest'

end

end DistPlatform.FileTree
