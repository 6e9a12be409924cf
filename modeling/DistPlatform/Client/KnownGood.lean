import DistPlatform.Client.Probation
import DistPlatform.Library.History

/-!
# Going back to known-good code (`dist-core-rs/src/install.rs`)

The pointer remembers one previous version. Whether that version ever ran is a matter of the
history: of what the pointer said before.

## Main definitions

* `Traced`, `traced` — the disk, with every pointer that was written to it.
* `KnownGood` — a rollback goes to a version that was confirmed, and prune keeps the last one.
* `LeavesKnownGood` — the activations that keep it so.
-/

namespace DistPlatform.Install

open Runs (System)
open History

/-- `log` holds the pointers that were written, newest first. -/
structure Traced (β ε : Type) where
  disk : Disk β ε
  log : List Pointer
  deriving DecidableEq

/-- The version was active and confirmed at some time. -/
def WasConfirmed (log : List Pointer) (version : String) : Prop :=
  ∃ pointer ∈ log, pointer.active = version ∧ pointer.health = .Confirmed

instance (log : List Pointer) (version : String) : Decidable (WasConfirmed log version) :=
  inferInstanceAs (Decidable (∃ pointer ∈ log, _ ∧ _))

/-- The version that was confirmed last while it was active. -/
def lastConfirmed : List Pointer → Option String :=
  latest fun pointer => if pointer.health = .Confirmed then some pointer.active else none

section Model

variable {β ε : Type} [DecidableEq ε] (text : JsonText β)

/-- The pointer a call writes. -/
def Call.written (disk : Disk β ε) : Call ε → Option Pointer
  | .run op _ => match newPointer text disk op with
    | some (.ok pointer) => some pointer
    | _ => none
  | .download _ _ => none

def Traced.perform (s : Traced β ε) (call : Call ε) : Traced β ε :=
  ⟨call.perform text s.disk, (call.written text s.disk).toList ++ s.log⟩

def Traced.empty : Traced β ε := ⟨.empty, []⟩

def traced : System (Traced β ε) (Call ε) :=
  .ofNext Traced.empty fun s call => some (s.perform text call)

/-- What a call does that goes back to a version, or that removes versions on probation. -/
structure KnownGood (s : Traced β ε) (call : Call ε) : Prop where
  rollback : ∀ op order pointer, call = .run op order → op = .rollback ∨ op = .beginLaunch →
    newPointer text s.disk op = some (.ok pointer) → pointer.health = .Confirmed →
    WasConfirmed s.log pointer.active
  prune : ∀ order pointer version, call = .run .prune order →
    readPointer text s.disk = .ok pointer → pointer.health = .Probation →
    lastConfirmed s.log = some version → hasSlot s.disk version →
    hasSlot (call.perform text s.disk) version

/-- An activation goes from a version that was confirmed, and the version confirmed last is one
of the two. -/
def LeavesKnownGood (s : Traced β ε) : Call ε → Prop
  | .run (.activate version) _ => ∀ old ∈ (readPointer text s.disk).toOption,
      old.active ≠ version → hasSlot s.disk version → WasConfirmed s.log old.active ∧
        (lastConfirmed s.log = some old.active ∨ lastConfirmed s.log = some version)
  | _ => True

instance (s : Traced β ε) : ∀ call, Decidable (LeavesKnownGood text s call)
  | .run (.activate version) _ => inferInstanceAs (Decidable
      (∀ old ∈ (readPointer text s.disk).toOption, old.active ≠ version →
        hasSlot s.disk version → WasConfirmed s.log old.active ∧
          (lastConfirmed s.log = some old.active ∨ lastConfirmed s.log = some version)))
  | .run (.stage _) _ | .run (.commitSlot _) _ | .run .confirmHealthy _ | .run .beginLaunch _
  | .run .rollback _ | .run .prune _ | .run .cleanStaging _ | .download _ _ => .isTrue trivial

end Model

/-! ## The invariant -/

section Invariant

variable {β ε : Type} [DecidableEq ε] {text : JsonText β} {s : Traced β ε}

/-- What the pointer remembers, against the history. -/
structure Remembers (text : JsonText β) (s : Traced β ε) : Prop where
  logged : ∀ pointer, readPointer text s.disk = .ok pointer → pointer ∈ s.log
  previous : ∀ pointer version, readPointer text s.disk = .ok pointer →
    pointer.previous = some version → WasConfirmed s.log version
  last : ∀ pointer, readPointer text s.disk = .ok pointer →
    ∃ version, lastConfirmed s.log = some version ∧ (version = pointer.active ∨
      pointer.health = .Probation ∧ pointer.previous = some version)

theorem WasConfirmed.cons {log : List Pointer} {version : String} (h : WasConfirmed log version)
    (pointer : Pointer) : WasConfirmed (pointer :: log) version := by
  obtain ⟨found, hfound, hversion⟩ := h
  exact ⟨found, List.mem_cons_of_mem _ hfound, hversion⟩

theorem lastConfirmed_cons (pointer : Pointer) (log : List Pointer) :
    lastConfirmed (pointer :: log) =
      if pointer.health = .Confirmed then some pointer.active else lastConfirmed log := by
  split
  next h => exact latest_cons_of_some (if_pos h)
  next h => exact latest_cons_of_none (if_neg h)

omit [DecidableEq ε] in
/-- A pointer that is written says what the history knows. -/
theorem Remembers.write (h : Remembers text s) {op : Op} {order : DirOrder ε} {pointer : Pointer}
    (hleaves : LeavesKnownGood text s (.run op order))
    (hwrites : Writes text s.disk op pointer) :
    (∀ version, pointer.previous = some version → WasConfirmed (pointer :: s.log) version) ∧
      ∃ version, lastConfirmed (pointer :: s.log) = some version ∧ (version = pointer.active ∨
        pointer.health = .Probation ∧ pointer.previous = some version) := by
  rw [lastConfirmed_cons]
  cases hwrites with
  | first => exact ⟨fun _ h => (by cases h), _, rfl, .inl rfl⟩
  | @activated old version read other slot =>
    obtain ⟨hconfirmed, hlast⟩ := hleaves old (by simp [read, Except.toOption]) other slot
    refine ⟨fun version hversion => ?_, ?_⟩
    · obtain rfl := Option.some.inj hversion
      exact hconfirmed.cons _
    · rw [if_neg (by simp)]
      obtain hlast | hlast := hlast
      · exact ⟨_, hlast, .inr ⟨rfl, rfl⟩⟩
      · exact ⟨_, hlast, .inl rfl⟩
  | confirmed read =>
    exact ⟨fun version hversion => (h.previous _ version read hversion).cons _, _, if_pos rfl,
      .inl rfl⟩
  | @launched old read left =>
    refine ⟨fun version hversion => (h.previous _ version read hversion).cons _, ?_⟩
    split
    · exact ⟨_, rfl, .inl rfl⟩
    · have hlast := h.last _ read
      exact hlast
  | rolledBack => exact ⟨fun _ h => (by cases h), _, if_pos rfl, .inl rfl⟩

omit [DecidableEq ε] in
theorem written_eq_none {disk : Disk β ε} {call : Call ε}
    (h : ∀ op order, call = .run op order → ∀ pointer,
      newPointer text disk op ≠ some (.ok pointer)) : call.written text disk = none := by
  cases call with
  | download => rfl
  | run op order =>
    simp only [Call.written]
    split
    next pointer hnew => exact absurd hnew (h op order rfl pointer)
    · rfl

theorem Remembers.perform (h : Remembers text s) {call : Call ε}
    (hleaves : LeavesKnownGood text s call) : Remembers text (s.perform text call) := by
  have hsame (hread : readPointer text (call.perform text s.disk) = readPointer text s.disk)
      (hnone : call.written text s.disk = none) : Remembers text (s.perform text call) := by
    have hlog : (s.perform text call).log = s.log := by simp [Traced.perform, hnone]
    refine ⟨fun pointer hpointer => ?_, fun pointer version hpointer => ?_,
      fun pointer hpointer => ?_⟩
    · exact hlog ▸ h.logged pointer (hread ▸ hpointer)
    · exact hlog ▸ h.previous pointer version (hread ▸ hpointer)
    · exact hlog ▸ h.last pointer (hread ▸ hpointer)
  have heffect := @perform_effect β ε _ text s.disk call
  generalize hafter : call.perform text s.disk = disk' at heffect
  cases heffect with
  | @wrote op order pointer new read slots =>
    have hlog : (s.perform text (.run op order)).log = pointer :: s.log := by
      simp [Traced.perform, Call.written, new]
    have hdisk {current : Pointer} (hcurrent : readPointer text
        (s.perform text (.run op order)).disk = .ok current) : current = pointer := by
      change readPointer text ((Call.run op order).perform text s.disk) = .ok current at hcurrent
      rw [hafter, read] at hcurrent
      exact (Except.ok.inj hcurrent).symm
    obtain ⟨hprevious, hlast⟩ := h.write hleaves (writes_of_newPointer new)
    refine ⟨fun current hcurrent => ?_, fun current version hcurrent hversion => ?_,
      fun current hcurrent => ?_⟩
    · rw [hdisk hcurrent, hlog]
      exact List.mem_cons_self
    · rw [hdisk hcurrent] at hversion
      exact hlog ▸ hprevious version hversion
    · rw [hdisk hcurrent, hlog]
      exact hlast
  | kept none read => exact hsame (hafter ▸ read) (written_eq_none none)
  | pruned read same => exact hsame (hafter ▸ same.trans read.symm) rfl

theorem remembers_inductive (text : JsonText β) :
    ((traced (ε := ε) text).when (LeavesKnownGood text)).Inductive (fun _ => True)
      (Remembers text) where
  start s hs := by
    obtain rfl : s = Traced.empty := hs
    refine ⟨fun _ h => ?_, fun _ _ h => ?_, fun _ h => ?_⟩ <;> cases h
  step s call s' _ h hstep := Option.some.inj hstep.2 ▸ h.perform hstep.1

/-- What the pointer remembers is what a rollback and prune go by. -/
theorem Remembers.knownGood (h : Remembers text s) (call : Call ε) : KnownGood text s call := by
  refine ⟨?rollback, ?prune⟩
  case rollback =>
    rintro op order pointer rfl hop hnew hhealth
    cases writes_of_newPointer hnew with
    | first => obtain hop | hop := hop <;> cases hop
    | activated => cases hhealth
    | confirmed _ how =>
      obtain rfl | rfl := how <;> obtain hop | hop := hop <;> cases hop
    | @launched old read => exact ⟨old, h.logged old read, rfl, hhealth⟩
    | rolledBack read _ previous => exact h.previous _ _ read previous
  case prune =>
    rintro order pointer version rfl hread hhealth hlast hslot
    obtain ⟨version', hlast', hversion⟩ := h.last pointer hread
    obtain rfl := Option.some.inj (hlast.symm.trans hlast')
    have heffect := @perform_effect β ε _ text s.disk (.run .prune order)
    generalize (Call.run .prune order).perform text s.disk = disk' at heffect ⊢
    cases heffect with
    | wrote new => cases new
    | kept _ _ slots => exact slots _ hslot
    | pruned read _ active previous =>
      obtain rfl := Except.ok.inj (read.symm.trans hread)
      obtain rfl | ⟨-, hprevious⟩ := hversion
      · exact active hslot
      · exact previous _ hprevious hslot

end Invariant

/-! ## The result -/

/-- Stage, commit and activate a version. -/
def install (version : String) : List (Call String) :=
  [.run (.stage version) listed, .run (.commitSlot version) listed,
    .run (.activate version) listed]

/-- The end of a run. -/
def tracedEnd (calls : List (Call String)) : Option (Traced Json String) :=
  System.exec (fun s call => some (s.perform plainText call)) calls Traced.empty

/-- 1.0 is active, 1.1 on probation over it. -/
def overConfirmed : Traced Json String where
  disk :=
    { pointer := some (Pointer.toJson ⟨"1.1", some "1.0", .Probation, 0⟩)
      temp := none
      slots := [("1.1", []), ("1.0", [])]
      staging := [] }
  log := [⟨"1.1", some "1.0", .Probation, 0⟩, .first "1.0"]

/-- 1.2 on probation over 1.1, which never ran. -/
def overProbation : Traced Json String where
  disk :=
    { pointer := some (Pointer.toJson ⟨"1.2", some "1.1", .Probation, 0⟩)
      temp := none
      slots := [("1.2", []), ("1.1", []), ("1.0", [])]
      staging := [] }
  log := [⟨"1.2", some "1.1", .Probation, 0⟩, ⟨"1.1", some "1.0", .Probation, 0⟩, .first "1.0"]

/-- In every run whose activations leave known-good code behind, every call keeps to it. -/
theorem known_good {β ε : Type} [DecidableEq ε] (text : JsonText β) {s : Traced β ε}
    (hs : ((traced text).when (LeavesKnownGood text)).Reachable s) (call : Call ε) :
    KnownGood text s call :=
  ((remembers_inductive text).holds (fun _ _ => trivial) hs).knownGood call

theorem known_good_upgrade :
    tracedEnd (install "1.0" ++ install "1.1") = some overConfirmed ∧
      KnownGood plainText overConfirmed (.run .rollback listed) := by
  have hexec : System.exec (fun s call => if LeavesKnownGood plainText s call then
      some (s.perform plainText call) else none) (install "1.0" ++ install "1.1") Traced.empty =
        some overConfirmed := by
    decide +kernel
  exact ⟨System.exec_of_when hexec,
    known_good plainText (System.reachable_exec_when (.start rfl) hexec) _⟩

/-- A second update before the first one is confirmed: a rollback marks 1.1 as confirmed. -/
theorem rollback_to_unconfirmed :
    ¬ ∀ s : Traced Json String, (traced plainText).Reachable s → ∀ call,
      KnownGood plainText s call := by
  intro hclaim
  have hexec : tracedEnd (install "1.0" ++ install "1.1" ++ install "1.2") =
      some overProbation := by
    decide +kernel
  have hgood := hclaim overProbation (System.reachable_exec (.start rfl) hexec)
    (.run .rollback listed)
  have hconfirmed := hgood.rollback .rollback listed ⟨"1.1", none, .Confirmed, 0⟩ rfl (.inl rfl)
    (by decide +kernel) rfl
  exact absurd hconfirmed (by decide)

end DistPlatform.Install
