import DistPlatform.Client.Installer
import Mathlib.Data.List.Basic

/-!
# Installing across crashes

A run of the installer is a sequence of operations, each of which may be killed after any
number of its file-system steps, while downloads fill staging directories in between. The
state remembers what every `commit_slot` gave a version, and which slots a removal has begun
to take apart.

## Main definitions

* `State`, `system` — the disk with that memory, and its runs.
* `Usable` — there is no pointer, or it parses and its slot is as some commit gave it.
* `careful` — the steps that keep an installation usable.
-/

namespace DistPlatform.Install

open Runs (System)

/-- `committed` holds every version with the contents a `commit_slot` gave it; `damaged` the
versions whose slot has lost entries to a removal since. -/
structure State (β ε : Type) where
  disk : Disk β ε
  committed : List (String × List ε)
  damaged : List String
  deriving DecidableEq, Repr

section Model

variable {β ε : Type} [DecidableEq ε] (text : JsonText β)

def State.exec (s : State β ε) (step : FsStep β ε) : State β ε :=
  { disk := step.exec s.disk
    committed := match step with
      | .renameToSlot version =>
        s.committed ++ ((s.disk.staging.get version).map (version, ·)).toList
      | _ => s.committed
    damaged := match step with
      | .removeSlotEntry version _ => s.damaged.insert version
      | .removeSlot version => s.damaged.filter (· ≠ version)
      | .renameToSlot version =>
        if (s.disk.staging.get version).isSome then s.damaged.filter (· ≠ version) else s.damaged
      | _ => s.damaged }

def State.execAll (s : State β ε) (steps : List (FsStep β ε)) : State β ε :=
  steps.foldl State.exec s

/-- An operation, killed once `cut` of its steps are made (or finished, if it has no more), or
a download that puts entries into a staging directory. -/
inductive Action (ε : Type)
  | op (op : Op) (order : DirOrder ε) (cut : Nat)
  | download (version : String) (entries : List ε)

def stepsOf (s : State β ε) (op : Op) (order : DirOrder ε) : List (FsStep β ε) :=
  match plan text order s.disk op with
  | .ok steps => steps
  | .error _ => []

def next (s : State β ε) : Action ε → Option (State β ε)
  | .op op order cut => some (s.execAll ((stepsOf text s op order).take cut))
  | .download version entries =>
    if (s.disk.staging.get version).isSome then
      some { s with disk := { s.disk with staging := s.disk.staging.put version entries } }
    else none

def State.empty : State β ε := ⟨⟨none, none, [], []⟩, [], []⟩

def system : System (State β ε) (Action ε) := .ofNext State.empty (next text)

/-- The version the pointer names, where there is a pointer to read. -/
def activeVersion (s : State β ε) : Option String :=
  match readPointer text s.disk with
  | .ok pointer => some pointer.active
  | .error _ => none

/-- The installation can be launched: the slot of the active version has exactly the contents
that some commit of that version gave it. -/
def Usable (s : State β ε) : Prop :=
  s.disk.pointer = none ∨
    ∃ pointer entries, readPointer text s.disk = .ok pointer ∧
      s.disk.slots.get pointer.active = some entries ∧ (pointer.active, entries) ∈ s.committed

/-- What the source leaves open. A `commit_slot` of the active version must not be killed
between its first removal and its rename; and no operation may switch to a version whose slot
a killed removal has left partial. -/
def careful (s : State β ε) : Action ε → Bool
  | .op (.commitSlot version) order cut =>
    activeVersion text s != some version || cut ≤ 1 ||
      (stepsOf text s (.commitSlot version) order).length ≤ cut
  | .op op _ _ => match newPointer text s.disk op with
    | some (.ok pointer) =>
      activeVersion text s == some pointer.active || !s.damaged.contains pointer.active
    | _ => true
  | .download _ _ => true

/-! ## Slots are damaged or as committed -/

/-- A slot that no removal has begun to take apart is as a commit left it. -/
def SlotsCommitted (s : State β ε) : Prop :=
  ∀ version entries, s.disk.slots.get version = some entries → version ∉ s.damaged →
    (version, entries) ∈ s.committed

end Model

section Slots

variable {β ε : Type} [DecidableEq ε] {text : JsonText β} {s : State β ε}

theorem get_removeEntry {dirs : Table String (List ε)} {version other : String} {entry : ε}
    (h : other ≠ version) : (removeEntry dirs version entry).get other = dirs.get other := by
  unfold removeEntry
  split
  · rfl
  · exact Table.get_put_of_ne _ _ h

/-- Whatever the step, an undamaged slot stays as some commit left it. -/
theorem SlotsCommitted.exec (h : SlotsCommitted s) (step : FsStep β ε) :
    SlotsCommitted (s.exec step) := by
  intro version entries hget hdam
  cases step with
  | createDirs | createStaging | removeStagingEntry | removeStaging | openTemp | writeTemp =>
    exact h version entries hget hdam
  | renameTemp =>
    refine h version entries ?_ hdam
    simp only [State.exec, FsStep.exec] at hget
    split at hget <;> exact hget
  | removeSlotEntry other entry =>
    simp only [State.exec, List.mem_insert_iff, not_or] at hdam
    simp only [State.exec, FsStep.exec, get_removeEntry hdam.1] at hget
    exact h version entries hget hdam.2
  | removeSlot other =>
    simp only [State.exec, FsStep.exec, Table.get_erase] at hget
    split at hget
    · cases hget
    next hne =>
      refine h version entries hget fun hmem => hdam ?_
      simpa [State.exec, hne] using hmem
  | renameToSlot other =>
    simp only [State.exec, FsStep.exec] at hget hdam ⊢
    cases hstaged : s.disk.staging.get other with
    | none =>
      simp only [hstaged] at hget hdam
      simpa using h version entries hget hdam
    | some given =>
      simp only [hstaged, Table.get_put] at hget
      simp only [hstaged, Option.isSome_some, if_true, List.mem_filter, decide_eq_true_eq,
        not_and, not_not] at hdam
      split at hget
      next heq =>
        obtain rfl := Option.some.inj hget
        simp [heq]
      next hne =>
        exact List.mem_append_left _ (h version entries hget fun hmem => hne (hdam hmem))

theorem SlotsCommitted.execAll (h : SlotsCommitted s) (steps : List (FsStep β ε)) :
    SlotsCommitted (s.execAll steps) := by
  induction steps generalizing s with
  | nil => exact h
  | cons step steps ih => exact ih (h.exec step)

theorem slotsCommitted_inductive (text : JsonText β) :
    (system (ε := ε) text).Inductive (fun _ => True) SlotsCommitted where
  start s hs := by
    obtain rfl : s = State.empty := hs
    exact fun version entries hget => by simp [State.empty, Table.get] at hget
  step s a s' _ h hstep := by
    have hnext : next text s a = some s' := hstep
    cases a with
    | op op order cut =>
      simp only [next] at hnext
      obtain rfl := Option.some.inj hnext
      exact h.execAll _
    | download version entries =>
      simp only [next] at hnext
      split at hnext
      · obtain rfl := Option.some.inj hnext
        exact h
      · cases hnext

end Slots

/-! ## The pointer names a slot that is not damaged -/

section Pointer

variable {β ε : Type} [DecidableEq ε] {text : JsonText β} {s : State β ε}

/-- There is no pointer, or it parses and names a slot that no removal has begun to take
apart. -/
def PointerOk (text : JsonText β) (s : State β ε) : Prop :=
  s.disk.pointer = none ∨ ∃ pointer, readPointer text s.disk = .ok pointer ∧
    hasSlot s.disk pointer.active ∧ pointer.active ∉ s.damaged

/-- A step that leaves the pointer alone, and the slot of the active version. -/
def Spares (active : Option String) : FsStep β ε → Prop
  | .removeSlotEntry version _ | .removeSlot version | .renameToSlot version =>
    active ≠ some version
  | .renameTemp => False
  | _ => True

theorem pointer_exec_of_spares {active : Option String} {step : FsStep β ε}
    (h : Spares active step) : (s.exec step).disk.pointer = s.disk.pointer := by
  cases step <;> first | exact h.elim | rfl | skip
  simp only [State.exec, FsStep.exec]
  split <;> rfl

theorem slot_exec_of_spares {active : String} {step : FsStep β ε}
    (h : Spares (some active) step) :
    (s.exec step).disk.slots.get active = s.disk.slots.get active ∧
      (active ∈ (s.exec step).damaged ↔ active ∈ s.damaged) := by
  have hne {version : String} (hv : some active ≠ some version) : active ≠ version :=
    fun heq => hv (congrArg some heq)
  cases step with
  | createDirs | createStaging | removeStagingEntry | removeStaging | openTemp | writeTemp =>
    exact ⟨rfl, Iff.rfl⟩
  | renameTemp => exact h.elim
  | removeSlotEntry version entry =>
    exact ⟨get_removeEntry (hne h), by simp [State.exec, hne h]⟩
  | removeSlot version =>
    exact ⟨Table.get_erase_of_ne _ (hne h), by simp [State.exec, hne h]⟩
  | renameToSlot version =>
    simp only [State.exec, FsStep.exec]
    cases hstaged : s.disk.staging.get version with
    | none => simp
    | some given => simp [Table.get_put_of_ne _ _ (hne h), hne h]

/-- One sparing step keeps what the pointer names. -/
theorem PointerOk.exec (h : PointerOk text s) {step : FsStep β ε}
    (hs : Spares (activeVersion text s) step) :
    PointerOk text (s.exec step) ∧ activeVersion text (s.exec step) = activeVersion text s := by
  have hpointer := pointer_exec_of_spares (s := s) hs
  have hread := @readPointer_congr _ _ text _ _ hpointer
  refine ⟨?_, by simp only [activeVersion, hread]⟩
  obtain hnone | ⟨pointer, hok, hslot, hdam⟩ := h
  · exact .inl (hpointer.trans hnone)
  · have hs' : Spares (some pointer.active) step := by
      simpa only [activeVersion, hok] using hs
    obtain ⟨hget, hmem⟩ := slot_exec_of_spares (s := s) hs'
    exact .inr ⟨pointer, hread.trans hok, by simpa only [hasSlot, hget] using hslot,
      fun hin => hdam (hmem.mp hin)⟩

theorem PointerOk.execAll (h : PointerOk text s) {steps : List (FsStep β ε)}
    (hs : ∀ step ∈ steps, Spares (activeVersion text s) step) :
    PointerOk text (s.execAll steps) := by
  induction steps generalizing s with
  | nil => exact h
  | cons step steps ih =>
    obtain ⟨hok, hactive⟩ := h.exec (hs step List.mem_cons_self)
    refine ih hok fun step' hstep' => ?_
    rw [hactive]
    exact hs step' (List.mem_cons_of_mem _ hstep')

/-- However early a sequence of sparing steps is killed. -/
theorem PointerOk.killed (h : PointerOk text s) {steps : List (FsStep β ε)}
    (hs : ∀ step ∈ steps, Spares (activeVersion text s) step) (cut : Nat) :
    PointerOk text (s.execAll (steps.take cut)) :=
  h.execAll fun step hstep => hs step (List.mem_of_mem_take hstep)

end Pointer

/-! ## What each operation does to the pointer and its slot -/

section Operations

variable {β ε : Type} {order : DirOrder ε}

theorem spares_removeStagingAll {active : Option String} {version : String} {entries : List ε}
    {step : FsStep β ε} (h : step ∈ removeStagingAll order version entries) :
    Spares active step := by
  rw [removeStagingAll, List.mem_append, List.mem_map, List.mem_singleton] at h
  obtain ⟨entry, -, rfl⟩ | rfl := h <;> trivial

theorem spares_removeSlotAll {active : Option String} {version : String} {entries : List ε}
    (hne : active ≠ some version) {step : FsStep β ε}
    (h : step ∈ removeSlotAll order version entries) : Spares active step := by
  rw [removeSlotAll, List.mem_append, List.mem_map, List.mem_singleton] at h
  obtain ⟨entry, -, rfl⟩ | rfl := h <;> exact hne

theorem spares_stageSteps {active : Option String} {disk : Disk β ε} {version : String}
    {step : FsStep β ε} (h : step ∈ stageSteps order disk version) : Spares active step := by
  rw [stageSteps, List.mem_append, List.mem_singleton] at h
  obtain h | rfl := h
  · split at h
    · exact spares_removeStagingAll h
    · cases h
  · trivial

theorem spares_cleanSteps {active : Option String} {disk : Disk β ε} {step : FsStep β ε}
    (h : step ∈ cleanSteps order disk) : Spares active step := by
  obtain ⟨⟨version, entries⟩, -, hstep⟩ := List.mem_flatMap.mp h
  exact spares_removeStagingAll hstep

theorem spares_pruneSteps {disk : Disk β ε} {pointer : Pointer} {step : FsStep β ε}
    (h : step ∈ pruneSteps order disk pointer) : Spares (some pointer.active) step := by
  obtain ⟨name, hname, hstep⟩ := List.mem_flatMap.mp h
  have hkept := (List.mem_filter.mp hname).2
  refine spares_removeSlotAll (fun heq => ?_) hstep
  simp [Option.some.inj heq] at hkept

theorem spares_commitSteps {active : Option String} {disk : Disk β ε} {version : String}
    (hne : active ≠ some version) {step : FsStep β ε}
    (h : step ∈ commitSteps order disk version) : Spares active step := by
  rw [commitSteps, List.mem_cons, List.mem_append, List.mem_singleton] at h
  obtain rfl | h | rfl := h
  · trivial
  · split at h
    · exact spares_removeSlotAll hne h
    · cases h
  · exact hne

variable [DecidableEq ε] {text : JsonText β} {s : State β ε}

/-- Steps that only remove from slots. -/
def OnlySlots : FsStep β ε → Prop
  | .createDirs | .removeSlotEntry _ _ | .removeSlot _ => True
  | _ => False

theorem execAll_onlySlots {steps : List (FsStep β ε)} (h : ∀ step ∈ steps, OnlySlots step) :
    (s.execAll steps).disk.pointer = s.disk.pointer ∧
      (s.execAll steps).disk.staging = s.disk.staging := by
  induction steps generalizing s with
  | nil => exact ⟨rfl, rfl⟩
  | cons step steps ih =>
    obtain ⟨hpointer, hstaging⟩ :=
      ih (s := s.exec step) fun step' hstep' => h step' (List.mem_cons_of_mem _ hstep')
    have hstep := h step List.mem_cons_self
    cases step <;> first | exact hstep.elim | exact ⟨hpointer, hstaging⟩

omit [DecidableEq ε] in
/-- `commit_slot` removes an existing slot and then renames. -/
theorem commitSteps_eq (order : DirOrder ε) (disk : Disk β ε) (version : String) :
    ∃ removals, commitSteps order disk version = removals ++ [.renameToSlot version] ∧
      ∀ step ∈ removals, OnlySlots step := by
  unfold commitSteps
  cases disk.slots.get version with
  | none => exact ⟨[.createDirs], rfl, by simp [OnlySlots]⟩
  | some entries =>
    refine ⟨.createDirs :: removeSlotAll order version entries, rfl, fun step hstep => ?_⟩
    obtain rfl | hstep := List.mem_cons.mp hstep
    · trivial
    · rw [removeSlotAll, List.mem_append, List.mem_map, List.mem_singleton] at hstep
      obtain ⟨entry, -, rfl⟩ | rfl := hstep <;> trivial

/-- A `commit_slot` that runs to its end replaces the slot, the active one too. -/
theorem pointerOk_committed {version : String}
    (hactive : activeVersion text s = some version)
    (hstaged : (s.disk.staging.get version).isSome) :
    PointerOk text (s.execAll (commitSteps order s.disk version)) := by
  obtain ⟨given, hgiven⟩ := Option.isSome_iff_exists.mp hstaged
  obtain ⟨removals, hsplit, honly⟩ := commitSteps_eq order s.disk version
  obtain ⟨hpointer, hstaging⟩ := execAll_onlySlots (s := s) honly
  have hread := @readPointer_congr _ _ text _ _ hpointer
  have hfinal : s.execAll (commitSteps order s.disk version) =
      (s.execAll removals).exec (.renameToSlot version) := by
    rw [hsplit, State.execAll, List.foldl_append]
    rfl
  have hrename : (s.execAll removals).disk.staging.get version = some given := by
    rw [hstaging, hgiven]
  simp only [activeVersion] at hactive
  split at hactive
  next pointer hok =>
    obtain rfl := Option.some.inj hactive
    refine .inr ⟨pointer, ?_, ?_, ?_⟩
    · rw [hfinal]
      simpa only [readPointer, State.exec, FsStep.exec, hrename] using hread.trans hok
    · simp [hfinal, hasSlot, State.exec, FsStep.exec, hrename]
    · simp [hfinal, State.exec, hrename]
  · cases hactive

/-- Writing the pointer, killed or not, to a slot that is there and undamaged. -/
theorem PointerOk.written (h : PointerOk text s) {pointer : Pointer}
    (hslot : hasSlot s.disk pointer.active) (hdam : pointer.active ∉ s.damaged) (cut : Nat) :
    PointerOk text (s.execAll ((writePointer text pointer).take cut)) := by
  match cut with
  | 0 => exact h
  | 1 | 2 | 3 => exact h
  | cut + 4 =>
    have hall : (writePointer text pointer).take (cut + 4) = writePointer (ε := ε) text pointer :=
      List.take_of_length_le (by simp [writePointer])
    rw [hall]
    refine .inr ⟨pointer, ?_, hslot, hdam⟩
    simp [writePointer, State.execAll, State.exec, FsStep.exec, readPointer,
      text.parse_print _ pointer.distinctNames_toJson, Pointer.ofJson_toJson]

end Operations

/-! ## Runs -/

section Runs

variable {β ε : Type} {text : JsonText β}

/-- The condition on an operation that writes the pointer. -/
theorem careful_pointer {s : State β ε} {op : Op} {order : DirOrder ε} {cut : Nat}
    {pointer : Pointer} (hcareful : careful text s (.op op order cut) = true)
    (h : newPointer text s.disk op = some (.ok pointer)) :
    activeVersion text s = some pointer.active ∨ pointer.active ∉ s.damaged := by
  cases op with
  | stage | commitSlot | prune | cleanStaging => cases h
  | activate | confirmHealthy | beginLaunch | rollback => simpa [careful, h] using hcareful

variable [DecidableEq ε]

/-- The pointer is written, killed or not. -/
theorem PointerOk.write {s : State β ε} (h : PointerOk text s) {op : Op} {order : DirOrder ε}
    {cut : Nat} {pointer : Pointer} (hcareful : careful text s (.op op order cut) = true)
    (hpointer : newPointer text s.disk op = some (.ok pointer)) :
    PointerOk text (s.execAll ((writePointer text pointer).take cut)) := by
  -- what the pointer named until now is there and undamaged
  have hkept {old : Pointer} (hold : readPointer text s.disk = .ok old) :
      hasSlot s.disk old.active ∧ old.active ∉ s.damaged := by
    obtain hnone | ⟨current, hcurrent, hslot, hdam⟩ := h
    · simp [readPointer, hnone] at hold
    · obtain rfl := Except.ok.inj (hcurrent.symm.trans hold)
      exact ⟨hslot, hdam⟩
  have hslot : hasSlot s.disk pointer.active := by
    obtain hslot | ⟨old, hold, hsame⟩ := newPointer_active hpointer
    · exact hslot
    · exact hsame ▸ (hkept hold).1
  refine h.written hslot ?_ cut
  obtain hactive | hdam := careful_pointer hcareful hpointer
  · simp only [activeVersion] at hactive
    split at hactive
    next old hold => exact Option.some.inj hactive ▸ (hkept hold).2
    · cases hactive
  · exact hdam

/-- A `commit_slot` of the active version, killed before its removals or not at all. -/
theorem PointerOk.commitActive {s : State β ε} (h : PointerOk text s) {version : String}
    {order : DirOrder ε} {cut : Nat} (hactive : activeVersion text s = some version)
    (hstaged : (s.disk.staging.get version).isSome)
    (hcut : cut ≤ 1 ∨ (commitSteps order s.disk version).length ≤ cut) :
    PointerOk text (s.execAll ((commitSteps order s.disk version).take cut)) := by
  obtain hcut | hcut := hcut
  · match cut, hcut with
    | 0, _ => exact h
    | 1, _ => exact h
  · rw [List.take_of_length_le hcut]
    exact pointerOk_committed hactive hstaged

/-- One operation, killed anywhere that is careful. -/
theorem PointerOk.op {s : State β ε} (h : PointerOk text s) {op : Op} {order : DirOrder ε}
    {cut : Nat} (hcareful : careful text s (.op op order cut) = true) :
    PointerOk text (s.execAll ((stepsOf text s op order).take cut)) := by
  -- an operation that refuses makes no step
  have hnone : PointerOk text (s.execAll []) := h
  have hpointers (r : Except InstallError Pointer) (hr : newPointer text s.disk op = some r)
      (hsteps : plan text order s.disk op = r.map (writePointer text)) :
      PointerOk text (s.execAll ((stepsOf text s op order).take cut)) := by
    rcases r with e | pointer
    · simpa only [stepsOf, hsteps, Except.map, List.take_nil] using hnone
    · simpa only [stepsOf, hsteps, Except.map] using h.write hcareful hr
  cases op with
  | stage version =>
    simp only [stepsOf, plan]
    split
    next steps hsteps =>
      split at hsteps
      · exact Except.ok.inj hsteps ▸ h.killed (fun step hstep => spares_stageSteps hstep) cut
      · cases hsteps
    · simpa only [List.take_nil] using hnone
  | commitSlot version =>
    rcases hplan : plan text order s.disk (.commitSlot version) with e | steps
    · simpa only [stepsOf, hplan, List.take_nil] using hnone
    simp only [careful, stepsOf, hplan] at hcareful ⊢
    obtain ⟨hstaged, rfl⟩ := plan_commitSlot hplan
    by_cases hactive : activeVersion text s = some version
    · refine h.commitActive hactive hstaged ?_
      simpa [hactive] using hcareful
    · exact h.killed (fun step hstep => spares_commitSteps hactive hstep) cut
  | prune =>
    simp only [stepsOf, plan]
    cases hread : readPointer text s.disk with
    | error e => simpa only [List.take_nil] using hnone
    | ok pointer =>
      refine h.killed (fun step hstep => ?_) cut
      simpa only [activeVersion, hread] using spares_pruneSteps hstep
  | cleanStaging => exact h.killed (fun step hstep => spares_cleanSteps hstep) cut
  | activate version =>
    refine hpointers _ rfl ?_
    simp only [plan, newPointer]
    cases activated text s.disk version <;> rfl
  | confirmHealthy =>
    refine hpointers _ rfl ?_
    simp only [plan, newPointer]
    cases confirmed text s.disk <;> rfl
  | beginLaunch =>
    refine hpointers _ rfl ?_
    simp only [plan, newPointer]
    cases launched text s.disk <;> rfl
  | rollback =>
    refine hpointers _ rfl ?_
    simp only [plan, newPointer]
    cases rolledBack text s.disk <;> rfl

/-- The careful steps keep the pointer on an undamaged slot. -/
theorem pointerOk_inductive (text : JsonText β) :
    ((system (ε := ε) text).when fun s a => careful text s a = true).Inductive
      (fun _ => True) (PointerOk text) where
  start s hs := by
    obtain rfl : s = State.empty := hs
    exact .inl rfl
  step s a s' _ h hstep := by
    obtain ⟨hcareful, hnext⟩ := hstep
    have hnext : next text s a = some s' := hnext
    cases a with
    | op op order cut =>
      simp only [next] at hnext
      exact Option.some.inj hnext ▸ h.op hcareful
    | download version entries =>
      simp only [next] at hnext
      split at hnext
      · exact Option.some.inj hnext ▸ h
      · cases hnext

end Runs

/-! ## The main result -/

/-- Files that hold the JSON value itself. -/
def plainText : JsonText Json := ⟨id, some, fun _ _ => rfl⟩

/-- A directory listed in the order its entries were made. -/
def listed : DirOrder String := ⟨id, id⟩

/-- Install 1.0, then 1.1, each step to its end. -/
def upgrade : List (Action String) :=
  [.op (.stage "1.0") listed 9, .download "1.0" ["viewer.exe", "viewer.dll"],
    .op (.commitSlot "1.0") listed 9, .op (.activate "1.0") listed 9,
    .op (.stage "1.1") listed 9, .download "1.1" ["viewer.exe"],
    .op (.commitSlot "1.1") listed 9, .op (.activate "1.1") listed 2,
    .op .beginLaunch listed 9]

/-- 1.1 is there, but the activation was killed: 1.0 is launched. -/
def upgraded : State Json String where
  disk :=
    { pointer := some (Pointer.toJson ⟨"1.0", none, .Confirmed, 1⟩)
      temp := none
      slots := [("1.1", ["viewer.exe"]), ("1.0", ["viewer.exe", "viewer.dll"])]
      staging := [] }
  committed := [("1.0", ["viewer.exe", "viewer.dll"]), ("1.1", ["viewer.exe"])]
  damaged := []

/-- Install 1.0, then stage it again and be killed in the middle of the `remove_dir_all` that
`commit_slot` makes. -/
def killedRecommit : List (Action String) :=
  [.op (.stage "1.0") listed 9, .download "1.0" ["viewer.exe", "viewer.dll"],
    .op (.commitSlot "1.0") listed 9, .op (.activate "1.0") listed 9,
    .op (.stage "1.0") listed 9, .download "1.0" ["viewer.exe", "viewer.dll"],
    .op (.commitSlot "1.0") listed 2]

/-- What the kill leaves: 1.0 is active, and its slot has lost a file. -/
def afterKill : State Json String where
  disk :=
    { pointer := some (Pointer.first "1.0").toJson
      temp := none
      slots := [("1.0", ["viewer.dll"])]
      staging := [("1.0", ["viewer.exe", "viewer.dll"])] }
  committed := [("1.0", ["viewer.exe", "viewer.dll"])]
  damaged := ["1.0"]

/-- As long as no `commit_slot` of the active version is killed between its first removal and
its rename, and no operation switches to a slot that a killed removal left partial, every
interruption leaves an install that can be launched. -/
theorem usable_of_careful {β ε : Type} [DecidableEq ε] (text : JsonText β) {s : State β ε}
    (hs : ((system text).when fun s a => careful text s a = true).Reachable s) :
    Usable text s := by
  have hslots := (slotsCommitted_inductive text).holds (fun _ _ => trivial)
    (System.Reachable.of_when hs)
  obtain hnone | ⟨pointer, hread, hslot, hdam⟩ :=
    (pointerOk_inductive text).holds (fun _ _ => trivial) hs
  · exact .inl hnone
  · obtain ⟨entries, hentries⟩ := Option.isSome_iff_exists.mp hslot
    exact .inr ⟨pointer, entries, hread, hentries, hslots _ _ hentries hdam⟩

theorem usable_of_careful_upgrade :
    System.exec (next plainText) upgrade State.empty = some upgraded ∧
      Usable plainText upgraded := by
  have hexec : System.exec (fun s a => if careful plainText s a = true then next plainText s a
      else none) upgrade State.empty = some upgraded := by
    decide +kernel
  refine ⟨System.exec_of_when hexec, ?_⟩
  exact usable_of_careful plainText (System.reachable_exec_when (.start rfl) hexec)

/-- The re-commit leaves the pointer on a slot that has lost a file no commit left out. -/
theorem killed_recommit_unusable :
    System.exec (next plainText) killedRecommit State.empty = some afterKill ∧
      (system plainText).Reachable afterKill ∧ ¬ Usable plainText afterKill := by
  have hexec : System.exec (next plainText) killedRecommit State.empty = some afterKill := rfl
  refine ⟨hexec, System.reachable_exec (.start rfl) hexec, ?_⟩
  rintro (hnone | ⟨pointer, entries, hread, hentries, hcommitted⟩)
  · cases hnone
  · have hfirst : readPointer plainText afterKill.disk = .ok (Pointer.first "1.0") := rfl
    obtain rfl := Except.ok.inj (hfirst.symm.trans hread)
    have hlost : afterKill.disk.slots.get "1.0" = some ["viewer.dll"] := rfl
    obtain rfl := Option.some.inj (hlost.symm.trans hentries)
    exact absurd hcommitted (by decide)

end DistPlatform.Install
