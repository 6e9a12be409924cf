import DistPlatform.Client.CrashSafety

/-!
# Probation (`dist-core-rs/src/install.rs`)

Operations that run to their end. A version that is activated over another one is on
probation, and the other one stays where a rollback finds it.

## Main definitions

* `Call`, `undisturbed` — whole operations, and downloads between them.
* `Effect` — what an operation does to the pointer and the slots.
* `WayBack` — the active version is there, and on probation so is another one.
* `launches` — what the launcher is told to start.
-/

namespace DistPlatform.Install

open Runs (System)

inductive Call (ε : Type)
  | run (op : Op) (order : DirOrder ε)
  | download (version : String) (entries : List ε)

section Model

variable {β ε : Type} [DecidableEq ε] (text : JsonText β)

/-- A call runs to its end; one that is refused leaves the disk as it is. -/
def Call.perform (disk : Disk β ε) : Call ε → Disk β ε
  | .run op order => match plan text order disk op with
    | .ok steps => steps.foldl FsStep.exec disk
    | .error _ => disk
  | .download version entries =>
    if (disk.staging.get version).isSome then
      { disk with staging := disk.staging.put version entries }
    else disk

def Disk.empty : Disk β ε := ⟨none, none, [], []⟩

def undisturbed : System (Disk β ε) (Call ε) :=
  .ofNext Disk.empty fun disk call => some (call.perform text disk)

/-- What a `begin_launch` returns. -/
def Call.launch (disk : Disk β ε) : Call ε → List (Except InstallError String)
  | .run .beginLaunch _ => [launchResult text disk]
  | _ => []

/-- What the launcher is told by the calls of a run, in order. -/
def launches : List (Call ε) → Disk β ε → List (Except InstallError String)
  | [], _ => []
  | call :: calls, disk => call.launch text disk ++ launches calls (call.perform text disk)

/-- What a call does to the pointer and to the slots. -/
inductive Effect (disk disk' : Disk β ε) : Call ε → Prop
  | wrote {op : Op} {order : DirOrder ε} {pointer : Pointer}
      (new : newPointer text disk op = some (.ok pointer))
      (read : readPointer text disk' = .ok pointer)
      (slots : ∀ version, hasSlot disk version → hasSlot disk' version) :
      Effect disk disk' (.run op order)
  | kept {call : Call ε}
      (none : ∀ op order, call = .run op order → ∀ pointer,
        newPointer text disk op ≠ some (.ok pointer))
      (read : readPointer text disk' = readPointer text disk)
      (slots : ∀ version, hasSlot disk version → hasSlot disk' version) :
      Effect disk disk' call
  | pruned {order : DirOrder ε} {pointer : Pointer} (read : readPointer text disk = .ok pointer)
      (same : readPointer text disk' = .ok pointer)
      (active : hasSlot disk pointer.active → hasSlot disk' pointer.active)
      (previous : ∀ version, pointer.previous = some version → hasSlot disk version →
        hasSlot disk' version) :
      Effect disk disk' (.run .prune order)

/-- The active version can be started, and while it is on probation there is another version
to go back to. -/
structure WayBack (disk : Disk β ε) : Prop where
  readable : readPointer text disk ≠ .error .CorruptPointer
  active : ∀ pointer, readPointer text disk = .ok pointer → hasSlot disk pointer.active
  previous : ∀ pointer, readPointer text disk = .ok pointer → pointer.health = .Probation →
    ∃ version, pointer.previous = some version ∧ version ≠ pointer.active ∧
      hasSlot disk version

end Model

/-! ## What a call does -/

section Effects

variable {β ε : Type} [DecidableEq ε] {text : JsonText β} {disk : Disk β ε}
  {order : DirOrder ε} {steps : List (FsStep β ε)}

theorem disk_execAll (s : State β ε) : (s.execAll steps).disk = steps.foldl FsStep.exec s.disk := by
  induction steps generalizing s with
  | nil => rfl
  | cons step steps ih => exact ih (s.exec step)

theorem pointer_foldl (h : ∀ step ∈ steps, Spares none step) :
    (steps.foldl FsStep.exec disk).pointer = disk.pointer := by
  induction steps generalizing disk with
  | nil => rfl
  | cons step steps ih =>
    have hstep := @pointer_exec_of_spares β ε _ ⟨disk, [], []⟩ none step
      (h step List.mem_cons_self)
    rw [List.foldl_cons, ih fun step' hstep' => h step' (List.mem_cons_of_mem _ hstep')]
    exact hstep

theorem slot_foldl {version : String} (h : ∀ step ∈ steps, Spares (some version) step) :
    (steps.foldl FsStep.exec disk).slots.get version = disk.slots.get version := by
  induction steps generalizing disk with
  | nil => rfl
  | cons step steps ih =>
    have hstep := @slot_exec_of_spares β ε _ ⟨disk, [], []⟩ version step
      (h step List.mem_cons_self)
    rw [List.foldl_cons, ih fun step' hstep' => h step' (List.mem_cons_of_mem _ hstep')]
    exact hstep.1

theorem foldl_writePointer (pointer : Pointer) :
    ((writePointer text pointer).foldl FsStep.exec disk).pointer =
        some (text.print pointer.toJson) ∧
      ((writePointer text pointer).foldl FsStep.exec disk).slots = disk.slots :=
  ⟨rfl, rfl⟩

omit [DecidableEq ε] in
theorem readPointer_of_print {pointer : Pointer}
    (h : disk.pointer = some (text.print pointer.toJson)) :
    readPointer text disk = .ok pointer := by
  simp [readPointer, h, text.parse_print _ pointer.distinctNames_toJson, Pointer.ofJson_toJson]

/-- Steps that spare every slot and the pointer. -/
theorem effect_of_spares {op : Op} (hnone : newPointer text disk op = none)
    (hplan : plan text order disk op = .ok steps)
    (h : ∀ active, ∀ step ∈ steps, Spares active step) :
    Effect text disk ((Call.run op order).perform text disk) (.run op order) := by
  have hperform : (Call.run op order).perform text disk = steps.foldl FsStep.exec disk := by
    simp only [Call.perform, hplan]
  rw [hperform]
  refine .kept ?_ (readPointer_congr (pointer_foldl (h none))) fun version hslot => ?_
  · rintro _ _ ⟨⟩ pointer hnew
    cases hnone.symm.trans hnew
  · rw [hasSlot, slot_foldl (h (some version))]
    exact hslot

/-- A refused call. -/
theorem effect_refused {op : Op} {e : InstallError} (hplan : plan text order disk op = .error e)
    (hnew : ∀ pointer, newPointer text disk op ≠ some (.ok pointer)) :
    Effect text disk ((Call.run op order).perform text disk) (.run op order) := by
  have hperform : (Call.run op order).perform text disk = disk := by
    simp only [Call.perform, hplan]
  rw [hperform]
  refine .kept ?_ rfl fun _ h => h
  rintro _ _ ⟨⟩
  exact hnew

/-- One of the four operations that write the pointer. -/
theorem effect_writes {op : Op} {result : Except InstallError Pointer}
    (hnew : newPointer text disk op = some result)
    (hplan : plan text order disk op = result.map (writePointer text)) :
    Effect text disk ((Call.run op order).perform text disk) (.run op order) := by
  cases result with
  | error e =>
    refine effect_refused hplan fun pointer hok => ?_
    cases hnew.symm.trans hok
  | ok pointer =>
    have hperform : (Call.run op order).perform text disk =
        (writePointer text pointer).foldl FsStep.exec disk := by
      simp only [Call.perform, hplan, Except.map]
    rw [hperform]
    obtain ⟨hpointer, hslots⟩ := @foldl_writePointer β ε _ text disk pointer
    refine .wrote hnew (readPointer_of_print hpointer) fun version hslot => ?_
    rw [hasSlot, hslots]
    exact hslot

/-- A `commit_slot` that ends leaves its slot in place. -/
theorem hasSlot_commitSteps {version : String} (hstaged : (disk.staging.get version).isSome) :
    hasSlot ((commitSteps order disk version).foldl FsStep.exec disk) version := by
  obtain ⟨given, hgiven⟩ := Option.isSome_iff_exists.mp hstaged
  obtain ⟨removals, hsplit, honly⟩ := commitSteps_eq order disk version
  have hstaging : (removals.foldl FsStep.exec disk).staging = disk.staging := by
    have hall := (@execAll_onlySlots β ε _ ⟨disk, [], []⟩ removals honly).2
    rwa [disk_execAll] at hall
  rw [hsplit, List.foldl_append]
  simp [hasSlot, FsStep.exec, hstaging, hgiven]

theorem effect_commitSlot (version : String) :
    Effect text disk ((Call.run (.commitSlot version) order).perform text disk)
      (.run (.commitSlot version) order) := by
  cases hplan : plan text order disk (.commitSlot version) with
  | error e => exact effect_refused hplan fun _ h => by cases h
  | ok steps =>
    obtain ⟨hstaged, rfl⟩ := plan_commitSlot hplan
    have hperform : (Call.run (.commitSlot version) order).perform text disk =
        (commitSteps order disk version).foldl FsStep.exec disk := by
      simp only [Call.perform, hplan]
    rw [hperform]
    refine .kept ?_ (readPointer_congr (pointer_foldl fun step hstep =>
      spares_commitSteps (by simp) hstep)) fun other hslot => ?_
    · rintro _ _ ⟨⟩ pointer hnew
      cases hnew
    · by_cases hsame : other = version
      · subst hsame
        exact hasSlot_commitSteps hstaged
      · rw [hasSlot, slot_foldl fun step hstep => spares_commitSteps (by simpa using hsame) hstep]
        exact hslot

theorem effect_prune : Effect text disk ((Call.run .prune order).perform text disk)
    (.run .prune order) := by
  cases hread : readPointer text disk with
  | error e =>
    have hplan : plan text order disk .prune = .error e := by simp only [plan, hread]
    exact effect_refused hplan fun _ h => by cases h
  | ok pointer =>
    have hperform : (Call.run .prune order).perform text disk =
        (pruneSteps order disk pointer).foldl FsStep.exec disk := by
      simp only [Call.perform, plan, hread]
    have hspares {version : String}
        (hkept : version = pointer.active ∨ pointer.previous = some version) :
        ∀ step ∈ pruneSteps order disk pointer, Spares (some version) step := by
      intro step hstep
      obtain ⟨name, hname, hstep⟩ := List.mem_flatMap.mp hstep
      have hgone := (List.mem_filter.mp hname).2
      refine spares_removeSlotAll (fun heq => ?_) hstep
      obtain rfl := Option.some.inj heq
      obtain rfl | hprevious := hkept
      · simp at hgone
      · simp [hprevious] at hgone
    rw [hperform]
    have hpointer : ((pruneSteps order disk pointer).foldl FsStep.exec disk).pointer =
        disk.pointer := pointer_foldl fun step hstep => by
      obtain ⟨name, -, hstep⟩ := List.mem_flatMap.mp hstep
      exact spares_removeSlotAll (by simp) hstep
    refine .pruned hread ((readPointer_congr hpointer).trans hread) (fun hslot => ?_)
      fun version hprevious hslot => ?_
    · rw [hasSlot, slot_foldl (hspares (.inl rfl))]
      exact hslot
    · rw [hasSlot, slot_foldl (hspares (.inr hprevious))]
      exact hslot

/-- Every call has one of the three effects. -/
theorem perform_effect (call : Call ε) : Effect text disk (call.perform text disk) call := by
  cases call with
  | download version entries =>
    have hsame : ((Call.download version entries).perform text disk).pointer = disk.pointer ∧
        ((Call.download version entries).perform text disk).slots = disk.slots := by
      simp only [Call.perform]
      split <;> exact ⟨rfl, rfl⟩
    refine .kept (fun _ _ h => by cases h) (readPointer_congr hsame.1) fun version hslot => ?_
    rw [hasSlot, hsame.2]
    exact hslot
  | run op order =>
    cases op with
    | stage version =>
      by_cases hvalid : validVersion version = true
      · have hplan : plan text order disk (.stage version) = .ok (stageSteps order disk version) :=
          if_pos hvalid
        exact effect_of_spares rfl hplan fun active step hstep => spares_stageSteps hstep
      · have hplan : plan text order disk (.stage version) = .error (.InvalidVersion version) :=
          if_neg hvalid
        exact effect_refused hplan fun _ h => by cases h
    | cleanStaging =>
      exact effect_of_spares rfl rfl fun active step hstep => spares_cleanSteps hstep
    | commitSlot version => exact effect_commitSlot version
    | prune => exact effect_prune
    | activate version =>
      refine effect_writes rfl ?_
      simp only [plan, newPointer]
      cases activated text disk version <;> rfl
    | confirmHealthy =>
      refine effect_writes rfl ?_
      simp only [plan, newPointer]
      cases confirmed text disk <;> rfl
    | beginLaunch =>
      refine effect_writes rfl ?_
      simp only [plan, newPointer]
      cases launched text disk <;> rfl
    | rollback =>
      refine effect_writes rfl ?_
      simp only [plan, newPointer]
      cases rolledBack text disk <;> rfl

end Effects

/-! ## What is written to the pointer -/

section Writes

variable {β ε : Type} {text : JsonText β} {disk : Disk β ε}

/-- The attempts of a probation are used up. -/
def Exhausted (pointer : Pointer) : Prop :=
  pointer.health = .Probation ∧ MAX_LAUNCH_ATTEMPTS ≤ pointer.attempts

instance (pointer : Pointer) : Decidable (Exhausted pointer) :=
  inferInstanceAs (Decidable (_ ∧ _))

variable (text disk) in
/-- The pointers the operations write. -/
inductive Writes : Op → Pointer → Prop
  | first {version : String} (read : readPointer text disk = .error .NotInstalled)
      (slot : hasSlot disk version) : Writes (.activate version) (.first version)
  | activated {old : Pointer} {version : String} (read : readPointer text disk = .ok old)
      (other : old.active ≠ version) (slot : hasSlot disk version) :
      Writes (.activate version) ⟨version, some old.active, .Probation, 0⟩
  | confirmed {op : Op} {old : Pointer} (read : readPointer text disk = .ok old)
      (how : op = .confirmHealthy ∨ op = .activate old.active) :
      Writes op { old with health := .Confirmed, attempts := 0 }
  | launched {old : Pointer} (read : readPointer text disk = .ok old) (left : ¬ Exhausted old) :
      Writes .beginLaunch { old with attempts := saturatingSucc old.attempts }
  | rolledBack {op : Op} {old : Pointer} {version : String}
      (read : readPointer text disk = .ok old)
      (how : op = .rollback ∨ op = .beginLaunch ∧ Exhausted old)
      (previous : old.previous = some version) (slot : hasSlot disk version) :
      Writes op ⟨version, none, .Confirmed, 0⟩

theorem rolledBack_eq_ok {pointer : Pointer} (h : rolledBack text disk = .ok pointer) :
    ∃ old version, readPointer text disk = .ok old ∧ old.previous = some version ∧
      hasSlot disk version ∧ pointer = ⟨version, none, .Confirmed, 0⟩ := by
  simp only [rolledBack] at h
  split at h
  · cases h
  next old hold =>
    split at h
    · cases h
    next version hprevious =>
      split at h
      next hslot => exact ⟨old, version, hold, hprevious, hslot, (Except.ok.inj h).symm⟩
      · cases h

theorem writes_of_newPointer {op : Op} {pointer : Pointer}
    (h : newPointer text disk op = some (.ok pointer)) : Writes text disk op pointer := by
  cases op with
  | activate version =>
    have h := Option.some.inj h
    simp only [activated] at h
    split at h
    · cases h
    · split at h
      · cases h
      next hslot =>
        have hslot : hasSlot disk version = true := by simpa using hslot
        split at h
        next old hold =>
          split at h
          next hsame =>
            obtain rfl := Except.ok.inj h
            exact .confirmed hold (.inr (hsame ▸ rfl))
          next hother =>
            obtain rfl := Except.ok.inj h
            exact .activated hold hother hslot
        next hnone =>
          obtain rfl := Except.ok.inj h
          exact .first hnone hslot
        · cases h
  | confirmHealthy =>
    have h := Option.some.inj h
    simp only [confirmed] at h
    split at h
    · cases h
    next old hold =>
      obtain rfl := Except.ok.inj h
      exact .confirmed hold (.inl rfl)
  | beginLaunch =>
    have h := Option.some.inj h
    simp only [launched] at h
    split at h
    · cases h
    next old hold =>
      split at h
      next hexhausted =>
        obtain ⟨old', version, hold', hprevious, hslot, rfl⟩ := rolledBack_eq_ok h
        obtain rfl := Except.ok.inj (hold.symm.trans hold')
        exact .rolledBack hold (.inr ⟨rfl, hexhausted⟩) hprevious hslot
      next hleft =>
        obtain rfl := Except.ok.inj h
        exact .launched hold hleft
  | rollback =>
    obtain ⟨old, version, hold, hprevious, hslot, rfl⟩ := rolledBack_eq_ok (Option.some.inj h)
    exact .rolledBack hold (.inl rfl) hprevious hslot
  | stage | commitSlot | prune | cleanStaging => cases h

end Writes

/-! ## The way back -/

section WayBack

variable {β ε : Type} [DecidableEq ε] {text : JsonText β} {disk : Disk β ε}

omit [DecidableEq ε] in
theorem WayBack.write (h : WayBack text disk) {op : Op} {pointer : Pointer} {disk' : Disk β ε}
    (hwrites : Writes text disk op pointer) (hread : readPointer text disk' = .ok pointer)
    (hslots : ∀ version, hasSlot disk version → hasSlot disk' version) :
    WayBack text disk' := by
  have hactive : hasSlot disk pointer.active := by
    cases hwrites with
    | first _ slot | activated _ _ slot | rolledBack _ _ _ slot => exact slot
    | confirmed read | launched read =>
      have hslot := h.active _ read
      exact hslot
  refine ⟨by simp [hread], fun current hcurrent => ?_, fun current hcurrent hhealth => ?_⟩
  · obtain rfl := Except.ok.inj (hread.symm.trans hcurrent)
    exact hslots _ hactive
  · obtain rfl := Except.ok.inj (hread.symm.trans hcurrent)
    cases hwrites with
    | activated read other => exact ⟨_, rfl, other, hslots _ (h.active _ read)⟩
    | launched read =>
      obtain ⟨version, hprevious, hne, hslot⟩ := h.previous _ read hhealth
      exact ⟨version, hprevious, hne, hslots _ hslot⟩
    | first | confirmed | rolledBack => cases hhealth

/-- Every call keeps the way back. -/
theorem WayBack.perform (h : WayBack text disk) (call : Call ε) :
    WayBack text (call.perform text disk) := by
  have heffect := @perform_effect β ε _ text disk call
  generalize call.perform text disk = disk' at heffect
  cases heffect with
  | wrote new read slots => exact h.write (writes_of_newPointer new) read slots
  | kept _ read slots =>
    refine ⟨read ▸ h.readable, fun pointer hpointer => ?_, fun pointer hpointer hhealth => ?_⟩
    · exact slots _ (h.active _ (read ▸ hpointer))
    · obtain ⟨version, hprevious, hne, hslot⟩ := h.previous _ (read ▸ hpointer) hhealth
      exact ⟨version, hprevious, hne, slots _ hslot⟩
  | pruned read same active previous =>
    refine ⟨by simp [same], fun pointer hpointer => ?_, fun pointer hpointer hhealth => ?_⟩
    · obtain rfl := Except.ok.inj (same.symm.trans hpointer)
      exact active (h.active _ read)
    · obtain rfl := Except.ok.inj (same.symm.trans hpointer)
      obtain ⟨version, hprevious, hne, hslot⟩ := h.previous _ read hhealth
      exact ⟨version, hprevious, hne, previous version hprevious hslot⟩

theorem wayBack_inductive (text : JsonText β) :
    (undisturbed (ε := ε) text).Inductive (fun _ => True) (WayBack text) where
  start disk hdisk := by
    obtain rfl : disk = Disk.empty := hdisk
    refine ⟨by simp [readPointer, Disk.empty], fun _ h => ?_, fun _ h => ?_⟩ <;> cases h
  step disk call disk' _ h hstep := Option.some.inj hstep ▸ h.perform call

end WayBack

/-! ## After an activation -/

section Launches

variable {β ε : Type} [DecidableEq ε] {text : JsonText β} {disk : Disk β ε}

/-- Anything but a further activation and a confirmation. -/
def Call.interleaves : Call ε → Bool
  | .run (.activate _) _ | .run .confirmHealthy _ => false
  | _ => true

def Call.isRollback : Call ε → Bool
  | .run .rollback _ => true
  | _ => false

omit [DecidableEq ε] in
theorem launch_eq (call : Call ε) :
    call.launch text disk = [] ∧ (∀ order, call ≠ .run .beginLaunch order) ∨
      ∃ order, call = .run .beginLaunch order ∧
        call.launch text disk = [launchResult text disk] := by
  unfold Call.launch
  split
  next order => exact .inr ⟨order, rfl, rfl⟩
  next hne => exact .inl ⟨rfl, fun order heq => hne order heq⟩

omit [DecidableEq ε] in
theorem launchResult_of_launched {pointer : Pointer} (h : launched text disk = .ok pointer)
    (hslot : hasSlot disk pointer.active) : launchResult text disk = .ok pointer.active := by
  simp only [launchResult, h, hslot, if_true]

omit [DecidableEq ε] in
/-- `begin_launch` counts the attempt. -/
theorem launched_of_left {old : Pointer} (hread : readPointer text disk = .ok old)
    (hleft : ¬ Exhausted old) :
    launched text disk = .ok { old with attempts := saturatingSucc old.attempts } := by
  simp only [launched, hread]
  exact if_neg hleft

omit [DecidableEq ε] in
/-- `begin_launch` goes back. -/
theorem launched_of_exhausted {old : Pointer} {version : String}
    (hread : readPointer text disk = .ok old) (hexhausted : Exhausted old)
    (hprevious : old.previous = some version) (hslot : hasSlot disk version) :
    launched text disk = .ok ⟨version, none, .Confirmed, 0⟩ := by
  simp only [launched, hread, rolledBack, hprevious, hslot, if_true]
  exact if_pos hexhausted

/-- After a rollback: confirmed, and nothing to go back to. -/
structure Settled (text : JsonText β) (disk : Disk β ε) (version : String) : Prop where
  read : ∃ attempts, readPointer text disk = .ok ⟨version, none, .Confirmed, attempts⟩
  slot : hasSlot disk version

/-- On probation, with `count` attempts made. -/
structure Trying (text : JsonText β) (disk : Disk β ε) (version previous : String)
    (count : Nat) : Prop where
  read : readPointer text disk = .ok ⟨version, some previous, .Probation, UInt32.ofNat count⟩
  left : count ≤ MAX_LAUNCH_ATTEMPTS.toNat
  slot : hasSlot disk version
  slotPrevious : hasSlot disk previous

theorem not_exhausted_confirmed {version : String} {previous : Option String} {attempts : UInt32} :
    ¬ Exhausted ⟨version, previous, .Confirmed, attempts⟩ :=
  fun h => by cases h.1

omit [DecidableEq ε] in
theorem Settled.launch {version : String} (h : Settled text disk version) (call : Call ε) :
    call.launch text disk = [] ∨ call.launch text disk = [.ok version] := by
  obtain ⟨attempts, hread⟩ := h.read
  obtain ⟨hnone, -⟩ | ⟨order, -, hresult⟩ := @launch_eq β ε text disk call
  · exact .inl hnone
  · refine .inr ?_
    rw [hresult, launchResult_of_launched (launched_of_left hread not_exhausted_confirmed) h.slot]

theorem Settled.perform {version : String} (h : Settled text disk version) {call : Call ε}
    (hcall : call.interleaves = true) : Settled text (call.perform text disk) version := by
  obtain ⟨attempts, hread⟩ := h.read
  have heffect := @perform_effect β ε _ text disk call
  generalize call.perform text disk = disk' at heffect
  cases heffect with
  | wrote new read slots =>
    refine ⟨?_, slots _ h.slot⟩
    cases writes_of_newPointer new with
    | first hnone => cases hnone.symm.trans hread
    | activated => cases hcall
    | confirmed _ how => obtain rfl | rfl := how <;> cases hcall
    | launched hold =>
      obtain rfl := Except.ok.inj (hold.symm.trans hread)
      exact ⟨_, read⟩
    | rolledBack hold _ previous =>
      obtain rfl := Except.ok.inj (hold.symm.trans hread)
      cases previous
  | kept _ read slots => exact ⟨⟨attempts, read.trans hread⟩, slots _ h.slot⟩
  | pruned read same active =>
    obtain rfl := Except.ok.inj (read.symm.trans hread)
    exact ⟨⟨attempts, same⟩, active h.slot⟩

/-- From then on the launcher is told to start the version that was gone back to. -/
theorem Settled.launches {version : String} {calls : List (Call ε)}
    (h : Settled text disk version) (hcalls : ∀ call ∈ calls, call.interleaves = true) :
    ∃ count, launches text calls disk = List.replicate count (.ok version) := by
  induction calls generalizing disk with
  | nil => exact ⟨0, rfl⟩
  | cons call calls ih =>
    obtain ⟨count, hrest⟩ := ih (h.perform (hcalls call List.mem_cons_self))
      fun other hother => hcalls other (List.mem_cons_of_mem _ hother)
    obtain hnone | hone := h.launch call
    · exact ⟨count, by rw [Install.launches, hnone, hrest]; rfl⟩
    · exact ⟨count + 1, by rw [Install.launches, hone, hrest]; rfl⟩

theorem exhausted_iff {version previous : String} {count : Nat}
    (h : count ≤ MAX_LAUNCH_ATTEMPTS.toNat) :
    Exhausted ⟨version, some previous, .Probation, UInt32.ofNat count⟩ ↔ count = 3 := by
  change count ≤ 3 at h
  have hcases : count = 0 ∨ count = 1 ∨ count = 2 ∨ count = 3 := by omega
  simp only [Exhausted, true_and]
  obtain rfl | rfl | rfl | rfl := hcases <;> decide

theorem saturatingSucc_ofNat {count : Nat} (h : count < 3) :
    saturatingSucc (UInt32.ofNat count) = UInt32.ofNat (count + 1) := by
  have hcases : count = 0 ∨ count = 1 ∨ count = 2 := by omega
  obtain rfl | rfl | rfl := hcases <;> decide

/-- What a call says and does while the attempts last: it counts one, goes back, or leaves the
probation as it is. -/
theorem Trying.perform {version previous : String} {count : Nat}
    (h : Trying text disk version previous count) {call : Call ε}
    (hcall : call.interleaves = true) :
    (call.launch text disk = [.ok version] ∧ count < 3 ∧
        Trying text (call.perform text disk) version previous (count + 1)) ∨
      (call.launch text disk = [.ok previous] ∧ count = 3 ∧
        Settled text (call.perform text disk) previous) ∨
      (call.launch text disk = [] ∧ call.isRollback = true ∧
        Settled text (call.perform text disk) previous) ∨
      (call.launch text disk = [] ∧ Trying text (call.perform text disk) version previous count) := by
  have hle : count ≤ 3 := h.left
  obtain ⟨hnone, hother⟩ | ⟨order, rfl, hresult⟩ := @launch_eq β ε text disk call
  · have heffect := @perform_effect β ε _ text disk call
    generalize call.perform text disk = disk' at heffect
    cases heffect with
    | wrote new read slots =>
      cases writes_of_newPointer new with
      | first hfirst => cases hfirst.symm.trans h.read
      | activated => cases hcall
      | confirmed _ how => obtain rfl | rfl := how <;> cases hcall
      | launched => exact absurd rfl (hother _)
      | rolledBack hold how hprevious slot =>
        obtain rfl := Except.ok.inj (hold.symm.trans h.read)
        obtain rfl := Option.some.inj hprevious
        obtain rfl | ⟨rfl, -⟩ := how
        · exact .inr (.inr (.inl ⟨hnone, rfl, ⟨0, read⟩, slots _ slot⟩))
        · exact absurd rfl (hother _)
    | kept _ read slots =>
      exact .inr (.inr (.inr ⟨hnone, read.trans h.read, h.left, slots _ h.slot,
        slots _ h.slotPrevious⟩))
    | pruned read same active hprevious =>
      obtain rfl := Except.ok.inj (read.symm.trans h.read)
      exact .inr (.inr (.inr ⟨hnone, same, h.left, active h.slot,
        hprevious _ rfl h.slotPrevious⟩))
  · have heffect := @perform_effect β ε _ text disk (.run .beginLaunch order)
    generalize (Call.run .beginLaunch order).perform text disk = disk' at heffect
    by_cases hcount : count = 3
    · have hlaunched := launched_of_exhausted h.read ((exhausted_iff h.left).mpr hcount) rfl
        h.slotPrevious
      refine .inr (.inl ⟨by rw [hresult, launchResult_of_launched hlaunched h.slotPrevious], hcount,
        ?_⟩)
      cases heffect with
      | wrote new read slots =>
        obtain rfl := Except.ok.inj (hlaunched.symm.trans (Option.some.inj new))
        exact ⟨⟨0, read⟩, slots _ h.slotPrevious⟩
      | kept none => exact absurd (congrArg some hlaunched) (none _ _ rfl _)
    · have hlaunched := launched_of_left h.read (mt (exhausted_iff h.left).mp hcount)
      rw [saturatingSucc_ofNat (by omega)] at hlaunched
      refine .inl ⟨by rw [hresult, launchResult_of_launched hlaunched h.slot], by omega, ?_⟩
      cases heffect with
      | wrote new read slots =>
        obtain rfl := Except.ok.inj (hlaunched.symm.trans (Option.some.inj new))
        refine ⟨read, ?_, slots _ h.slot, slots _ h.slotPrevious⟩
        change count + 1 ≤ 3
        omega
      | kept none => exact absurd (congrArg some hlaunched) (none _ _ rfl _)

/-- The launcher is told to start the new version until its attempts are used up or it is
rolled back, and the previous one from then on. -/
theorem Trying.launches {version previous : String} {count : Nat} {calls : List (Call ε)}
    (h : Trying text disk version previous count)
    (hcalls : ∀ call ∈ calls, call.interleaves = true) :
    ∃ tried back, launches text calls disk =
        List.replicate tried (.ok version) ++ List.replicate back (.ok previous) ∧
      count + tried ≤ 3 ∧ ((∀ call ∈ calls, call.isRollback = false) →
        tried = min (3 - count) (tried + back)) := by
  induction calls generalizing disk count with
  | nil => exact ⟨0, 0, rfl, h.left, by simp⟩
  | cons call calls ih =>
    have hcall := hcalls call List.mem_cons_self
    have hrest : ∀ other ∈ calls, other.interleaves = true :=
      fun other hother => hcalls other (List.mem_cons_of_mem _ hother)
    have hle : count ≤ 3 := h.left
    obtain ⟨hlaunch, hlt, htrying⟩ | ⟨hlaunch, hcount, hsettled⟩ | ⟨hlaunch, hrollback, hsettled⟩ |
      ⟨hlaunch, htrying⟩ := h.perform hcall
    · obtain ⟨tried, back, hlaunches, hbound, hexact⟩ := ih htrying hrest
      refine ⟨tried + 1, back, by rw [Install.launches, hlaunch, hlaunches]; rfl, by omega, ?_⟩
      intro hnone
      have := hexact fun other hother => hnone other (List.mem_cons_of_mem _ hother)
      omega
    · obtain ⟨back, hlaunches⟩ := hsettled.launches hrest
      refine ⟨0, back + 1, by rw [Install.launches, hlaunch, hlaunches]; rfl, by omega, ?_⟩
      intro _
      omega
    · obtain ⟨back, hlaunches⟩ := hsettled.launches hrest
      refine ⟨0, back, by rw [Install.launches, hlaunch, hlaunches]; rfl, by omega, ?_⟩
      intro hnone
      cases hrollback.symm.trans (hnone call List.mem_cons_self)
    · obtain ⟨tried, back, hlaunches, hbound, hexact⟩ := ih htrying hrest
      refine ⟨tried, back, by rw [Install.launches, hlaunch, hlaunches]; rfl, hbound, ?_⟩
      exact fun hnone => hexact fun other hother => hnone other (List.mem_cons_of_mem _ hother)

end Launches

/-! ## The result -/

/-- 1.0 is installed, and 1.1 is there to be activated. -/
def installed : List (Call String) :=
  [.run (.stage "1.0") listed, .run (.commitSlot "1.0") listed, .run (.activate "1.0") listed,
    .run (.stage "1.1") listed, .run (.commitSlot "1.1") listed]

/-- The pointer says 1.0, and both slots are there. -/
def twoSlots : Disk Json String where
  pointer := some (Pointer.first "1.0").toJson
  temp := none
  slots := [("1.1", []), ("1.0", [])]
  staging := []

/-- Five starts of a version that never confirms itself. -/
def restarts : List (Call String) :=
  [.run .beginLaunch listed, .run .prune listed, .run .beginLaunch listed,
    .run .beginLaunch listed, .run .cleanStaging listed, .run .beginLaunch listed,
    .run .beginLaunch listed]

/-- The active version can always be started; and from the activation of another version on,
whatever is called in between, the launcher is told to start the new version at most
`MAX_LAUNCH_ATTEMPTS` times (just so often where nothing rolls it back before), and the one it
replaced from then on. -/
theorem always_a_way_back {β ε : Type} [DecidableEq ε] (text : JsonText β) {disk : Disk β ε}
    (hdisk : (undisturbed text).Reachable disk) :
    WayBack text disk ∧ ∀ old version new order, readPointer text disk = .ok old →
      version ≠ old.active → activated text disk version = .ok new → ∀ calls : List (Call ε),
      (∀ call ∈ calls, call.interleaves = true) → ∃ tried back,
        launches text calls ((Call.run (.activate version) order).perform text disk) =
          List.replicate tried (.ok version) ++ List.replicate back (.ok old.active) ∧
        tried ≤ MAX_LAUNCH_ATTEMPTS.toNat ∧ ((∀ call ∈ calls, call.isRollback = false) →
          tried = min MAX_LAUNCH_ATTEMPTS.toNat (tried + back)) := by
  have hway := (wayBack_inductive text).holds (fun _ _ => trivial) hdisk
  refine ⟨hway, fun old version new order hread hother hactivated calls hcalls => ?_⟩
  have hnew : newPointer text disk (.activate version) = some (.ok new) :=
    congrArg some hactivated
  have hslot := (activated_active hactivated).2
  have hpointer : new = ⟨version, some old.active, .Probation, 0⟩ := by
    cases writes_of_newPointer hnew with
    | first hnone => cases hnone.symm.trans hread
    | activated hold => rw [Except.ok.inj (hold.symm.trans hread)]
    | confirmed hold how =>
      obtain rfl := Except.ok.inj (hold.symm.trans hread)
      obtain how | how := how
      · cases how
      · exact absurd (Op.activate.inj how) hother
    | rolledBack _ how => obtain how | ⟨how, -⟩ := how <;> cases how
  subst hpointer
  have heffect := @perform_effect β ε _ text disk (.run (.activate version) order)
  generalize (Call.run (.activate version) order).perform text disk = disk' at heffect ⊢
  cases heffect with
  | wrote new' read slots =>
    obtain rfl := Except.ok.inj (Option.some.inj (new'.symm.trans hnew))
    have htrying : Trying text disk' version old.active 0 :=
      ⟨read, Nat.zero_le _, slots _ hslot, slots _ (hway.active _ hread)⟩
    obtain ⟨tried, back, hlaunches, hbound, hexact⟩ := htrying.launches hcalls
    refine ⟨tried, back, hlaunches, ?_, hexact⟩
    change tried ≤ 3
    omega
  | kept none => exact absurd hnew (none _ _ rfl _)

theorem always_a_way_back_upgrade :
    System.exec (fun disk call => some (Call.perform plainText disk call)) installed Disk.empty =
        some twoSlots ∧
      WayBack plainText twoSlots ∧ ∃ tried back,
        launches plainText restarts
            ((Call.run (.activate "1.1") listed).perform plainText twoSlots) =
          List.replicate tried (.ok "1.1") ++ List.replicate back (.ok "1.0") ∧
        tried = MAX_LAUNCH_ATTEMPTS.toNat ∧ back = 2 := by
  have hexec : System.exec (fun disk call => some (Call.perform plainText disk call)) installed
      Disk.empty = some twoSlots := by
    decide +kernel
  obtain ⟨hway, hlaunches⟩ := always_a_way_back plainText
    (System.reachable_exec (.start rfl) hexec)
  obtain ⟨tried, back, heq, -, hexact⟩ := hlaunches (Pointer.first "1.0") "1.1"
    ⟨"1.1", some "1.0", .Probation, 0⟩ listed rfl (by decide) (by decide +kernel) restarts
    (by simp [restarts, Call.interleaves])
  have htried := hexact (by simp [restarts, Call.isRollback])
  have hlength := congrArg List.length heq
  rw [List.length_append, List.length_replicate, List.length_replicate] at hlength
  change 5 = tried + back at hlength
  change tried = min 3 (tried + back) at htried
  have htwo : tried = 3 ∧ back = 2 := by omega
  exact ⟨hexec, hway, tried, back, heq, htwo⟩

end DistPlatform.Install
