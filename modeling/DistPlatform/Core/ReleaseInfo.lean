import DistPlatform.Core.Naming
import DistPlatform.Library.Digits
import DistPlatform.Library.Fallible

/-!
# Decoding release info (`dist_core.naming.ReleaseInfo.from_custom`)

The server reads the `custom` map of a target back with Python's conversions: `int` takes
numbers, booleans and texts, `bool` takes anything, and what is optional is not looked at.

## Main definitions

* `Doubles` — what a conversion asks of a floating-point number.
* `pyInt`, `pyBool` — `int` and `bool` of a JSON value.
* `fromCustom` — the decoder.
-/

namespace DistPlatform.Core

open DistPlatform

/-- What `int` and `bool` say of the double that a JSON number `m · 10 ^ e` is read as:
nothing where it is infinite, and whether it is zero. -/
structure Doubles where
  truncate : Int → Int → Option Int
  isZero : Int → Int → Bool

inductive DecodeError
  | KeyError (name : String)
  | TypeError
  | OverflowError
  /-- `int` of a text. -/
  | Conversion (error : Digits.ValueError)
  | ValueError (error : ValueError)
  deriving DecidableEq, Repr

/-- What `from_custom` builds: the optional fields hold whatever the map has, and `null` where
it has nothing. -/
structure DecodedInfo where
  version : String
  notesUrl : Json
  minOs : Json
  minFromVersion : Json
  mandatory : Bool
  rolloutPct : Int
  versionSafe : segmentMatches version = true
  pctInRange : 0 ≤ rolloutPct ∧ rolloutPct ≤ 100

/-- `custom[name]`. -/
def subscript (custom : List (String × Json)) (name : String) : Except DecodeError Json :=
  match custom.lookup name with
  | some value => .ok value
  | none => .error (.KeyError name)

section Decoder

variable (doubles : Doubles)

/-- `int(value)`. -/
def pyInt : Json → Except DecodeError Int
  | .int i => .ok i
  | .bool b => .ok (if b then 1 else 0)
  | .real m e =>
    match doubles.truncate m e with
    | some i => .ok i
    | none => .error .OverflowError
  | .str text => (Digits.intOf text.toList).mapError .Conversion
  | .null | .arr _ | .obj _ => .error .TypeError

/-- `bool(value)`. -/
def pyBool : Json → Bool
  | .null => false
  | .bool b => b
  | .int i => i ≠ 0
  | .real m e => !doubles.isZero m e
  | .str text => text ≠ ""
  | .arr xs => !xs.isEmpty
  | .obj members => !members.isEmpty

theorem segmentMatches_of_check {field value : String} (h : checkSegment field value = .ok ()) :
    segmentMatches value = true :=
  checkSegment_eq_ok.mp h

/-- `_check_segment` of any value: a pattern matches text only. -/
def checkVersion : Json → Except DecodeError {version : String // segmentMatches version = true}
  | .str version =>
    match h : checkSegment "version" version with
    | .ok () => .ok ⟨version, segmentMatches_of_check h⟩
    | .error e => .error (.ValueError e)
  | _ => .error .TypeError

/-- `ReleaseInfo.from_custom`. The conversions come before the constructor's checks. -/
def fromCustom (custom : List (String × Json)) : Except DecodeError DecodedInfo := do
  let version ← subscript custom "version"
  let rolloutPct ← pyInt doubles ((custom.lookup "rollout_pct").getD (.int 100))
  let ⟨version, versionSafe⟩ ← checkVersion version
  if pctInRange : 0 ≤ rolloutPct ∧ rolloutPct ≤ 100 then
    .ok {
      version
      notesUrl := (custom.lookup "notes_url").getD .null
      minOs := (custom.lookup "min_os").getD .null
      minFromVersion := (custom.lookup "min_from_version").getD .null
      mandatory := pyBool doubles ((custom.lookup "mandatory").getD (.bool false))
      rolloutPct
      versionSafe
      pctInRange }
  else .error (.ValueError ⟨"rollout_pct must be 0..100, got " ++ toString rolloutPct⟩)

end Decoder

variable {doubles : Doubles}

theorem subscript_eq_ok {custom : List (String × Json)} {name : String} {value : Json} :
    subscript custom name = .ok value ↔ custom.lookup name = some value := by
  cases h : custom.lookup name <;> simp [subscript, h]

theorem checkVersion_eq_ok {value : Json}
    {version : {version : String // segmentMatches version = true}} :
    checkVersion value = .ok version ↔ value = .str version.1 := by
  constructor
  · intro h
    unfold checkVersion at h
    split at h
    · split at h
      · rw [← Except.ok.inj h]
      · cases h
    · cases h
  · rintro rfl
    have hsafe : checkSegment "version" version.1 = .ok () := checkSegment_eq_ok.mpr version.2
    simp only [checkVersion]
    split
    · rfl
    next e he =>
      rw [hsafe] at he
      cases he

/-- The decoder accepts a text that is a segment with a percentage that converts into the
range, and then has them. -/
theorem fromCustom_eq_ok {custom : List (String × Json)} {info : DecodedInfo} :
    fromCustom doubles custom = .ok info ↔
      custom.lookup "version" = some (.str info.version) ∧
        pyInt doubles ((custom.lookup "rollout_pct").getD (.int 100)) = .ok info.rolloutPct ∧
        info.mandatory = pyBool doubles ((custom.lookup "mandatory").getD (.bool false)) ∧
        info.notesUrl = (custom.lookup "notes_url").getD .null ∧
        info.minOs = (custom.lookup "min_os").getD .null ∧
        info.minFromVersion = (custom.lookup "min_from_version").getD .null := by
  unfold fromCustom
  simp only [Fallible.bind_eq_ok, subscript_eq_ok, checkVersion_eq_ok]
  constructor
  · rintro ⟨value, hversion, pct, hpct, version, rfl, h⟩
    split at h
    · obtain rfl := Except.ok.inj h
      exact ⟨hversion, hpct, rfl, rfl, rfl, rfl⟩
    · cases h
  · obtain ⟨version, notesUrl, minOs, minFromVersion, mandatory, pct, hsafe, hrange⟩ := info
    rintro ⟨hversion, hpct, rfl, rfl, rfl, rfl⟩
    refine ⟨.str version, hversion, pct, hpct, ⟨version, hsafe⟩, rfl, ?_⟩
    rw [dif_pos hrange]

/-! ## Reading back what `to_custom` writes -/

/-- The decoded form of a release's own info. -/
def ReleaseInfo.decoded (info : ReleaseInfo) : DecodedInfo where
  version := info.version
  notesUrl := (info.notesUrl.map Json.str).getD .null
  minOs := (info.minOs.map Json.str).getD .null
  minFromVersion := (info.minFromVersion.map Json.str).getD .null
  mandatory := info.mandatory
  rolloutPct := info.rolloutPct
  versionSafe := info.versionSafe
  pctInRange := info.pctInRange

section ToCustom

variable (info : ReleaseInfo)

theorem lookup_toCustom_version :
    info.toCustom.lookup "version" = some (.str info.version) := rfl

theorem lookup_toCustom_mandatory :
    info.toCustom.lookup "mandatory" = some (.bool info.mandatory) := rfl

theorem lookup_toCustom_rolloutPct :
    info.toCustom.lookup "rollout_pct" = some (.int info.rolloutPct) := rfl

/-- An optional field is found where it was set. -/
theorem lookup_toCustom_optional :
    info.toCustom.lookup "notes_url" = info.notesUrl.map Json.str ∧
      info.toCustom.lookup "min_os" = info.minOs.map Json.str ∧
      info.toCustom.lookup "min_from_version" = info.minFromVersion.map Json.str := by
  obtain ⟨version, notesUrl, minOs, minFromVersion, mandatory, pct, hsafe, hrange⟩ := info
  refine ⟨?_, ?_, ?_⟩ <;> cases notesUrl <;> cases minOs <;> cases minFromVersion <;> rfl

end ToCustom

theorem fromCustom_toCustom (info : ReleaseInfo) :
    fromCustom doubles info.toCustom = .ok info.decoded := by
  obtain ⟨hnotes, hos, hfrom⟩ := lookup_toCustom_optional info
  rw [fromCustom_eq_ok, lookup_toCustom_version, lookup_toCustom_rolloutPct,
    lookup_toCustom_mandatory, hnotes, hos, hfrom]
  exact ⟨rfl, rfl, rfl, rfl, rfl, rfl⟩

end DistPlatform.Core
