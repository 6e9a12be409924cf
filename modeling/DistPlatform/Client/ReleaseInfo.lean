import DistPlatform.Client.Verifier
import DistPlatform.Core.ReleaseInfo

/-!
# Two decoders of one map (`verifier.rs`, `dist_core.naming`)

The client and the server read the same signed `custom` map. The client takes a value of another
type for a missing one and falls back to its default; the server converts it, or refuses it.

## Main definitions

* `SameRelease` — two decodings that are one, as far as a rollout goes.
* `DecodersAgree` — what the two decoders owe each other on a map.
* `WellTyped` — the maps on which they do.
-/

namespace DistPlatform.Client

open DistPlatform.Core (Doubles DecodeError DecodedInfo fromCustom pyInt pyBool segmentMatches)

/-- Both refuse, or both accept with the same version, percentage and mandatory flag. -/
def SameRelease : Except DecodeError DecodedInfo → Except VerifyError ReleaseInfo → Prop
  | .ok info, .ok seen => seen.version = info.version ∧
      (seen.rolloutPct.toNat : Int) = info.rolloutPct ∧ seen.mandatory = info.mandatory
  | .error _, .error _ => True
  | _, _ => False

/-- A value that is a percentage as it is meant. -/
def IsPercentage (value : Json) : Prop := ∃ pct : Int, value = .int pct ∧ 0 ≤ pct ∧ pct ≤ 100

structure DecodersAgree (doubles : Doubles) (custom : List (String × Json)) : Prop where
  same : SameRelease (fromCustom doubles custom) (releaseInfo custom)
  failsClosed : ∀ value, custom.lookup "rollout_pct" = some value → ¬ IsPercentage value →
    (∃ e, fromCustom doubles custom = .error e) ∧ ∃ e, releaseInfo custom = .error e

/-- Where the version is a text, the percentage is missing or an unsigned integer of 64 bits;
and where it is in range, the version is a segment and the mandatory flag is missing, a boolean
or false to Python. -/
def WellTyped (doubles : Doubles) (custom : List (String × Json)) : Prop :=
  ∀ version, custom.lookup "version" = some (.str version) →
    ∃ pct : Nat, (custom.lookup "rollout_pct").getD (.int 100) = .int pct ∧ pct < 2 ^ 64 ∧
      (pct ≤ 100 → segmentMatches version = true ∧
        ∀ flag, custom.lookup "mandatory" = some flag →
          (∃ b, flag = .bool b) ∨ pyBool doubles flag = false)

/-! ## The client's decoder -/

variable {doubles : Doubles} {custom : List (String × Json)}

theorem asU64_eq_some {value : Json} {n : Nat} :
    asU64 value = some n ↔ value = .int n ∧ n < 2 ^ 64 := by
  cases value with
  | int i =>
    simp only [asU64, Option.ite_none_right_eq_some, Option.some.injEq, Json.int.injEq]
    omega
  | _ => simp [asU64]

/-- The percentage the client goes by. -/
def clientPct (custom : List (String × Json)) : Nat :=
  ((custom.lookup "rollout_pct").bind asU64).getD 100

/-- The mandatory flag the client goes by. -/
def clientMandatory (custom : List (String × Json)) : Bool :=
  ((custom.lookup "mandatory").bind Json.bool?).getD false

theorem releaseInfo_of_le {version : String} (hversion : custom.lookup "version" = some (.str version))
    (hpct : clientPct custom ≤ 100) :
    ∃ seen, releaseInfo custom = .ok seen ∧ seen.version = version ∧
      seen.rolloutPct.toNat = clientPct custom ∧ seen.mandatory = clientMandatory custom := by
  have hrange : clientPct custom < 2 ^ 32 ∧ clientPct custom ≤ 100 := by omega
  refine ⟨{
    version
    rolloutPct := UInt32.ofNat (clientPct custom)
    mandatory := clientMandatory custom
    notesUrl := (custom.lookup "notes_url").bind Json.str?
    minOs := (custom.lookup "min_os").bind Json.str?
    minFromVersion := (custom.lookup "min_from_version").bind Json.str? }, ?_, rfl, ?_, rfl⟩
  · unfold releaseInfo
    rw [hversion]
    exact if_pos hrange
  · exact UInt32.toNat_ofNat_of_lt' hrange.1

theorem releaseInfo_of_lt {version : String} (hversion : custom.lookup "version" = some (.str version))
    (hpct : 100 < clientPct custom) :
    releaseInfo custom = .error (.Malformed "rollout_pct out of range") := by
  have hrange : ¬ (clientPct custom < 2 ^ 32 ∧ clientPct custom ≤ 100) := by omega
  unfold releaseInfo
  rw [hversion]
  exact if_neg hrange

/-- Without a text under `version` both decoders refuse. -/
theorem both_refuse (hversion : ∀ version, custom.lookup "version" ≠ some (.str version)) :
    (∃ e, fromCustom doubles custom = .error e) ∧ ∃ e, releaseInfo custom = .error e := by
  constructor
  · cases h : fromCustom doubles custom with
    | error e => exact ⟨e, rfl⟩
    | ok info => exact absurd (Core.fromCustom_eq_ok.mp h).1 (hversion _)
  · have hnone : (custom.lookup "version").bind Json.str? = none := by
      rw [Option.bind_eq_none_iff]
      intro value hvalue
      cases value with
      | str version => exact absurd hvalue (hversion version)
      | _ => rfl
    exact ⟨.Malformed "release metadata has no version", by simp only [releaseInfo, hnone]⟩

/-! ## Where both agree -/

/-- An unsigned integer of 64 bits reaches the client as it is. -/
theorem clientPct_of_int {pct : Nat} (h : (custom.lookup "rollout_pct").getD (.int 100) = .int pct)
    (hlt : pct < 2 ^ 64) : clientPct custom = pct := by
  unfold clientPct
  cases hvalue : custom.lookup "rollout_pct" with
  | none =>
    rw [hvalue, Option.getD_none, Json.int.injEq] at h
    simp only [Option.bind_none, Option.getD_none]
    omega
  | some value =>
    rw [hvalue, Option.getD_some] at h
    rw [Option.bind_some, asU64_eq_some.mpr ⟨h, hlt⟩, Option.getD_some]

/-- A percentage that the client goes by and that is no default was one in the map. -/
theorem int_of_clientPct {value : Json} (hvalue : custom.lookup "rollout_pct" = some value)
    (h : 100 < clientPct custom) :
    value = .int (clientPct custom) ∧ clientPct custom < 2 ^ 64 := by
  rw [clientPct, hvalue, Option.bind_some] at h ⊢
  cases hread : asU64 value with
  | none => simp [hread] at h
  | some n => exact asU64_eq_some.mp hread

/-- The flags of both sides are one exactly where the map's is missing, a boolean or false to
Python. -/
theorem mandatory_eq_iff :
    clientMandatory custom = pyBool doubles ((custom.lookup "mandatory").getD (.bool false)) ↔
      ∀ flag, custom.lookup "mandatory" = some flag →
        (∃ b, flag = .bool b) ∨ pyBool doubles flag = false := by
  unfold clientMandatory
  cases custom.lookup "mandatory" with
  | none => simp [pyBool]
  | some flag =>
    cases flag with
    | bool b => simp [Json.bool?, pyBool]
    | _ => simp [Json.bool?, @eq_comm _ false]

/-- On a map with a text under `version` and a percentage in the client's range, the decoders
have the same release exactly where the text is a segment, the percentage converts to itself
and the flag is alike. -/
theorem sameRelease_iff {version : String}
    (hversion : custom.lookup "version" = some (.str version))
    (hpct : clientPct custom ≤ 100) :
    SameRelease (fromCustom doubles custom) (releaseInfo custom) ↔
      segmentMatches version = true ∧
        pyInt doubles ((custom.lookup "rollout_pct").getD (.int 100)) = .ok (clientPct custom : Int) ∧
        clientMandatory custom =
          pyBool doubles ((custom.lookup "mandatory").getD (.bool false)) := by
  obtain ⟨seen, hseen, hseenVersion, hseenPct, hflag⟩ := releaseInfo_of_le hversion hpct
  rw [hseen]
  constructor
  · intro h
    cases hdecoded : fromCustom doubles custom with
    | error e => simp [hdecoded, SameRelease] at h
    | ok info =>
      rw [hdecoded] at h
      obtain ⟨hv, hp, hm⟩ := h
      obtain ⟨-, hinfoPct, hinfoFlag, -⟩ := Core.fromCustom_eq_ok.mp hdecoded
      rw [← hseenVersion, hv, ← hseenPct, hp, ← hflag, hm]
      exact ⟨info.versionSafe, hinfoPct, hinfoFlag⟩
  · rintro ⟨hsafe, hint, hmandatory⟩
    have hdecoded : fromCustom doubles custom = .ok {
        version
        notesUrl := (custom.lookup "notes_url").getD .null
        minOs := (custom.lookup "min_os").getD .null
        minFromVersion := (custom.lookup "min_from_version").getD .null
        mandatory := clientMandatory custom
        rolloutPct := clientPct custom
        versionSafe := hsafe
        pctInRange := by omega } :=
      Core.fromCustom_eq_ok.mpr ⟨hversion, hint, hmandatory, rfl, rfl, rfl⟩
    rw [hdecoded]
    exact ⟨hseenVersion, congrArg Nat.cast hseenPct, hflag⟩

theorem wellTyped_of_agree (h : DecodersAgree doubles custom) : WellTyped doubles custom := by
  intro version hversion
  by_cases hlarge : 100 < clientPct custom
  · -- Above the range the client goes by the map's own integer.
    cases hvalue : custom.lookup "rollout_pct" with
    | none => simp [clientPct, hvalue] at hlarge
    | some value =>
      obtain ⟨hint, hlt⟩ := int_of_clientPct hvalue hlarge
      exact ⟨clientPct custom, hint, hlt, by omega⟩
  · have hpct : clientPct custom ≤ 100 := by omega
    obtain ⟨hsafe, hint, hmandatory⟩ := (sameRelease_iff hversion hpct).mp h.same
    have hvalue : (custom.lookup "rollout_pct").getD (.int 100) = .int (clientPct custom) := by
      cases hlookup : custom.lookup "rollout_pct" with
      | none => simp [clientPct, hlookup]
      | some value =>
        by_contra hne
        obtain ⟨-, e, herror⟩ := h.failsClosed value hlookup fun ⟨pct, hpct, hrange⟩ => by
          subst hpct
          refine hne ?_
          have hclient : clientPct custom = pct.toNat :=
            clientPct_of_int (by rw [hlookup]; simp; omega) (by omega)
          rw [Option.getD_some, hclient]
          simp
          omega
        obtain ⟨seen, hseen, -⟩ := releaseInfo_of_le hversion hpct
        simp [hseen] at herror
    exact ⟨clientPct custom, hvalue, by omega, fun _ => ⟨hsafe, mandatory_eq_iff.mp hmandatory⟩⟩

theorem agree_of_wellTyped (h : WellTyped doubles custom) : DecodersAgree doubles custom := by
  by_cases htext : ∃ version, custom.lookup "version" = some (.str version)
  · obtain ⟨version, hversion⟩ := htext
    obtain ⟨pct, hvalue, hlt, hrest⟩ := h version hversion
    have hclient := clientPct_of_int hvalue hlt
    by_cases hpct : pct ≤ 100
    · obtain ⟨hsafe, hflags⟩ := hrest hpct
      refine ⟨(sameRelease_iff hversion (by omega)).mpr
        ⟨hsafe, ?_, mandatory_eq_iff.mpr hflags⟩, fun value hlookup hnot => ?_⟩
      · rw [hvalue, hclient]
        rfl
      · rw [hlookup, Option.getD_some] at hvalue
        exact absurd ⟨pct, hvalue, by omega, by omega⟩ hnot
    · have hrefuses := releaseInfo_of_lt hversion (by omega)
      have hdecodes : ∃ e, fromCustom doubles custom = .error e := by
        cases hdecoded : fromCustom doubles custom with
        | error e => exact ⟨e, rfl⟩
        | ok info =>
          have hint := (Core.fromCustom_eq_ok.mp hdecoded).2.1
          rw [hvalue, pyInt, Except.ok.injEq] at hint
          have := info.pctInRange
          omega
      obtain ⟨e, hdecodes⟩ := hdecodes
      refine ⟨?_, fun _ _ _ => ⟨⟨e, hdecodes⟩, ⟨_, hrefuses⟩⟩⟩
      rw [hdecodes, hrefuses]
      trivial
  · obtain ⟨⟨e, hdecodes⟩, ⟨e', hrefuses⟩⟩ : (∃ e, fromCustom doubles custom = .error e) ∧ _ :=
      both_refuse (not_exists.mp htext)
    refine ⟨?_, fun _ _ _ => ⟨⟨e, hdecodes⟩, ⟨e', hrefuses⟩⟩⟩
    rw [hdecodes, hrefuses]
    trivial

/-! ## Round trip -/

/-- A release's info, as the client's decoder types it. -/
def clientInfo (info : Core.ReleaseInfo) : ReleaseInfo where
  version := info.version
  rolloutPct := UInt32.ofNat info.rolloutPct.toNat
  mandatory := info.mandatory
  notesUrl := info.notesUrl
  minOs := info.minOs
  minFromVersion := info.minFromVersion

theorem releaseInfo_toCustom (info : Core.ReleaseInfo) :
    releaseInfo info.toCustom = .ok (clientInfo info) := by
  obtain ⟨hnotes, hos, hfrom⟩ := Core.lookup_toCustom_optional info
  have hrange := info.pctInRange
  have hpct : ((some (Json.int info.rolloutPct)).bind asU64).getD 100 = info.rolloutPct.toNat := by
    have hread : asU64 (.int info.rolloutPct) = some info.rolloutPct.toNat :=
      asU64_eq_some.mpr ⟨by simp; omega, by omega⟩
    rw [Option.bind_some, hread, Option.getD_some]
  have hstr (field : Option String) : (field.map Json.str).bind Json.str? = field := by
    cases field <;> rfl
  unfold releaseInfo
  rw [Core.lookup_toCustom_version, Core.lookup_toCustom_rolloutPct,
    Core.lookup_toCustom_mandatory, hnotes, hos, hfrom, hstr, hstr, hstr, hpct]
  exact if_pos (by omega)

/-- The decoders agree and fail closed exactly on the well-typed maps, and both read back
every release's info. -/
theorem decodersAgree_iff (doubles : Doubles) :
    (∀ custom, DecodersAgree doubles custom ↔ WellTyped doubles custom) ∧
      ∀ info : Core.ReleaseInfo,
        fromCustom doubles info.toCustom = .ok info.decoded ∧
          releaseInfo info.toCustom = .ok (clientInfo info) :=
  ⟨fun _ => ⟨wellTyped_of_agree, agree_of_wellTyped⟩,
    fun info => ⟨Core.fromCustom_toCustom info, releaseInfo_toCustom info⟩⟩

/-- A quarter of the installations for the server, every one of them for the client. -/
theorem text_percentage_widens :
    ¬ ∃ doubles, DecodersAgree doubles [("version", .str "1.0.0"), ("rollout_pct", .str "25")] := by
  rintro ⟨doubles, h⟩
  obtain ⟨pct, hpct, -⟩ := wellTyped_of_agree h "1.0.0" rfl
  cases hpct

end DistPlatform.Client
