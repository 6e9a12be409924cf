import DistPlatform.Client.Binding
import DistPlatform.Core.Rollout

/-!
# Rollout on both sides (`rollout.rs`, `dist_client.in_rollout`)

The binding hands two texts and a number to the library: a text arrives up to its first NUL, and
the number modulo `2 ^ 32`. Past that boundary the library computes what the server's reference
implementation computes.

## Main definitions

* `pyInRollout` — `dist_client.in_rollout`, of any integer.
* `RolloutAgrees` — both sides answer alike, as their bucket says, and monotonically.
* `Carried` — the boundary carries the arguments as far as they matter.
-/

namespace DistPlatform.Client

open Utf8 (NUL)

/-- `dist_client.in_rollout`: `ctypes.c_uint32` keeps the low bits of any integer. -/
def pyInRollout (digest : Core.Digest) (installId appId : String) (rolloutPct : Int) :
    Except DistError Bool :=
  bindingInRollout digest.sum installId appId (UInt32.ofInt rolloutPct)

/-- What a `uint32_t` keeps of an integer. -/
def arriving (n : Int) : Int := n % 2 ^ 32

/-- What a rollout decision is to be on both sides, at one percentage and the higher ones. -/
structure RolloutAgrees (digest : Core.Digest) (installId appId : String) (pct : Int) : Prop where
  same : (pyInRollout digest installId appId pct).toOption =
    (Core.inRollout digest installId appId pct).toOption
  fails : (pyInRollout digest installId appId pct).toOption = none ↔ ¬ (0 ≤ pct ∧ pct ≤ 100)
  bucket : 0 ≤ pct ∧ pct ≤ 100 →
    pyInRollout digest installId appId pct =
      .ok (decide ((Core.bucket digest installId appId : Int) < pct))
  bucket_lt : Core.bucket digest installId appId < 100
  monotone : ∀ q, pct ≤ q → q ≤ 100 →
    (pyInRollout digest installId appId pct = .ok true →
      pyInRollout digest installId appId q = .ok true) ∧
    (Core.inRollout digest installId appId pct = .ok true →
      Core.inRollout digest installId appId q = .ok true)

/-- The percentage does not wrap into the range, and where the bucket decides, no NUL cuts an
identifier short. -/
def Carried (installId appId : String) (pct : Int) : Prop :=
  (arriving pct ≤ 100 → 0 ≤ pct ∧ pct ≤ 100) ∧
    (0 < pct ∧ pct < 100 → NUL ∉ installId.toList ∧ NUL ∉ appId.toList)

instance {installId appId : String} {pct : Int} : Decidable (Carried installId appId pct) :=
  inferInstanceAs (Decidable (_ ∧ _))

/-! ## The library computes what the server computes -/

variable {digest : Core.Digest} {installId appId : String}

theorem bucketOf_eq {raw : List UInt8} (h : raw.length = 32) :
    bucketOf raw = Core.fromBytes (raw.take 4) % 100 := by
  match raw, h with
  | b0 :: b1 :: b2 :: b3 :: rest, _ =>
    simp only [bucketOf, Core.fromBytes, List.take_succ_cons, List.take_zero, List.foldl_cons,
      List.foldl_nil]
    omega

theorem bytes_join (installId appId : String) :
    installId.toUTF8.toList ++ ":".toUTF8.toList ++ appId.toUTF8.toList =
      Utf8.bytes (installId ++ ":" ++ appId) := by
  change Utf8.bytes installId ++ Utf8.bytes ":" ++ Utf8.bytes appId = _
  simp only [Utf8.bytes_eq, String.toList_append, List.flatMap_append]

theorem bucketOf_sum : bucketOf (digest.sum (installId.toUTF8.toList ++ ":".toUTF8.toList ++
    appId.toUTF8.toList)) = Core.bucket digest installId appId := by
  rw [bytes_join, bucketOf_eq (digest.length_sum _)]
  rfl

theorem arriving_nonneg (n : Int) : 0 ≤ arriving n := Int.emod_nonneg _ (by decide)

theorem arriving_of_mem {pct : Int} (h : 0 ≤ pct ∧ pct ≤ 100) : arriving pct = pct :=
  Int.emod_eq_of_lt h.1 (by omega)

theorem toNat_ofInt (n : Int) : ((UInt32.ofInt n).toNat : Int) = arriving n := by
  have hlt : arriving n < 2 ^ 32 := Int.emod_lt_of_pos n (by decide)
  have hnonneg := arriving_nonneg n
  change ((UInt32.ofNat (arriving n).toNat).toNat : Int) = arriving n
  rw [UInt32.toNat_ofNat']
  omega

/-- In the library, the answer is the server's at the number that arrives. -/
theorem inRollout_eq (pct : Int) :
    inRollout digest.sum installId appId (UInt32.ofInt pct) =
      (Core.inRollout digest installId appId (arriving pct)).toOption := by
  rw [inRollout, bucketOf_sum, Core.inRollout, ← toNat_ofInt pct]
  generalize (UInt32.ofInt pct).toNat = n
  by_cases h : 100 < n
  · rw [if_pos h, if_pos (by omega)]
    rfl
  · rw [if_neg h, if_neg (not_not.mpr ⟨by omega, by omega⟩)]
    by_cases h0 : n = 0
    · rw [if_pos h0, if_pos (by omega)]
      rfl
    · rw [if_neg h0, if_neg (show ¬ (n : Int) = 0 by omega)]
      by_cases h100 : n = 100
      · rw [if_pos h100, if_pos (by omega)]
        rfl
      · rw [if_neg h100, if_neg (show ¬ (n : Int) = 100 by omega)]
        simp [Except.toOption]

/-- The binding answers what the server answers of what the boundary carries. -/
theorem pyInRollout_toOption (pct : Int) :
    (pyInRollout digest installId appId pct).toOption =
      (Core.inRollout digest (cString installId) (cString appId) (arriving pct)).toOption := by
  rw [← inRollout_eq, pyInRollout, bindingInRollout]
  cases inRollout digest.sum (cString installId) (cString appId) (UInt32.ofInt pct) <;> rfl

theorem toOption_eq_some {ε α : Type} {x : Except ε α} {a : α} :
    x.toOption = some a ↔ x = .ok a := by
  cases x <;> simp [Except.toOption]

theorem pyInRollout_eq_ok {pct : Int} {inside : Bool} :
    pyInRollout digest installId appId pct = .ok inside ↔
      arriving pct ≤ 100 ∧ inside =
        decide ((Core.bucket digest (cString installId) (cString appId) : Int) < arriving pct) := by
  rw [← toOption_eq_some, pyInRollout_toOption, toOption_eq_some, Core.inRollout_eq_ok]
  simp [arriving_nonneg]

theorem pyInRollout_eq_none {pct : Int} :
    (pyInRollout digest installId appId pct).toOption = none ↔ 100 < arriving pct := by
  rw [← not_iff_not, ← ne_eq, Option.ne_none_iff_exists']
  simp [toOption_eq_some, pyInRollout_eq_ok]

/-! ## Where both sides agree -/

theorem cString_of_no_nul {s : String} (h : NUL ∉ s.toList) : cString s = s :=
  Utf8.beforeNul_eq_self_iff.mpr h

/-- Under the condition the binding decides by the installation's own bucket. -/
theorem pyInRollout_of_carried {pct : Int} (h : Carried installId appId pct)
    (hpct : 0 ≤ pct ∧ pct ≤ 100) :
    pyInRollout digest installId appId pct =
      .ok (decide ((Core.bucket digest installId appId : Int) < pct)) := by
  rw [pyInRollout_eq_ok, arriving_of_mem hpct]
  refine ⟨hpct.2, ?_⟩
  by_cases hinner : 0 < pct ∧ pct < 100
  · obtain ⟨hinstall, happ⟩ := h.2 hinner
    rw [cString_of_no_nul hinstall, cString_of_no_nul happ]
  · -- At the ends every bucket gives the same answer.
    have hlt := @Core.bucket_lt digest installId appId
    have hlt' := @Core.bucket_lt digest (cString installId) (cString appId)
    rw [decide_eq_decide]
    omega

theorem carried_of_le {p q : Int} (h : Carried installId appId p)
    (hinside : pyInRollout digest installId appId p = .ok true) (hpq : p ≤ q) (hq : q ≤ 100) :
    Carried installId appId q := by
  obtain ⟨harrives, hlt⟩ := pyInRollout_eq_ok.mp hinside
  have hp := h.1 harrives
  rw [arriving_of_mem hp, eq_comm, decide_eq_true_eq] at hlt
  exact ⟨fun _ => by omega, fun hinner => h.2 (by omega)⟩

theorem rolloutAgrees_of_carried {pct : Int} (h : Carried installId appId pct) :
    RolloutAgrees digest installId appId pct := by
  have hnone : (pyInRollout digest installId appId pct).toOption = none ↔
      ¬ (0 ≤ pct ∧ pct ≤ 100) := by
    rw [pyInRollout_eq_none]
    constructor
    · intro hlarge hpct
      rw [arriving_of_mem hpct] at hlarge
      omega
    · intro hpct
      by_contra hsmall
      exact hpct (h.1 (by omega))
  refine ⟨?_, hnone, fun hpct => pyInRollout_of_carried h hpct, Core.bucket_lt, ?_⟩
  · by_cases hpct : 0 ≤ pct ∧ pct ≤ 100
    · rw [pyInRollout_of_carried h hpct, Core.inRollout_of_mem hpct]
      rfl
    · rw [hnone.mpr hpct, Core.inRollout, if_pos hpct]
      rfl
  · intro q hpq hq
    refine ⟨fun hinside => ?_, Core.inRollout_mono hpq hq⟩
    have hp := h.1 (pyInRollout_eq_ok.mp hinside).1
    have hq' : 0 ≤ q ∧ q ≤ 100 := by omega
    rw [pyInRollout_of_carried (carried_of_le h hinside hpq hq) hq']
    rw [pyInRollout_of_carried h hp, Except.ok.injEq, decide_eq_true_eq] at hinside
    rw [Except.ok.injEq, decide_eq_true_eq]
    omega

/-! ## Where they do not -/

/-- A digest function that puts one message in the first bucket and all others in the last. -/
def apart (message : List UInt8) : Core.Digest where
  sum m := if m = message then List.replicate 32 0 else [0, 0, 0, 99] ++ List.replicate 28 0
  length_sum m := by split <;> rfl

theorem length_cString_le (s : String) : (cString s).toList.length ≤ s.toList.length := by
  rw [cString, String.toList_ofList]
  exact (List.takeWhile_prefix _).length_le

/-- A text that contains NUL arrives shorter. -/
theorem length_cString_lt {s : String} (h : NUL ∈ s.toList) :
    (cString s).toList.length < s.toList.length := by
  refine lt_of_le_of_ne (length_cString_le s) fun heq => ?_
  have hself : s.toList.takeWhile (· ≠ NUL) = s.toList := by
    refine (List.takeWhile_prefix _).eq_of_length ?_
    rw [cString, String.toList_ofList] at heq
    exact heq
  exact Utf8.beforeNul_eq_self_iff.mp (by rw [Utf8.beforeNul, hself, String.ofList_toList]) h

/-- Where a NUL stands in one of the identifiers, the library hashes another message. -/
theorem bytes_cString_ne (h : NUL ∈ installId.toList ∨ NUL ∈ appId.toList) :
    Utf8.bytes (cString installId ++ ":" ++ cString appId) ≠
      Utf8.bytes (installId ++ ":" ++ appId) := by
  intro heq
  have hlength := congrArg (fun s => s.toList.length) (Utf8.bytes_injective heq)
  simp only [String.toList_append, List.length_append] at hlength
  have hinstall := length_cString_le installId
  have happ := length_cString_le appId
  rcases h with h | h
  · have := length_cString_lt h
    omega
  · have := length_cString_lt h
    omega

/-- Both sides agree, whatever the digests are, exactly where the boundary carries what
matters of the arguments. -/
theorem rolloutAgrees_iff :
    ∀ installId appId pct,
      (∀ digest, RolloutAgrees digest installId appId pct) ↔ Carried installId appId pct := by
  intro installId appId pct
  refine ⟨fun h => ⟨fun harrives => ?_, fun hinner => ?_⟩, fun h _ => rolloutAgrees_of_carried h⟩
  · by_contra hpct
    have := pyInRollout_eq_none.mp ((h (apart [])).fails.mpr hpct)
    omega
  · rw [← not_or]
    intro hnul
    -- The installation's own bucket is the first one, the bucket of what arrives the last.
    let digest := apart (Utf8.bytes (installId ++ ":" ++ appId))
    have hown : Core.bucket digest installId appId = 0 := by
      simp only [Core.bucket, digest, apart, if_true]
      rfl
    have hother : Core.bucket digest (cString installId) (cString appId) = 99 := by
      simp only [Core.bucket, digest, apart, if_neg (bytes_cString_ne hnul)]
      rfl
    have hpct : 0 ≤ pct ∧ pct ≤ 100 := by omega
    have hbucket := (h digest).bucket hpct
    rw [pyInRollout_eq_ok, arriving_of_mem hpct, hown, hother, decide_eq_decide] at hbucket
    omega

/-- A percentage past `2 ^ 32` is refused by the server and decided by the client. -/
theorem wrapped_percentage_admits :
    ¬ ∃ digest, RolloutAgrees digest "install-0" "editor" (2 ^ 32 + 50) := by
  rintro ⟨digest, h⟩
  have := pyInRollout_eq_none.mp (h.fails.mpr (by decide))
  exact absurd this (by decide)

end DistPlatform.Client
