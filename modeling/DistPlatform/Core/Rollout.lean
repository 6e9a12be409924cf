import DistPlatform.Core.Naming
import DistPlatform.Library.Utf8
import DistPlatform.Library.Fallible

/-!
# Staged rollout (`dist_core.naming.in_rollout`)

A release reaches a percentage of the installations: an installation's digest puts it in one of
a hundred buckets, and it is inside where its bucket is below the percentage.

## Main definitions

* `Digest` — a digest function with the length of its values.
* `bucket` — the bucket of an installation, for one application.
* `inRollout` — the reference implementation.
-/

namespace DistPlatform.Core

open DistPlatform

/-- SHA-256, as far as it matters here: its values have 32 bytes. -/
structure Digest where
  sum : List UInt8 → List UInt8
  length_sum : ∀ message, (sum message).length = 32

/-- `int.from_bytes(raw, "big")`. -/
def fromBytes (raw : List UInt8) : Nat := raw.foldl (fun n b => 256 * n + b.toNat) 0

section Rollout

variable (digest : Digest) (installId appId : String)

def bucket : Nat :=
  fromBytes ((digest.sum (Utf8.bytes (installId ++ ":" ++ appId))).take 4) % 100

def inRollout (rolloutPct : Int) : Except ValueError Bool :=
  if ¬ (0 ≤ rolloutPct ∧ rolloutPct ≤ 100) then
    .error ⟨"rollout_pct must be 0..100, got " ++ toString rolloutPct⟩
  else if rolloutPct = 0 then .ok false
  else if rolloutPct = 100 then .ok true
  else .ok (decide ((bucket digest installId appId : Int) < rolloutPct))

end Rollout

variable {digest : Digest} {installId appId : String}

theorem bucket_lt : bucket digest installId appId < 100 := Nat.mod_lt _ (by decide)

/-- The short-cuts at both ends answer what the bucket answers. -/
theorem inRollout_of_mem {pct : Int} (h : 0 ≤ pct ∧ pct ≤ 100) :
    inRollout digest installId appId pct =
      .ok (decide ((bucket digest installId appId : Int) < pct)) := by
  have hlt : bucket digest installId appId < 100 := bucket_lt
  rw [inRollout, if_neg (by simpa using h)]
  by_cases h0 : pct = 0
  · subst h0
    simp
  · rw [if_neg h0]
    by_cases h100 : pct = 100
    · subst h100
      simp
      omega
    · rw [if_neg h100]

theorem inRollout_eq_ok {pct : Int} {inside : Bool} :
    inRollout digest installId appId pct = .ok inside ↔
      (0 ≤ pct ∧ pct ≤ 100) ∧ inside = decide ((bucket digest installId appId : Int) < pct) := by
  by_cases h : 0 ≤ pct ∧ pct ≤ 100
  · rw [inRollout_of_mem h]
    simp [h, eq_comm]
  · simp [inRollout, h]

/-- An installation that a percentage lets in stays inside at every higher one. -/
theorem inRollout_mono {p q : Int} (hpq : p ≤ q) (hq : q ≤ 100)
    (h : inRollout digest installId appId p = .ok true) :
    inRollout digest installId appId q = .ok true := by
  obtain ⟨hp, hinside⟩ := inRollout_eq_ok.mp h
  have hbucket : (bucket digest installId appId : Int) < p := by simpa using hinside.symm
  refine inRollout_eq_ok.mpr ⟨by omega, ?_⟩
  simp
  omega

end DistPlatform.Core
