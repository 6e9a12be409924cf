import DistPlatform.Tuf.Updates
import Mathlib.Data.Finset.Card
import Mathlib.Data.List.Dedup

/-!
# What a threshold of signatures stands for (`tuf/src/verify.rs`)

A document is accepted when as many different key ids as the threshold asks for have a good
signature in it. Where fewer keys than the threshold are in the wrong hands, one of the good
signatures is by a key that is not.

## Main definitions

* `lastSignature` — the signature that stands under a key id.
* `Backs` — an authorised key has a good signature in the document.
* `Endorsed` — enough different key ids back what the document holds.
* `SignedOnly` — what the owners of the keys that are not lost ever signed.
* `Withstands`, `MadeBy` — too few keys are lost, and what their owners then answer for.
-/

namespace DistPlatform.Tuf

open DistPlatform Fallible

/-! ## The signatures that are counted -/

section Distinct

variable {signatures : List Signature} {id : KeyId} {s : Signature}

/-- `collect` into a map: a later signature under a key id replaces an earlier one. -/
def lastSignature (signatures : List Signature) (id : KeyId) : Option Signature :=
  signatures.reverse.find? (·.keyId == id)

theorem distinctSignatures_cons :
    distinctSignatures (s :: signatures) =
      if (distinctSignatures signatures).any (·.keyId == s.keyId) then
        distinctSignatures signatures
      else s :: distinctSignatures signatures :=
  rfl

theorem lastSignature_cons :
    lastSignature (s :: signatures) id =
      (lastSignature signatures id).or (if s.keyId == id then some s else none) := by
  rw [lastSignature, List.reverse_cons, List.find?_append, List.find?_singleton]
  rfl

theorem lastSignature_keyId (h : lastSignature signatures id = some s) : s.keyId = id := by
  simpa using List.find?_some h

theorem lastSignature_mem (h : lastSignature signatures id = some s) : s ∈ signatures :=
  List.mem_reverse.mp (List.mem_of_find?_eq_some h)

theorem lastSignature_eq_none :
    lastSignature signatures id = none ↔ ∀ s ∈ signatures, s.keyId ≠ id := by
  simp [lastSignature, List.find?_eq_none]

/-- Every key id of the document keeps one signature. -/
theorem any_distinctSignatures :
    (distinctSignatures signatures).any (·.keyId == id) = signatures.any (·.keyId == id) := by
  induction signatures with
  | nil => rfl
  | cons first rest ih =>
    rw [distinctSignatures_cons, List.any_cons, ← ih]
    split
    next hlater =>
      by_cases hid : first.keyId = id
      · rw [← hid, hlater, Bool.or_true]
      · rw [beq_eq_false_iff_ne.mpr hid, Bool.false_or]
    · rw [List.any_cons]

theorem mem_distinctSignatures :
    s ∈ distinctSignatures signatures ↔ lastSignature signatures s.keyId = some s := by
  induction signatures with
  | nil => simp [distinctSignatures, lastSignature]
  | cons first rest ih =>
    have hlater : (distinctSignatures rest).any (·.keyId == first.keyId) = false ↔
        lastSignature rest first.keyId = none := by
      rw [any_distinctSignatures, lastSignature_eq_none]
      simp
    rw [distinctSignatures_cons, lastSignature_cons, Option.or_eq_some_iff, ← ih]
    split
    next hany =>
      -- a later signature stands under the key id of the first
      have hsome : lastSignature rest first.keyId ≠ none := fun h => by
        rw [hlater.mpr h] at hany
        cases hany
      constructor
      · exact .inl
      · rintro (h | ⟨hnone, hfirst⟩)
        · exact h
        · split at hfirst
          next hid => exact absurd (beq_iff_eq.mp hid ▸ hnone) hsome
          · cases hfirst
    next hnew =>
      have hnone := hlater.mp (Bool.eq_false_iff.mpr hnew)
      rw [List.mem_cons, or_comm]
      refine or_congr_right ⟨?_, ?_⟩
      · rintro rfl
        exact ⟨hnone, if_pos (beq_self_eq_true _)⟩
      · rintro ⟨-, h⟩
        split at h
        · exact (Option.some.inj h).symm
        · cases h

theorem nodup_distinctSignatures : ((distinctSignatures signatures).map (·.keyId)).Nodup := by
  induction signatures with
  | nil => exact List.nodup_nil
  | cons first rest ih =>
    rw [distinctSignatures_cons]
    split
    · exact ih
    next hnew =>
      rw [List.map_cons, List.nodup_cons]
      refine ⟨fun hmem => hnew ?_, ih⟩
      obtain ⟨s, hs, hid⟩ := List.mem_map.mp hmem
      exact List.any_eq_true.mpr ⟨s, hs, beq_iff_eq.mpr hid⟩

end Distinct

/-! ## The key ids that back a document -/

section Backing

variable (ic : Interchange) (authorized : List PublicKey)

/-- The signature that stands under the key id is a good one by the authorised key. -/
def Backs (signatures : List Signature) (bytes : List UInt8) (id : KeyId) : Prop :=
  ∃ key s, authorized.find? (·.keyId == id) = some key ∧
    lastSignature signatures id = some s ∧ ic.verify key bytes s.value = true

/-- The key ids that `verify_signatures` counts. -/
def backers (signatures : List Signature) (bytes : List UInt8) : Finset KeyId :=
  (((distinctSignatures signatures).filter (goodSignature ic authorized bytes)).map
    (·.keyId)).toFinset

/-- The file carries `signed`, and `threshold` different key ids at least back it. -/
def Endorsed (raw : List UInt8) (threshold : Nat) (signed : Json) : Prop :=
  ∃ signatures bytes, signedMetadata ic raw = some (signatures, signed) ∧
    ic.canonicalize signed = some bytes ∧ ∃ ids : Finset KeyId, threshold ≤ ids.card ∧
      ∀ id ∈ ids, Backs ic authorized signatures bytes id

variable {ic authorized} {signatures : List Signature} {bytes : List UInt8}

theorem goodSignature_iff {s : Signature} :
    goodSignature ic authorized bytes s = true ↔
      ∃ key, authorized.find? (·.keyId == s.keyId) = some key ∧
        ic.verify key bytes s.value = true := by
  unfold goodSignature
  cases authorized.find? (·.keyId == s.keyId) <;> simp

theorem mem_backers {id : KeyId} :
    id ∈ backers ic authorized signatures bytes ↔ Backs ic authorized signatures bytes id := by
  simp only [backers, List.mem_toFinset, List.mem_map, List.mem_filter, mem_distinctSignatures,
    goodSignature_iff]
  constructor
  · rintro ⟨s, ⟨hlast, key, hkey, hgood⟩, rfl⟩
    exact ⟨key, s, hkey, hlast, hgood⟩
  · rintro ⟨key, s, hkey, hlast, hgood⟩
    obtain rfl := lastSignature_keyId hlast
    exact ⟨s, ⟨hlast, key, hkey, hgood⟩, rfl⟩

theorem card_backers :
    (backers ic authorized signatures bytes).card =
      ((distinctSignatures signatures).filter (goodSignature ic authorized bytes)).length := by
  have hnodup : (((distinctSignatures signatures).filter
      (goodSignature ic authorized bytes)).map (·.keyId)).Nodup :=
    nodup_distinctSignatures.sublist (List.filter_sublist.map _)
  rw [backers, List.toFinset_card_of_nodup hnodup, List.length_map]

/-- Repeating a signature does not help a document over its threshold, and neither does the
order its signatures stand in. -/
theorem verifySignatures_iff {M : Type} {deserialize : Json → Option M} {role : MetadataPath}
    {raw : List UInt8} {threshold : Nat} {metadata : M} :
    verifySignatures ic deserialize role raw threshold authorized = .ok metadata ↔
      1 ≤ threshold ∧ ∃ signed, Endorsed ic authorized raw threshold signed ∧
        deserialize signed = some metadata := by
  rw [verifySignatures_eq_ok]
  refine and_congr_right fun _ => ?_
  constructor
  · rintro ⟨signatures, signed, bytes, hsigned, hbytes, hvalid, hread⟩
    rw [← card_backers] at hvalid
    exact ⟨signed, ⟨signatures, bytes, hsigned, hbytes, _, hvalid, fun id => mem_backers.mp⟩,
      hread⟩
  · rintro ⟨signed, ⟨signatures, bytes, hsigned, hbytes, ids, hids, hbacked⟩, hread⟩
    refine ⟨signatures, signed, bytes, hsigned, hbytes, ?_, hread⟩
    rw [← card_backers]
    exact hids.trans (Finset.card_le_card fun id hid => mem_backers.mpr (hbacked id hid))

end Backing

/-! ## Lost keys -/

section Lost

variable {ic : Interchange} {authorized : List PublicKey} {raw : List UInt8} {threshold : Nat}
  {signed : Json} {lost : Finset KeyId} {made : KeyId → List UInt8 → Prop}

/-- A good signature in the file under a key id that is not lost was made by its owner:
`made` says over which bytes each owner has signed. -/
def SignedOnly (ic : Interchange) (lost : Finset KeyId) (made : KeyId → List UInt8 → Prop)
    (raw : List UInt8) : Prop :=
  ∀ signatures signed bytes, signedMetadata ic raw = some (signatures, signed) →
    ic.canonicalize signed = some bytes →
      ∀ s ∈ signatures, ∀ key : PublicKey, key.keyId = s.keyId →
        ic.verify key bytes s.value = true → s.keyId ∉ lost → made s.keyId bytes

/-- Fewer of the keys are lost than the threshold asks for. -/
def Withstands (lost : Finset KeyId) (threshold : Nat) (authorized : List PublicKey) : Prop :=
  (lost.filter fun id => ∃ key ∈ authorized, key.keyId = id).card < threshold

instance {threshold : Nat} : Decidable (Withstands lost threshold authorized) :=
  inferInstanceAs (Decidable (_ < _))

/-- The owner of one of the keys signed the document that holds the metadata. -/
def MadeBy (ic : Interchange) (lost : Finset KeyId) (made : KeyId → List UInt8 → Prop)
    (authorized : List PublicKey) (metadata : TargetsMetadata) : Prop :=
  ∃ signed id bytes, targetsMetadata ic signed = some metadata ∧ id ∉ lost ∧
    (∃ key ∈ authorized, key.keyId = id) ∧ ic.canonicalize signed = some bytes ∧ made id bytes

/-- With fewer keys lost than the threshold, an endorsed document is one that the owner of an
authorised key signed. -/
theorem Endorsed.signedByOwner (h : Endorsed ic authorized raw threshold signed)
    (hfew : Withstands lost threshold authorized) (honly : SignedOnly ic lost made raw) :
    ∃ id bytes, id ∉ lost ∧ (∃ key ∈ authorized, key.keyId = id) ∧
      ic.canonicalize signed = some bytes ∧ made id bytes := by
  obtain ⟨signatures, bytes, hsigned, hbytes, ids, hids, hbacked⟩ := h
  have hkey : ∀ id ∈ ids, ∃ key ∈ authorized, key.keyId = id := fun id hid => by
    obtain ⟨key, s, hfind, -, -⟩ := hbacked id hid
    exact ⟨key, List.mem_of_find?_eq_some hfind, by simpa using List.find?_some hfind⟩
  obtain ⟨id, hid, hkept⟩ := Finset.exists_mem_notMem_of_card_lt_card (hfew.trans_le hids)
  have hkept : id ∉ lost := fun h => hkept (Finset.mem_filter.mpr ⟨h, hkey id hid⟩)
  obtain ⟨key, s, hfind, hlast, hgood⟩ := hbacked id hid
  obtain rfl := lastSignature_keyId hlast
  have hid' : key.keyId = s.keyId := by simpa using List.find?_some hfind
  exact ⟨s.keyId, bytes, hkept, hkey _ hid, hbytes,
    honly _ _ _ hsigned hbytes s (lastSignature_mem hlast) key hid' hgood hkept⟩

theorem madeBy_of_verified {role : MetadataPath} {metadata : TargetsMetadata}
    (h : verifySignatures ic (targetsMetadata ic) role raw threshold authorized = .ok metadata)
    (hfew : Withstands lost threshold authorized) (honly : SignedOnly ic lost made raw) :
    MadeBy ic lost made authorized metadata := by
  obtain ⟨-, signed, hendorsed, hread⟩ := verifySignatures_iff.mp h
  obtain ⟨id, bytes, hid, hkey, hbytes, hmade⟩ := hendorsed.signedByOwner hfew honly
  exact ⟨signed, id, bytes, hread, hid, hkey, hbytes, hmade⟩

end Lost

end DistPlatform.Tuf
