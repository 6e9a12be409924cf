import Mathlib.Data.List.Lex
import Mathlib.Data.List.TakeWhile
import Mathlib.Data.String.Basic
import Mathlib.Tactic.Common

/-!
# Text as bytes

A text crosses an interface as the bytes of its UTF-8 encoding, often up to the first zero
byte. The zero byte encodes the character NUL and stands in no other encoding, so cutting the
bytes and cutting the text are one thing. The order of the bytes is that of the texts.

## Main definitions

* `Utf8.bytes`, `Utf8.encode` — the encoding of a text, and of its characters.
* `Utf8.beforeNul` — a text up to its first NUL.
-/

namespace DistPlatform.Utf8

def bytes (s : String) : List UInt8 := s.toUTF8.toList

def encode (cs : List Char) : List UInt8 := cs.flatMap String.utf8EncodeChar

def NUL : Char := Char.ofNat 0

def beforeNul (s : String) : String := String.ofList (s.toList.takeWhile (· ≠ NUL))

/-! ## The encoding -/

/-- The loop collects what is left of the array from `i` on. -/
theorem toList_loop (bs : ByteArray) (i : Nat) (acc : List UInt8) :
    ByteArray.toList.loop bs i acc = acc.reverse ++ bs.data.toList.drop i := by
  fun_induction ByteArray.toList.loop bs i acc with
  | case1 i acc hi ih =>
    have hlt : i < bs.data.toList.length := by simpa using hi
    rw [ih, List.drop_eq_getElem_cons hlt]
    simp [ByteArray.get!, hi]
  | case2 i acc hi =>
    have hle : bs.data.toList.length ≤ i := by simpa using hi
    rw [List.drop_of_length_le hle, List.append_nil]

theorem toList_toByteArray (l : List UInt8) : l.toByteArray.toList = l := by
  rw [ByteArray.toList, toList_loop, List.toList_data_toByteArray]
  simp

theorem bytes_ofList (cs : List Char) :
    bytes (String.ofList cs) = cs.flatMap String.utf8EncodeChar := by
  rw [bytes, String.toUTF8_eq_toByteArray, String.toByteArray_ofList]
  exact toList_toByteArray _

theorem bytes_eq (s : String) : bytes s = s.toList.flatMap String.utf8EncodeChar := by
  rw [← bytes_ofList, String.ofList_toList]

theorem encode_append {cs ds : List Char} : encode (cs ++ ds) = encode cs ++ encode ds :=
  List.flatMap_append

theorem encode_cons {c : Char} {cs : List Char} : encode (c :: cs) = encode [c] ++ encode cs := by
  rw [← encode_append, List.singleton_append]

/-- Decoding gives back the text that was encoded. -/
theorem fromUTF8?_bytes (s : String) : String.fromUTF8? ⟨(bytes s).toArray⟩ = some s := by
  have hbytes : (⟨(bytes s).toArray⟩ : ByteArray) = s.toByteArray := by
    rw [bytes, String.toUTF8_eq_toByteArray, ByteArray.toList, toList_loop]
    simp
  rw [hbytes, String.fromUTF8?, dif_pos s.isValidUTF8]
  rfl

theorem encode_injective {cs ds : List Char} (h : encode cs = encode ds) : cs = ds := by
  have hbytes : bytes (String.ofList cs) = bytes (String.ofList ds) := by
    rw [bytes_ofList, bytes_ofList]
    exact h
  have hdecode := fromUTF8?_bytes (String.ofList cs)
  rw [hbytes, fromUTF8?_bytes] at hdecode
  exact (String.ofList_injective (Option.some.inj hdecode)).symm

theorem bytes_injective : Function.Injective bytes := by
  intro s t h
  rw [bytes_eq, bytes_eq] at h
  exact String.toList_inj.mp (encode_injective h)

/-! ## The order -/

/-- An earlier character is encoded to earlier bytes, whatever comes behind either. -/
theorem utf8EncodeChar_lt {c d : Char} (h : c < d) (r s : List UInt8) :
    String.utf8EncodeChar c ++ r < String.utf8EncodeChar d ++ s := by
  have hlt : c.val.toNat < d.val.toNat := h
  have hlast : d.val.toNat < 1114112 := by
    have := d.valid
    simp only [UInt32.isValidChar, Nat.isValidChar] at this
    omega
  have hbyte (m n : Nat) : UInt8.ofNat m < UInt8.ofNat n ↔ m % 256 < n % 256 := by
    rw [UInt8.lt_iff_toNat_lt]
    simp
  have hsame (m n : Nat) : UInt8.ofNat m = UInt8.ofNat n ↔ m % 256 = n % 256 := by
    rw [← UInt8.toNat_inj]
    simp
  have hdigits (n : Nat) : n / 4096 = n / 64 / 64 ∧ n / 262144 = n / 64 / 64 / 64 := by
    simp [Nat.div_div_eq_div_mul]
  simp only [String.utf8EncodeChar]
  generalize c.val.toNat = m at *
  generalize d.val.toNat = n at *
  split_ifs <;>
    simp only [List.cons_append, List.nil_append, List.cons_lt_cons_iff, hbyte, hsame, hdigits] <;>
    omega

theorem utf8EncodeChar_ne_nil (c : Char) : String.utf8EncodeChar c ≠ [] := by
  simp only [String.utf8EncodeChar]
  split_ifs <;> exact List.cons_ne_nil _ _

theorem encode_lt {cs ds : List Char} (h : cs < ds) : encode cs < encode ds := by
  induction cs generalizing ds with
  | nil =>
    cases ds with
    | nil => exact absurd h (lt_irrefl _)
    | cons d ds =>
      obtain ⟨b, bs, hd⟩ := List.exists_cons_of_ne_nil (utf8EncodeChar_ne_nil d)
      rw [encode, encode, List.flatMap_nil, List.flatMap_cons, hd, List.cons_append]
      exact List.nil_lt_cons _ _
  | cons c cs ih =>
    cases ds with
    | nil => exact absurd h (List.not_lt_nil _)
    | cons d ds =>
      rw [encode, encode, List.flatMap_cons, List.flatMap_cons]
      obtain hlt | ⟨rfl, hrest⟩ := List.cons_lt_cons_iff.mp h
      · exact utf8EncodeChar_lt hlt _ _
      · exact List.append_left_lt (ih hrest)

/-- Comparing the bytes of two texts compares the texts. -/
theorem encode_lt_iff {s t : String} : encode s.toList < encode t.toList ↔ s < t := by
  have hlt {s t : String} (h : s < t) : encode s.toList < encode t.toList :=
    encode_lt (String.lt_iff.mp h)
  refine ⟨fun h => ?_, hlt⟩
  obtain hst | rfl | hts := lt_trichotomy s t
  · exact hst
  · exact absurd h (List.lt_irrefl _)
  · exact absurd (hlt hts) (List.lt_asymm h)

/-! ## The zero byte -/

/-- A byte below 128 encodes the character of its own number, and stands in the encoding of no
other. -/
theorem toNat_of_mem_utf8EncodeChar {c : Char} {b : UInt8} (h : b ∈ String.utf8EncodeChar c)
    (hb : b.toNat < 128) : c.toNat = b.toNat := by
  have hc : c.toNat = c.val.toNat := rfl
  simp only [String.utf8EncodeChar] at h
  rw [hc]
  generalize c.val.toNat = n at h
  split_ifs at h <;>
    simp only [List.mem_cons, List.not_mem_nil, or_false] at h <;>
    rcases h with rfl | rfl | rfl | rfl <;>
    simp only [UInt8.toNat_ofNat'] at hb ⊢ <;> omega

/-- Only NUL is encoded with a zero byte. -/
theorem zero_not_mem_utf8EncodeChar {c : Char} (h : c ≠ NUL) :
    ∀ b ∈ String.utf8EncodeChar c, b ≠ 0 := by
  rintro b hb rfl
  have hzero := toNat_of_mem_utf8EncodeChar hb (by decide)
  exact h (Char.ext (UInt32.toNat_inj.mp hzero))

theorem utf8EncodeChar_nul : String.utf8EncodeChar NUL = [0] := by decide

/-- The bytes before the first zero are those of the text before its first NUL, also when
zeros are put behind the text. -/
theorem takeWhile_bytes (s : String) (n : Nat) :
    (bytes s ++ List.replicate n 0).takeWhile (· ≠ 0) = bytes (beforeNul s) := by
  rw [bytes_eq, beforeNul, bytes_ofList]
  induction s.toList with
  | nil => cases n <;> simp [List.replicate_succ]
  | cons c cs ih =>
    by_cases hc : c = NUL
    · subst hc
      simp [utf8EncodeChar_nul]
    · rw [List.flatMap_cons, List.append_assoc, List.takeWhile_append_of_pos (by
        simpa using zero_not_mem_utf8EncodeChar hc), ih]
      simp [hc]

theorem beforeNul_eq_self_iff {s : String} : beforeNul s = s ↔ NUL ∉ s.toList := by
  rw [← String.toList_inj, beforeNul, String.toList_ofList, List.takeWhile_eq_self_iff]
  constructor
  · intro h hmem
    simpa using h NUL hmem
  · intro h c hc
    simp only [decide_eq_true_eq]
    rintro rfl
    exact h hc

end DistPlatform.Utf8
