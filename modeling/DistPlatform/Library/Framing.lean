import DistPlatform.Library.Utf8

/-!
# Length-prefixed frames

A frame is the length of a content, a separator and the content. The length says where the
content ends, so the content may hold anything, separators and digits of lengths included: from
the front of a longer text exactly one frame can be read.

## Main definitions

* `LengthCode` — how lengths are written, and what stands behind them.
* `LengthCode.frame` — a content behind its length.
* `decimalCode` — lengths in decimal digits, with a space behind them.
-/

namespace DistPlatform

/-- Different lengths are written differently, and none of them with the separator. -/
structure LengthCode (α : Type*) where
  digits : Nat → List α
  separator : α
  injective : Function.Injective digits
  separator_notMem : ∀ n, separator ∉ digits n

namespace LengthCode

variable {α : Type*} (code : LengthCode α)

def frame (content : List α) : List α :=
  code.digits content.length ++ code.separator :: content

/-- A text is cut at its first separator in one way. -/
theorem append_separator_inj {sep : α} {x y r s : List α} (hx : sep ∉ x) (hy : sep ∉ y) :
    x ++ sep :: r = y ++ sep :: s ↔ x = y ∧ r = s := by
  induction x generalizing y with
  | nil =>
    cases y with
    | nil => simp
    | cons b y =>
      have hne : sep ≠ b := List.ne_of_not_mem_cons hy
      simp [hne]
  | cons a x ih =>
    cases y with
    | nil =>
      have hne : a ≠ sep := (List.ne_of_not_mem_cons hx).symm
      simp [hne]
    | cons b y =>
      have hrest := ih (List.not_mem_of_not_mem_cons hx) (List.not_mem_of_not_mem_cons hy)
      simp [hrest, and_assoc]

/-- The length at the front of a text, and what stands behind it. -/
theorem digits_append_inj {m n : Nat} {r s : List α} :
    code.digits m ++ code.separator :: r = code.digits n ++ code.separator :: s ↔
      m = n ∧ r = s := by
  rw [append_separator_inj (code.separator_notMem m) (code.separator_notMem n),
    code.injective.eq_iff]

theorem frame_append (content rest : List α) :
    code.frame content ++ rest =
      code.digits content.length ++ code.separator :: (content ++ rest) := by
  rw [frame, List.append_assoc, List.cons_append]

/-- The frame at the front of a text, and what stands behind it. -/
theorem frame_append_inj {x y r s : List α} :
    code.frame x ++ r = code.frame y ++ s ↔ x = y ∧ r = s := by
  rw [frame_append, frame_append, digits_append_inj]
  constructor
  · rintro ⟨hlength, hbehind⟩
    exact List.append_inj hbehind hlength
  · rintro ⟨rfl, rfl⟩
    exact ⟨rfl, rfl⟩

theorem frame_inj {x y : List α} : code.frame x = code.frame y ↔ x = y := by
  have h := code.frame_append_inj (x := x) (y := y) (r := []) (s := [])
  simpa using h

end LengthCode

/-! ## Decimal lengths -/

def decimalBytes (n : Nat) : List UInt8 := Utf8.bytes (toString n)

theorem decimalBytes_injective : Function.Injective decimalBytes := by
  intro m n h
  rw [decimalBytes, decimalBytes, Utf8.bytes_eq, Utf8.bytes_eq] at h
  have hchars := Utf8.encode_injective h
  rw [Nat.toString_eq_ofList_toDigits, Nat.toString_eq_ofList_toDigits, String.toList_ofList,
    String.toList_ofList] at hchars
  have hvalue := congrArg (fun ds => Nat.ofDigitChars 10 ds 0) hchars
  simpa using hvalue

/-- A decimal digit is no space, nor is a byte of its encoding. -/
theorem space_notMem_decimalBytes (n : Nat) : 32 ∉ decimalBytes n := by
  rw [decimalBytes, Utf8.bytes_eq, Nat.toString_eq_ofList_toDigits, String.toList_ofList]
  intro hmem
  obtain ⟨c, hc, hspace⟩ := List.mem_flatMap.mp hmem
  have hdigit := Nat.isDigit_of_mem_toDigits (by decide) (by decide) hc
  have hvalue := Utf8.toNat_of_mem_utf8EncodeChar hspace (by decide)
  have hc : c = ' ' := Char.ext (UInt32.toNat_inj.mp hvalue)
  subst hc
  exact absurd hdigit (by decide)

def decimalCode : LengthCode UInt8 :=
  ⟨decimalBytes, 32, decimalBytes_injective, space_notMem_decimalBytes⟩

end DistPlatform
