import Mathlib.Data.Nat.Digits.Defs
import DistPlatform.Library.Fallible

/-!
# Digits of every script

Python asks two questions about a character that looks like a digit: `isdigit` holds of the
decimal digits of every script and of the superscripts, circled digits and the like, while
`int` reads the decimal digits alone. The tables are those of Unicode 15.1.

## Main definitions

* `Digits.decimal` — the value of a decimal digit.
* `Digits.isdigit` — `str.isdigit`.
* `Digits.int`, `Digits.intOf` — `int` of a text of digits, and of any text.
* `Digits.Whole` — the texts that `int` reads.
-/

namespace DistPlatform.Digits

/-- The zeros of the scripts: each begins a block of ten decimal digits. -/
def decimalZeros : List Nat :=
  [0x30, 0x660, 0x6f0, 0x7c0, 0x966, 0x9e6, 0xa66, 0xae6, 0xb66, 0xbe6, 0xc66, 0xce6, 0xd66,
    0xde6, 0xe50, 0xed0, 0xf20, 0x1040, 0x1090, 0x17e0, 0x1810, 0x1946, 0x19d0, 0x1a80, 0x1a90,
    0x1b50, 0x1bb0, 0x1c40, 0x1c50, 0xa620, 0xa8d0, 0xa900, 0xa9d0, 0xa9f0, 0xaa50, 0xabf0,
    0xff10, 0x104a0, 0x10d30, 0x11066, 0x110f0, 0x11136, 0x111d0, 0x112f0, 0x11450, 0x114d0,
    0x11650, 0x116c0, 0x11730, 0x118e0, 0x11950, 0x11c50, 0x11d50, 0x11da0, 0x11f50, 0x16a60,
    0x16ac0, 0x16b50, 0x1d7ce, 0x1d7d8, 0x1d7e2, 0x1d7ec, 0x1d7f6, 0x1e140, 0x1e2f0, 0x1e4f0,
    0x1e950, 0x1fbf0]

/-- The digits that are no decimal digits, as ranges of code points. -/
def digitRanges : List (Nat × Nat) :=
  [(0xb2, 0xb3), (0xb9, 0xb9), (0x1369, 0x1371), (0x19da, 0x19da), (0x2070, 0x2070),
    (0x2074, 0x2079), (0x2080, 0x2089), (0x2460, 0x2468), (0x2474, 0x247c), (0x2488, 0x2490),
    (0x24ea, 0x24ea), (0x24f5, 0x24fd), (0x24ff, 0x24ff), (0x2776, 0x277e), (0x2780, 0x2788),
    (0x278a, 0x2792), (0x10a40, 0x10a43), (0x10e60, 0x10e68), (0x11052, 0x1105a),
    (0x1f100, 0x1f10a)]

def decimal (c : Char) : Option Nat :=
  (decimalZeros.find? fun base => base ≤ c.toNat && c.toNat < base + 10).map (c.toNat - ·)

def isDigitChar (c : Char) : Bool :=
  (decimal c).isSome || digitRanges.any fun (first, last) => first ≤ c.toNat && c.toNat ≤ last

/-- `str.isdigit`: false of the empty text. -/
def isdigit (text : List Char) : Bool := !text.isEmpty && text.all isDigitChar

/-- `sys.int_info.default_max_str_digits`: longer texts are not converted. -/
def MAX_STR_DIGITS := 4300

inductive ValueError
  /-- Invalid literal for `int`. -/
  | Literal
  /-- The limit on the digits of a conversion is exceeded. -/
  | TooLong
  deriving DecidableEq, Repr

/-- `int(text)`, of a text without blanks, signs and underscores. -/
def int (text : List Char) : Except ValueError Nat :=
  if text = [] then .error .Literal
  else
    match text.mapM decimal with
    | none => .error .Literal
    | some digits =>
      if MAX_STR_DIGITS < digits.length then .error .TooLong
      else .ok (Nat.ofDigits 10 digits.reverse)

/-- The blanks around a number: those of C in ASCII, those of Unicode beyond. -/
def isBlank (c : Char) : Bool :=
  c.toNat ∈ [0x20, 0x85, 0xa0, 0x1680, 0x2028, 0x2029, 0x202f, 0x205f, 0x3000] ||
    (0x09 ≤ c.toNat && c.toNat ≤ 0x0d) || (0x2000 ≤ c.toNat && c.toNat ≤ 0x200a)

/-- `int(text)` of any text: blanks around it, one sign, single underscores between digits. -/
def intOf (text : List Char) : Except ValueError Int :=
  let body := ((text.dropWhile isBlank).reverse.dropWhile isBlank).reverse
  let unsigned (digits : List Char) : Except ValueError Nat :=
    if [] ∈ digits.splitOn '_' then .error .Literal else int (digits.splitOn '_').flatten
  match body with
  | '-' :: digits => (unsigned digits).map fun n => -(n : Int)
  | '+' :: digits => (unsigned digits).map fun n => (n : Int)
  | digits => (unsigned digits).map fun n => (n : Int)

example : intOf " 5_0 ".toList = .ok 50 := by decide +kernel
example : intOf "5__0".toList = .error .Literal := by decide +kernel

/-- The number that a text of decimal digits writes, however long it is. -/
def numeral (text : List Char) : Option Nat :=
  if text = [] then none else (text.mapM decimal).map fun digits => Nat.ofDigits 10 digits.reverse

/-- Decimal digits, as many as a conversion takes. -/
def Whole (text : List Char) : Prop :=
  (∀ c ∈ text, (decimal c).isSome) ∧ text.length ≤ MAX_STR_DIGITS

instance {text : List Char} : Decidable (Whole text) :=
  @instDecidableAnd _ _ (List.decidableBAll _ text) (Nat.decLe _ _)

theorem mapM_decimal_isSome {text : List Char} :
    (text.mapM decimal).isSome ↔ ∀ c ∈ text, (decimal c).isSome := by
  induction text with
  | nil => simp
  | cons c text ih =>
    rw [List.mapM_cons, List.forall_mem_cons, ← ih]
    cases decimal c <;> cases text.mapM decimal <;> simp

theorem length_of_mapM_decimal {text : List Char} {digits : List Nat}
    (h : text.mapM decimal = some digits) : digits.length = text.length :=
  (Fallible.mapM_eq_some.mp h).length_eq.symm

/-- `int` reads a nonempty text exactly when it is whole, and then reads its numeral. -/
theorem int_eq_ok {text : List Char} {n : Nat} :
    int text = .ok n ↔ Whole text ∧ numeral text = some n := by
  unfold int numeral Whole
  rw [← mapM_decimal_isSome]
  by_cases hnil : text = []
  · simp [hnil]
  · rw [if_neg hnil, if_neg hnil]
    cases hdigits : text.mapM decimal with
    | none => simp
    | some digits =>
      rw [← length_of_mapM_decimal hdigits]
      simp [Fallible.ite_error_eq_ok]

theorem isDigitChar_of_decimal {c : Char} (h : (decimal c).isSome) : isDigitChar c = true := by
  simp [isDigitChar, h]

theorem isdigit_of_numeral {text : List Char} {n : Nat} (h : numeral text = some n) :
    isdigit text = true := by
  unfold numeral at h
  split at h
  · cases h
  next hnil =>
    obtain ⟨digits, hdigits, -⟩ := Option.map_eq_some_iff.mp h
    have hall := mapM_decimal_isSome.mp (hdigits ▸ rfl : (text.mapM decimal).isSome)
    simp only [isdigit, Bool.and_eq_true, List.all_eq_true]
    exact ⟨by simpa using hnil, fun c hc => isDigitChar_of_decimal (hall c hc)⟩

/-- A whole text that `isdigit` lets through writes a number. -/
theorem exists_numeral {text : List Char} (hdigit : isdigit text = true) (hwhole : Whole text) :
    ∃ n, numeral text = some n := by
  have hnil : text ≠ [] := by rintro rfl; simp [isdigit] at hdigit
  obtain ⟨digits, hdigits⟩ := Option.isSome_iff_exists.mp (mapM_decimal_isSome.mpr hwhole.1)
  exact ⟨_, by rw [numeral, if_neg hnil, hdigits]; rfl⟩

end DistPlatform.Digits
