import Mathlib.Algebra.Ring.Int.Defs
import Mathlib.Algebra.Ring.Nat
import Mathlib.Data.List.Basic

/-!
# JSON values

The values both JSON libraries of the platform hand to the code: a number is an integer or
a decimal `m · 10 ^ e`, an object is its members in order, and a member is looked up by name.

## Main definitions

* `Json` — the value type, with decidable equality.
* `Json.get?` — `value.get(name)` on an object, nothing on any other value.
* `Json.str?`, `Json.arr?`, `Json.bool?` — the value where it has that type.
-/

namespace DistPlatform

inductive Json where
  | null
  | bool (b : Bool)
  | int (i : Int)
  | real (m e : Int)
  | str (s : String)
  | arr (xs : List Json)
  | obj (members : List (String × Json))
  deriving Repr

namespace Json

mutual

private def decEq : (a b : Json) → Decidable (a = b)
  | .null, .null => isTrue rfl
  | .bool a, .bool b => decidable_of_iff (a = b) (by simp)
  | .int a, .int b => decidable_of_iff (a = b) (by simp)
  | .real a c, .real b d => decidable_of_iff (a = b ∧ c = d) (by simp)
  | .str a, .str b => decidable_of_iff (a = b) (by simp)
  | .arr a, .arr b => match decEqList a b with
    | isTrue h => isTrue (by rw [h])
    | isFalse h => isFalse (by simpa using h)
  | .obj a, .obj b => match decEqMembers a b with
    | isTrue h => isTrue (by rw [h])
    | isFalse h => isFalse (by simpa using h)
  | .null, .bool _ | .null, .int _ | .null, .real .. | .null, .str _ | .null, .arr _
  | .null, .obj _ | .bool _, .null | .bool _, .int _ | .bool _, .real .. | .bool _, .str _
  | .bool _, .arr _ | .bool _, .obj _ | .int _, .null | .int _, .bool _ | .int _, .real ..
  | .int _, .str _ | .int _, .arr _ | .int _, .obj _ | .real .., .null | .real .., .bool _
  | .real .., .int _ | .real .., .str _ | .real .., .arr _ | .real .., .obj _ | .str _, .null
  | .str _, .bool _ | .str _, .int _ | .str _, .real .. | .str _, .arr _ | .str _, .obj _
  | .arr _, .null | .arr _, .bool _ | .arr _, .int _ | .arr _, .real .. | .arr _, .str _
  | .arr _, .obj _ | .obj _, .null | .obj _, .bool _ | .obj _, .int _ | .obj _, .real ..
  | .obj _, .str _ | .obj _, .arr _ => isFalse (by simp)

private def decEqList : (a b : List Json) → Decidable (a = b)
  | [], [] => isTrue rfl
  | x :: xs, y :: ys => match decEq x y, decEqList xs ys with
    | isTrue h, isTrue hs => isTrue (by rw [h, hs])
    | isFalse h, _ => isFalse (by simp [h])
    | _, isFalse hs => isFalse (by simp [hs])
  | [], _ :: _ | _ :: _, [] => isFalse (by simp)

private def decEqMembers : (a b : List (String × Json)) → Decidable (a = b)
  | [], [] => isTrue rfl
  | (k, x) :: xs, (l, y) :: ys => match decEq x y, decEqMembers xs ys with
    | isTrue h, isTrue hs => decidable_of_iff (k = l) (by simp [h, hs])
    | isFalse h, _ => isFalse (by simp [h])
    | _, isFalse hs => isFalse (by simp [hs])
  | [], _ :: _ | _ :: _, [] => isFalse (by simp)

end

instance : DecidableEq Json := decEq

/-- `value.get(name)` where `value` is an object, nothing where it is not. -/
def get? (name : String) : Json → Option Json
  | .obj members => members.lookup name
  | _ => none

def str? : Json → Option String
  | .str s => some s
  | _ => none

def arr? : Json → Option (List Json)
  | .arr xs => some xs
  | _ => none

def bool? : Json → Option Bool
  | .bool b => some b
  | _ => none

def isObj : Json → Bool
  | .obj _ => true
  | _ => false

/-- The string member `name` of an object. -/
def getStr? (name : String) (value : Json) : Option String := (value.get? name).bind str?

end Json

end DistPlatform
