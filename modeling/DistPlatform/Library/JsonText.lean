import DistPlatform.Library.Json
import Mathlib.Algebra.Order.BigOperators.Group.List
import Mathlib.Data.List.Sort
import Mathlib.Data.String.Basic
import Mathlib.Tactic.Common

/-!
# Writing JSON

A value is written with no space between its tokens. How the names of members are written is a
parameter: where a name can be read off what it was written as, with anything behind it, so can
every value, and the text says which value it is.

## Main definitions

* `Json.all` — a condition on a value and all values within it.
* `Json.ordered` — a value with the members of its objects in the order of their names.
* `Json.text` — a value as text.
-/

namespace DistPlatform.Json

/-- Induction over the values within a value. -/
theorem induct {P : Json → Prop} (null : P .null) (bool : ∀ b, P (.bool b)) (int : ∀ i, P (.int i))
    (real : ∀ m e, P (.real m e)) (str : ∀ s, P (.str s))
    (arr : ∀ xs : List Json, (∀ x ∈ xs, P x) → P (.arr xs))
    (obj : ∀ members : List (String × Json), (∀ member ∈ members, P member.2) → P (.obj members))
    (value : Json) : P value := by
  refine Json.rec (motive_1 := P) (motive_2 := fun xs => ∀ x ∈ xs, P x)
    (motive_3 := fun members => ∀ member ∈ members, P member.2)
    (motive_4 := fun member => P member.2) null bool int real str arr obj (by simp)
    (fun x xs hx hxs => ?_) (by simp) (fun member members hmember hmembers => ?_)
    (fun _ _ hvalue => hvalue) value
  · exact List.forall_mem_cons.mpr ⟨hx, hxs⟩
  · exact List.forall_mem_cons.mpr ⟨hmember, hmembers⟩

/-! ## The values within a value -/

mutual

/-- `p` holds of the value and of every value within it. -/
def all (p : Json → Bool) : Json → Bool
  | .arr xs => p (.arr xs) && allValues p xs
  | .obj members => p (.obj members) && allMembers p members
  | .null => p .null
  | .bool b => p (.bool b)
  | .int i => p (.int i)
  | .real m e => p (.real m e)
  | .str s => p (.str s)

def allValues (p : Json → Bool) : List Json → Bool
  | [] => true
  | x :: xs => all p x && allValues p xs

def allMembers (p : Json → Bool) : List (String × Json) → Bool
  | [] => true
  | (_, x) :: members => all p x && allMembers p members

end

section All

variable {p : Json → Bool} {xs : List Json} {members : List (String × Json)} {value : Json}

theorem allValues_eq : allValues p xs = xs.all (all p) := by
  induction xs with
  | nil => rfl
  | cons x xs ih => rw [allValues, ih, List.all_cons]

theorem allMembers_eq : allMembers p members = members.all fun member => all p member.2 := by
  induction members with
  | nil => rfl
  | cons member members ih => rw [allMembers, ih, List.all_cons]

@[simp]
theorem all_arr : (arr xs).all p = true ↔ p (.arr xs) = true ∧ ∀ x ∈ xs, x.all p = true := by
  rw [all, allValues_eq, Bool.and_eq_true, List.all_eq_true]

@[simp]
theorem all_obj : (obj members).all p = true ↔
    p (.obj members) = true ∧ ∀ member ∈ members, member.2.all p = true := by
  rw [all, allMembers_eq, Bool.and_eq_true, List.all_eq_true]

end All

/-! ## The order of members -/

/-- Members in the order of their names. -/
def nameLE (member other : String × Json) : Prop := member.1 ≤ other.1

instance : DecidableRel nameLE := fun _ _ => inferInstanceAs (Decidable (_ ≤ _))

instance : Std.Total nameLE := ⟨fun _ _ => le_total _ _⟩

instance : IsTrans _ nameLE := ⟨fun _ _ _ => le_trans⟩

mutual

/-- The value with the members of every object in the order of their names. -/
def ordered : Json → Json
  | .arr xs => .arr (orderedValues xs)
  | .obj members => .obj ((orderedMembers members).insertionSort nameLE)
  | .null => .null
  | .bool b => .bool b
  | .int i => .int i
  | .real m e => .real m e
  | .str s => .str s

def orderedValues : List Json → List Json
  | [] => []
  | x :: xs => ordered x :: orderedValues xs

def orderedMembers : List (String × Json) → List (String × Json)
  | [] => []
  | (name, x) :: members => (name, ordered x) :: orderedMembers members

end

/-- No object has two members of one name. -/
def distinctNames : Json → Bool
  | .obj members => (members.map (·.1)).Nodup
  | _ => true

section Ordered

variable {p : Json → Bool} {xs : List Json} {members : List (String × Json)} {value : Json}

@[simp]
theorem orderedValues_eq : orderedValues xs = xs.map ordered := by
  induction xs with
  | nil => rfl
  | cons x xs ih => rw [orderedValues, ih, List.map_cons]

@[simp]
theorem orderedMembers_eq :
    orderedMembers members = members.map fun member => (member.1, member.2.ordered) := by
  induction members with
  | nil => rfl
  | cons member members ih => rw [orderedMembers, ih, List.map_cons]

theorem mem_ordered {member : String × Json} :
    member ∈ (orderedMembers members).insertionSort nameLE ↔
      ∃ other ∈ members, (other.1, other.2.ordered) = member := by
  rw [(List.perm_insertionSort _ _).mem_iff, orderedMembers_eq, List.mem_map]

/-- There is one order of members with different names. -/
theorem eq_insertionSort {others : List (String × Json)} (hsame : others.Perm members)
    (hsorted : others.Pairwise fun a b => a.1 < b.1) : others = members.insertionSort nameLE := by
  have hnodup : (others.map (·.1)).Nodup := List.pairwise_map.mpr (hsorted.imp ne_of_lt)
  refine List.Perm.eq_of_pairwise (fun a b ha hb hab hba => ?_) (hsorted.imp le_of_lt)
    (List.pairwise_insertionSort nameLE members)
    (hsame.trans (List.perm_insertionSort _ _).symm)
  have hb : b ∈ others := hsame.mem_iff.mpr ((List.perm_insertionSort _ _).mem_iff.mp hb)
  exact List.inj_on_of_nodup_map hnodup ha hb (le_antisymm hab hba)

/-- What does not depend on the order of members holds of the ordered value as of the value. -/
theorem all_ordered (harr : ∀ xs : List Json, p (.arr (xs.map ordered)) = p (.arr xs))
    (hobj : ∀ members, p (.obj ((orderedMembers members).insertionSort nameLE)) = p (.obj members)) :
    value.ordered.all p = true ↔ value.all p = true := by
  induction value using induct with
  | arr xs ih =>
    rw [ordered, all_arr, all_arr, orderedValues_eq, harr]
    refine and_congr_right fun _ => ?_
    rw [List.forall_mem_map]
    exact forall₂_congr ih
  | obj members ih =>
    rw [ordered, all_obj, all_obj, hobj]
    refine and_congr_right fun _ => ⟨fun h member hmember => ?_, fun h member hmember => ?_⟩
    · exact (ih member hmember).mp (h _ (mem_ordered.mpr ⟨member, hmember, rfl⟩))
    · obtain ⟨other, hother, rfl⟩ := mem_ordered.mp hmember
      exact (ih other hother).mpr (h other hother)
  | _ => rfl

end Ordered

/-! ## Text -/

/-- Texts one behind the other, with a comma before each but the first. -/
def separated {α : Type} (write : α → List Char) (first : Bool) : List α → List Char
  | [] => []
  | x :: xs => (if first then [] else [',']) ++ write x ++ separated write false xs

/-- An integer in decimal. -/
def decimal : Int → List Char
  | .ofNat n => Nat.toDigits 10 n
  | .negSucc n => '-' :: Nat.toDigits 10 (n + 1)

def escape (c : Char) : List Char := if c = '"' ∨ c = '\\' then ['\\', c] else [c]

/-- A string in quotes, in which the quote and the backslash are escaped and nothing else. -/
def quotedText (s : String) : List Char := '"' :: (s.toList.flatMap escape ++ ['"'])

mutual

/-- A value as text, with the names of members as `name` writes them. -/
def text (name : String → List Char) : Json → List Char
  | .null => "null".toList
  | .bool true => "true".toList
  | .bool false => "false".toList
  | .int i => decimal i
  | .real m e => decimal m ++ 'e' :: decimal e
  | .str s => quotedText s
  | .arr xs => '[' :: (textValues name true xs ++ [']'])
  | .obj members => '{' :: (textMembers name true members ++ ['}'])

def textValues (name : String → List Char) (first : Bool) : List Json → List Char
  | [] => []
  | x :: xs => (if first then [] else [',']) ++ text name x ++ textValues name false xs

def textMembers (name : String → List Char) (first : Bool) : List (String × Json) → List Char
  | [] => []
  | (k, x) :: members => (if first then [] else [',']) ++ (name k ++ ':' :: text name x) ++
      textMembers name false members

end

/-- A member as text. -/
def textMember (name : String → List Char) (member : String × Json) : List Char :=
  name member.1 ++ ':' :: text name member.2

section Text

variable {α : Type} {name : String → List Char} {first : Bool} {xs : List Json}
  {members : List (String × Json)}

theorem textValues_eq : textValues name first xs = separated (text name) first xs := by
  induction xs generalizing first with
  | nil => rfl
  | cons x xs ih => rw [textValues, ih, separated]

theorem textMembers_eq :
    textMembers name first members = separated (textMember name) first members := by
  induction members generalizing first with
  | nil => rfl
  | cons member members ih => rw [textMembers, ih, separated, textMember]

theorem text_arr : text name (.arr xs) = '[' :: (separated (text name) true xs ++ [']']) := by
  rw [text, textValues_eq]

theorem text_obj :
    text name (.obj members) = '{' :: (separated (textMember name) true members ++ ['}']) := by
  rw [text, textMembers_eq]

theorem separated_congr {write write' : α → List Char} {xs : List α}
    (h : ∀ x ∈ xs, write x = write' x) : separated write first xs = separated write' first xs := by
  induction xs generalizing first with
  | nil => rfl
  | cons x xs ih =>
    rw [separated, separated, h x List.mem_cons_self,
      ih fun y hy => h y (List.mem_cons_of_mem _ hy)]

end Text

/-! ## Reading a text -/

/-- What may follow a value. -/
def Ends (rest : List Char) : Prop := ∀ c ∈ rest.head?, c = ',' ∨ c = ']' ∨ c = '}'

/-- The value can be told from its text, and where the text ends. -/
def ReadsAt {α : Type} (write : α → List Char) (x : α) : Prop :=
  ∀ y r s, Ends r → Ends s → write x ++ r = write y ++ s → x = y ∧ r = s

/-- A name can be told from what it was written as, and where that ends. -/
structure ReadsNames (name : String → List Char) : Prop where
  opens : ∀ k, (name k).head? = some '"'
  reads : ∀ k l r s, name k ++ r = name l ++ s → k = l ∧ r = s

/-! ### Integers -/

def isNumeral (c : Char) : Bool := c.isDigit || c == '-'

section Decimal

variable {i j : Int} {r s : List Char}

theorem isNumeral_of_mem_toDigits {n : Nat} {c : Char} (h : c ∈ Nat.toDigits 10 n) :
    isNumeral c = true := by
  rw [isNumeral, Nat.isDigit_of_mem_toDigits (by decide) (by decide) h, Bool.true_or]

theorem isNumeral_of_mem_decimal : ∀ c ∈ decimal i, isNumeral c = true := by
  cases i with
  | ofNat n => exact fun c hc => isNumeral_of_mem_toDigits hc
  | negSucc n => exact List.forall_mem_cons.mpr ⟨by decide, fun c hc => isNumeral_of_mem_toDigits hc⟩

theorem decimal_ne_nil : decimal i ≠ [] := by
  cases i with
  | ofNat n => exact Nat.toDigits_ne_nil
  | negSucc n => exact List.cons_ne_nil _ _

theorem toDigits_injective {n m : Nat} (h : Nat.toDigits 10 n = Nat.toDigits 10 m) : n = m := by
  rw [← @Nat.ofDigitChars_ten_toDigits n, h, Nat.ofDigitChars_ten_toDigits]

theorem minus_not_mem_toDigits {n : Nat} : '-' ∉ Nat.toDigits 10 n := fun h =>
  absurd (Nat.isDigit_of_mem_toDigits (by decide) (by decide) h) (by decide)

theorem decimal_injective (h : decimal i = decimal j) : i = j := by
  cases i with
  | ofNat n =>
    cases j with
    | ofNat m => rw [toDigits_injective h]
    | negSucc m =>
      have h : Nat.toDigits 10 n = '-' :: Nat.toDigits 10 (m + 1) := h
      exact absurd (h ▸ List.mem_cons_self) (@minus_not_mem_toDigits n)
  | negSucc n =>
    cases j with
    | ofNat m =>
      have h : '-' :: Nat.toDigits 10 (n + 1) = Nat.toDigits 10 m := h
      exact absurd (h ▸ List.mem_cons_self) (@minus_not_mem_toDigits m)
    | negSucc m => rw [Nat.succ.inj (toDigits_injective (List.cons.inj h).2)]

/-- An integer ends where its text is no numeral any more. -/
theorem decimal_append_inj (hr : ∀ c ∈ r.head?, isNumeral c = false)
    (hs : ∀ c ∈ s.head?, isNumeral c = false) (h : decimal i ++ r = decimal j ++ s) :
    i = j ∧ r = s := by
  have hcut {i : Int} {r : List Char} (hr : ∀ c ∈ r.head?, isNumeral c = false) :
      (decimal i ++ r).takeWhile isNumeral = decimal i := by
    rw [List.takeWhile_append_of_pos isNumeral_of_mem_decimal]
    cases r with
    | nil => exact List.append_nil _
    | cons c r => rw [List.takeWhile_cons_of_neg (by simp [hr c rfl]), List.append_nil]
  have hij : decimal i = decimal j := by rw [← hcut hr, h, hcut hs]
  refine ⟨decimal_injective hij, ?_⟩
  rw [hij] at h
  exact List.append_cancel_left h

end Decimal

/-! ### Strings -/

/-- Escaped characters can be read up to the closing quote where each of them can. -/
theorem flatMap_append_inj {esc : Char → List Char}
    (hreads : ∀ c d r s, esc c ++ r = esc d ++ s → c = d ∧ r = s)
    (hquote : ∀ c r s, esc c ++ r ≠ '"' :: s) {cs ds r s : List Char}
    (h : cs.flatMap esc ++ '"' :: r = ds.flatMap esc ++ '"' :: s) : cs = ds ∧ r = s := by
  induction cs generalizing ds with
  | nil =>
    cases ds with
    | nil => exact ⟨rfl, (List.cons.inj h).2⟩
    | cons d ds =>
      rw [List.flatMap_cons, List.append_assoc] at h
      exact absurd h.symm (hquote d _ _)
  | cons c cs ih =>
    cases ds with
    | nil =>
      rw [List.flatMap_cons, List.append_assoc] at h
      exact absurd h (hquote c _ _)
    | cons d ds =>
      rw [List.flatMap_cons, List.flatMap_cons, List.append_assoc, List.append_assoc] at h
      obtain ⟨rfl, hrest⟩ := hreads c d _ _ h
      obtain ⟨rfl, hend⟩ := ih hrest
      exact ⟨rfl, hend⟩

theorem escape_append_inj (c d : Char) (r s : List Char) (h : escape c ++ r = escape d ++ s) :
    c = d ∧ r = s := by
  unfold escape at h
  split at h <;> split at h <;> grind

theorem escape_ne_quote (c : Char) (r s : List Char) : escape c ++ r ≠ '"' :: s := by
  unfold escape
  split <;> grind

theorem quotedText_append_inj {a b : String} {r s : List Char}
    (h : quotedText a ++ r = quotedText b ++ s) : a = b ∧ r = s := by
  have h : a.toList.flatMap escape ++ '"' :: r = b.toList.flatMap escape ++ '"' :: s := by
    simpa [quotedText] using h
  obtain ⟨hchars, hrest⟩ := flatMap_append_inj escape_append_inj escape_ne_quote h
  exact ⟨String.toList_inj.mp hchars, hrest⟩

/-! ### Values -/

/-- The character that the texts of a kind of value begin with; all numerals count as one, and
both truth values. -/
def kind : Json → Char
  | .null => 'n'
  | .bool _ => 't'
  | .int _ => '0'
  | .real .. => '0'
  | .str _ => '"'
  | .arr _ => '['
  | .obj _ => '{'

def kindOf (c : Char) : Char := if isNumeral c then '0' else if c = 'f' then 't' else c

section Values

variable {name : String → List Char}

theorem text_kind (name : String → List Char) (value : Json) :
    ∃ c cs, text name value = c :: cs ∧ kindOf c = kind value := by
  have hdecimal (i : Int) (rest : List Char) :
      ∃ c cs, decimal i ++ rest = c :: cs ∧ kindOf c = '0' := by
    obtain ⟨c, cs, hc⟩ := List.exists_cons_of_ne_nil (@decimal_ne_nil i)
    have hnumeral : isNumeral c = true := isNumeral_of_mem_decimal c (hc ▸ List.mem_cons_self)
    exact ⟨c, cs ++ rest, by rw [hc, List.cons_append], if_pos hnumeral⟩
  cases value with
  | bool b => cases b <;> exact ⟨_, _, rfl, rfl⟩
  | int i =>
    obtain ⟨c, cs, htext, hkind⟩ := hdecimal i []
    exact ⟨c, cs, (List.append_nil _).symm.trans htext, hkind⟩
  | real m e => exact hdecimal m _
  | _ => exact ⟨_, _, rfl, rfl⟩

/-- A text does not begin with what ends one. -/
theorem text_not_ends (name : String → List Char) (value : Json) (rest : List Char) :
    ¬ Ends (text name value ++ rest) := by
  obtain ⟨c, cs, htext, hkind⟩ := text_kind name value
  intro hends
  have hc := hends c (by rw [htext]; rfl)
  have hne : kind value ≠ ',' ∧ kind value ≠ ']' ∧ kind value ≠ '}' := by
    cases value <;> simp [kind]
  rcases hc with rfl | rfl | rfl
  · exact hne.1 hkind.symm
  · exact hne.2.1 hkind.symm
  · exact hne.2.2 hkind.symm

theorem kind_eq {v w : Json} {r s : List Char} (h : text name v ++ r = text name w ++ s) :
    kind v = kind w := by
  obtain ⟨c, cs, hv, hkind⟩ := text_kind name v
  obtain ⟨d, ds, hw, hkind'⟩ := text_kind name w
  rw [hv, hw] at h
  rw [← hkind, ← hkind', (List.cons.inj h).1]

/-- A list of texts ends where its closing bracket stands. -/
theorem separated_append_inj {α : Type} {write : α → List Char} {close : Char} {xs ys : List α}
    {first : Bool} {r s : List Char} (hclose : close = ']' ∨ close = '}')
    (hreads : ∀ x ∈ xs, ReadsAt write x) (hstart : ∀ x rest, ¬ Ends (write x ++ rest))
    (h : separated write first xs ++ close :: r = separated write first ys ++ close :: s) :
    xs = ys ∧ r = s := by
  have hends {zs : List α} {t : List Char} : Ends (separated write false zs ++ close :: t) := by
    intro c hc
    cases zs with
    | nil =>
      obtain rfl := Option.some.inj hc
      exact .inr hclose
    | cons z zs =>
      obtain rfl := Option.some.inj hc
      exact .inl rfl
  -- nothing else that may stand first is the closing bracket
  have hopen {first : Bool} {z : α} {zs : List α} {t u : List Char} :
      close :: t ≠ separated write first (z :: zs) ++ close :: u := by
    intro heq
    cases first with
    | false =>
      have hcomma := (List.cons.inj heq).1
      rcases hclose with rfl | rfl <;> exact absurd hcomma (by decide)
    | true =>
      simp only [separated, if_true, List.nil_append, List.append_assoc] at heq
      refine hstart z (separated write false zs ++ close :: u) (heq ▸ fun c hc => ?_)
      obtain rfl := Option.some.inj hc
      exact .inr hclose
  induction xs generalizing ys first with
  | nil =>
    cases ys with
    | nil => exact ⟨rfl, (List.cons.inj h).2⟩
    | cons y ys => exact absurd h hopen
  | cons x xs ih =>
    cases ys with
    | nil => exact absurd h.symm hopen
    | cons y ys =>
      simp only [separated, List.append_assoc, List.append_cancel_left_eq] at h
      obtain ⟨rfl, hrest⟩ := hreads x List.mem_cons_self y _ _ hends hends h
      obtain ⟨rfl, hend⟩ := ih (fun z hz => hreads z (List.mem_cons_of_mem _ hz)) hrest
      exact ⟨rfl, hend⟩

theorem isNumeral_of_ends {r : List Char} (h : Ends r) : ∀ c ∈ r.head?, isNumeral c = false := by
  intro c hc
  rcases h c hc with rfl | rfl | rfl <;> decide

theorem readsAt_textMember (hname : ReadsNames name) {member : String × Json}
    (h : ReadsAt (text name) member.2) : ReadsAt (textMember name) member := by
  intro other r s hr hs heq
  simp only [textMember, List.append_assoc] at heq
  obtain ⟨hk, hrest⟩ := hname.reads _ _ _ _ heq
  obtain ⟨hvalue, hend⟩ := h _ _ _ hr hs (List.cons.inj hrest).2
  exact ⟨Prod.ext hk hvalue, hend⟩

theorem textMember_not_ends (hname : ReadsNames name) {member : String × Json}
    {rest : List Char} : ¬ Ends (textMember name member ++ rest) := by
  intro hends
  have hopens := hname.opens member.1
  have hquote := hends '"' (by
    rw [textMember, List.head?_append, List.head?_append, hopens]
    rfl)
  exact absurd hquote (by decide)

/-- Where names can be read, so can values. -/
theorem readsAt_text (hname : ReadsNames name) (value : Json) : ReadsAt (text name) value := by
  induction value using induct with
  | null =>
    intro y r s _ _ h
    cases y with
    | null => exact ⟨rfl, List.append_cancel_left h⟩
    | _ => cases kind_eq h
  | bool b =>
    intro y r s _ _ h
    cases y with
    | bool b' => cases b <;> cases b' <;> simp_all [text]
    | _ => cases kind_eq h
  | int i =>
    intro y r s hr hs h
    cases y with
    | int j =>
      obtain ⟨rfl, hrest⟩ := decimal_append_inj (isNumeral_of_ends hr) (isNumeral_of_ends hs) h
      exact ⟨rfl, hrest⟩
    | real m e =>
      rw [text, text, List.append_assoc] at h
      obtain ⟨-, rfl⟩ := decimal_append_inj (isNumeral_of_ends hr) (fun c hc => by
        obtain rfl := Option.some.inj hc
        decide) h
      exact absurd (hr 'e' rfl) (by decide)
    | _ => cases kind_eq h
  | real m e =>
    intro y r s hr hs h
    have hexp {j : Int} {t : List Char} :
        ∀ c ∈ ('e' :: (decimal j ++ t)).head?, isNumeral c = false := by
      intro c hc
      obtain rfl := Option.some.inj hc
      decide
    cases y with
    | int j =>
      rw [text, text, List.append_assoc] at h
      obtain ⟨-, rfl⟩ := decimal_append_inj hexp (isNumeral_of_ends hs) h
      exact absurd (hs 'e' rfl) (by decide)
    | real m' e' =>
      rw [text, text, List.append_assoc, List.append_assoc] at h
      obtain ⟨rfl, hexponents⟩ := decimal_append_inj hexp hexp h
      obtain ⟨rfl, hrest⟩ := decimal_append_inj (isNumeral_of_ends hr) (isNumeral_of_ends hs)
        (List.cons.inj hexponents).2
      exact ⟨rfl, hrest⟩
    | _ => cases kind_eq h
  | str a =>
    intro y r s _ _ h
    cases y with
    | str b =>
      obtain ⟨rfl, hrest⟩ := quotedText_append_inj h
      exact ⟨rfl, hrest⟩
    | _ => cases kind_eq h
  | arr xs ih =>
    intro y r s _ _ h
    cases y with
    | arr ys =>
      have h : separated (text name) true xs ++ ']' :: r =
          separated (text name) true ys ++ ']' :: s := by
        simpa [text_arr] using h
      obtain ⟨rfl, hrest⟩ := separated_append_inj (.inl rfl) ih (text_not_ends name) h
      exact ⟨rfl, hrest⟩
    | _ => cases kind_eq h
  | obj members ih =>
    intro y r s _ _ h
    cases y with
    | obj others =>
      have h : separated (textMember name) true members ++ '}' :: r =
          separated (textMember name) true others ++ '}' :: s := by
        simpa [text_obj] using h
      obtain ⟨rfl, hrest⟩ := separated_append_inj (.inr rfl)
        (fun member hmember => readsAt_textMember hname (ih member hmember))
        (fun _ _ => textMember_not_ends hname) h
      exact ⟨rfl, hrest⟩
    | _ => cases kind_eq h

/-- A text is the text of one value. -/
theorem text_injective (hname : ReadsNames name) {v w : Json} (h : text name v = text name w) :
    v = w := by
  have hnil : Ends [] := fun c hc => by cases hc
  refine (readsAt_text hname v w [] [] hnil hnil ?_).1
  rw [h]

end Values

/-! ## Control characters -/

/-- The characters that a text of JSON has to escape in a string, besides two. -/
def isControl (c : Char) : Bool := c.toNat < 0x20

/-- No name in an object has a control character. -/
def plainNames : Json → Bool
  | .obj members => members.all fun member => member.1.toList.all fun c => !isControl c
  | _ => true

section Controls

variable {α : Type} {name : String → List Char}

theorem countP_separated {write : α → List Char} {first : Bool} {xs : List α} :
    (separated write first xs).countP isControl =
      (xs.map fun x => (write x).countP isControl).sum := by
  induction xs generalizing first with
  | nil => rfl
  | cons x xs ih =>
    rw [separated, List.countP_append, List.countP_append, ih, List.map_cons, List.sum_cons]
    cases first <;> simp [isControl]

theorem le_of_sum_le {f g : α → Nat} {xs : List α} (hle : ∀ x ∈ xs, f x ≤ g x)
    (hsum : (xs.map g).sum ≤ (xs.map f).sum) : ∀ x ∈ xs, g x ≤ f x := by
  induction xs with
  | nil => exact fun x hx => by cases hx
  | cons x xs ih =>
    have hrest : (xs.map f).sum ≤ (xs.map g).sum :=
      List.sum_le_sum fun y hy => hle y (List.mem_cons_of_mem _ hy)
    have hx := hle x List.mem_cons_self
    simp only [List.map_cons, List.sum_cons] at hsum
    refine List.forall_mem_cons.mpr ⟨by omega, ih (fun y hy => ?_) (by omega)⟩
    exact hle y (List.mem_cons_of_mem _ hy)

theorem countP_quotedText {s : String} :
    (quotedText s).countP isControl = s.toList.countP isControl := by
  have hescape (cs : List Char) : (cs.flatMap escape).countP isControl = cs.countP isControl := by
    induction cs with
    | nil => rfl
    | cons c cs ih =>
      rw [List.flatMap_cons, List.countP_append, ih, List.countP_cons, escape]
      split
      next h => rcases h with rfl | rfl <;> simp [isControl]
      · rw [List.countP_singleton, Nat.add_comm]
  simp [quotedText, hescape, isControl]

/-- Names without control characters leave as many of them as there are in the strings. -/
theorem countP_text_le (hstrict : ∀ k, ∀ c ∈ name k, isControl c = false) (value : Json) :
    (text name value).countP isControl ≤ (text quotedText value).countP isControl := by
  have hname (k : String) : (name k).countP isControl = 0 :=
    List.countP_eq_zero.mpr fun c hc => by simp [hstrict k c hc]
  induction value using induct with
  | bool b => cases b <;> exact Nat.le_refl _
  | arr xs ih =>
    simp only [text_arr, List.countP_cons, List.countP_append, countP_separated]
    have := List.sum_le_sum ih
    omega
  | obj members ih =>
    simp only [text_obj, List.countP_cons, List.countP_append, countP_separated]
    have : (members.map fun m => (textMember name m).countP isControl).sum ≤
        (members.map fun m => (textMember quotedText m).countP isControl).sum := by
      refine List.sum_le_sum fun member hmember => ?_
      have := ih member hmember
      simp only [textMember, List.countP_append, List.countP_cons, hname]
      omega
    omega
  | _ => exact Nat.le_refl _

/-- Where they leave as many as names in plain quotes would, there are none in the names. -/
theorem plainNames_of_countP (hstrict : ∀ k, ∀ c ∈ name k, isControl c = false) {value : Json}
    (h : (text quotedText value).countP isControl ≤ (text name value).countP isControl) :
    value.all plainNames = true := by
  have hname (k : String) : (name k).countP isControl = 0 :=
    List.countP_eq_zero.mpr fun c hc => by simp [hstrict k c hc]
  induction value using induct with
  | arr xs ih =>
    simp only [text_arr, List.countP_cons, List.countP_append, countP_separated] at h
    have hsum := Nat.le_of_add_le_add_right (Nat.le_of_add_le_add_right h)
    have hle := le_of_sum_le (fun x _ => countP_text_le hstrict x) hsum
    exact all_arr.mpr ⟨rfl, fun x hx => ih x hx (hle x hx)⟩
  | obj members ih =>
    have hmember (member : String × Json) : (textMember name member).countP isControl ≤
        (textMember quotedText member).countP isControl := by
      have := countP_text_le hstrict member.2
      simp only [textMember, List.countP_append, List.countP_cons, hname]
      omega
    simp only [text_obj, List.countP_cons, List.countP_append, countP_separated] at h
    have hsum := Nat.le_of_add_le_add_right (Nat.le_of_add_le_add_right h)
    have hle := le_of_sum_le (fun member _ => hmember member) hsum
    simp only [textMember, List.countP_append, List.countP_cons, hname, countP_quotedText] at hle
    refine all_obj.mpr ⟨List.all_eq_true.mpr fun member hmem => ?_, fun member hmem => ?_⟩
    · have hnone : member.1.toList.countP isControl = 0 := by
        have := hle member hmem
        have := countP_text_le hstrict member.2
        omega
      exact List.all_eq_true.mpr fun c hc => by simp [List.countP_eq_zero.mp hnone c hc]
    · refine ih member hmem ?_
      have := hle member hmem
      omega
  | _ => rfl

/-- Names that are written in plain quotes where they are plain. -/
theorem text_eq_of_plainNames
    (hplain : ∀ k : String, (k.toList.all fun c => !isControl c) = true → name k = quotedText k)
    {value : Json} (h : value.all plainNames = true) : text name value = text quotedText value := by
  induction value using induct with
  | bool b => cases b <;> rfl
  | arr xs ih =>
    rw [text_arr, text_arr, separated_congr fun x hx => ih x hx ((all_arr.mp h).2 x hx)]
  | obj members ih =>
    obtain ⟨hnames, hvalues⟩ := all_obj.mp h
    rw [text_obj, text_obj, separated_congr fun member hmember => ?_]
    rw [textMember, textMember, ih member hmember (hvalues member hmember),
      hplain _ (List.all_eq_true.mp hnames member hmember)]
  | _ => rfl

end Controls

end DistPlatform.Json
