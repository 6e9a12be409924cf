import DistPlatform.Library.JsonText
import DistPlatform.Library.Utf8
import DistPlatform.Tuf.Updates
import Mathlib.Tactic.IntervalCases

/-!
# Canonical JSON (`tuf/src/interchange/cjson/mod.rs`)

The bytes that are signed, and that key ids are computed over, as the verifier computes them from
a parsed document. The strings that are values escape the quote and the backslash alone; the names
of members go through the writer of another crate, which escapes control characters too.

## Main definitions

* `Crates` — what the encoder takes from other crates.
* `convert`, `Value.write`, `canonicalize` — the encoder.
* `canonicalForm` — the form that is agreed on.
* `Agrees` — the encoder yields that form, and different bytes for different values.
-/

namespace DistPlatform.Tuf

open Json (distinctNames isControl ordered plainNames quotedText text)

/-- `itoa::write`, and `serde_json::to_string` of a string. -/
structure Crates where
  itoa : Int → String
  jsonString : String → String

def Crates.name (crates : Crates) (k : String) : List Char := (crates.jsonString k).toList

/-- What is documented of them: decimal numerals, and strings as JSON has them, in which a control
character stands escaped and a character that needs no escape stands as it is. -/
structure Crates.Documented (crates : Crates) : Prop where
  decimal : ∀ n, crates.itoa n = toString n
  opens : ∀ s, (crates.name s).head? = some '"'
  plain : ∀ s : String, (s.toList.all fun c => !isControl c) = true →
    crates.name s = quotedText s
  strict : ∀ s, ∀ c ∈ crates.name s, isControl c = false
  reads : ∃ read : List Char → Option (String × List Char),
    ∀ s rest, read (crates.name s ++ rest) = some (s, rest)

/-! ## The encoder -/

inductive Number
  | I64 (n : Int64)
  | U64 (n : UInt64)

/-- An object is a `BTreeMap`: its entries are in the order of their keys. -/
inductive Value
  | array (xs : List Value)
  | bool (b : Bool)
  | null
  | number (n : Number)
  | object (entries : List (String × Value))
  | string (s : String)

/-- `BTreeMap::insert`; keys compare by their bytes. -/
def insertEntry {α : Type} (key : String) (value : α) : List (String × α) → List (String × α)
  | [] => [(key, value)]
  | (key', value') :: rest =>
    if Utf8.encode key.toList < Utf8.encode key'.toList then
      (key, value) :: (key', value') :: rest
    else if key = key' then (key, value) :: rest
    else (key', value') :: insertEntry key value rest

def asI64 (i : Int) : Option Int64 :=
  if -2 ^ 63 ≤ i ∧ i < 2 ^ 63 then some (.ofInt i) else none

def asU64 (i : Int) : Option UInt64 :=
  if 0 ≤ i ∧ i < 2 ^ 64 then some (.ofNat i.toNat) else none

def unsupported : String := "only i64 and u64 are supported"

mutual

def convert : Json → Except String Value
  | .null => .ok .null
  | .bool b => .ok (.bool b)
  | .int i => match (asI64 i).map Number.I64 <|> (asU64 i).map Number.U64 with
    | some n => .ok (.number n)
    | none => .error unsupported
  | .real .. => .error unsupported
  | .arr xs => (convertArray [] xs).map .array
  | .obj members => (convertObject [] members).map .object
  | .str s => .ok (.string s)

/-- The loop over an array, with what it has pushed so far. -/
def convertArray (out : List Value) : List Json → Except String (List Value)
  | [] => .ok out
  | x :: xs => (convert x).bind fun value => convertArray (out ++ [value]) xs

/-- The loop over an object, with what it has inserted so far. -/
def convertObject (out : List (String × Value)) :
    List (String × Json) → Except String (List (String × Value))
  | [] => .ok out
  | (k, x) :: members => (convert x).bind fun value => convertObject (insertEntry k value out) members

end

def ascii (s : String) : List UInt8 := Utf8.encode s.toList

mutual

/-- `write`; writing to a vector does not fail. -/
def Value.write (crates : Crates) : Value → List UInt8
  | .null => ascii "null"
  | .bool true => ascii "true"
  | .bool false => ascii "false"
  | .number (.I64 n) => ascii (crates.itoa n.toInt)
  | .number (.U64 n) => ascii (crates.itoa n.toNat)
  | .string s => ascii "\"" ++ s.toList.flatMap (fun c =>
      (if c = '"' ∨ c = '\\' then ascii "\\" else []) ++ String.utf8EncodeChar c) ++ ascii "\""
  | .array xs => ascii "[" ++ Value.writeArray crates true xs ++ ascii "]"
  | .object entries => ascii "\x7b" ++ Value.writeObject crates true entries ++ ascii "\x7d"

def Value.writeArray (crates : Crates) (first : Bool) : List Value → List UInt8
  | [] => []
  | x :: xs => (if first then [] else ascii ",") ++ Value.write crates x ++
      Value.writeArray crates false xs

def Value.writeObject (crates : Crates) (first : Bool) : List (String × Value) → List UInt8
  | [] => []
  | (k, x) :: entries => (if first then [] else ascii ",") ++
      (ascii (crates.jsonString k) ++ ascii ":" ++ Value.write crates x) ++
      Value.writeObject crates false entries

end

def canonicalize (crates : Crates) (jsn : Json) : Except String (List UInt8) :=
  (convert jsn).map (Value.write crates)

/-! ## What it is for -/

/-- Members in the order of their names, no space, and in every string, names of members
included, the quote and the backslash escaped and nothing else. -/
def canonicalForm (value : Json) : List UInt8 := Utf8.encode (text quotedText value.ordered)

/-- A number that is there is an integer of the range. -/
def inRange : Json → Bool
  | .int i => -2 ^ 63 ≤ i && i < 2 ^ 64
  | .real .. => false
  | _ => true

/-- What the encoder promises of a value. Two values that differ in the order of members alone
are the same map. -/
structure Agrees (crates : Crates) (value : Json) : Prop where
  form : canonicalize crates value = .ok (canonicalForm value)
  injective : ∀ other : Json, other.all inRange = true → other.all distinctNames = true →
    canonicalize crates other = canonicalize crates value → other.ordered = value.ordered

/-! ## What is converted -/

mutual

/-- The document that a value stands for. -/
def Value.toJson : Value → Json
  | .null => .null
  | .bool b => .bool b
  | .number (.I64 n) => .int n.toInt
  | .number (.U64 n) => .int n.toNat
  | .string s => .str s
  | .array xs => .arr (Value.toJsonArray xs)
  | .object entries => .obj (Value.toJsonObject entries)

def Value.toJsonArray : List Value → List Json
  | [] => []
  | x :: xs => Value.toJson x :: Value.toJsonArray xs

def Value.toJsonObject : List (String × Value) → List (String × Json)
  | [] => []
  | (k, x) :: entries => (k, Value.toJson x) :: Value.toJsonObject entries

end

def toMember (entry : String × Value) : String × Json := (entry.1, entry.2.toJson)

section Convert

variable {crates : Crates} {v : Json}

/-- Induction over the values within a value. -/
theorem Value.induct {P : Value → Prop} (array : ∀ xs : List Value, (∀ x ∈ xs, P x) → P (.array xs))
    (bool : ∀ b, P (.bool b)) (null : P .null) (number : ∀ n, P (.number n))
    (object : ∀ entries : List (String × Value), (∀ entry ∈ entries, P entry.2) →
      P (.object entries))
    (string : ∀ s, P (.string s)) (value : Value) : P value := by
  refine Value.rec (motive_1 := P) (motive_2 := fun xs => ∀ x ∈ xs, P x)
    (motive_3 := fun entries => ∀ entry ∈ entries, P entry.2)
    (motive_4 := fun entry => P entry.2) array bool null number object string (by simp)
    (fun x xs hx hxs => ?_) (by simp) (fun entry entries hentry hentries => ?_)
    (fun _ _ hvalue => hvalue) value
  · exact List.forall_mem_cons.mpr ⟨hx, hxs⟩
  · exact List.forall_mem_cons.mpr ⟨hentry, hentries⟩

theorem toJsonArray_eq {xs : List Value} : Value.toJsonArray xs = xs.map Value.toJson := by
  induction xs with
  | nil => rfl
  | cons x xs ih => rw [Value.toJsonArray, ih, List.map_cons]

theorem toJsonObject_eq {entries : List (String × Value)} :
    Value.toJsonObject entries = entries.map toMember := by
  induction entries with
  | nil => rfl
  | cons entry entries ih => rw [Value.toJsonObject, ih, List.map_cons, toMember]

/-- The integers of the two types are written as they are. -/
theorem convert_int {i : Int} (h : -2 ^ 63 ≤ i ∧ i < 2 ^ 64) :
    ∃ value, convert (.int i) = .ok value ∧ value.toJson = .int i := by
  by_cases hsigned : -2 ^ 63 ≤ i ∧ i < 2 ^ 63
  · refine ⟨.number (.I64 (.ofInt i)), ?_, ?_⟩
    · rw [convert, asI64, if_pos hsigned]
      rfl
    · rw [Value.toJson, Int64.toInt_ofInt_of_le hsigned.1 hsigned.2]
  · have hunsigned : 0 ≤ i ∧ i < 2 ^ 64 := by omega
    refine ⟨.number (.U64 (.ofNat i.toNat)), ?_, ?_⟩
    · rw [convert, asI64, if_neg hsigned, asU64, if_pos hunsigned]
      rfl
    · have hlt : i.toNat < 2 ^ 64 := by omega
      rw [Value.toJson, UInt64.toNat_ofNat_of_lt' hlt, Int.toNat_of_nonneg hunsigned.1]

theorem convertArray_eq_ok {xs : List Json} {out : List Value}
    (h : ∀ x ∈ xs, ∃ value, convert x = .ok value ∧ value.toJson = x.ordered) :
    ∃ values, convertArray out xs = .ok values ∧
      values.map Value.toJson = out.map Value.toJson ++ xs.map ordered := by
  induction xs generalizing out with
  | nil => exact ⟨out, rfl, (List.append_nil _).symm⟩
  | cons x xs ih =>
    obtain ⟨value, hvalue, hjson⟩ := h x List.mem_cons_self
    obtain ⟨values, hvalues, hmap⟩ := @ih (out ++ [value])
      fun y hy => h y (List.mem_cons_of_mem _ hy)
    refine ⟨values, ?_, ?_⟩
    · rw [convertArray, hvalue]
      exact hvalues
    · rw [hmap, List.map_append, List.append_assoc, List.map_cons, hjson]
      rfl

/-! ### Entries of a map -/

section Entries

variable {α : Type} {key : String} {value : α} {entries : List (String × α)}

theorem insertEntry_perm (h : key ∉ entries.map (·.1)) :
    (insertEntry key value entries).Perm ((key, value) :: entries) := by
  induction entries with
  | nil => exact .refl _
  | cons entry entries ih =>
    rw [List.map_cons, List.mem_cons, not_or] at h
    rw [insertEntry]
    split
    · exact .refl _
    · rw [if_neg h.1]
      exact ((ih h.2).cons _).trans (.swap _ _ _)

/-- The entries stay in the order of their keys. -/
theorem insertEntry_pairwise (hnew : key ∉ entries.map (·.1))
    (h : entries.Pairwise fun a b => a.1 < b.1) :
    (insertEntry key value entries).Pairwise fun a b => a.1 < b.1 := by
  induction entries with
  | nil => exact List.pairwise_singleton _ _
  | cons entry entries ih =>
    rw [List.map_cons, List.mem_cons, not_or] at hnew
    obtain ⟨hfirst, hrest⟩ := List.pairwise_cons.mp h
    rw [insertEntry]
    split
    next hlt =>
      have hlt : key < entry.1 := Utf8.encode_lt_iff.mp hlt
      refine List.pairwise_cons.mpr ⟨List.forall_mem_cons.mpr ⟨hlt, fun other hother => ?_⟩, h⟩
      exact hlt.trans (hfirst other hother)
    next hlt =>
      have hlt : entry.1 < key :=
        lt_of_le_of_ne (not_lt.mp fun h => hlt (Utf8.encode_lt_iff.mpr h)) (Ne.symm hnew.1)
      rw [if_neg hnew.1]
      refine List.pairwise_cons.mpr ⟨fun other hother => ?_, ih hnew.2 hrest⟩
      obtain rfl | hother := List.mem_cons.mp ((insertEntry_perm hnew.2).mem_iff.mp hother)
      · exact hlt
      · exact hfirst other hother

end Entries

/-- The members of an object, each of which is converted, become the entries of a map. -/
theorem convertObject_eq_ok {members : List (String × Json)} {out : List (String × Value)}
    (h : ∀ m ∈ members, ∃ value, convert m.2 = .ok value ∧ value.toJson = m.2.ordered)
    (hnodup : (out.map (·.1) ++ members.map (·.1)).Nodup)
    (hout : out.Pairwise fun a b => a.1 < b.1) :
    ∃ entries, convertObject out members = .ok entries ∧
      (entries.map toMember).Perm (out.map toMember ++ Json.orderedMembers members) ∧
      entries.Pairwise fun a b => a.1 < b.1 := by
  induction members generalizing out with
  | nil => exact ⟨out, rfl, by simp, hout⟩
  | cons m members ih =>
    obtain ⟨value, hvalue, hjson⟩ := h m List.mem_cons_self
    have hnew : m.1 ∉ out.map (·.1) := fun hmem =>
      List.disjoint_of_nodup_append hnodup hmem List.mem_cons_self
    have hperm := @insertEntry_perm _ m.1 value out hnew
    have hkeys : ((insertEntry m.1 value out).map (·.1) ++ members.map (·.1)).Perm
        (out.map (·.1) ++ (m :: members).map (·.1)) :=
      ((hperm.map _).append_right _).trans List.perm_middle.symm
    obtain ⟨entries, hentries, hsame, hsorted⟩ := ih
      (fun other hother => h other (List.mem_cons_of_mem _ hother)) (hkeys.nodup_iff.mpr hnodup)
      (insertEntry_pairwise hnew hout)
    refine ⟨entries, ?_, ?_, hsorted⟩
    · rw [convertObject, hvalue]
      exact hentries
    · refine hsame.trans (((hperm.map _).append_right _).trans ?_)
      rw [List.map_cons, toMember, hjson]
      exact List.perm_middle.symm

/-- A document whose numbers are integers of the range converts to the same with its members in
order. -/
theorem convert_eq_ok (hrange : v.all inRange = true) (hdistinct : v.all distinctNames = true) :
    ∃ value, convert v = .ok value ∧ value.toJson = v.ordered := by
  induction v using Json.induct with
  | null => exact ⟨.null, rfl, rfl⟩
  | bool b => exact ⟨.bool b, rfl, rfl⟩
  | int i =>
    have hrange : inRange (.int i) = true := hrange
    exact convert_int (by simpa [inRange] using hrange)
  | real m e => cases hrange
  | str s => exact ⟨.string s, rfl, rfl⟩
  | arr xs ih =>
    obtain ⟨-, hrange⟩ := Json.all_arr.mp hrange
    obtain ⟨-, hdistinct⟩ := Json.all_arr.mp hdistinct
    obtain ⟨values, hvalues, hmap⟩ := @convertArray_eq_ok xs []
      fun x hx => ih x hx (hrange x hx) (hdistinct x hx)
    refine ⟨.array values, ?_, ?_⟩
    · rw [convert, hvalues]
      rfl
    · rw [Value.toJson, toJsonArray_eq, hmap, ordered, Json.orderedValues_eq]
      rfl
  | obj members ih =>
    obtain ⟨-, hrange⟩ := Json.all_obj.mp hrange
    obtain ⟨hnodup, hdistinct⟩ := Json.all_obj.mp hdistinct
    have hnodup : (members.map (·.1)).Nodup := by simpa [distinctNames] using hnodup
    obtain ⟨entries, hentries, hperm, hsorted⟩ := @convertObject_eq_ok members []
      (fun m hm => ih m hm (hrange m hm) (hdistinct m hm)) hnodup List.Pairwise.nil
    refine ⟨.object entries, ?_, ?_⟩
    · rw [convert, hentries]
      rfl
    · have hpairwise : (entries.map toMember).Pairwise fun a b => a.1 < b.1 :=
        List.pairwise_map.mpr hsorted
      rw [Value.toJson, toJsonObject_eq, ordered, Json.eq_insertionSort hperm hpairwise]
      rfl

end Convert

/-! ## What is written -/

section Write

variable {crates : Crates} {v w : Json}

theorem writeArray_eq {xs : List Value} {first : Bool}
    (h : ∀ x ∈ xs, x.write crates = Utf8.encode (text crates.name x.toJson)) :
    Value.writeArray crates first xs =
      Utf8.encode (Json.separated (text crates.name) first (xs.map Value.toJson)) := by
  induction xs generalizing first with
  | nil => rfl
  | cons x xs ih =>
    rw [Value.writeArray, h x List.mem_cons_self, ih fun y hy => h y (List.mem_cons_of_mem _ hy),
      List.map_cons, Json.separated, Utf8.encode_append, Utf8.encode_append]
    cases first <;> rfl

theorem writeObject_eq {entries : List (String × Value)} {first : Bool}
    (h : ∀ entry ∈ entries, entry.2.write crates = Utf8.encode (text crates.name entry.2.toJson)) :
    Value.writeObject crates first entries =
      Utf8.encode (Json.separated (Json.textMember crates.name) first (entries.map toMember)) := by
  induction entries generalizing first with
  | nil => rfl
  | cons entry entries ih =>
    rw [Value.writeObject, h entry List.mem_cons_self,
      ih fun other hother => h other (List.mem_cons_of_mem _ hother), List.map_cons,
      Json.separated, Utf8.encode_append, Utf8.encode_append, Json.textMember,
      Utf8.encode_append, Utf8.encode_cons]
    simp only [List.append_assoc]
    cases first <;> rfl

theorem write_string (s : String) :
    (Value.string s).write crates = Utf8.encode (quotedText s) := by
  have hescape (cs : List Char) : cs.flatMap (fun c =>
      (if c = '"' ∨ c = '\\' then ascii "\\" else []) ++ String.utf8EncodeChar c) =
        Utf8.encode (cs.flatMap Json.escape) := by
    induction cs with
    | nil => rfl
    | cons c cs ih =>
      rw [List.flatMap_cons, ih, List.flatMap_cons, Utf8.encode_append, Json.escape]
      split <;> simp [Utf8.encode, ascii]
  rw [Value.write, hescape, quotedText, Utf8.encode_cons, Utf8.encode_append]
  rfl

/-- A value is written as the text of the document that it stands for. -/
theorem write_eq (hdecimal : ∀ n, crates.itoa n = toString n) (value : Value) :
    value.write crates = Utf8.encode (text crates.name value.toJson) := by
  have hinteger (i : Int) : ascii (crates.itoa i) = Utf8.encode (Json.decimal i) := by
    rw [ascii, hdecimal, Int.toString_eq_repr]
    cases i with
    | ofNat n => rw [Int.repr, Nat.toList_repr, Json.decimal]
    | negSucc n => rw [Int.repr, String.toList_append, Nat.toList_repr]; rfl
  induction value using Value.induct with
  | null => rfl
  | bool b => cases b <;> rfl
  | number n => cases n <;> exact hinteger _
  | string s => exact write_string s
  | array xs ih =>
    rw [Value.write, writeArray_eq ih, Value.toJson, toJsonArray_eq, Json.text_arr,
      Utf8.encode_cons, Utf8.encode_append]
    rfl
  | object entries ih =>
    rw [Value.write, writeObject_eq ih, Value.toJson, toJsonObject_eq, Json.text_obj,
      Utf8.encode_cons, Utf8.encode_append]
    rfl

end Write

/-! ## The result -/

section Result

variable {crates : Crates} {v w : Json}

theorem readsNames (hcrates : crates.Documented) : Json.ReadsNames crates.name := by
  refine ⟨hcrates.opens, fun k l r s h => ?_⟩
  obtain ⟨read, hread⟩ := hcrates.reads
  have hsame := hread k r
  rw [h, hread] at hsame
  exact ⟨(Prod.mk.inj (Option.some.inj hsame)).1.symm, (Prod.mk.inj (Option.some.inj hsame)).2.symm⟩

theorem canonicalize_eq (hcrates : crates.Documented) (hrange : v.all inRange = true)
    (hdistinct : v.all distinctNames = true) :
    canonicalize crates v = .ok (Utf8.encode (text crates.name v.ordered)) := by
  obtain ⟨value, hvalue, hjson⟩ := convert_eq_ok hrange hdistinct
  rw [canonicalize, hvalue, ← hjson, ← write_eq hcrates.decimal]
  rfl

/-- Different values have different bytes, whatever their names are. -/
theorem canonicalize_injective (hcrates : crates.Documented) (hv : v.all inRange = true)
    (hv' : v.all distinctNames = true) (hw : w.all inRange = true)
    (hw' : w.all distinctNames = true) (h : canonicalize crates v = canonicalize crates w) :
    v.ordered = w.ordered := by
  rw [canonicalize_eq hcrates hv hv', canonicalize_eq hcrates hw hw'] at h
  exact Json.text_injective (readsNames hcrates) (Utf8.encode_injective (Except.ok.inj h))

theorem all_plainNames_ordered : v.ordered.all plainNames = true ↔ v.all plainNames = true := by
  refine Json.all_ordered (fun _ => rfl) fun members => ?_
  rw [Bool.eq_iff_iff, plainNames, plainNames, List.all_eq_true, List.all_eq_true]
  constructor
  · exact fun h m hm => h (m.1, m.2.ordered) (Json.mem_ordered.mpr ⟨m, hm, rfl⟩)
  · intro h m hm
    obtain ⟨other, hother, rfl⟩ := Json.mem_ordered.mp hm
    exact h other hother

/-- The encoder yields the canonical form exactly where no name of a member has a control
character: those it writes escaped, in the names alone. -/
theorem canonicalize_iff (hcrates : crates.Documented) (hrange : v.all inRange = true)
    (hdistinct : v.all distinctNames = true) :
    Agrees crates v ↔ v.all plainNames = true := by
  constructor
  · intro h
    have hform := h.form
    rw [canonicalize_eq hcrates hrange hdistinct, canonicalForm] at hform
    have htext := Utf8.encode_injective (Except.ok.inj hform)
    exact all_plainNames_ordered.mp (Json.plainNames_of_countP hcrates.strict (by rw [htext]))
  · intro hplain
    refine ⟨?_, fun w hw hw' h => ?_⟩
    · rw [canonicalize_eq hcrates hrange hdistinct, canonicalForm,
        Json.text_eq_of_plainNames hcrates.plain (all_plainNames_ordered.mpr hplain)]
    · exact canonicalize_injective hcrates hw hw' hrange hdistinct h

end Result

/-! ## The escapes of `serde_json` -/

section Serde

def serdeEscape (c : Char) : List Char :=
  if c = '"' ∨ c = '\\' then ['\\', c]
  else if isControl c then '\\' :: match c.toNat with
    | 8 => ['b']
    | 9 => ['t']
    | 10 => ['n']
    | 12 => ['f']
    | 13 => ['r']
    | n => ['u', '0', '0', Nat.digitChar (n / 16), Nat.digitChar (n % 16)]
  else [c]

def serdeCrates : Crates where
  itoa := toString
  jsonString s := String.ofList ('"' :: (s.toList.flatMap serdeEscape ++ ['"']))

def hexValue (c : Char) : Nat := if c.isDigit then c.toNat - 48 else c.toNat - 87

/-- The first character that a text in quotes stands for. -/
def serdeUnescape : List Char → Option (Char × List Char)
  | '\\' :: 'u' :: '0' :: '0' :: a :: b :: rest =>
    some (Char.ofNat (16 * hexValue a + hexValue b), rest)
  | '\\' :: 'b' :: rest => some (Char.ofNat 8, rest)
  | '\\' :: 't' :: rest => some (Char.ofNat 9, rest)
  | '\\' :: 'n' :: rest => some (Char.ofNat 10, rest)
  | '\\' :: 'f' :: rest => some (Char.ofNat 12, rest)
  | '\\' :: 'r' :: rest => some (Char.ofNat 13, rest)
  | '\\' :: c :: rest => some (c, rest)
  | c :: rest => some (c, rest)
  | [] => none

theorem serdeUnescape_escape (c : Char) (rest : List Char) :
    serdeUnescape (serdeEscape c ++ rest) = some (c, rest) := by
  by_cases hspecial : c = '"' ∨ c = '\\'
  · rcases hspecial with rfl | rfl <;> rfl
  · by_cases hcontrol : isControl c = true
    · have hlt : c.toNat < 32 := by simpa [isControl] using hcontrol
      rw [← Char.ofNat_toNat c]
      generalize c.toNat = n at hlt
      interval_cases n <;> rfl
    · rw [serdeEscape, if_neg hspecial, if_neg hcontrol, List.singleton_append, serdeUnescape]
      all_goals simp_all

theorem serdeEscape_append_inj (c d : Char) (r s : List Char)
    (h : serdeEscape c ++ r = serdeEscape d ++ s) : c = d ∧ r = s := by
  have hread := serdeUnescape_escape c r
  rw [h, serdeUnescape_escape] at hread
  exact ⟨(Prod.mk.inj (Option.some.inj hread)).1.symm, (Prod.mk.inj (Option.some.inj hread)).2.symm⟩

theorem serdeEscape_ne_quote (c : Char) (r s : List Char) : serdeEscape c ++ r ≠ '"' :: s := by
  unfold serdeEscape
  split
  · simp
  next hspecial =>
    split
    · simp
    · intro h
      exact hspecial (.inl (List.cons.inj h).1)

theorem serdeEscape_strict (c : Char) : ∀ d ∈ serdeEscape c, isControl d = false := by
  by_cases hspecial : c = '"' ∨ c = '\\'
  · rcases hspecial with rfl | rfl <;> decide
  · by_cases hcontrol : isControl c = true
    · have hlt : c.toNat < 32 := by simpa [isControl] using hcontrol
      rw [← Char.ofNat_toNat c]
      generalize c.toNat = n at hlt
      interval_cases n <;> decide
    · rw [serdeEscape, if_neg hspecial, if_neg hcontrol]
      simpa using hcontrol

theorem serdeCrates_name (s : String) :
    serdeCrates.name s = '"' :: (s.toList.flatMap serdeEscape ++ ['"']) := by
  rw [Crates.name, serdeCrates, String.toList_ofList]

theorem serdeName_append_inj (k l : String) (r s : List Char)
    (h : serdeCrates.name k ++ r = serdeCrates.name l ++ s) : k = l ∧ r = s := by
  have h : k.toList.flatMap serdeEscape ++ '"' :: r = l.toList.flatMap serdeEscape ++ '"' :: s := by
    simpa [serdeCrates_name] using h
  obtain ⟨hchars, hrest⟩ :=
    Json.flatMap_append_inj serdeEscape_append_inj serdeEscape_ne_quote h
  exact ⟨String.toList_inj.mp hchars, hrest⟩

theorem exists_read {name : String → List Char}
    (h : ∀ k l r s, name k ++ r = name l ++ s → k = l ∧ r = s) :
    ∃ read : List Char → Option (String × List Char),
      ∀ s rest, read (name s ++ rest) = some (s, rest) := by
  classical
  refine ⟨fun cs => if hcs : ∃ read : String × List Char, cs = name read.1 ++ read.2 then
    some hcs.choose else none, fun s rest => ?_⟩
  have hcs : ∃ read : String × List Char, name s ++ rest = name read.1 ++ read.2 :=
    ⟨(s, rest), rfl⟩
  obtain ⟨hname, hrest⟩ := h _ _ _ _ hcs.choose_spec
  exact (dif_pos hcs).trans (congrArg some (Prod.ext hname.symm hrest.symm))

theorem serdeCrates_documented : serdeCrates.Documented where
  decimal _ := rfl
  opens s := by rw [serdeCrates_name]; rfl
  plain s h := by
    have hescape : s.toList.flatMap serdeEscape = s.toList.flatMap Json.escape := by
      refine List.flatMap_congr fun c hc => ?_
      have hplain : ¬ isControl c = true := by simpa using List.all_eq_true.mp h c hc
      rw [serdeEscape, Json.escape, if_neg hplain]
    rw [serdeCrates_name, hescape, quotedText]
  strict s := by
    rw [serdeCrates_name]
    simp only [List.mem_cons, List.mem_append, List.mem_flatMap, List.not_mem_nil, or_false]
    rintro d (rfl | ⟨c, -, hd⟩ | rfl)
    · rfl
    · exact serdeEscape_strict c d hd
    · rfl
  reads := exists_read serdeName_append_inj

/-- A key as metadata carries it, with a line feed in a string. -/
def pemKey : Json :=
  .obj [("keytype", .str "ecdsa"), ("keyval", .obj [("public", .str "-----BEGIN\n")])]

theorem canonicalize_iff_pemKey : Agrees serdeCrates pemKey :=
  (canonicalize_iff serdeCrates_documented (by decide) (by decide)).mpr (by decide)

/-- A line feed in the name of a member is written as a backslash and a letter. -/
theorem lineFeed_in_name : ¬ ∀ (crates : Crates) (v : Json), crates.Documented →
    v.all inRange = true → v.all distinctNames = true → Agrees crates v := by
  intro hclaim
  have hform := (hclaim serdeCrates (.obj [("a\nb", .int 1)]) serdeCrates_documented (by decide)
    (by decide)).form
  exact absurd hform (by decide +kernel)

end Serde

end DistPlatform.Tuf
