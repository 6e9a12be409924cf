import DistPlatform.Core.Repository

/-!
# Metadata files as JSON

What a file of the repository holds once python-tuf has written it out: the members of the
signed part of each kind of metadata. The order of an object's members says nothing, so a
table is written as any object with its names, each once.

## Main definitions

* `Encoding` — how a key and an expiry are written.
* `Tabulates` — an object that stands for a table.
* `SignedAs` — the members of a file's signed part.
* `toDict` — the members in one order.
-/

namespace DistPlatform.Core

open DistPlatform

structure Encoding where
  expires : Nat → String
  key : String → Json

/-- The object has the names of the table, each once and with a value related to its own. -/
def Tabulates {ν : Type} (R : Json → ν → Prop) (table : Table String ν) (value : Json) : Prop :=
  ∃ members, value = .obj members ∧ (members.map (·.1)).Nodup ∧
    ∀ name, Option.Rel R (members.lookup name) (table.get name)

def strings (values : List String) : Json := .arr (values.map .str)

/-- `MetaFile.to_dict`, of a file known by its version alone. -/
def metaFileJson (version : Nat) : Json := .obj [("version", .int version)]

/-- `TargetFile.to_dict`. -/
def TargetFileAs (value : Json) (file : TargetFile) : Prop :=
  ∃ members custom, value = .obj members ∧
    members.lookup "length" = some (.int file.length) ∧
    members.lookup "hashes" = some (.obj [("sha256", .str file.sha256)]) ∧
    members.lookup "custom" = some (.obj custom) ∧
    ∀ name, custom.lookup name = file.custom.lookup name

/-- `Role.to_dict`. -/
def RoleAs (value : Json) (role : RootRole) : Prop :=
  ∃ members, value = .obj members ∧
    members.lookup "keyids" = some (strings role.keyids) ∧
    members.lookup "threshold" = some (.int role.threshold)

/-- `DelegatedRole.to_dict`. -/
def DelegatedRoleAs (value : Json) (role : DelegatedRole) : Prop :=
  ∃ members, value = .obj members ∧
    members.lookup "name" = some (.str role.name) ∧
    members.lookup "keyids" = some (strings role.keyids) ∧
    members.lookup "threshold" = some (.int role.threshold) ∧
    members.lookup "terminating" = some (.bool role.terminating) ∧
    members.lookup "paths" = some (strings role.paths)

section Format

variable (enc : Encoding)

/-- `Delegations.to_dict`: the roles are a list. -/
def DelegationsAs (value : Json) (delegations : Delegations) : Prop :=
  ∃ members keys roles rows, value = .obj members ∧
    members.lookup "keys" = some keys ∧
      Tabulates (fun json key => json = enc.key key) delegations.keys keys ∧
    members.lookup "roles" = some (.arr roles) ∧ rows.Perm delegations.roles ∧
      List.Forall₂ (fun json row => DelegatedRoleAs json row.2) roles rows

def Signed.type : Signed → String
  | .root _ => ROOT
  | .targets _ => TARGETS
  | .snapshot _ => SNAPSHOT
  | .timestamp _ => TIMESTAMP

/-- The members that are particular to a kind of metadata. -/
def ContentAs (members : List (String × Json)) : Signed → Prop
  | .root root => ∃ keys roles,
      members.lookup "consistent_snapshot" = some (.bool root.consistentSnapshot) ∧
      members.lookup "keys" = some keys ∧
        Tabulates (fun json key => json = enc.key key) root.keys keys ∧
      members.lookup "roles" = some roles ∧
        Tabulates RoleAs root.roles roles
  | .targets targets => (∃ listed, members.lookup "targets" = some listed ∧
        Tabulates TargetFileAs targets.targets listed) ∧
      match targets.delegations with
      | none => members.lookup "delegations" = none
      | some delegations => ∃ value, members.lookup "delegations" = some value ∧
          DelegationsAs enc value delegations
  | .snapshot metas => ∃ named, members.lookup "meta" = some named ∧
      Tabulates (fun json version => json = metaFileJson version) metas named
  | .timestamp version =>
      members.lookup "meta" = some (.obj [("snapshot.json", metaFileJson version)])

structure SignedAs (md : Metadata) (members : List (String × Json)) : Prop where
  type : members.lookup "_type" = some (.str md.signed.type)
  specVersion : members.lookup "spec_version" = some (.str "1.0.31")
  version : members.lookup "version" = some (.int md.version)
  expires : members.lookup "expires" = some (.str (enc.expires md.expires))
  content : ContentAs enc members md.signed

end Format

/-! ## Writing -/

section Write

variable (enc : Encoding)

def tableJson {ν : Type} (json : ν → Json) (table : Table String ν) : Json :=
  .obj (table.map fun row => (row.1, json row.2))

def targetFileJson (file : TargetFile) : Json :=
  .obj [("custom", .obj file.custom), ("hashes", .obj [("sha256", .str file.sha256)]),
    ("length", .int file.length)]

def roleJson (role : RootRole) : Json :=
  .obj [("keyids", strings role.keyids), ("threshold", .int role.threshold)]

def delegatedRoleJson (role : DelegatedRole) : Json :=
  .obj [("keyids", strings role.keyids), ("name", .str role.name),
    ("paths", strings role.paths), ("terminating", .bool role.terminating),
    ("threshold", .int role.threshold)]

def delegationsJson (delegations : Delegations) : Json :=
  .obj [("keys", tableJson enc.key delegations.keys),
    ("roles", .arr (delegations.roles.map fun row => delegatedRoleJson row.2))]

def contentJson : Signed → List (String × Json)
  | .root root => [("consistent_snapshot", .bool root.consistentSnapshot),
      ("keys", tableJson enc.key root.keys), ("roles", tableJson roleJson root.roles)]
  | .targets targets => ("targets", tableJson targetFileJson targets.targets) ::
      match targets.delegations with
      | none => []
      | some delegations => [("delegations", delegationsJson enc delegations)]
  | .snapshot metas => [("meta", tableJson metaFileJson metas)]
  | .timestamp version => [("meta", .obj [("snapshot.json", metaFileJson version)])]

/-- `Signed.to_dict`. -/
def toDict (md : Metadata) : List (String × Json) :=
  ("_type", .str md.signed.type) :: ("spec_version", .str "1.0.31") ::
    ("version", .int md.version) :: ("expires", .str (enc.expires md.expires)) ::
    contentJson enc md.signed

/-- A row for each name, as in a dictionary. -/
def Signed.Distinct : Signed → Prop
  | .root ⟨_, keys, roles⟩ => (keys.map (·.1)).Nodup ∧ (roles.map (·.1)).Nodup
  | .targets ⟨listed, delegations⟩ => (listed.map (·.1)).Nodup ∧
      ∀ child, delegations = some child → (child.keys.map (·.1)).Nodup
  | .snapshot metas => (metas.map (·.1)).Nodup
  | .timestamp _ => True

instance : (signed : Signed) → Decidable signed.Distinct
  | .root ⟨_, _, _⟩ => inferInstanceAs (Decidable (_ ∧ _))
  | .targets ⟨_, delegations⟩ =>
    inferInstanceAs (Decidable (_ ∧ ∀ child ∈ delegations, _))
  | .snapshot _ => inferInstanceAs (Decidable (List.Nodup _))
  | .timestamp _ => .isTrue trivial

variable {enc}

theorem tabulates_tableJson {ν : Type} {R : Json → ν → Prop} {json : ν → Json}
    (hR : ∀ v, R (json v) v) {table : Table String ν} (h : (table.map (·.1)).Nodup) :
    Tabulates R table (tableJson json table) := by
  refine ⟨_, rfl, by simpa [Function.comp_def] using h, fun name => ?_⟩
  induction table with
  | nil => exact .none
  | cons row table ih =>
    rw [List.map_cons, List.lookup_cons, Table.get, List.lookup_cons]
    cases name == row.1 with
    | true => exact .some (hR row.2)
    | false => exact ih h.of_cons

theorem delegationsAs_delegationsJson {delegations : Delegations}
    (h : (delegations.keys.map (·.1)).Nodup) :
    DelegationsAs enc (delegationsJson enc delegations) delegations := by
  refine ⟨_, _, _, delegations.roles, rfl, rfl,
    tabulates_tableJson (R := fun json key => json = enc.key key) (fun _ => rfl) h, rfl,
    .refl _, ?_⟩
  rw [List.forall₂_map_left_iff]
  exact List.forall₂_same.mpr fun row _ => ⟨_, rfl, rfl, rfl, rfl, rfl, rfl⟩

/-- What is written is in the format. -/
theorem signedAs_toDict {md : Metadata} (h : md.signed.Distinct) :
    SignedAs enc md (toDict enc md) where
  type := rfl
  specVersion := rfl
  version := rfl
  expires := rfl
  content := by
    cases hsigned : md.signed with
    | root root =>
      rw [hsigned] at h
      simp only [toDict, hsigned]
      exact ⟨_, _, rfl, rfl, tabulates_tableJson (R := fun json key => json = enc.key key)
          (fun _ => rfl) h.1, rfl,
        tabulates_tableJson (fun _ => ⟨_, rfl, rfl, rfl⟩) h.2⟩
    | targets targets =>
      rw [hsigned] at h
      simp only [toDict, hsigned]
      refine ⟨⟨_, rfl, tabulates_tableJson (fun file => ⟨_, _, rfl, rfl, rfl, rfl, fun _ => rfl⟩)
        h.1⟩, ?_⟩
      obtain ⟨listed, delegations⟩ := targets
      cases delegations with
      | none => rfl
      | some delegations => exact ⟨_, rfl, delegationsAs_delegationsJson (h.2 _ rfl)⟩
    | snapshot metas =>
      rw [hsigned] at h
      simp only [toDict, hsigned]
      exact ⟨_, rfl, tabulates_tableJson (R := fun json version => json = metaFileJson version)
        (fun _ => rfl) h⟩
    | timestamp version =>
      simp only [toDict, hsigned]
      rfl

end Write

end DistPlatform.Core
