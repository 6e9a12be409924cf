import DistPlatform.Client.Acceptance
import DistPlatform.Client.FileFormat
import DistPlatform.Core.Signatures
import DistPlatform.Tuf.Threshold

/-!
# Documents that the client reads in full

A shim refuses the whole document for one part that it cannot read. This module says what each
part of a file has to satisfy to be read, and what it is read as.

## Main definitions

* `Keys` — the keys of a backend, as the crate knows them.
* `ReadAs` — a description of a file that the client has read.
* `Own` — keys that are listed under their own ids, and are the backend's.
-/

namespace DistPlatform.Client

open DistPlatform
open DistPlatform.Tuf (Interchange PublicKey KeyId MetadataPath mapOf listOf)
open DistPlatform.Fallible (bind_eq_some require_eq_some)

/-! ## Objects and lists -/

section Tables

variable {ν κ α : Type} {R : Json → ν → Prop} {table : Table String ν} {value : Json}
  {key : String → Option κ} {element : Json → Option α} {rows : List (κ × α)}

/-- A member of the object is a row of the table. -/
theorem row_of_member {members : List (String × Json)} (h : Core.Tabulates R table (.obj members))
    {name : String} {json : Json} (hmember : (name, json) ∈ members) :
    ∃ x, table.get name = some x ∧ R json x := by
  obtain ⟨members', heq, hnodup, hsame⟩ := h
  obtain rfl := Json.obj.inj heq
  have hrel := hsame name
  rw [show members.lookup name = some json from Table.get_of_mem hnodup hmember] at hrel
  cases htable : table.get name with
  | none => rw [htable] at hrel; cases hrel
  | some x =>
    rw [htable] at hrel
    cases hrel with
    | some hR => exact ⟨x, rfl, hR⟩

/-- An object is read where every row of its table is. -/
theorem mapOf_of_tabulates (h : Core.Tabulates R table value)
    (hread : ∀ name json x, table.get name = some x → R json x →
      (key name).isSome ∧ (element json).isSome) :
    ∃ rows, mapOf key element value = some rows := by
  obtain ⟨members, rfl, -⟩ := id h
  refine Fallible.exists_mapM ?_
  rintro ⟨name, json⟩ hmember
  obtain ⟨x, hget, hR⟩ := row_of_member h hmember
  obtain ⟨hkey, helement⟩ := hread name json x hget hR
  obtain ⟨k, hk⟩ := Option.isSome_iff_exists.mp hkey
  obtain ⟨a, ha⟩ := Option.isSome_iff_exists.mp helement
  simp [hk, ha]

/-- What was read under a key is what the table has under the name. -/
theorem lookup_of_tabulates [DecidableEq κ] (h : Core.Tabulates R table value)
    (hread : mapOf key element value = some rows)
    (hinj : ∀ name name' k, key name = some k → key name' = some k → name = name')
    {name : String} {k : κ} (hkey : key name = some k) :
    Option.Rel (fun a x => ∃ json, R json x ∧ element json = some a) (Table.get rows k)
      (table.get name) := by
  cases hget : Table.get rows k with
  | some a =>
    obtain ⟨name', json, x, hkey', htable, hR, helement⟩ :=
      exists_of_mem_rows h hread (Table.mem_of_get hget)
    rw [hinj _ _ _ hkey hkey', htable]
    exact .some ⟨json, hR, helement⟩
  | none =>
    cases htable : table.get name with
    | none => exact .none
    | some x =>
      obtain ⟨members, rfl, -, hsame⟩ := id h
      have hrel := hsame name
      rw [htable] at hrel
      cases hlookup : members.lookup name with
      | none => rw [hlookup] at hrel; cases hrel
      | some json =>
        obtain ⟨row, hrow, hkey', -⟩ :=
          Tuf.exists_of_mem_members hread (Table.mem_of_get (t := members) hlookup)
        obtain rfl : k = row.1 := Option.some.inj (hkey.symm.trans hkey')
        have hsome := Table.get_isSome_of_mem (t := rows) (k := row.1) (v := row.2) hrow
        rw [hget] at hsome
        cases hsome

end Tables

/-- A list of texts is read one by one. -/
theorem listOf_strings {α : Type} {read : String → Option α} {values : List String}
    {result : String → α} (h : ∀ text ∈ values, read text = some (result text)) :
    listOf (fun json => json.str?.bind read) (Core.strings values) = some (values.map result) := by
  rw [Core.strings, Tuf.listOf_arr, List.forall₂_map_left_iff, List.forall₂_map_right_iff,
    List.forall₂_same]
  exact h

/-! ## Keys and roles -/

/-- The crate reads the keys of the backend, and computes for each the id it is listed under. -/
def Keys (ic : Interchange) (enc : Core.Encoding) (backend : Core.SignerBackend) : Prop :=
  ∀ role, ∀ keyid ∈ backend.keyids role, keyid.utf8ByteSize = 64 ∧
    ∃ key, ic.publicKey (enc.key (backend.publicKey keyid)) = some key ∧ key.keyId = keyid

/-- Key ids and a threshold that a role can have. -/
structure Usable (keyids : List KeyId) (threshold : Nat) : Prop where
  sizes : ∀ keyid ∈ keyids, keyid.utf8ByteSize = 64
  distinct : keyids.Nodup
  pos : 1 ≤ threshold
  enough : threshold ≤ keyids.length
  small : threshold < Tuf.U32_END

section Parts

variable {json : Json}

theorem Usable.ne_nil {keyids : List KeyId} {threshold : Nat} (h : Usable keyids threshold) :
    keyids ≠ [] := by
  rintro rfl
  have hpos := h.pos
  have henough := h.enough
  simp at henough
  omega

theorem keyIds_of_strings {keyids : List KeyId} {threshold : Nat} (h : Usable keyids threshold) :
    listOf (fun id => id.str?.bind Tuf.keyId) (Core.strings keyids) = some keyids := by
  have hread : ∀ keyid ∈ keyids, Tuf.keyId keyid = some (id keyid) :=
    fun keyid hmem => if_pos (h.sizes keyid hmem)
  rw [listOf_strings hread, List.map_id]

theorem roleDefinition_of_roleAs {role : Core.RootRole} (h : Core.RoleAs json role)
    (husable : Usable role.keyids role.threshold) :
    Tuf.roleDefinition json = some ⟨role.threshold, role.keyids⟩ := by
  obtain ⟨members, rfl, hkeyids, hthreshold⟩ := h
  simp only [Tuf.roleDefinition, bind_eq_some, Tuf.fields_obj, exists_eq_left', hkeyids,
    hthreshold, Option.some.injEq, Tuf.u32, Tuf.unsigned_int, require_eq_some,
    keyIds_of_strings husable]
  exact ⟨_, ⟨husable.small, rfl⟩, (), husable.ne_nil, (), husable.distinct, (), husable.pos, (),
    husable.enough, rfl⟩

theorem delegation_of_delegatedRoleAs {role : Core.DelegatedRole} {path : String}
    (h : Core.DelegatedRoleAs json role) (husable : Usable role.keyids role.threshold)
    (hname : Tuf.metadataPath role.name = some ⟨role.name⟩) (hpaths : role.paths = [path])
    (hpattern : Tuf.TargetPath.newPattern path = .ok ⟨path⟩) :
    Tuf.delegation json = some
      ⟨⟨role.name⟩, role.terminating, role.threshold, role.keyids, [⟨path⟩]⟩ := by
  obtain ⟨members, rfl, hrole, hkeyids, hthreshold, hterminating, hread⟩ := h
  have hlist : listOf
      (fun path => path.str?.bind fun path => (Tuf.TargetPath.newPattern path).toOption)
      (Core.strings [path]) = some [⟨path⟩] := by
    have hread : ∀ text ∈ [path], (Tuf.TargetPath.newPattern text).toOption =
        some (Tuf.TargetPath.mk text) := by
      intro text htext
      rw [List.mem_singleton.mp htext, hpattern]
      rfl
    exact listOf_strings hread
  have hstr : Json.str? (.str role.name) = some role.name := rfl
  have hbool : Json.bool? (.bool role.terminating) = some role.terminating := rfl
  rw [hpaths] at hread
  simp only [Tuf.delegation, bind_eq_some, Tuf.fields_obj, exists_eq_left', hrole, hkeyids,
    hthreshold, hterminating, hread, Option.some.injEq, Tuf.u32, Tuf.unsigned_int, require_eq_some,
    keyIds_of_strings husable, hlist, hstr, hbool, hname]
  exact ⟨_, ⟨husable.small, rfl⟩, (), List.nodup_singleton _, (), husable.distinct, (),
    husable.ne_nil, (), List.cons_ne_nil _ _, (), husable.pos, (), husable.enough, rfl⟩

/-- What the client has read of a file that the repository lists. -/
structure ReadAs (description : Tuf.TargetDescription) (file : Core.TargetFile) : Prop where
  length : description.length = UInt64.ofNat file.length
  hashes : ∃ digest, Tuf.decodeHex file.sha256.toList = some digest ∧
    description.hashes = [(.Sha256, digest)]
  custom : ∀ name, description.custom.lookup name = file.custom.lookup name

/-- The description of a file whose digest is written in hexadecimal. -/
theorem targetDescription_of_fileAs {file : Core.TargetFile} {digest : List UInt8}
    (h : Core.TargetFileAs json file) (hlength : file.length < Tuf.U64_END)
    (hdigest : Tuf.decodeHex file.sha256.toList = some digest) :
    ∃ description, Tuf.targetDescription json = some description ∧ ReadAs description file := by
  obtain ⟨members, custom, rfl, hlen, hhashes, hcustom, hsame⟩ := h
  refine ⟨⟨UInt64.ofNat file.length, [(.Sha256, digest)], custom⟩, ?_,
    ⟨rfl, ⟨digest, hdigest, rfl⟩, hsame⟩⟩
  have hread : mapOf some some (.obj custom) = some custom :=
    Tuf.mapOf_obj.mpr (List.forall₂_same.mpr fun _ _ => ⟨rfl, rfl⟩)
  have hhash : mapOf Tuf.hashAlgorithm Tuf.hexBytes (.obj [("sha256", .str file.sha256)]) =
      some [(.Sha256, digest)] := by
    refine Tuf.mapOf_obj.mpr (.cons ⟨rfl, ?_⟩ .nil)
    simp [Tuf.hexBytes, Json.str?, hdigest]
  simp only [Tuf.targetDescription, bind_eq_some, Tuf.fields_obj, exists_eq_left', hlen, hhashes,
    hcustom, Option.some.injEq, Tuf.u64, Tuf.unsigned_int, Option.map_some, Option.getD_some, hread,
    hhash, require_eq_some]
  exact ⟨_, ⟨hlength, rfl⟩, (), List.cons_ne_nil _ _, rfl⟩

end Parts

/-! ## Whole files -/

section Files

variable {ic : Interchange} {enc : Core.Encoding} {md : Core.Metadata}
  {members : List (String × Json)} {backend : Core.SignerBackend}

/-- What the client checks of every header: the version is a number it can hold, and the expiry
is a time. -/
structure Header (ic : Interchange) (enc : Core.Encoding) (md : Core.Metadata)
    (expires : Tuf.Time) : Prop where
  expires : ic.parseDatetime (enc.expires md.expires) = some expires
  small : md.version < Tuf.U32_END
  pos : 1 ≤ md.version

theorem Header.eq_some {expires : Tuf.Time} (h : Header ic enc md expires)
    (hsigned : Core.SignedAs enc md members) :
    Tuf.header ic md.signed.type members = some (md.version, expires) :=
  (header_eq_some hsigned).mpr ⟨rfl, h.expires, h.small, h.pos, rfl⟩

/-- Each key is listed under the id the crate computes for it, and is the backend's. -/
structure Own (ic : Interchange) (enc : Core.Encoding) (backend : Core.SignerBackend)
    (keys : List (KeyId × PublicKey)) : Prop where
  own : ∀ row ∈ keys, row.2.keyId = row.1
  backend : ∀ row ∈ keys, ic.publicKey (enc.key (backend.publicKey row.1)) = some row.2

theorem keyId_eq_some {name k : String} :
    Tuf.keyId name = some k ↔ name.utf8ByteSize = 64 ∧ name = k := by
  unfold Tuf.keyId
  split <;> simp [*]

/-- The keys of a file whose table lists keys of the backend. -/
theorem own_of_tabulates {table : Table String String} {value : Json}
    (hkeys : Keys ic enc backend)
    (h : Core.Tabulates (fun json key => json = enc.key key) table value)
    (hown : ∀ keyid key, table.get keyid = some key →
      key = backend.publicKey keyid ∧ ∃ role, keyid ∈ backend.keyids role) :
    ∃ rows, mapOf Tuf.keyId ic.publicKey value = some rows ∧ Own ic enc backend rows ∧
      ∀ keyid, (table.get keyid).isSome → ∃ key, (keyid, key) ∈ rows := by
  have hlisted : ∀ keyid key, table.get keyid = some key → keyid.utf8ByteSize = 64 ∧
      ∃ key', ic.publicKey (enc.key key) = some key' ∧ key'.keyId = keyid := by
    intro keyid key hget
    obtain ⟨rfl, role, hmem⟩ := hown keyid key hget
    exact hkeys role keyid hmem
  have hread : ∃ rows, mapOf Tuf.keyId ic.publicKey value = some rows := by
    refine mapOf_of_tabulates h fun name json key hget hjson => ?_
    obtain ⟨hsize, key', hkey', -⟩ := hlisted name key hget
    rw [hjson, hkey', Tuf.keyId, if_pos hsize]
    exact ⟨rfl, rfl⟩
  obtain ⟨rows, hrows⟩ := hread
  have hrow : ∀ row ∈ rows, ∃ key, table.get row.1 = some key ∧
      ic.publicKey (enc.key key) = some row.2 := by
    intro row hrow
    obtain ⟨name, json, key, hname, hget, rfl, hread⟩ := exists_of_mem_rows h hrows hrow
    obtain rfl := (keyId_eq_some.mp hname).2
    exact ⟨key, hget, hread⟩
  refine ⟨rows, hrows, ⟨fun row hmem => ?_, fun row hmem => ?_⟩, fun keyid hsome => ?_⟩
  · obtain ⟨key, hget, hread⟩ := hrow row hmem
    obtain ⟨-, key', hkey', hid⟩ := hlisted _ _ hget
    obtain rfl := Option.some.inj (hread.symm.trans hkey')
    exact hid
  · obtain ⟨key, hget, hread⟩ := hrow row hmem
    rw [← (hown _ _ hget).1, hread]
  · obtain ⟨key, hget⟩ := Option.isSome_iff_exists.mp hsome
    have hkeyid : Tuf.keyId keyid = some keyid := if_pos (hlisted _ _ hget).1
    have hrel := lookup_of_tabulates h hrows (fun _ _ _ h₁ h₂ =>
      (keyId_eq_some.mp h₁).2.trans (keyId_eq_some.mp h₂).2.symm) hkeyid
    rw [hget] at hrel
    cases hlook : Table.get rows keyid with
    | none => rw [hlook] at hrel; cases hrel
    | some key' => exact ⟨key', Table.mem_of_get hlook⟩

/-- The key that a signature is checked with is the backend's. -/
theorem find_authorized {keys : List (KeyId × PublicKey)} {ids : List KeyId}
    (h : Own ic enc backend keys) {keyid : KeyId} (hmem : keyid ∈ ids)
    (hlisted : ∃ key, (keyid, key) ∈ keys) :
    ∃ key, (Tuf.authorizedKeys keys ids).find? (·.keyId == keyid) = some key ∧
      ic.publicKey (enc.key (backend.publicKey keyid)) = some key := by
  obtain ⟨key, hkey⟩ := hlisted
  have hsome : ((Tuf.authorizedKeys keys ids).find? (·.keyId == keyid)).isSome := by
    rw [List.find?_isSome]
    refine ⟨key, List.mem_filterMap.mpr ⟨(keyid, key), hkey, if_pos hmem⟩, ?_⟩
    exact beq_iff_eq.mpr (h.own _ hkey)
  obtain ⟨found, hfound⟩ := Option.isSome_iff_exists.mp hsome
  refine ⟨found, hfound, ?_⟩
  have hid : found.keyId = keyid := by simpa using List.find?_some hfound
  obtain ⟨⟨listed, key'⟩, hrow, hauthorized⟩ :=
    List.mem_filterMap.mp (List.mem_of_find?_eq_some hfound)
  dsimp only at hauthorized
  split at hauthorized
  · obtain rfl := Option.some.inj hauthorized
    have hown := h.own _ hrow
    have hbackend := h.backend _ hrow
    dsimp only at hown hbackend
    rwa [← hown, hid] at hbackend
  · cases hauthorized

/-! ### The root -/

theorem get_of_tabulates {ν : Type} {R : Json → ν → Prop} {table : Table String ν}
    {rows : List (String × Json)} (h : Core.Tabulates R table (.obj rows)) {name : String} {x : ν}
    (hget : table.get name = some x) : ∃ json, rows.lookup name = some json ∧ R json x := by
  obtain ⟨rows', heq, -, hsame⟩ := h
  obtain rfl := Json.obj.inj heq
  have hrel := hsame name
  rw [hget] at hrel
  cases hlook : rows.lookup name with
  | none => rw [hlook] at hrel; cases hrel
  | some json =>
    rw [hlook] at hrel
    cases hrel with
    | some hR => exact ⟨json, rfl, hR⟩

/-- A backend that has enough distinct keys for a role. -/
theorem usable_of_keys (hkeys : Keys ic enc backend) (hdistinct : backend.Distinct) {role : String}
    {threshold : Nat} (hpos : 1 ≤ threshold) (henough : threshold ≤ (backend.keyids role).length)
    (hsmall : threshold < Tuf.U32_END) : Usable (backend.keyids role) threshold where
  sizes keyid hmem := (hkeys role keyid hmem).1
  distinct := hdistinct role
  pos := hpos
  enough := henough
  small := hsmall

/-- The client's view of a root that lists the keys of a backend. -/
structure RootReads (ic : Interchange) (enc : Core.Encoding) (backend : Core.SignerBackend)
    (version : Nat) (expires : Tuf.Time) (read : Tuf.RootMetadata) : Prop where
  version : read.version = version
  expires : read.expires = expires
  own : Own ic enc backend read.keys
  listed : ∀ row ∈ Core.TOP_LEVEL_POLICIES, ∀ keyid ∈ backend.keyids row.1,
    ∃ key, (keyid, key) ∈ read.keys
  root : read.root = ⟨3, backend.keyids Core.ROOT⟩
  targets : read.targets = ⟨2, backend.keyids Core.TARGETS⟩
  snapshot : read.snapshot = ⟨1, backend.keyids Core.SNAPSHOT⟩
  timestamp : read.timestamp = ⟨1, backend.keyids Core.TIMESTAMP⟩

theorem rootMetadata_of_signedAs (h : Core.SignedAs enc md members)
    (hkeys : Keys ic enc backend) (hdistinct : backend.Distinct)
    (henough : ∀ row ∈ Core.TOP_LEVEL_POLICIES, row.2.threshold ≤ (backend.keyids row.1).length)
    {content : Core.Root} (hsigned : md.signed = .root content) (hlists : content.Lists backend)
    {expires : Tuf.Time} (hheader : Header ic enc md expires) :
    ∃ root, Tuf.rootMetadata ic (.obj members) = some root ∧
      RootReads ic enc backend md.version expires root := by
  have hcontent := h.content
  rw [hsigned] at hcontent
  obtain ⟨keys, roles, hconsistent, hkeysMember, hkeysAs, hrolesMember, hrolesAs⟩ := hcontent
  obtain ⟨rows, hrows, hown, hall⟩ := own_of_tabulates hkeys hkeysAs hlists.own
  obtain ⟨entries, rfl, -⟩ := id hrolesAs
  have hrole (row) (hrow : row ∈ Core.TOP_LEVEL_POLICIES) : ∃ json,
      entries.lookup row.1 = some json ∧
      Tuf.roleDefinition json = some ⟨row.2.threshold, backend.keyids row.1⟩ := by
    have hbounds : ∀ row ∈ Core.TOP_LEVEL_POLICIES,
        1 ≤ row.2.threshold ∧ row.2.threshold < Tuf.U32_END := by
      decide
    have hbounds := hbounds row hrow
    obtain ⟨json, hlook, hjson⟩ := get_of_tabulates hrolesAs (hlists.roles row hrow)
    exact ⟨json, hlook, roleDefinition_of_roleAs hjson
      (usable_of_keys hkeys hdistinct hbounds.1 (henough row hrow) hbounds.2)⟩
  obtain ⟨j₁, hl₁, hr₁⟩ := hrole (Core.ROOT, Core.ROOT_POLICY) (by decide)
  obtain ⟨j₂, hl₂, hr₂⟩ := hrole (Core.SNAPSHOT, Core.SNAPSHOT_POLICY) (by decide)
  obtain ⟨j₃, hl₃, hr₃⟩ := hrole (Core.TARGETS, Core.TARGETS_POLICY) (by decide)
  obtain ⟨j₄, hl₄, hr₄⟩ := hrole (Core.TIMESTAMP, Core.TIMESTAMP_POLICY) (by decide)
  have hhead := hheader.eq_some h
  rw [hsigned] at hhead
  have hself : ∀ row ∈ rows, (row.1 == row.2.keyId) = true := fun row hrow =>
    beq_iff_eq.mpr (hown.own row hrow).symm
  refine ⟨⟨md.version, expires, true, rows, ⟨3, backend.keyids Core.ROOT⟩,
    ⟨1, backend.keyids Core.SNAPSHOT⟩, ⟨2, backend.keyids Core.TARGETS⟩,
    ⟨1, backend.keyids Core.TIMESTAMP⟩⟩, ?_, ⟨rfl, rfl, hown, fun row hrow keyid hmem => ?_,
      rfl, rfl, rfl, rfl⟩⟩
  · have hbool : Json.bool? (.bool content.consistentSnapshot) = some true := by
      rw [hlists.consistent]
      rfl
    have hhead : Tuf.header ic "root" members = some (md.version, expires) := hhead
    simp only [Tuf.rootMetadata, bind_eq_some, Tuf.fields_obj, exists_eq_left', hhead,
      hconsistent, hkeysMember, hrows, hrolesMember, hbool, Option.some.injEq]
    refine ⟨j₁, hl₁, _, hr₁, j₂, hl₂, _, hr₂, j₃, hl₃, _, hr₃, j₄, hl₄, _, hr₄, ?_⟩
    rw [List.filter_eq_self.mpr hself]
    rfl
  · exact hall keyid (by rw [hlists.keys row hrow keyid hmem]; rfl)

/-! ### Targets and snapshots -/

/-- A path the library takes, for a file it can read. -/
structure Legible (path : String) (file : Core.TargetFile) : Prop where
  path : ∃ read, Tuf.TargetPath.new path = .ok read
  length : file.length < Tuf.U64_END
  digest : ∃ digest, Tuf.decodeHex file.sha256.toList = some digest

/-- The listed targets, read under their paths. -/
theorem listed_of_tabulates {listing : Table String Core.TargetFile} {listed : Json}
    (h : Core.Tabulates Core.TargetFileAs listing listed)
    (hlegible : ∀ path file, listing.get path = some file → Legible path file) :
    ∃ rows, mapOf (fun path => (Tuf.TargetPath.new path).toOption) Tuf.targetDescription listed =
        some rows ∧
      ∀ path read, Tuf.TargetPath.new path = .ok read →
        Option.Rel ReadAs (rows.lookup read) (listing.get path) := by
  have hread : ∃ rows, mapOf (fun path => (Tuf.TargetPath.new path).toOption)
      Tuf.targetDescription listed = some rows := by
    refine mapOf_of_tabulates h fun path json file hget hjson => ?_
    obtain ⟨⟨read, hread⟩, hlength, digest, hdigest⟩ := hlegible path file hget
    obtain ⟨description, hdescription, -⟩ := targetDescription_of_fileAs hjson hlength hdigest
    rw [hread, hdescription]
    exact ⟨rfl, rfl⟩
  obtain ⟨rows, hrows⟩ := hread
  refine ⟨rows, hrows, fun path read hread => ?_⟩
  have hinj : ∀ name name' k, (Tuf.TargetPath.new name).toOption = some k →
      (Tuf.TargetPath.new name').toOption = some k → name = name' := by
    intro name name' k h₁ h₂
    rw [← Tuf.TargetPath.value_of_new (Core.eq_ok_of_toOption h₁),
      Tuf.TargetPath.value_of_new (Core.eq_ok_of_toOption h₂)]
  have hkey : (Tuf.TargetPath.new path).toOption = some read := by rw [hread]; rfl
  have hrel := lookup_of_tabulates h hrows hinj hkey
  cases hget : listing.get path with
  | none =>
    rw [hget] at hrel
    cases hlook : Table.get rows read with
    | none => exact (show rows.lookup read = none from hlook) ▸ .none
    | some description => rw [hlook] at hrel; cases hrel
  | some file =>
    rw [hget] at hrel
    cases hlook : Table.get rows read with
    | none => rw [hlook] at hrel; cases hrel
    | some description =>
      rw [hlook] at hrel
      obtain ⟨-, hlength, digest, hdigest⟩ := hlegible path file hget
      rw [show rows.lookup read = some description from hlook]
      cases hrel with
      | some hR =>
        obtain ⟨json, hjson, hdescription⟩ := hR
        obtain ⟨description', hread', hreadAs⟩ :=
          targetDescription_of_fileAs hjson hlength hdigest
        obtain rfl := Option.some.inj (hdescription.symm.trans hread')
        exact .some hreadAs

/-- Metadata that delegates no further. -/
theorem targetsMetadata_of_leaf (h : Core.SignedAs enc md members)
    {listing : Table String Core.TargetFile} (hsigned : md.signed = .targets ⟨listing, none⟩)
    (hlegible : ∀ path file, listing.get path = some file → Legible path file)
    {expires : Tuf.Time} (hheader : Header ic enc md expires) :
    ∃ rows, Tuf.targetsMetadata ic (.obj members) = some ⟨md.version, expires, rows, none⟩ ∧
      ∀ path read, Tuf.TargetPath.new path = .ok read →
        Option.Rel ReadAs (rows.lookup read) (listing.get path) := by
  have hcontent := h.content
  rw [hsigned] at hcontent
  obtain ⟨⟨listed, hlisted, hlistedAs⟩, hnone⟩ := hcontent
  obtain ⟨rows, hrows, hlookup⟩ := listed_of_tabulates hlistedAs hlegible
  have hhead := hheader.eq_some h
  rw [hsigned] at hhead
  have hhead : Tuf.header ic "targets" members = some (md.version, expires) := hhead
  refine ⟨rows, ?_, hlookup⟩
  have hnone : members.lookup "delegations" = none := hnone
  simp only [Tuf.targetsMetadata, bind_eq_some, Tuf.fields_obj, exists_eq_left', hhead,
    hlisted, hrows, hnone, Option.some.injEq]
  rfl

/-- Metadata that lists nothing and delegates to one role. -/
theorem targetsMetadata_of_top (h : Core.SignedAs enc md members)
    {delegations : Core.Delegations} {role path : String} {keyids : List KeyId}
    (hsigned : md.signed = .targets ⟨[], some delegations⟩)
    (hroles : delegations.roles = [(role, ⟨role, keyids, 1, false, [path]⟩)])
    (hkeys : Keys ic enc backend) (husable : Usable keyids 1)
    (hown : ∀ keyid key, delegations.keys.get keyid = some key →
      key = backend.publicKey keyid ∧ ∃ role, keyid ∈ backend.keyids role)
    (hlisted : ∀ keyid ∈ keyids, (delegations.keys.get keyid).isSome)
    (hname : Tuf.metadataPath role = some ⟨role⟩)
    (hpattern : Tuf.TargetPath.newPattern path = .ok ⟨path⟩)
    {expires : Tuf.Time} (hheader : Header ic enc md expires) :
    ∃ read, Tuf.targetsMetadata ic (.obj members) =
        some ⟨md.version, expires, [], some read⟩ ∧
      read.roles = [⟨⟨role⟩, false, 1, keyids, [⟨path⟩]⟩] ∧ Own ic enc backend read.keys ∧
      ∀ keyid ∈ keyids, ∃ key, (keyid, key) ∈ read.keys := by
  have hcontent := h.content
  rw [hsigned] at hcontent
  obtain ⟨⟨listed, hlistedMember, hlistedAs⟩, value, hvalue, entries, keys, roles, rows, rfl,
    hkeysMember, hkeysAs, hrolesMember, hperm, hrolesAs⟩ := hcontent
  obtain ⟨keyRows, hkeyRows, hownRows, hall⟩ := own_of_tabulates hkeys hkeysAs hown
  -- one role is one in any order
  rw [hroles, List.perm_singleton] at hperm
  subst hperm
  obtain ⟨json, _, hjson, hrest, rfl⟩ := List.forall₂_cons_right_iff.mp hrolesAs
  obtain rfl := List.forall₂_nil_right_iff.mp hrest
  have hdelegation := delegation_of_delegatedRoleAs hjson husable hname rfl hpattern
  have hempty : ∃ none, mapOf (fun path => (Tuf.TargetPath.new path).toOption)
      Tuf.targetDescription listed = some none ∧ none = [] := by
    obtain ⟨none, hread, hlookup⟩ := listed_of_tabulates hlistedAs fun _ _ hget => by cases hget
    refine ⟨none, hread, List.eq_nil_iff_forall_not_mem.mpr fun row hrow => ?_⟩
    obtain ⟨_, _, _, -, hget, -⟩ := exists_of_mem_rows hlistedAs hread hrow
    cases hget
  obtain ⟨_, hempty, rfl⟩ := hempty
  have hhead := hheader.eq_some h
  rw [hsigned] at hhead
  have hhead : Tuf.header ic "targets" members = some (md.version, expires) := hhead
  have hne : keyRows ≠ [] := by
    rintro rfl
    cases hkeyids : keyids with
    | nil => exact husable.ne_nil hkeyids
    | cons keyid _ =>
      obtain ⟨key, hmem⟩ := hall keyid (hlisted keyid (hkeyids ▸ List.mem_cons_self))
      cases hmem
  refine ⟨⟨keyRows, [⟨⟨role⟩, false, 1, keyids, [⟨path⟩]⟩], List.nodup_singleton _⟩, ?_, rfl,
    hownRows, fun keyid hmem => hall keyid (hlisted keyid hmem)⟩
  have hlist : listOf Tuf.delegation (.arr [json]) =
      some [⟨⟨role⟩, false, 1, keyids, [⟨path⟩]⟩] :=
    Tuf.listOf_arr.mpr (.cons hdelegation .nil)
  have hread : Tuf.delegations ic (.obj entries) = some ⟨keyRows,
      [⟨⟨role⟩, false, 1, keyids, [⟨path⟩]⟩], List.nodup_singleton _⟩ := by
    simp only [Tuf.delegations, bind_eq_some, Tuf.fields_obj, exists_eq_left', hkeysMember,
      hkeyRows, hrolesMember, hlist, require_eq_some, Option.some.injEq]
    exact ⟨(), hne, (), List.cons_ne_nil _ _, dif_pos (List.nodup_singleton _)⟩
  simp only [Tuf.targetsMetadata, bind_eq_some, Tuf.fields_obj, exists_eq_left', hhead,
    hlistedMember, hempty, hvalue, hread, Option.map_some, Option.some.injEq]
  rfl

/-- The role's file name in a snapshot is read as the role. -/
theorem metaFile_of_metadataPath {role : String} (h : Tuf.metadataPath role = some ⟨role⟩) :
    Tuf.metaFile (role ++ ".json") = some ⟨role⟩ := by
  have hname : (role ++ ".json").toList = role.toList ++ ".json".toList := String.toList_append
  have hsuffix : ".json".toList.isSuffixOf (role ++ ".json").toList = true := by
    rw [hname, List.isSuffixOf_iff_suffix]
    exact List.suffix_append _ _
  have hlength : (role ++ ".json").toList.length - 5 = role.toList.length := by
    rw [hname, List.length_append]
    rfl
  refine bind_eq_some.mpr ⟨(), require_eq_some.mpr hsuffix, ?_⟩
  rw [hlength, hname, List.take_left, String.ofList_toList, h]

theorem metadataPath_of_safePiece {role : String} (h : SafePiece role.toList) :
    Tuf.metadataPath role = some ⟨role⟩ := by
  obtain ⟨hne, hchars, hdot, hdots⟩ := h
  have hslash : '/' ∉ role.toList := SafePiece.slash_not_mem ⟨hne, hchars, hdot, hdots⟩
  have hlegal : ∀ bad ∈ Tuf.illegalChars false, Core.segmentRest bad = false := by decide
  have hsegments : Text.segments role = [role.toList] := List.splitOn_eq_singleton hslash
  have hsafe : Tuf.safePathInner role false = .ok () := by
    refine safePathInner_eq_ok hne (fun hhead => hslash (List.mem_of_mem_head? hhead))
      (fun c hc hbad => ?_) fun s hs => ?_
    · exact Bool.false_ne_true ((hlegal c hbad).symm.trans (hchars c hc))
    · rw [hsegments, List.mem_singleton] at hs
      exact hs ▸ ⟨hdot, hdots⟩
  unfold Tuf.metadataPath MetadataPath.new
  split
  · rfl
  · rw [hsafe]
    rfl

/-- A snapshot that names roles at versions the client can hold. -/
theorem snapshotMetadata_of_signedAs (h : Core.SignedAs enc md members)
    {metas : Table String Nat} (hsigned : md.signed = .snapshot metas)
    (hnames : ∀ file version, metas.get file = some version → ∃ role, file = role ++ ".json" ∧
      Tuf.metadataPath role = some ⟨role⟩ ∧ version < Tuf.U32_END ∧ 1 ≤ version)
    {expires : Tuf.Time} (hheader : Header ic enc md expires) :
    ∃ snapshot, Tuf.snapshotMetadata ic (.obj members) = some snapshot ∧
      snapshot.version = md.version ∧ snapshot.expires = expires ∧
      ∀ role, Tuf.metadataPath role = some ⟨role⟩ →
        (snapshot.metas.lookup ⟨role⟩).map (·.version) = metas.get (role ++ ".json") := by
  have hcontent := h.content
  rw [hsigned] at hcontent
  obtain ⟨named, hnamed, htabulates⟩ := hcontent
  have hread : ∃ rows, mapOf Tuf.metaFile Tuf.metadataDescription named = some rows := by
    refine mapOf_of_tabulates htabulates fun file json version hget hjson => ?_
    obtain ⟨role, rfl, hrole, hsmall, hpos⟩ := hnames file version hget
    rw [metaFile_of_metadataPath hrole, hjson,
      metadataDescription_eq_some.mpr ⟨hsmall, hpos, rfl⟩]
    exact ⟨rfl, rfl⟩
  obtain ⟨rows, hrows⟩ := hread
  refine ⟨⟨md.version, expires, rows⟩, ?_, rfl, rfl, fun role hrole => ?_⟩
  · exact (snapshotMetadata_eq_some h).mpr ⟨metas, named, expires, hsigned, ⟨hnamed, htabulates⟩,
      hheader.expires, ⟨hheader.small, hheader.pos⟩, rfl, rfl, hrows⟩
  · have hrel := lookup_of_tabulates htabulates hrows
      (fun _ _ _ h₁ h₂ => (Tuf.metaFile_eq_some h₁).trans (Tuf.metaFile_eq_some h₂).symm)
      (metaFile_of_metadataPath hrole)
    change (Table.get rows ⟨role⟩).map (·.version) = _
    revert hrel
    generalize Table.get rows (MetadataPath.mk role) = found
    generalize metas.get (role ++ ".json") = version
    rintro (⟨json, rfl, hdescription⟩ | -)
    · obtain ⟨-, -, rfl⟩ := metadataDescription_eq_some.mp hdescription
      rfl
    · rfl

/-! ### Signatures -/

/-- The client reads the document and finds the signatures that the backend made. -/
structure Published (ic : Interchange) (enc : Core.Encoding) (backend : Core.SignerBackend)
    (raw : List UInt8) (md : Core.Metadata) (members : List (String × Json)) : Prop where
  signedAs : Core.SignedAs enc md members
  signatures : ∃ signatures bytes, Tuf.signedMetadata ic raw = some (signatures, .obj members) ∧
    ic.canonicalize (.obj members) = some bytes ∧ signatures.map (·.keyId) = md.signatures ∧
    ∀ s ∈ signatures, ∀ key, ic.publicKey (enc.key (backend.publicKey s.keyId)) = some key →
      ic.verify key bytes s.value = true

/-- A document signed with all the keys of its role passes for them. -/
theorem Published.verified {raw : List UInt8} (h : Published ic enc backend raw md members)
    {keys : List (KeyId × PublicKey)} (hown : Own ic enc backend keys) {ids : List KeyId}
    (hids : md.signatures = ids) (hlisted : ∀ keyid ∈ ids, ∃ key, (keyid, key) ∈ keys)
    {threshold : Nat} (husable : Usable ids threshold) {M : Type} {deserialize : Json → Option M}
    {role : MetadataPath} {metadata : M} (hread : deserialize (.obj members) = some metadata) :
    Tuf.verifySignatures ic deserialize role raw threshold (Tuf.authorizedKeys keys ids) =
      .ok metadata := by
  obtain ⟨signatures, bytes, hsigned, hbytes, hkeyIds, hgood⟩ := h.signatures
  refine Tuf.verifySignatures_iff.mpr ⟨husable.pos, _, ⟨signatures, bytes, hsigned, hbytes,
    ids.toFinset, ?_, fun id hid => ?_⟩, hread⟩
  · rw [List.toFinset_card_of_nodup husable.distinct]
    exact husable.enough
  · have hid : id ∈ ids := List.mem_toFinset.mp hid
    obtain ⟨key, hfind, hkey⟩ := find_authorized hown hid (hlisted id hid)
    cases hlast : Tuf.lastSignature signatures id with
    | none =>
      rw [← hids, ← hkeyIds] at hid
      obtain ⟨s, hs, hsid⟩ := List.mem_map.mp hid
      exact absurd hsid (Tuf.lastSignature_eq_none.mp hlast s hs)
    | some s =>
      obtain rfl := Tuf.lastSignature_keyId hlast
      exact ⟨key, s, hfind, hlast, hgood s (Tuf.lastSignature_mem hlast) key hkey⟩

end Files

end DistPlatform.Client
