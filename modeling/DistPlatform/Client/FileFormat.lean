import DistPlatform.Core.FileFormat
import DistPlatform.Tuf.Interchange

/-!
# The repository's files, read by the client

What the verifier's shims make of a file in the form in which the repository writes it.
-/

namespace DistPlatform.Client

open DistPlatform
open DistPlatform.Tuf (Interchange header unsigned_int fields_obj)
open DistPlatform.Fallible (bind_eq_some require_eq_some)

section Read

variable {ic : Interchange} {enc : Core.Encoding} {md : Core.Metadata}
  {members : List (String × Json)}

/-- The header of a file of the expected kind, and of no other. -/
theorem header_eq_some {typ : String} {version : Nat} {expires : Tuf.Time}
    (h : Core.SignedAs enc md members) :
    header ic typ members = some (version, expires) ↔
      md.signed.type = typ ∧ ic.parseDatetime (enc.expires md.expires) = some expires ∧
        md.version < Tuf.U32_END ∧ 1 ≤ md.version ∧ version = md.version := by
  have hspec : Tuf.specVersionKnown "1.0.31" = true := by decide
  have hvariant (name found : String) : Tuf.variant (.str name) = some found ↔ name = found :=
    Option.some_inj
  have hstr (name found : String) : Json.str? (.str name) = some found ↔ name = found :=
    Option.some_inj
  simp only [header, bind_eq_some, h.type, h.specVersion, h.version, h.expires,
    Option.some.injEq, exists_eq_left', hvariant, hstr, require_eq_some, Tuf.u32, unsigned_int]
  constructor
  · rintro ⟨n, ⟨hsmall, rfl⟩, _, htype, _, -, time, htime, _, hpos, hend⟩
    obtain ⟨rfl, rfl⟩ := Prod.mk.inj (Option.some.inj hend)
    exact ⟨htype, htime, hsmall, hpos, rfl⟩
  · rintro ⟨htype, htime, hsmall, hpos, rfl⟩
    exact ⟨_, ⟨hsmall, rfl⟩, (), htype, (), hspec, _, htime, (), hpos, rfl⟩

theorem metadataDescription_eq_some {version : Nat} {description : Tuf.MetadataDescription} :
    Tuf.metadataDescription (Core.metaFileJson version) = some description ↔
      version < Tuf.U32_END ∧ 1 ≤ version ∧ description = ⟨version, none, []⟩ := by
  have hversion : [("version", Json.int version)].lookup "version" = some (.int version) := rfl
  have hlength : [("version", Json.int version)].lookup "length" = none := rfl
  have hhashes : [("version", Json.int version)].lookup "hashes" = none := rfl
  simp only [Tuf.metadataDescription, Core.metaFileJson, bind_eq_some, fields_obj,
    exists_eq_left', hversion, hlength, hhashes, Option.some.injEq, Option.map_none,
    Option.getD_none, require_eq_some, Tuf.u32, unsigned_int]
  constructor
  · rintro ⟨n, ⟨hsmall, rfl⟩, _, hpos, hend⟩
    exact ⟨hsmall, hpos, (Option.some.inj hend).symm⟩
  · rintro ⟨hsmall, hpos, rfl⟩
    exact ⟨_, ⟨hsmall, rfl⟩, (), hpos, rfl⟩

theorem timestampMetadata_eq_some {timestamp : Tuf.TimestampMetadata}
    (h : Core.SignedAs enc md members) :
    Tuf.timestampMetadata ic (.obj members) = some timestamp ↔
      ∃ version expires, md.signed = .timestamp version ∧
        ic.parseDatetime (enc.expires md.expires) = some expires ∧
        (md.version < Tuf.U32_END ∧ 1 ≤ md.version) ∧ (version < Tuf.U32_END ∧ 1 ≤ version) ∧
        timestamp = ⟨md.version, expires, ⟨version, none, []⟩⟩ := by
  simp only [Tuf.timestampMetadata, bind_eq_some, fields_obj, exists_eq_left', Prod.exists,
    header_eq_some h, require_eq_some]
  constructor
  · rintro ⟨_, expires, ⟨htype, htime, hsmall, hpos, rfl⟩, value, hmeta, read, hread, _, -,
      json, hjson, snapshot, hsnapshot, hend⟩
    have hcontent := h.content
    cases hsigned : md.signed with
    | timestamp version =>
      rw [hsigned] at hcontent
      obtain rfl := Option.some.inj (hmeta.symm.trans hcontent)
      obtain rfl := fields_obj.mp hread
      obtain rfl := Option.some.inj hjson
      obtain ⟨hsmall', hpos', rfl⟩ := metadataDescription_eq_some.mp hsnapshot
      exact ⟨version, expires, rfl, htime, ⟨hsmall, hpos⟩, ⟨hsmall', hpos'⟩,
        (Option.some.inj hend).symm⟩
    | root | targets | snapshot =>
      rw [hsigned] at htype
      simp [Core.Signed.type, Core.ROOT, Core.TARGETS, Core.SNAPSHOT] at htype
  · rintro ⟨version, expires, hsigned, htime, ⟨hsmall, hpos⟩, ⟨hsmall', hpos'⟩, rfl⟩
    have hcontent := h.content
    rw [hsigned] at hcontent
    refine ⟨_, expires, ⟨by rw [hsigned]; rfl, htime, hsmall, hpos, rfl⟩, _, hcontent, _, rfl, (),
      by simp, _, rfl, _, metadataDescription_eq_some.mpr ⟨hsmall', hpos', rfl⟩, rfl⟩

/-- What a snapshot names, as the client reads it. -/
theorem snapshotMetadata_eq_some {snapshot : Tuf.SnapshotMetadata}
    (h : Core.SignedAs enc md members) :
    Tuf.snapshotMetadata ic (.obj members) = some snapshot ↔
      ∃ metas named expires, md.signed = .snapshot metas ∧
        (members.lookup "meta" = some named ∧
          Core.Tabulates (fun json version => json = Core.metaFileJson version) metas named) ∧
        ic.parseDatetime (enc.expires md.expires) = some expires ∧
        (md.version < Tuf.U32_END ∧ 1 ≤ md.version) ∧ snapshot.version = md.version ∧
        snapshot.expires = expires ∧
        Tuf.mapOf Tuf.metaFile Tuf.metadataDescription named = some snapshot.metas := by
  simp only [Tuf.snapshotMetadata, bind_eq_some, fields_obj, exists_eq_left', Prod.exists,
    header_eq_some h]
  constructor
  · rintro ⟨_, expires, ⟨htype, htime, hsmall, hpos, rfl⟩, value, hmeta, metas, hmetas, hend⟩
    have hcontent := h.content
    cases hsigned : md.signed with
    | snapshot table =>
      rw [hsigned] at hcontent
      obtain ⟨named, hnamed, htabulates⟩ := hcontent
      obtain rfl := Option.some.inj (hmeta.symm.trans hnamed)
      obtain rfl := Option.some.inj hend
      exact ⟨table, value, expires, rfl, ⟨hmeta, htabulates⟩, htime, ⟨hsmall, hpos⟩, rfl, rfl,
        hmetas⟩
    | root | targets | timestamp =>
      rw [hsigned] at htype
      simp [Core.Signed.type, Core.ROOT, Core.TARGETS, Core.TIMESTAMP] at htype
  · rintro ⟨metas, named, expires, hsigned, ⟨hnamed, -⟩, htime, ⟨hsmall, hpos⟩, hversion,
      hexpires, hmetas⟩
    refine ⟨_, expires, ⟨by rw [hsigned]; rfl, htime, hsmall, hpos, rfl⟩, named, hnamed,
      snapshot.metas, hmetas, ?_⟩
    rw [← hversion, ← hexpires]
    rfl

end Read

section Tables

variable {ν κ α : Type} {R : Json → ν → Prop} {table : Table String ν} {value : Json}
  {key : String → Option κ} {element : Json → Option α} {rows : List (κ × α)}

/-- What was read of an object came from the table it stands for. -/
theorem exists_of_mem_rows (h : Core.Tabulates R table value)
    (hread : Tuf.mapOf key element value = some rows) {row : κ × α} (hrow : row ∈ rows) :
    ∃ name json x, key name = some row.1 ∧ table.get name = some x ∧ R json x ∧
      element json = some row.2 := by
  obtain ⟨members, rfl, hnodup, hsame⟩ := h
  obtain ⟨name, json, hmem, hkey, helement⟩ := Tuf.exists_of_mem_mapOf hread hrow
  have hlookup : members.lookup name = some json := Table.get_of_mem hnodup hmem
  have hrel := hsame name
  rw [hlookup] at hrel
  cases htable : table.get name with
  | none => rw [htable] at hrel; cases hrel
  | some x =>
    rw [htable] at hrel
    cases hrel with
    | some hR => exact ⟨name, json, x, hkey, htable, hR, helement⟩

end Tables

/-- A version that the client reads of a snapshot is the one the repository wrote. -/
theorem version_of_named {metas : Table String Nat} {named : Json}
    {read : List (Tuf.MetadataPath × Tuf.MetadataDescription)}
    (h : Core.Tabulates (fun json version => json = Core.metaFileJson version) metas named)
    (hread : Tuf.mapOf Tuf.metaFile Tuf.metadataDescription named = some read)
    {role : Tuf.MetadataPath} {description : Tuf.MetadataDescription}
    (hrole : read.lookup role = some description) :
    metas.get (role.value ++ ".json") = some description.version := by
  obtain ⟨name, json, version, hname, hget, rfl, hdescription⟩ :=
    exists_of_mem_rows h hread (Table.mem_of_get hrole)
  obtain ⟨-, -, rfl⟩ := metadataDescription_eq_some.mp hdescription
  rw [← Tuf.metaFile_eq_some hname, hget]

end DistPlatform.Client
