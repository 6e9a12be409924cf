import DistPlatform.Client.Reading
import DistPlatform.Client.Replay
import DistPlatform.Core.Catalogue

/-!
# A published repository is accepted

Everything the instances of one application leave on disk passes through the four updates of a
check: the root with which the application was built, and below it the last file of each role, as
long as none has expired.

## Main definitions

* `Mirrors` — the mirror has what is on disk.
* `Valid` — the last file of a role is one that the client still takes.
* `Loaded` — a verifier that has accepted the last files.
-/

namespace DistPlatform.Client

open DistPlatform
open DistPlatform.Tuf (Interchange KeyId MetadataPath PublicKey RootMetadata TargetsMetadata Time
  Database)
open DistPlatform.Core (Serving Seen lastOf)

/-- The roles of the platform and the role of the application. -/
def rolesOf (role : String) : List String :=
  [Core.ROOT, Core.TIMESTAMP, Core.SNAPSHOT, Core.TARGETS, role]

/-- The mirror has the last file of each role and every payload, and the application was built
with the first root. -/
structure Mirrors (ic : Interchange) (enc : Core.Encoding) (backend : Core.SignerBackend)
    (role : String) (dir : Core.Directory Bytes) (ports : Ports) (root : Bytes) : Prop where
  metadata : ∀ name ∈ rolesOf role, ∀ md, lastOf name dir.log = some md →
    ∃ raw members, ports.fetch (Core.filename name md.version) = .ok raw ∧
      Published ic enc backend raw md members
  payloads : ∀ path payload, dir.payloads.get path = some payload →
    ports.fetch ("targets/" ++ path) = .ok payload
  root : ports.fetch "1.root.json" = .ok root

/-- The last file of the role is one that the client still takes. -/
def Valid (ic : Interchange) (enc : Core.Encoding) (log : Core.Writes) (now : Time)
    (role : String) : Prop :=
  ∀ md, lastOf role log = some md → md.version < Tuf.U32_END ∧
    ∃ expires, ic.parseDatetime (enc.expires md.expires) = some expires ∧ now < expires

/-- The paths and files of the application, each one that the client can read. -/
def AllLegible (listing : Table String Core.TargetFile) : Prop :=
  ∀ path file, listing.get path = some file → Legible path file

/-- A verifier that answers for one application with what its role lists. -/
structure Loaded (appId : String) (listing : Table String Core.TargetFile) (now : Time)
    (db : Database) : Prop where
  top : ∃ top, Database.Fresh db now top ∧ HasAppDelegations top [appId] ∧ top.targets = []
  leaf : ∃ leaf, db.trustedDelegations.lookup (appRole appId) = some leaf ∧
    now < leaf.expires ∧ leaf.delegations = none ∧
    ∀ path read, Tuf.TargetPath.new path = .ok read →
      Option.Rel ReadAs (leaf.targets.lookup read) (listing.get path)

/-- What lies between the instances of one application and a check of it at the time `now`. -/
structure Route (ic : Interchange) (enc : Core.Encoding) (backend : Core.SignerBackend)
    (out : Core.Outside Bytes) (appId role : String) (d : Core.Catalogue Bytes) (ports : Ports)
    (root : Bytes) (now : Time) : Prop where
  serving : Serving out backend appId role d
  named : Core.appRoleName appId = .ok role
  seen : Seen role
  keys : Keys ic enc backend
  distinct : backend.Distinct
  mirrors : Mirrors ic enc backend role d.session.dir ports root
  valid : ∀ name ∈ rolesOf role, Valid ic enc d.session.dir.log now name

/-! ## Names of roles -/

section Names

variable {appId role : String}

theorem safePiece_appId (hid : Core.appIdMatches appId = true) (hseen : Seen appId) :
    SafePiece appId.toList := by
  have hbody : Core.appIdBody appId.toList = true := by
    obtain hwhole | ⟨body, hvalue, -⟩ := Text.endsAnchored_iff.mp hid
    · exact hwhole
    · exact absurd (hvalue ▸ List.mem_append_right body List.mem_cons_self) hseen
  have hrest : ∀ c, Core.appIdRest c = true → Core.segmentRest c = true := by
    intro c hc
    simp only [Core.appIdRest, Core.appIdFirst, Bool.or_eq_true] at hc
    simp only [Core.segmentRest, Core.segmentFirst, Bool.or_eq_true]
    tauto
  refine ⟨?_, fun c hc => hrest c (Core.appIdBody_chars hbody c hc), ?_, ?_⟩ <;>
    · intro heq
      rw [heq] at hbody
      exact absurd hbody (by decide)

theorem safePiece_role (hrole : Core.appRoleName appId = .ok role) (hseen : Seen role) :
    SafePiece role.toList := by
  obtain ⟨hid, hname⟩ := Core.appRoleName_eq_ok.mp hrole
  have happ := safePiece_appId hid ((Core.seen_of_appId hrole).mp hseen)
  have hchars : role.toList = 'a' :: 'p' :: 'p' :: '-' :: appId.toList := by
    rw [hname, String.toList_append]
    rfl
  have hprefix : ∀ c ∈ "app-".toList, Core.segmentRest c = true := by decide
  rw [hchars]
  refine ⟨List.cons_ne_nil _ _, fun c hc => ?_, by simp, by simp⟩
  obtain hc | hc := List.mem_append.mp (show c ∈ "app-".toList ++ appId.toList from hc)
  · exact hprefix c hc
  · exact happ.2.1 c hc

end Names

section Accepting

variable {ic : Interchange} {enc : Core.Encoding} {backend : Core.SignerBackend}
  {out : Core.Outside Bytes} {appId role : String} {d : Core.Catalogue Bytes} {ports : Ports}
  {root : Bytes} {clock : Clock} {systemTime : Int} {now : Time}

/-! ## One file -/

/-- The last file of a role, as the client gets it. -/
structure Arrives (ic : Interchange) (enc : Core.Encoding) (backend : Core.SignerBackend)
    (now : Time) (role : String) (md : Core.Metadata) (raw : Bytes)
    (members : List (String × Json)) (expires : Time) : Prop where
  published : Published ic enc backend raw md members
  signatures : md.signatures = backend.keyids role
  header : Header ic enc md expires
  unexpired : now < expires

/-- The top-level targets, as the client reads them: they delegate to the application alone. -/
structure Delegates (ic : Interchange) (enc : Core.Encoding) (backend : Core.SignerBackend)
    (appId role : String) (top : TargetsMetadata) (delegations : Tuf.Delegations) : Prop where
  targets : top.targets = []
  delegating : top.delegations = some delegations
  roles : delegations.roles =
    [⟨⟨role⟩, false, 1, backend.keyids role, [⟨Core.appPathPattern appId⟩]⟩]
  own : Own ic enc backend delegations.keys
  listed : ∀ keyid ∈ backend.keyids role, ∃ key, (keyid, key) ∈ delegations.keys

namespace Route

variable (h : Route ic enc backend out appId role d ports root now)

include h

theorem recorded : Core.Recorded d.session.dir := h.serving.informed.recorded

theorem arrives {name : String} (hseen : Seen name) (hname : name ∈ rolesOf role)
    {md : Core.Metadata} (hlast : lastOf name d.session.dir.log = some md) :
    ∃ raw members expires, ports.fetch (Core.filename name md.version) = .ok raw ∧
      Arrives ic enc backend now name md raw members expires := by
  obtain ⟨raw, members, hfetch, hpublished⟩ := h.mirrors.metadata name hname md hlast
  obtain ⟨hsmall, expires, hexpires, hnow⟩ := h.valid name hname md hlast
  obtain ⟨_, _, hrooted, -⟩ := h.serving.root
  have hpos := Core.lastVersion_pos_of_seen h.recorded.entered hseen hlast
  exact ⟨raw, members, expires, hfetch,
    ⟨hpublished, hrooted.signatures name md hlast, ⟨hexpires, hsmall, hpos⟩, hnow⟩⟩

/-- A platform role has the keys that its threshold asks for. -/
theorem usable {row : String × Core.RolePolicy} (hrow : row ∈ Core.TOP_LEVEL_POLICIES) :
    Usable (backend.keyids row.1) row.2.threshold := by
  have hbounds : ∀ row ∈ Core.TOP_LEVEL_POLICIES,
      1 ≤ row.2.threshold ∧ row.2.threshold < Tuf.U32_END := by
    decide
  exact usable_of_keys h.keys h.distinct (hbounds row hrow).1 (h.serving.keyed row hrow)
    (hbounds row hrow).2

/-! ## The files of the platform -/

/-- The root that the application was built with is the last one, and is accepted. -/
theorem bootstrap (clock : Clock) :
    ∃ read expires, bootstrap (tufUpdates ic) root clock =
        .ok ⟨⟨read, none, none, none, []⟩, clock⟩ ∧
      RootReads ic enc backend 1 expires read ∧ now < expires := by
  obtain ⟨md, content, hrooted, hsigned, hlists, hversion⟩ := h.serving.root
  obtain ⟨raw, members, expires, hfetch, harrives⟩ :=
    h.arrives (show Seen Core.ROOT by decide) (by simp [rolesOf]) hrooted.root
  obtain rfl : raw = root := by
    rw [hversion] at hfetch
    exact Except.ok.inj (hfetch.symm.trans h.mirrors.root)
  obtain ⟨read, hread, hreads⟩ := rootMetadata_of_signedAs harrives.published.signedAs h.keys
    h.distinct h.serving.keyed hsigned hlists harrives.header
  rw [hversion] at hreads
  refine ⟨read, expires, ?_, hreads, harrives.unexpired⟩
  have hrole : (Core.ROOT, Core.ROOT_POLICY) ∈ Core.TOP_LEVEL_POLICIES := by decide
  have hverified : Tuf.verifySignatures ic (Tuf.rootMetadata ic) .root raw 3
      (Tuf.authorizedKeys read.keys (backend.keyids Core.ROOT)) = .ok read :=
    harrives.published.verified hreads.own harrives.signatures (hreads.listed _ hrole)
      (h.usable hrole) hread
  obtain ⟨signatures, bytes, hdocument, -⟩ := harrives.published.signatures
  have htrusted : Database.fromTrustedRoot ic raw = .ok ⟨read, none, none, none, []⟩ := by
    unfold Database.fromTrustedRoot
    simp only [hdocument, Option.bind_some, hread, hreads.root, hverified, Fallible.bind_ok]
    rfl
  simp only [Client.bootstrap, tufUpdates, htrusted]
  rfl

/-- Whatever the last snapshot names, the client can read. -/
theorem named_readable {metas : Table String Nat} (hnames : Core.Names d.session.dir.log metas)
    {file : String} {version : Nat} (hget : metas.get file = some version) :
    ∃ name, file = name ++ ".json" ∧ Tuf.metadataPath name = some ⟨name⟩ ∧
      version < Tuf.U32_END ∧ 1 ≤ version := by
  obtain ⟨name, rfl, hname, hlast⟩ := hnames.only file version hget
  have hbounds (hseen : Seen name) (hmem : name ∈ rolesOf role) :
      version < Tuf.U32_END ∧ 1 ≤ version := by
    obtain ⟨md, hmd, rfl⟩ := hlast hseen
    exact ⟨(h.valid name hmem md hmd).1,
      Core.lastVersion_pos_of_seen h.recorded.entered hseen hmd⟩
  obtain rfl | hname := hname
  · exact ⟨_, rfl, rfl, hbounds (by decide) (by simp [rolesOf])⟩
  · rw [h.serving.delegated, List.mem_singleton] at hname
    subst hname
    exact ⟨_, rfl, metadataPath_of_safePiece (safePiece_role h.named h.seen),
      hbounds h.seen (by simp [rolesOf])⟩

variable {read : RootMetadata} {rootExpires : Time}
  (hreads : RootReads ic enc backend 1 rootExpires read)

include hreads

/-- A file of a platform role passes for the keys that the root lists. -/
theorem verified {row : String × Core.RolePolicy} (hrow : row ∈ Core.TOP_LEVEL_POLICIES)
    {md : Core.Metadata} {raw : Bytes} {members : List (String × Json)} {expires : Time}
    (harrives : Arrives ic enc backend now row.1 md raw members expires) {M : Type}
    {deserialize : Json → Option M} {metadata : M}
    (hread : deserialize (.obj members) = some metadata) (path : MetadataPath) :
    Tuf.verifySignatures ic deserialize path raw row.2.threshold
      (Tuf.authorizedKeys read.keys (backend.keyids row.1)) = .ok metadata :=
  harrives.published.verified hreads.own harrives.signatures (hreads.listed row hrow)
    (h.usable hrow) hread

theorem timestamp {snapshot : Core.Metadata} {md : Core.Metadata}
    (hlast : lastOf Core.TIMESTAMP d.session.dir.log = some md)
    (hsigned : md.signed = .timestamp snapshot.version)
    (hsnapshot : snapshot.version < Tuf.U32_END ∧ 1 ≤ snapshot.version) :
    ∃ raw timestamp, ports.fetch "timestamp.json" = .ok raw ∧
      Database.updateTimestamp ic now ⟨read, none, none, none, []⟩ raw =
        .ok ⟨read, none, none, some timestamp, []⟩ ∧
      timestamp.snapshot.version = snapshot.version ∧ now < timestamp.expires := by
  obtain ⟨raw, members, expires, hfetch, harrives⟩ :=
    h.arrives (show Seen Core.TIMESTAMP by decide) (by simp [rolesOf]) hlast
  have hread := (timestampMetadata_eq_some harrives.published.signedAs).mpr ⟨snapshot.version,
    expires, hsigned, harrives.header.expires, ⟨harrives.header.small, harrives.header.pos⟩,
    hsnapshot, rfl⟩
  have hverified := h.verified hreads
    (show (Core.TIMESTAMP, Core.TIMESTAMP_POLICY) ∈ Core.TOP_LEVEL_POLICIES by decide) harrives
    hread .timestamp
  refine ⟨raw, ⟨md.version, expires, ⟨snapshot.version, none, []⟩⟩, hfetch,
    Database.updateTimestamp_eq_ok.mpr ⟨_, ?_, harrives.unexpired, rfl⟩, rfl, harrives.unexpired⟩
  rw [hreads.timestamp]
  exact hverified

theorem snapshot {md : Core.Metadata} (hlast : lastOf Core.SNAPSHOT d.session.dir.log = some md)
    (hnames : Core.Names d.session.dir.log md.signed.metas) (hroot : now < rootExpires)
    {timestamp : Tuf.TimestampMetadata} (htimestamp : now < timestamp.expires)
    (hversion : timestamp.snapshot.version = md.version) :
    ∃ raw snapshot, ports.fetch (Core.filename Core.SNAPSHOT md.version) = .ok raw ∧
      Database.updateSnapshot ic now ⟨read, none, none, some timestamp, []⟩ raw =
        .ok ⟨read, some snapshot, none, some timestamp, []⟩ ∧ now < snapshot.expires ∧
      ∀ name, Tuf.metadataPath name = some ⟨name⟩ →
        (snapshot.metas.lookup ⟨name⟩).map (·.version) = md.signed.metas.get (name ++ ".json") := by
  obtain ⟨raw, members, expires, hfetch, harrives⟩ :=
    h.arrives (show Seen Core.SNAPSHOT by decide) (by simp [rolesOf]) hlast
  obtain ⟨older, hadmissible⟩ := Core.Admissible.of_lastOf h.recorded.entered hlast
  obtain ⟨metas, hsigned⟩ := Core.snapshot_of_fits hadmissible.fits
  rw [hsigned] at hnames
  obtain ⟨snapshot, hread, hsame, hexpires, hlookup⟩ := snapshotMetadata_of_signedAs
    harrives.published.signedAs hsigned (fun _ _ hget => h.named_readable hnames hget)
    harrives.header
  have hverified := h.verified hreads
    (show (Core.SNAPSHOT, Core.SNAPSHOT_POLICY) ∈ Core.TOP_LEVEL_POLICIES by decide) harrives
    hread .snapshot
  refine ⟨raw, snapshot, hfetch, Database.updateSnapshot_eq_ok.mpr ⟨?_, htimestamp, snapshot, ?_,
    hsame.trans hversion.symm, rfl⟩, hexpires ▸ harrives.unexpired, ?_⟩
  · rwa [hreads.expires]
  · rw [hreads.snapshot]
    exact hverified
  · rw [hsigned]
    exact hlookup

/-! ## The application -/

omit hreads in
theorem usable_app : Usable (backend.keyids role) 1 :=
  usable_of_keys h.keys h.distinct (Nat.le_refl 1)
    (List.length_pos_iff.mpr h.serving.appKeyed) (by decide)

theorem targets {md : Core.Metadata} (hlast : lastOf Core.TARGETS d.session.dir.log = some md)
    (hroot : now < rootExpires) {snapshot : Tuf.SnapshotMetadata}
    (timestamp : Tuf.TimestampMetadata) (hsnapshot : now < snapshot.expires)
    (hversion : (snapshot.metas.lookup .targets).map (·.version) = some md.version) :
    ∃ raw top delegations, ports.fetch (Core.filename Core.TARGETS md.version) = .ok raw ∧
      Database.updateTargets ic now ⟨read, some snapshot, none, some timestamp, []⟩ raw =
        .ok ⟨read, some snapshot, some top, some timestamp, []⟩ ∧ now < top.expires ∧
      Delegates ic enc backend appId role top delegations := by
  obtain ⟨raw, members, expires, hfetch, harrives⟩ :=
    h.arrives (show Seen Core.TARGETS by decide) (by simp [rolesOf]) hlast
  obtain ⟨written, hheld, hroles, hkeys⟩ := h.serving.top
  have hsigned : md.signed = .targets ⟨[], some written⟩ := by
    rw [Core.held, hlast] at hheld
    exact Option.some.inj hheld
  have hid := (Core.appRoleName_eq_ok.mp h.named).1
  have hpattern := newPattern_eq_ok
    (safePiece_appId hid ((Core.seen_of_appId h.named).mp h.seen))
  obtain ⟨delegations, hread, hdelegated, hown, hlisted⟩ := targetsMetadata_of_top
    harrives.published.signedAs hsigned hroles h.keys h.usable_app
    (fun keyid key hget => by
      rw [hkeys] at hget
      split at hget
      next hmem => exact ⟨(Option.some.inj hget).symm, role, hmem⟩
      · cases hget)
    (fun keyid hmem => by rw [hkeys, if_pos hmem]; rfl)
    (metadataPath_of_safePiece (safePiece_role h.named h.seen)) hpattern harrives.header
  have hverified := h.verified hreads
    (show (Core.TARGETS, Core.TARGETS_POLICY) ∈ Core.TOP_LEVEL_POLICIES by decide) harrives
    hread .targets
  obtain ⟨description, hdescription, hnamed⟩ := Option.map_eq_some_iff.mp hversion
  refine ⟨raw, ⟨md.version, expires, [], some delegations⟩, delegations, hfetch,
    Database.updateTargets_eq_ok.mpr ⟨?_, hsnapshot, description, _, hdescription, ?_,
      hnamed.symm, harrives.unexpired, rfl⟩, harrives.unexpired,
    ⟨rfl, rfl, hdelegated, hown, hlisted⟩⟩
  · rwa [hreads.expires]
  · rw [hreads.targets]
    exact hverified

omit hreads in
theorem delegated {listing : Table String Core.TargetFile}
    (hheld : Core.held d.session.dir role = some (.targets ⟨listing, none⟩))
    (hlegible : AllLegible listing) {md : Core.Metadata}
    (hlast : lastOf role d.session.dir.log = some md) (hroot : now < read.expires)
    {snapshot : Tuf.SnapshotMetadata} (timestamp : Tuf.TimestampMetadata)
    (hsnapshot : now < snapshot.expires)
    (hversion : (snapshot.metas.lookup ⟨role⟩).map (·.version) = some md.version)
    {top : TargetsMetadata} {delegations : Tuf.Delegations} (htop : now < top.expires)
    (hdelegates : Delegates ic enc backend appId role top delegations) :
    ∃ raw leaf, ports.fetch (Core.filename role md.version) = .ok raw ∧
      Database.updateDelegatedTargets ic now
          ⟨read, some snapshot, some top, some timestamp, []⟩ ⟨role⟩ raw =
        .ok ⟨read, some snapshot, some top, some timestamp, [(⟨role⟩, leaf)]⟩ ∧
      now < leaf.expires ∧ leaf.delegations = none ∧
      ∀ path tufPath, Tuf.TargetPath.new path = .ok tufPath →
        Option.Rel ReadAs (leaf.targets.lookup tufPath) (listing.get path) := by
  obtain ⟨raw, members, expires, hfetch, harrives⟩ :=
    h.arrives h.seen (by simp [rolesOf]) hlast
  have hsigned : md.signed = .targets ⟨listing, none⟩ := by
    rw [Core.held, hlast] at hheld
    exact Option.some.inj hheld
  obtain ⟨rows, hread, hlookup⟩ :=
    targetsMetadata_of_leaf harrives.published.signedAs hsigned hlegible harrives.header
  have hfind : Database.findDelegation top ⟨role⟩ =
      some (1, Tuf.authorizedKeys delegations.keys (backend.keyids role)) := by
    simp [Database.findDelegation, hdelegates.delegating, hdelegates.roles]
  have hverified : Tuf.verifySignatures ic (Tuf.targetsMetadata ic) ⟨role⟩ raw 1
      (Tuf.authorizedKeys delegations.keys (backend.keyids role)) =
        .ok ⟨md.version, expires, rows, none⟩ :=
    harrives.published.verified hdelegates.own harrives.signatures hdelegates.listed h.usable_app
      hread
  obtain ⟨description, hdescription, hnamed⟩ := Option.map_eq_some_iff.mp hversion
  exact ⟨raw, ⟨md.version, expires, rows, none⟩, hfetch,
    Database.updateDelegatedTargets_eq_ok.mpr ⟨hroot, hsnapshot, htop, _, _, description, _, hfind,
      hdescription, hverified, hnamed.symm, harrives.unexpired, rfl⟩, harrives.unexpired, rfl,
    hlookup⟩

end Route

/-! ## The whole pass -/

/-- The names that a check asks for are those under which the files are stored. -/
theorem filename_of_suffix {name suffix : String} (hne : name ≠ Core.TIMESTAMP)
    (hsuffix : "." ++ name ++ ".json" = suffix) (version : Nat) :
    Core.filename name version = toString version ++ suffix := by
  rw [Core.filename, if_neg hne, ← hsuffix]
  simp only [String.append_assoc]

/-- An accepted update is fed. -/
theorem feed_of_update {db db' : Database} {role : Role} {raw : Bytes}
    {update : Time → Database → Bytes → Except VerifyError Database}
    {result : Except Tuf.UpdateError Database}
    (hnow : (TufVerifier.mk db clock).now systemTime = .ok now)
    (hupdate : update now db raw = rejected role result) (hresult : result = .ok db') :
    feed ⟨db, clock⟩ systemTime update raw = .ok ⟨db', clock⟩ :=
  feed_eq_ok.mpr ⟨now, db', hnow, hupdate.trans (rejected_eq_ok.mpr hresult), rfl⟩

/-- The check gets through its four updates, and its verifier answers for the application. -/
theorem Route.accepts (h : Route ic enc backend out appId role d ports root now)
    {listing : Table String Core.TargetFile}
    (hheld : Core.held d.session.dir role = some (.targets ⟨listing, none⟩))
    (hlegible : AllLegible listing) {channel : Channel} (hchannel : channel.role = role)
    (hnow : ∀ db, (TufVerifier.mk db clock).now systemTime = .ok now) :
    ∃ db, acceptMetadata ports (tufUpdates ic) channel root clock systemTime =
      .ok (some ⟨db, clock⟩) ∧ Loaded appId listing now db := by
  obtain ⟨tmd, smd, htimestamp, hsnapshot, hsigned, hnames⟩ := h.serving.announced
  obtain ⟨delegations, hheldTop, -⟩ := h.serving.top
  obtain ⟨gmd, htop, -⟩ := Option.map_eq_some_iff.mp hheldTop
  obtain ⟨lmd, hleaf, -⟩ := Option.map_eq_some_iff.mp hheld
  have hentered := h.recorded.entered
  have hseen : Seen Core.SNAPSHOT ∧ Seen Core.TARGETS := by decide
  have hsafe := safePiece_role h.named h.seen
  have hpath := metadataPath_of_safePiece hsafe
  have hnul : Utf8.NUL ∉ role.toList := fun hc => absurd (hsafe.2.1 _ hc) (by decide)
  have hne : role ≠ Core.TIMESTAMP := (show Core.AppRole role from ⟨appId, h.named⟩).ne (by decide)
  have hrole : MetadataPath.mk role = appRole appId := by
    rw [(Core.appRoleName_eq_ok.mp h.named).2]
    rfl
  -- the files, from the root down
  obtain ⟨read, expires, hboot, hreads, hroot⟩ := h.bootstrap clock
  obtain ⟨raw₁, t, hraw₁, hfed₁, hnamed, ht⟩ := h.timestamp hreads htimestamp hsigned
    ⟨(h.valid _ (by simp [rolesOf]) smd hsnapshot).1,
      Core.lastVersion_pos_of_seen hentered hseen.1 hsnapshot⟩
  obtain ⟨raw₂, s, hraw₂, hfed₂, hs, hmetas⟩ :=
    h.snapshot hreads hsnapshot hnames hroot ht hnamed
  have htargets : (s.metas.lookup .targets).map (·.version) = some gmd.version := by
    rw [← hnames.all Core.TARGETS hseen.2 (.inl rfl) gmd htop]
    exact hmetas Core.TARGETS rfl
  have hdelegated : (s.metas.lookup ⟨role⟩).map (·.version) = some lmd.version := by
    rw [← hnames.all role h.seen (.inr (by simp [h.serving.delegated])) lmd hleaf]
    exact hmetas role hpath
  obtain ⟨raw₃, top, listed, hraw₃, hfed₃, hg, hdelegates⟩ :=
    h.targets hreads htop hroot t hs htargets
  obtain ⟨raw₄, leaf, hraw₄, hfed₄, hl, hflat, hlookup⟩ := h.delegated hheld hlegible hleaf
    (hreads.expires.symm ▸ hroot) t hs hdelegated hg hdelegates
  refine ⟨⟨read, some s, some top, some t, [(⟨role⟩, leaf)]⟩, ?_,
    ⟨⟨top, ⟨hreads.expires.symm ▸ hroot, ⟨s, rfl, hs⟩, rfl, hg⟩, ?_, hdelegates.targets⟩,
      ⟨leaf, ?_, hl, hflat, hlookup⟩⟩⟩
  · have hnew : MetadataPath.new (cString role) = .ok ⟨role⟩ := by
      rw [cString_eq_self_iff.mpr hnul]
      exact Core.eq_ok_of_toOption hpath
    have hupdate : delegatedUpdate (tufUpdates ic) role now
        ⟨read, some s, some top, some t, []⟩ raw₄ = rejected .Delegated
          (Database.updateDelegatedTargets ic now ⟨read, some s, some top, some t, []⟩ ⟨role⟩
            raw₄) := by
      simp only [delegatedUpdate, hnew]
      rfl
    have hnamedRole : targetsVersion ⟨⟨read, some s, some top, some t, []⟩, clock⟩ role =
        some lmd.version := by
      simp only [targetsVersion, hnew]
      exact hdelegated
    rw [filename_of_suffix (by decide) (show "." ++ Core.SNAPSHOT ++ ".json" =
      ".snapshot.json" by decide), ← hnamed] at hraw₂
    rw [filename_of_suffix (by decide) (show "." ++ Core.TARGETS ++ ".json" =
      ".targets.json" by decide)] at hraw₃
    rw [Core.filename, if_neg hne] at hraw₄
    subst hchannel
    exact acceptMetadata_eq_some.mpr ⟨_, raw₁, _, _, raw₂, _, _, raw₃, _, _, raw₄, hboot, hraw₁,
      feed_of_update (hnow _) rfl hfed₁, rfl, hraw₂, feed_of_update (hnow _) rfl hfed₂, htargets,
      hraw₃, feed_of_update (hnow _) rfl hfed₃, hnamedRole, hraw₄,
      feed_of_update (hnow _) hupdate hfed₄⟩
  · rw [HasAppDelegations, hdelegates.delegating]
    simp only [hdelegates.roles]
    exact .cons ⟨h.named, rfl, rfl⟩ .nil
  · rw [← hrole, List.lookup_cons, beq_self_eq_true]

end Accepting

end DistPlatform.Client
