import DistPlatform.Client.UpdateCheck
import DistPlatform.Core.Repository

/-!
# Names on both sides (`dist_core.naming`, `dist_client.update`)

A path is the fields of a key joined by separators. The slash can stand in no field, the dash
between platform and architecture can stand in both of its neighbours, so two keys of one
channel may render the same text.

## Main definitions

* `ChannelKey.Shifted`, `TargetKey.Shifted` — the dash is read in two places.
* `ChannelKey.client` — the channel as an application states it.
-/

namespace DistPlatform.Core

open DistPlatform

/-- Platform and architecture of one key are those of the other with the dash moved: one
platform runs on where the other key's architecture begins. -/
def ChannelKey.Shifted (c c' : ChannelKey) : Prop :=
  c.appId = c'.appId ∧ c.channel = c'.channel ∧
    ∃ m : String,
      (c.platform = c'.platform ++ "-" ++ m ∧ c'.arch = m ++ "-" ++ c.arch) ∨
        (c'.platform = c.platform ++ "-" ++ m ∧ c.arch = m ++ "-" ++ c'.arch)

def TargetKey.Shifted (k k' : TargetKey) : Prop :=
  k.channelKey.Shifted k'.channelKey ∧ k.version = k'.version ∧ k.filename = k'.filename

/-- What an application of this channel is configured with. -/
def ChannelKey.client (c : ChannelKey) : Client.Channel :=
  ⟨c.appId, c.channel, c.platform, c.arch⟩

theorem pathPrefix_client (c : ChannelKey) : c.client.pathPrefix = c.pathPrefix := rfl

theorem pointerPath_client (c : ChannelKey) : c.client.pointerPath = c.pointerPath := rfl

/-! ## Two keys with one prefix -/

namespace ChannelKey

theorem toList_pathPrefix (c : ChannelKey) (rest : List Char) :
    c.pathPrefix.toList ++ rest = c.appId.toList ++ '/' :: (c.channel.toList ++
      '/' :: ((c.platform.toList ++ '-' :: c.arch.toList) ++ '/' :: rest)) := by
  simp [pathPrefix, channelPrefix]

theorem slash_not_mem_platform_arch (c : ChannelKey) :
    '/' ∉ c.platform.toList ++ '-' :: c.arch.toList := by
  have hplatform := slash_not_mem (c.segmentsSafe c.platform (by simp))
  have harch := slash_not_mem (c.segmentsSafe c.arch (by simp))
  simp [hplatform, harch]

/-- One text for platform and architecture, read in two ways. -/
theorem platform_arch_eq_iff {c c' : ChannelKey} (happ : c.appId = c'.appId)
    (hchannel : c.channel = c'.channel) :
    c.platform.toList ++ '-' :: c.arch.toList = c'.platform.toList ++ '-' :: c'.arch.toList ↔
      c = c' ∨ c.Shifted c' := by
  have htext (a b m : String) : a = b ++ "-" ++ m ↔ a.toList = b.toList ++ '-' :: m.toList := by
    rw [← String.toList_inj]
    simp
  rw [Text.append_cons_eq_iff]
  refine or_congr ?_ ?_
  · obtain ⟨app, channel, platform, arch, _, _⟩ := c
    obtain ⟨app', channel', platform', arch', _, _⟩ := c'
    simp only [String.toList_inj, ChannelKey.mk.injEq] at happ hchannel ⊢
    simp [happ, hchannel]
  · simp only [Shifted, happ, hchannel, true_and, htext]
    constructor
    · rintro (⟨m, hp, ha⟩ | ⟨m, hp, ha⟩)
      · exact ⟨String.ofList m, .inl (by simpa using ⟨hp, ha⟩)⟩
      · exact ⟨String.ofList m, .inr (by simpa using ⟨hp, ha⟩)⟩
    · rintro ⟨m, h | h⟩
      · exact .inl ⟨m.toList, h⟩
      · exact .inr ⟨m.toList, h⟩

/-- The slashes separate: what follows two prefixes in one text is the same, and the prefixes
are those of one channel or of two that differ by the dash. -/
theorem pathPrefix_append_eq_iff {c c' : ChannelKey} {rest rest' : List Char} :
    c.pathPrefix.toList ++ rest = c'.pathPrefix.toList ++ rest' ↔
      (c = c' ∨ c.Shifted c') ∧ rest = rest' := by
  rw [toList_pathPrefix, toList_pathPrefix,
    Text.append_cons_inj (slash_not_mem (c.segmentsSafe c.appId (by simp)))
      (slash_not_mem (c'.segmentsSafe c'.appId (by simp))),
    Text.append_cons_inj (slash_not_mem_channel c.channelKnown)
      (slash_not_mem_channel c'.channelKnown),
    Text.append_cons_inj c.slash_not_mem_platform_arch c'.slash_not_mem_platform_arch]
  simp only [String.toList_inj]
  constructor
  · rintro ⟨happ, hchannel, htext, hrest⟩
    exact ⟨(platform_arch_eq_iff happ hchannel).mp htext, hrest⟩
  · rintro ⟨hsame, hrest⟩
    have hfields : c.appId = c'.appId ∧ c.channel = c'.channel := by
      rcases hsame with rfl | hshifted
      · exact ⟨rfl, rfl⟩
      · exact ⟨hshifted.1, hshifted.2.1⟩
    exact ⟨hfields.1, hfields.2, (platform_arch_eq_iff hfields.1 hfields.2).mpr hsame, hrest⟩

/-- A dash cannot be moved to where it already is: the longer platform is another text. -/
theorem Shifted.ne {c c' : ChannelKey} (h : c.Shifted c') : c ≠ c' := by
  rintro rfl
  obtain ⟨-, -, m, hm⟩ := h
  have hplatform : c.platform = c.platform ++ "-" ++ m := by
    rcases hm with hm | hm
    · exact hm.1
    · exact hm.1
  have hlength := congrArg String.length hplatform
  simp only [String.length_append, show "-".length = 1 from rfl] at hlength
  omega

theorem toList_pointerPath (c : ChannelKey) :
    c.pointerPath.toList = c.pathPrefix.toList ++ (POINTER_VERSION ++ "/" ++ POINTER_FILE).toList := by
  simp [pointerPath]

theorem pointerPath_eq_iff {c c' : ChannelKey} :
    c.pointerPath = c'.pointerPath ↔ c = c' ∨ c.Shifted c' := by
  rw [← String.toList_inj, toList_pointerPath, toList_pointerPath, pathPrefix_append_eq_iff]
  simp

theorem covers_iff {c : ChannelKey} {path : String} :
    c.covers path = true ↔ ∃ rest, c.pathPrefix.toList ++ rest = path.toList := by
  rw [covers, Text.startsWith_iff]
  exact Iff.rfl

/-- Some text lies in two channels exactly when they differ by the dash. -/
theorem eq_or_shifted_of_covers {c c' : ChannelKey} {path : String} (h : c.covers path = true)
    (h' : c'.covers path = true) : c = c' ∨ c.Shifted c' := by
  obtain ⟨rest, hrest⟩ := covers_iff.mp h
  obtain ⟨rest', hrest'⟩ := covers_iff.mp h'
  exact (pathPrefix_append_eq_iff.mp (hrest.trans hrest'.symm)).1

end ChannelKey

/-! ## Two releases with one path -/

namespace TargetKey

theorem toList_path (k : TargetKey) : k.path.toList =
    k.channelKey.pathPrefix.toList ++ (k.version.toList ++ '/' :: k.filename.toList) := by
  simp [path, ChannelKey.pathPrefix, channelKey]

theorem covers_path (k : TargetKey) : k.channelKey.covers k.path = true :=
  ChannelKey.covers_iff.mpr ⟨_, k.toList_path.symm⟩

theorem eq_iff_fields {k k' : TargetKey} :
    k = k' ↔ k.channelKey = k'.channelKey ∧ k.version = k'.version ∧ k.filename = k'.filename := by
  obtain ⟨app, channel, platform, arch, version, filename, _, _⟩ := k
  obtain ⟨app', channel', platform', arch', version', filename', _, _⟩ := k'
  simp [channelKey, and_assoc]

theorem path_eq_iff {k k' : TargetKey} : k.path = k'.path ↔ k = k' ∨ k.Shifted k' := by
  rw [← String.toList_inj, toList_path, toList_path, ChannelKey.pathPrefix_append_eq_iff,
    Text.append_cons_inj (slash_not_mem (k.segmentsSafe k.version (by simp)))
      (slash_not_mem (k'.segmentsSafe k'.version (by simp))), eq_iff_fields, Shifted]
  simp only [String.toList_inj, or_and_right]

theorem Shifted.ne {k k' : TargetKey} (h : k.Shifted k') : k ≠ k' :=
  fun heq => h.1.ne (congrArg channelKey heq)

/-- The pointer's version segment begins with a character no version begins with. -/
theorem path_ne_pointerPath (k : TargetKey) (c : ChannelKey) : k.path ≠ c.pointerPath := by
  have hversion : segmentMatches k.version = true := k.segmentsSafe k.version (by simp)
  intro heq
  have htext := congrArg String.toList heq
  have hpointer : (POINTER_VERSION ++ "/" ++ POINTER_FILE).toList =
      POINTER_VERSION.toList ++ '/' :: POINTER_FILE.toList := by simp
  rw [toList_path, ChannelKey.toList_pointerPath, ChannelKey.pathPrefix_append_eq_iff, hpointer,
    Text.append_cons_inj (slash_not_mem hversion) (by decide)] at htext
  rw [String.toList_inj.mp htext.2.1] at hversion
  exact absurd hversion (by decide)

end TargetKey

/-! ## What distinct names are for -/

/-- Listing one release in its role leaves the entry of the other as it was. -/
def KeepsEntry (k k' : TargetKey) : Prop :=
  ∀ (targets : Table String TargetFile) (file : TargetFile),
    (targets.put k.path file).get k'.path = targets.get k'.path

theorem keepsEntry_of_path_ne {k k' : TargetKey} (h : k.path ≠ k'.path) : KeepsEntry k k' := by
  intro targets file
  rw [Table.get_put, if_neg h.symm]

/-- No update check of an application of channel `c` offers the release `k`. -/
def NeverOffered (k : TargetKey) (c : ChannelKey) : Prop :=
  ∀ (ports : Client.Ports) (updates : Client.Updates) (installId : String) (root : Client.Bytes)
    (clock : Client.Clock) (systemTime : Int) (available : Client.Available),
    Client.run ports updates installId c.client root clock systemTime = .ok (some available) →
      available.targetPath ≠ k.path

theorem neverOffered_of_not_covers {k : TargetKey} {c : ChannelKey} (h : c.covers k.path = false) :
    NeverOffered k c := by
  intro ports updates installId root clock systemTime available hrun hpath
  obtain ⟨verifier, -, hresolve⟩ := Client.run_eq_some hrun
  have hstarts := (Client.resolveRelease_eq_some.mp (Client.resolve_eq_some hresolve)).1
  rw [pathPrefix_client, hpath] at hstarts
  exact absurd hstarts (by simpa [ChannelKey.covers] using h)

/-- Two releases have names of their own: one path each, and one entry each. -/
def TargetKey.Separate (k k' : TargetKey) : Prop := k.path ≠ k'.path ∧ KeepsEntry k k'

/-- Two channels have names of their own: one pointer each, no target in both, and the releases
of one are not offered on the other. -/
def ChannelKey.Separate (c c' : ChannelKey) : Prop :=
  c.pointerPath ≠ c'.pointerPath ∧
    (∀ path, ¬ (c.covers path = true ∧ c'.covers path = true)) ∧
    ∀ k : TargetKey, k.channelKey = c' → NeverOffered k c

theorem TargetKey.separate_iff {k k' : TargetKey} :
    (k ≠ k' → k.Separate k') ↔ ¬ k.Shifted k' := by
  constructor
  · intro h hshifted
    exact (h hshifted.ne).1 (path_eq_iff.mpr (.inr hshifted))
  · intro h hne
    have hpath : k.path ≠ k'.path := by
      intro heq
      exact (path_eq_iff.mp heq).elim hne h
    exact ⟨hpath, keepsEntry_of_path_ne hpath⟩

theorem ChannelKey.separate_iff {c c' : ChannelKey} :
    (c ≠ c' → c.Separate c') ↔ ¬ c.Shifted c' := by
  constructor
  · intro h hshifted
    exact (h hshifted.ne).1 (pointerPath_eq_iff.mpr (.inr hshifted))
  · intro h hne
    have hcovers : ∀ path, ¬ (c.covers path = true ∧ c'.covers path = true) := by
      intro path hboth
      exact (eq_or_shifted_of_covers hboth.1 hboth.2).elim hne h
    refine ⟨fun heq => (pointerPath_eq_iff.mp heq).elim hne h, hcovers, ?_⟩
    rintro k rfl
    refine neverOffered_of_not_covers (Bool.eq_false_iff.mpr fun hk => ?_)
    exact hcovers k.path ⟨hk, k.covers_path⟩

/-! ## The names are distinct unless the dash moves -/

/-- Distinct keys have distinct names exactly where no dash can be moved between platform and
architecture; a release and a pointer never share one. -/
theorem naming_injective_iff (k k' : TargetKey) (c c' : ChannelKey) :
    ((k ≠ k' → k.Separate k') ↔ ¬ k.Shifted k') ∧
      ((c ≠ c' → c.Separate c') ↔ ¬ c.Shifted c') ∧ k.path ≠ c.pointerPath :=
  ⟨TargetKey.separate_iff, ChannelKey.separate_iff, TargetKey.path_ne_pointerPath k c⟩

/-- A release of the editor for `platform` and `arch`. -/
def editorFor (platform arch : String) (hp : segmentMatches platform = true)
    (ha : segmentMatches arch = true) : TargetKey where
  appId := "editor"
  channel := "stable"
  platform
  arch
  version := "1.0"
  filename := "editor.zip"
  channelKnown := stable_known
  segmentsSafe := by
    intro v hv
    simp only [List.mem_cons, List.not_mem_nil, or_false] at hv
    rcases hv with rfl | rfl | rfl | rfl | rfl
    · decide
    · exact hp
    · exact ha
    · decide
    · decide

/-- The build for `musl-x64` on `linux` overwrites the one for `x64` on `linux-musl`. -/
theorem naming_not_injective :
    editorFor "linux" "musl-x64" (by decide) (by decide) ≠
        editorFor "linux-musl" "x64" (by decide) (by decide) ∧
      (editorFor "linux" "musl-x64" (by decide) (by decide)).path =
        (editorFor "linux-musl" "x64" (by decide) (by decide)).path ∧
      (editorFor "linux" "musl-x64" (by decide) (by decide)).channelKey.covers
        (editorFor "linux-musl" "x64" (by decide) (by decide)).path = true := by
  decide

end DistPlatform.Core
