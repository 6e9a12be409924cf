import DistPlatform.Client.Isolation
import DistPlatform.Client.Naming

/-!
# What the client accepts of the server's names

Three validators read a name: the server's segment pattern, the client's `TargetPath::parse`
and the path check of the TUF library. They agree on every name the server renders, the line
feed apart that the server's `$` lets stand at the end of a field.

## Main definitions

* `SafePiece` — one segment as the client wants it.
* `ClientAcceptable` — a path that every check of the client lets through, under the
  delegation of its application and of no other.
-/

namespace DistPlatform.Client

open DistPlatform DistPlatform.Core

/-- One path segment: not empty, from the narrow alphabet, no dot segment. -/
def SafePiece (s : List Char) : Prop :=
  s ≠ [] ∧ (∀ c ∈ s, segmentRest c = true) ∧ s ≠ ['.'] ∧ s ≠ ['.', '.']

instance (s : List Char) : Decidable (SafePiece s) := by
  unfold SafePiece
  infer_instance

/-- The path is one the client works with, for the application `appId`. -/
structure ClientAcceptable (appId path : String) : Prop where
  fiveSegments : (Text.segments path).length = 5
  safeSegments : ∀ s ∈ Text.segments path, SafePiece s
  parsed : ∃ parsed, TargetPath.parse path = .ok parsed ∧ parsed.asStr = path
  tufPath : Tuf.TargetPath.new path = .ok ⟨path⟩
  pattern : Tuf.TargetPath.newPattern (appPathPattern appId) = .ok ⟨appPathPattern appId⟩
  covered : Tuf.TargetPath.matchesPattern ⟨path⟩ ⟨appPathPattern appId⟩ = true
  alone : ∀ other role, appRoleName other = .ok role → other ≠ appId →
    Tuf.TargetPath.matchesPattern ⟨path⟩ ⟨appPathPattern other⟩ = false

/-! ## One segment -/

theorem SafePiece.slash_not_mem {s : List Char} (h : SafePiece s) : '/' ∉ s :=
  fun hc => absurd (h.2.1 _ hc) (by decide)

/-- A segment that begins with a letter or a digit is no dot segment. -/
theorem safePiece_of_body {s : List Char} (h : segmentBody s = true) : SafePiece s := by
  refine ⟨?_, segmentBody_chars h, ?_, ?_⟩ <;> rintro rfl <;> exact absurd h (by decide)

/-- A field of a key is a safe segment unless it ends in a line feed. -/
theorem segmentBody_iff {value : String} (h : segmentMatches value = true) :
    segmentBody value.toList = true ↔ '\n' ∉ value.toList := by
  constructor
  · intro hbody hc
    exact absurd (segmentBody_chars hbody _ hc) (by decide)
  · intro hline
    obtain hwhole | ⟨body, hvalue, -⟩ := Text.endsAnchored_iff.mp h
    · exact hwhole
    · rw [hvalue] at hline
      exact absurd (by simp) hline

theorem safePiece_iff {value : String} (h : segmentMatches value = true) :
    SafePiece value.toList ↔ '\n' ∉ value.toList := by
  constructor
  · intro hsafe hc
    exact absurd (hsafe.2.1 _ hc) (by decide)
  · exact fun hline => safePiece_of_body ((segmentBody_iff h).mpr hline)

theorem safePiece_channel {channel : String} (h : channel ∈ CHANNELS) :
    SafePiece channel.toList := by
  simp only [CHANNELS, List.mem_cons, List.not_mem_nil, or_false] at h
  rcases h with rfl | rfl | rfl <;> decide

/-- Platform and architecture with their dash. -/
theorem safePiece_dash_iff {a b : String} (ha : segmentMatches a = true)
    (hb : segmentMatches b = true) :
    SafePiece (a.toList ++ '-' :: b.toList) ↔ '\n' ∉ a.toList ∧ '\n' ∉ b.toList := by
  constructor
  · intro h
    have hline : '\n' ∉ a.toList ++ '-' :: b.toList :=
      fun hc => absurd (h.2.1 _ hc) (by decide)
    simpa using hline
  · rintro ⟨hla, hlb⟩
    have hbody := (segmentBody_iff ha).mpr hla
    have hrest := segmentBody_chars ((segmentBody_iff hb).mpr hlb)
    refine safePiece_of_body ?_
    cases hcs : a.toList with
    | nil => simp [hcs, segmentBody] at hbody
    | cons c cs =>
      rw [hcs] at hbody
      simp only [segmentBody, Bool.and_eq_true, List.all_eq_true] at hbody
      simp only [List.cons_append, segmentBody, Bool.and_eq_true, List.all_eq_true,
        List.mem_append, List.mem_cons]
      refine ⟨hbody.1, ?_⟩
      rintro d (hd | rfl | hd)
      · exact hbody.2 d hd
      · decide
      · exact hrest d hd

/-! ## The validators on safe segments -/

theorem not_unsafeSegment {s : List Char} (h : SafePiece s) : unsafeSegment s = false := by
  obtain ⟨hne, hchars, hdot, hdots⟩ := h
  have hnot (c : Char) (hc : segmentRest c = false) : c ∉ s := by
    intro hmem
    exact absurd (hchars c hmem) (by simp [hc])
  simp [unsafeSegment, hne, hdot, hdots, hnot '\\' (by decide), hnot ':' (by decide),
    hnot (Char.ofNat 0) (by decide)]

theorem isUpper_toLower (c : Char) : c.toLower.isUpper = false := by
  delta Char.isUpper Char.toLower
  split <;> grind [UInt32.toNat_add, Char.toNat_val]

/-- The component is put in lower case and compared with names in upper case. -/
theorem lowercase_ne_device (s : List Char) :
    ∀ name ∈ Tuf.PATH_ILLEGAL_COMPONENTS_CASE_INSENSITIVE, name.toList ≠ Tuf.toLowercase s := by
  have hupper : ∀ name ∈ Tuf.PATH_ILLEGAL_COMPONENTS_CASE_INSENSITIVE,
      name.toList.any Char.isUpper = true := by decide
  intro name hname heq
  obtain ⟨c, hc, hup⟩ := List.any_eq_true.mp (hupper name hname)
  rw [heq, Tuf.toLowercase, List.mem_map] at hc
  obtain ⟨d, -, rfl⟩ := hc
  rw [isUpper_toLower] at hup
  cases hup

theorem not_illegalComponent {s : List Char} (hdot : s ≠ ['.']) (hdots : s ≠ ['.', '.']) :
    Tuf.illegalComponent s = false := by
  have hdevice := lowercase_ne_device s
  have hdir : Tuf.PATH_ILLEGAL_COMPONENTS.any (·.toList == s) = false := by
    simp [Tuf.PATH_ILLEGAL_COMPONENTS, hdot.symm, hdots.symm]
  rw [Tuf.illegalComponent, hdir, Bool.false_or, List.any_eq_false]
  exact fun name hname => by simpa using hdevice name hname

theorem safePathInner_eq_ok {path : String} {allowGlob : Bool} (hne : path.toList ≠ [])
    (hslash : path.toList.head? ≠ some '/')
    (hchars : ∀ c ∈ path.toList, c ∉ Tuf.illegalChars allowGlob)
    (hpieces : ∀ s ∈ Text.segments path, s ≠ ['.'] ∧ s ≠ ['.', '.']) :
    Tuf.safePathInner path allowGlob = .ok () := by
  have hempty : path.isEmpty = false := by
    rw [Bool.eq_false_iff]
    simpa [String.isEmpty_iff] using hne
  have hstart : Text.startsWith path "/" = false := by
    rw [Bool.eq_false_iff, ne_eq, Text.startsWith_iff]
    rintro ⟨rest, hrest⟩
    rw [← hrest] at hslash
    exact hslash rfl
  have hbad : (Tuf.illegalChars allowGlob).find? (· ∈ path.toList) = none := by
    rw [List.find?_eq_none]
    intro c hc hmem
    exact hchars c (by simpa using hmem) hc
  have hcomponent : (Text.segments path).find? Tuf.illegalComponent = none := by
    rw [List.find?_eq_none]
    intro s hs
    rw [not_illegalComponent (hpieces s hs).1 (hpieces s hs).2]
    exact Bool.false_ne_true
  simp [Tuf.safePathInner, hempty, hstart, hbad, hcomponent]

theorem parse_eq_ok {path : String} (hn : (Text.segments path).length = SEGMENTS)
    (hs : ∀ s ∈ Text.segments path, unsafeSegment s = false) :
    TargetPath.parse path = .ok ⟨path, hn, hs⟩ := by
  unfold TargetPath.parse
  rw [dif_pos hn]
  split
  next segment hfind =>
    have hbad := List.find?_some hfind
    rw [hs segment (List.mem_of_find?_eq_some hfind)] at hbad
    cases hbad
  next => rfl

/-- The pattern of an application, as the client's matcher applies it. -/
theorem matchesPattern_iff {path : TargetPath} {appId : String}
    (htuf : Tuf.TargetPath.new path.asStr = .ok ⟨path.asStr⟩) (hid : appIdMatches appId = true) :
    Tuf.TargetPath.matchesPattern ⟨path.asStr⟩ ⟨appPathPattern appId⟩ = true ↔
      Text.firstSegment path.asStr = appId.toList := by
  have hcovered := coveredBy_iff htuf (isAppDelegation_appDelegation hid)
  simpa [Tuf.TargetPath.CoveredBy, appDelegation] using hcovered

/-- The pattern of an application whose id has no line feed is one the client can read. -/
theorem newPattern_eq_ok {appId : String} (hsafe : SafePiece appId.toList) :
    Tuf.TargetPath.newPattern (appPathPattern appId) = .ok ⟨appPathPattern appId⟩ := by
  have htext : (appPathPattern appId).toList = appId.toList ++ '/' :: "*/*/*/*".toList := by
    simp [appPathPattern, TARGET_PATH_SEGMENTS, List.replicate_succ]
  have hlegal : ∀ bad ∈ Tuf.illegalChars true, segmentRest bad = false ∧ bad ≠ '/' ∧ bad ≠ '*' := by
    decide
  have hok : Tuf.safePathInner (appPathPattern appId) true = .ok () := by
    refine safePathInner_eq_ok (by simp [htext]) ?_ ?_ ?_
    · rw [htext, List.head?_append_of_ne_nil _ hsafe.1]
      intro hhead
      exact hsafe.slash_not_mem (List.mem_of_mem_head? hhead)
    · intro d hd hbad
      obtain ⟨hrest, hslash, hstar⟩ := hlegal d hbad
      rw [htext] at hd
      have := hsafe.2.1 d
      simp at hd
      grind
    · rw [segments_appPathPattern hsafe.slash_not_mem]
      intro s hs
      have := hsafe.2.2
      grind
  simp [Tuf.TargetPath.newPattern, hok, bind, Except.bind, pure, Except.pure]

/-! ## Rendered paths -/

section Rendered

variable {c : ChannelKey} {path : String} {v f : List Char}

/-- The segments of a path under a channel's prefix. -/
theorem segments_rendered (hpath : path.toList = c.pathPrefix.toList ++ (v ++ '/' :: f))
    (hv : '/' ∉ v) (hf : '/' ∉ f) :
    Text.segments path = [c.appId.toList, c.channel.toList,
      c.platform.toList ++ '-' :: c.arch.toList, v, f] := by
  rw [Text.segments, hpath, ChannelKey.toList_pathPrefix,
    Text.splitOn_append_slash _ _ (slash_not_mem (c.segmentsSafe c.appId (by simp))),
    Text.splitOn_append_slash _ _ (slash_not_mem_channel c.channelKnown),
    Text.splitOn_append_slash _ _ c.slash_not_mem_platform_arch,
    Text.splitOn_append_slash _ _ hv, List.splitOn_eq_singleton hf]

/-- A path of five safe segments passes every check of the client. -/
theorem clientAcceptable_of_safe (hid : appIdMatches c.appId = true)
    (hpath : path.toList = c.pathPrefix.toList ++ (v ++ '/' :: f)) (happ : SafePiece c.appId.toList)
    (hplatform : SafePiece (c.platform.toList ++ '-' :: c.arch.toList)) (hv : SafePiece v)
    (hf : SafePiece f) : ClientAcceptable c.appId path := by
  have hchannel := safePiece_channel c.channelKnown
  have hsegments := segments_rendered hpath hv.slash_not_mem hf.slash_not_mem
  have hsafe : ∀ s ∈ Text.segments path, SafePiece s := by
    rw [hsegments]
    simpa using ⟨happ, hchannel, hplatform, hv, hf⟩
  have hchars : ∀ d ∈ path.toList, segmentRest d = true ∨ d = '/' := by
    intro d hd
    rw [hpath, ChannelKey.toList_pathPrefix] at hd
    have := happ.2.1 d
    have := hchannel.2.1 d
    have := hplatform.2.1 d
    have := hv.2.1 d
    have := hf.2.1 d
    grind
  have hlegal : ∀ bad ∈ Tuf.illegalChars false, segmentRest bad = false ∧ bad ≠ '/' := by decide
  have hhead : path.toList.head? ≠ some '/' := by
    rw [hpath, ChannelKey.toList_pathPrefix, List.head?_append_of_ne_nil _ happ.1]
    exact fun h => happ.slash_not_mem (List.mem_of_mem_head? h)
  have hok : Tuf.safePathInner path false = .ok () := by
    refine safePathInner_eq_ok ?_ hhead ?_ fun s hs => (hsafe s hs).2.2
    · rw [hpath, ChannelKey.toList_pathPrefix]
      simp
    · intro d hd hbad
      obtain hrest | hslash := hchars d hd
      · rw [(hlegal d hbad).1] at hrest
        cases hrest
      · exact (hlegal d hbad).2 hslash
  have htuf : Tuf.TargetPath.new path = .ok ⟨path⟩ := by
    simp [Tuf.TargetPath.new, hok, bind, Except.bind, pure, Except.pure]
  have hn : (Text.segments path).length = SEGMENTS := by
    rw [hsegments]
    rfl
  have hmatch (other : String) (hother : appIdMatches other = true) :=
    @matchesPattern_iff ⟨path, hn, fun s hs => not_unsafeSegment (hsafe s hs)⟩ other htuf hother
  have hfirst : Text.firstSegment path = c.appId.toList := by
    simpa [hsegments] using (Text.head?_segments path).symm
  exact {
    fiveSegments := hn
    safeSegments := hsafe
    parsed := ⟨_, parse_eq_ok hn fun s hs => not_unsafeSegment (hsafe s hs), rfl⟩
    tufPath := htuf
    pattern := newPattern_eq_ok happ
    covered := (hmatch c.appId hid).mpr hfirst
    alone := by
      intro other role hrole hne
      have hother := hmatch other (appRoleName_eq_ok.mp hrole).1
      rw [Bool.eq_false_iff, ne_eq, hother, hfirst, String.toList_inj]
      exact hne.symm }

theorem clientAcceptable_iff (hid : appIdMatches c.appId = true)
    (hpath : path.toList = c.pathPrefix.toList ++ (v ++ '/' :: f)) (hv : '/' ∉ v) (hf : '/' ∉ f) :
    ClientAcceptable c.appId path ↔
      (∀ x ∈ [c.appId, c.platform, c.arch], '\n' ∉ x.toList) ∧ SafePiece v ∧ SafePiece f := by
  have hfield (x : String) (hx : x ∈ [c.appId, c.platform, c.arch]) := c.segmentsSafe x hx
  have happ := safePiece_iff (hfield c.appId (by simp))
  have hdash := safePiece_dash_iff (hfield c.platform (by simp)) (hfield c.arch (by simp))
  constructor
  · intro h
    have hsafe := h.safeSegments
    rw [segments_rendered hpath hv hf] at hsafe
    have hplatform := hdash.mp (hsafe _ (by simp))
    refine ⟨?_, hsafe v (by simp), hsafe f (by simp)⟩
    simpa using ⟨happ.mp (hsafe _ (by simp)), hplatform⟩
  · rintro ⟨hlines, hsafe, hsafe'⟩
    have hplatform := hdash.mpr ⟨hlines _ (by simp), hlines _ (by simp)⟩
    exact clientAcceptable_of_safe hid hpath (happ.mpr (hlines _ (by simp))) hplatform hsafe hsafe'

end Rendered

theorem release_acceptable_iff {k : TargetKey} (hid : appIdMatches k.appId = true) :
    ClientAcceptable k.appId k.path ↔
      ∀ x ∈ [k.appId, k.platform, k.arch, k.version, k.filename], '\n' ∉ x.toList := by
  have hversion : segmentMatches k.version = true := k.segmentsSafe k.version (by simp)
  have hfilename : segmentMatches k.filename = true := k.segmentsSafe k.filename (by simp)
  have h := clientAcceptable_iff (c := k.channelKey) hid k.toList_path (slash_not_mem hversion)
    (slash_not_mem hfilename)
  rw [safePiece_iff hversion, safePiece_iff hfilename] at h
  refine h.trans ?_
  simp [TargetKey.channelKey, and_assoc]

theorem pointer_acceptable_iff {c : ChannelKey} (hid : appIdMatches c.appId = true) :
    ClientAcceptable c.appId c.pointerPath ↔
      ∀ x ∈ [c.appId, c.platform, c.arch], '\n' ∉ x.toList := by
  have hpath : c.pointerPath.toList = c.pathPrefix.toList ++
      (Core.POINTER_VERSION.toList ++ '/' :: Core.POINTER_FILE.toList) := by
    rw [c.toList_pointerPath]
    rfl
  rw [clientAcceptable_iff hid hpath (by decide) (by decide)]
  exact and_iff_left ⟨by decide, by decide⟩

/-! ## The server's names and the client's checks -/

/-- The client takes every name of an application exactly where no field ends in the line feed
that the server's patterns let through. -/
theorem names_acceptable_iff {appId role : String} (hrole : appRoleName appId = .ok role) :
    (∀ k : TargetKey, k.appId = appId → (ClientAcceptable appId k.path ↔
        ∀ x ∈ [k.appId, k.platform, k.arch, k.version, k.filename], '\n' ∉ x.toList)) ∧
      ∀ c : ChannelKey, c.appId = appId → (ClientAcceptable appId c.pointerPath ↔
        ∀ x ∈ [c.appId, c.platform, c.arch], '\n' ∉ x.toList) := by
  have hid := (appRoleName_eq_ok.mp hrole).1
  constructor
  · rintro k rfl
    exact release_acceptable_iff hid
  · rintro c rfl
    exact pointer_acceptable_iff hid

theorem names_acceptable_editor :
    ClientAcceptable "editor" (editorFor "linux" "x64" (by decide) (by decide)).path ∧
      ClientAcceptable "editor"
        (editorFor "linux" "x64" (by decide) (by decide)).channelKey.pointerPath := by
  have h := @names_acceptable_iff "editor" "app-editor" (by decide)
  exact ⟨(h.1 _ rfl).mpr (by decide), (h.2 _ rfl).mpr (by decide)⟩

/-- An architecture with a line feed at its end: the key exists, and the TUF library refuses
its path, with the metadata that lists it. -/
theorem name_with_line_feed :
    Tuf.TargetPath.new (editorFor "linux" "x64\n" (by decide) (by decide)).path =
        .error (.contains '\n') ∧
      ¬ ClientAcceptable "editor" (editorFor "linux" "x64\n" (by decide) (by decide)).path := by
  have hrefused : Tuf.TargetPath.new (editorFor "linux" "x64\n" (by decide) (by decide)).path =
      .error (.contains '\n') := by decide
  refine ⟨hrefused, fun h => ?_⟩
  have haccepted := h.tufPath
  rw [hrefused] at haccepted
  cases haccepted

end DistPlatform.Client
