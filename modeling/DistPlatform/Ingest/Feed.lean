import DistPlatform.Ingest.Sources

/-!
# The release feed (`dist_ingest.forge`)

The feed is read without a token, as a hint of what the newest tag is. A document with a document
type declaration is refused before it is parsed; the check looks for two byte strings, and the
parser reads characters.

## Main definitions

* `newestFeedTag` — `_newest_feed_tag`, and whether the bytes were handed to the parser.
* `Encoding`, `bytesOf` — the encodings that the parser reads a document in.
* `Declares` — a document type or entity declaration.
-/

namespace DistPlatform.Ingest

def MAX_FEED_BYTES := 512 * 1024

/-- The texts of an entry's title and id, where it has them. -/
structure FeedEntry where
  title : Option String
  id : Option String
  deriving DecidableEq, Repr

/-- What `ElementTree.fromstring` raises. -/
inductive FeedFailure
  | ParseError (detail : String)
  | Other (exception : String)
  deriving DecidableEq, Repr

/-- `_FEED_ENTRY_ID` at the start of a text: the repository id and the tag. -/
def matchEntryId (text : List Char) : Option (List Char × List Char) :=
  if "Repository/".toList.isPrefixOf text then
    let rest := text.drop "Repository/".toList.length
    match rest.dropWhile isDigit with
    | '/' :: tag =>
      if rest.takeWhile isDigit ≠ [] ∧ tag ≠ [] ∧ '\n' ∉ tag then
        some (rest.takeWhile isDigit, tag)
      else none
    | _ => none
  else none

/-- `_FEED_ENTRY_ID.search`: the leftmost match. -/
def searchEntryId (text : String) : Option (String × String) :=
  (text.toList.tails.findSome? matchEntryId).map fun found =>
    (String.ofList found.1, String.ofList found.2)

/-- The loop over the entries. -/
def newestTag (expectRepositoryId : Option String) : List FeedEntry → Except JobError (Option String)
  | [] => .ok none
  | entry :: entries =>
    match searchEntryId (entry.id.getD "") with
    | some (repositoryId, tag) =>
      match Registry.present expectRepositoryId with
      | some expected =>
        if repositoryId ≠ expected then
          .error (.ForgeError ⟨"release feed describes repository " ++ repositoryId ++
            ", but this source is pinned to " ++ expected⟩)
        else .ok (some tag)
      | none => .ok (some tag)
    | none =>
      match Registry.present entry.title with
      | some title => .ok (some title)
      | none => newestTag expectRepositoryId entries

/-- `needle in content`. -/
def containsBytes (needle content : Bytes) : Bool := content.tails.any needle.isPrefixOf

def DOCTYPE := "<!DOCTYPE"
def ENTITY := "<!ENTITY"

def declaresDtd (content : Bytes) : Bool :=
  containsBytes DOCTYPE.toUTF8.toList content || containsBytes ENTITY.toUTF8.toList content

/-- Whether the parser was given the bytes, and what came of it. -/
structure FeedRead where
  parsed : Bool
  result : Except JobError (Option String)
  deriving DecidableEq

def newestFeedTag (fromstring : Bytes → Except FeedFailure (List FeedEntry)) (content : Bytes)
    (expectRepositoryId : Option String) : FeedRead :=
  if MAX_FEED_BYTES < content.length then
    ⟨false, .error (.ForgeError ⟨"release feed is " ++ toString content.length ++
      " bytes, over the " ++ toString MAX_FEED_BYTES ++ " limit"⟩)⟩
  else if declaresDtd content then
    ⟨false, .error (.ForgeError ⟨"release feed declares a DTD; refusing to parse it"⟩)⟩
  else match fromstring content with
    | .error (.ParseError detail) =>
      ⟨true, .error (.ForgeError ⟨"release feed is not parseable XML: " ++ detail⟩)⟩
    | .error (.Other exception) => ⟨true, .error (.Other exception)⟩
    | .ok feed => ⟨true, newestTag expectRepositoryId feed⟩

/-! ## Documents and their bytes -/

def asciiByte (c : Char) : UInt8 := UInt8.ofNat c.toNat

/-- UTF-8, or an encoding with one byte a character: what ASCII has is written as in ASCII. The
parser takes no other encoding by declaration. -/
structure AsciiCodec where
  encode : Char → Option Bytes
  ascii : ∀ c, c.toNat < 128 → encode c = some [asciiByte c]

/-- The two bytes of a 16-bit unit. -/
def unitBytes (bigEndian : Bool) (unit : Nat) : Bytes :=
  if bigEndian then [UInt8.ofNat (unit / 256), UInt8.ofNat (unit % 256)]
  else [UInt8.ofNat (unit % 256), UInt8.ofNat (unit / 256)]

def utf16Encode (bigEndian : Bool) (c : Char) : Bytes :=
  if c.toNat < 0x10000 then unitBytes bigEndian c.toNat
  else unitBytes bigEndian (0xd800 + (c.toNat - 0x10000) / 0x400) ++
    unitBytes bigEndian (0xdc00 + (c.toNat - 0x10000) % 0x400)

inductive Encoding
  | asciiCompatible (codec : AsciiCodec)
  | utf16 (bigEndian : Bool)

def Encoding.encode : Encoding → Char → Option Bytes
  | .asciiCompatible codec, c => codec.encode c
  | .utf16 bigEndian, c => some (utf16Encode bigEndian c)

def encodeText (encode : Char → Option Bytes) : List Char → Option Bytes
  | [] => some []
  | c :: text => do
    let bytes ← encode c
    let rest ← encodeText encode text
    return bytes ++ rest

/-- The text of a document as the parser sees it, a byte order mark included. -/
def bytesOf (encoding : Encoding) (text : String) : Option Bytes :=
  encodeText encoding.encode text.toList

/-- A document type or entity declaration stands in the text. -/
def Declares (text : String) : Prop :=
  DOCTYPE.toList <:+: text.toList ∨ ENTITY.toList <:+: text.toList

section Bytes

variable {encode : Char → Option Bytes} {text text' : List Char} {bytes content needle : Bytes}

theorem encodeText_append (h : encodeText encode (text ++ text') = some bytes) :
    ∃ first second, encodeText encode text = some first ∧ encodeText encode text' = some second ∧
      bytes = first ++ second := by
  induction text generalizing bytes with
  | nil => exact ⟨[], bytes, rfl, h, rfl⟩
  | cons c text ih =>
    simp only [List.cons_append, encodeText, Fallible.bind_eq_some, Option.pure_def,
      Option.some.injEq] at h
    obtain ⟨head, hhead, rest, hrest, rfl⟩ := h
    obtain ⟨first, second, hfirst, hsecond, rfl⟩ := ih hrest
    refine ⟨head ++ first, second, ?_, hsecond, (List.append_assoc ..).symm⟩
    simp [encodeText, hhead, hfirst]

theorem encodeText_ascii (codec : AsciiCodec) (h : ∀ c ∈ text, c.toNat < 128) :
    encodeText codec.encode text = some (text.map asciiByte) := by
  induction text with
  | nil => rfl
  | cons c text ih =>
    rw [encodeText, codec.ascii c (h c List.mem_cons_self),
      ih fun other hother => h other (List.mem_cons_of_mem _ hother)]
    rfl

theorem containsBytes_iff : containsBytes needle content = true ↔ needle <:+: content := by
  rw [containsBytes, List.any_eq_true, List.infix_iff_prefix_suffix]
  simp only [List.mem_tails, List.isPrefixOf_iff_prefix]
  exact ⟨fun ⟨tail, hsuffix, hstarts⟩ => ⟨tail, hstarts, hsuffix⟩,
    fun ⟨tail, hstarts, hsuffix⟩ => ⟨tail, hsuffix, hstarts⟩⟩

/-- What ASCII can write stands in the bytes where it stands in the text. -/
theorem infix_of_ascii (codec : AsciiCodec) {marker : List Char}
    (hmarker : ∀ c ∈ marker, c.toNat < 128) (hwithin : marker <:+: text)
    (h : encodeText codec.encode text = some content) : marker.map asciiByte <:+: content := by
  obtain ⟨before, after, rfl⟩ := hwithin
  obtain ⟨front, _, hfront, -, rfl⟩ := encodeText_append h
  obtain ⟨first, middle, -, hmiddle, rfl⟩ := encodeText_append hfront
  rw [encodeText_ascii codec hmarker] at hmiddle
  obtain rfl := Option.some.inj hmiddle
  exact ⟨first, _, rfl⟩

/-- In an encoding that writes ASCII as it is the check sees every declaration. -/
theorem declaresDtd_of_ascii (codec : AsciiCodec) {document : String}
    (hdeclares : Declares document)
    (h : bytesOf (.asciiCompatible codec) document = some content) :
    declaresDtd content = true := by
  have hdoctype : DOCTYPE.toUTF8.toList = DOCTYPE.toList.map asciiByte := by decide +kernel
  have hentity : ENTITY.toUTF8.toList = ENTITY.toList.map asciiByte := by decide +kernel
  rw [declaresDtd, Bool.or_eq_true, containsBytes_iff, containsBytes_iff, hdoctype, hentity]
  refine hdeclares.imp (fun hwithin => ?_) fun hwithin => ?_
  · exact infix_of_ascii codec (by decide) hwithin h
  · exact infix_of_ascii codec (by decide) hwithin h

end Bytes

/-! ## The main result -/

section Main

variable {expectRepositoryId : Option String} {feed : List FeedEntry} {tag : String}

/-- The id of an entry ends in a repository id and a tag. -/
theorem suffix_of_searchEntryId {id repositoryId : String}
    (h : searchEntryId id = some (repositoryId, tag)) :
    ("Repository/" ++ repositoryId ++ "/" ++ tag).toList <:+ id.toList := by
  obtain ⟨⟨digits, rest⟩, hfound, hpair⟩ := Option.map_eq_some_iff.mp h
  obtain ⟨rfl, rfl⟩ := Prod.mk.inj hpair
  obtain ⟨tail, htail, hmatch⟩ := List.exists_of_findSome?_eq_some hfound
  have hsuffix : tail <:+ id.toList := (List.mem_tails _ _).mp htail
  unfold matchEntryId at hmatch
  split at hmatch
  next hstarts =>
    dsimp only at hmatch
    split at hmatch
    next tag' hslash =>
      split at hmatch
      · obtain ⟨rfl, rfl⟩ := Prod.mk.inj (Option.some.inj hmatch)
        have hrest := List.takeWhile_append_dropWhile (p := isDigit)
          (l := tail.drop "Repository/".toList.length)
        rw [hslash] at hrest
        have hwhole := List.prefix_append_drop (List.isPrefixOf_iff_prefix.mp hstarts)
        have htext : ("Repository/" ++ String.ofList (List.takeWhile isDigit
            (tail.drop "Repository/".toList.length)) ++ "/" ++ String.ofList tag').toList = tail := by
          simp only [String.toList_append, String.toList_ofList, List.append_assoc]
          rw [← hrest] at hwhole
          exact hwhole.symm
        rwa [htext]
      · cases hmatch
    · cases hmatch
  · cases hmatch

/-- Where the tag of a feed comes from: the first entry that has one. -/
theorem newestTag_eq_some (h : newestTag expectRepositoryId feed = .ok (some tag)) :
    ∃ before entry after, feed = before ++ entry :: after ∧
      (∀ e ∈ before, searchEntryId (e.id.getD "") = none ∧ Registry.present e.title = none) ∧
      ((∃ repositoryId, searchEntryId (entry.id.getD "") = some (repositoryId, tag) ∧
          ∀ expected, Registry.present expectRepositoryId = some expected →
            repositoryId = expected) ∨
        searchEntryId (entry.id.getD "") = none ∧ entry.title = some tag) := by
  induction feed with
  | nil => cases h
  | cons entry feed ih =>
    rw [newestTag] at h
    split at h
    next repositoryId found hsearch =>
      split at h
      next expected hexpected =>
        split at h
        · cases h
        next hsame =>
          obtain rfl := Option.some.inj (Except.ok.inj h)
          refine ⟨[], entry, feed, rfl, nofun, .inl ⟨repositoryId, hsearch, ?_⟩⟩
          rintro _ hother
          obtain rfl := Option.some.inj (hexpected.symm.trans hother)
          exact not_not.mp hsame
      next hnone =>
        obtain rfl := Option.some.inj (Except.ok.inj h)
        refine ⟨[], entry, feed, rfl, nofun, .inl ⟨repositoryId, hsearch, ?_⟩⟩
        rintro _ hother
        rw [hnone] at hother
        cases hother
    next hsearch =>
      split at h
      next title htitle =>
        obtain rfl := Option.some.inj (Except.ok.inj h)
        refine ⟨[], entry, feed, rfl, nofun, .inr ⟨hsearch, ?_⟩⟩
        unfold Registry.present at htitle
        split at htitle
        · cases htitle
        · exact htitle
      next htitle =>
        obtain ⟨before, found, after, rfl, hbefore, hfound⟩ := ih h
        refine ⟨entry :: before, found, after, rfl, fun e he => ?_, hfound⟩
        obtain rfl | he := List.mem_cons.mp he
        · exact ⟨hsearch, htitle⟩
        · exact hbefore e he

theorem refused_iff {fromstring : Bytes → Except FeedFailure (List FeedEntry)} {content : Bytes} :
    (∃ error, newestFeedTag fromstring content expectRepositoryId =
        ⟨false, .error (.ForgeError error)⟩) ↔
      MAX_FEED_BYTES < content.length ∨ declaresDtd content = true := by
  unfold newestFeedTag
  split
  next hlong => exact iff_of_true ⟨_, rfl⟩ (.inl hlong)
  next hshort =>
    split
    next hdtd => exact iff_of_true ⟨_, rfl⟩ (.inr hdtd)
    next hdtd =>
      refine iff_of_false ?_ (not_or.mpr ⟨hshort, hdtd⟩)
      rintro ⟨error, hread⟩
      split at hread <;> cases congrArg FeedRead.parsed hread

/-- The id of the entry ends in the repository id and the tag. -/
def Names (entry : FeedEntry) (repositoryId tag : String) : Prop :=
  ∃ id, entry.id = some id ∧ ("Repository/" ++ repositoryId ++ "/" ++ tag).toList <:+ id.toList

/-- A document with a declaration is refused unparsed exactly where its encoding writes ASCII as
it is, it is too long, or the bytes looked for stand in it by chance; and a tag that comes from an
entry id comes with the repository id that is pinned. -/
theorem feed_safe_iff (fromstring : Bytes → Except FeedFailure (List FeedEntry))
    (expectRepositoryId : Option String) :
    (∀ encoding document content, Declares document → bytesOf encoding document = some content →
      ((∃ error, newestFeedTag fromstring content expectRepositoryId =
          ⟨false, .error (.ForgeError error)⟩) ↔
        (∃ codec, encoding = .asciiCompatible codec) ∨ MAX_FEED_BYTES < content.length ∨
          declaresDtd content = true)) ∧
    ∀ content tag, (newestFeedTag fromstring content expectRepositoryId).result = .ok (some tag) →
      ∃ feed before entry after, fromstring content = .ok feed ∧
        feed = before ++ entry :: after ∧
        ((∃ repositoryId, Names entry repositoryId tag ∧
            ∀ expected, Registry.present expectRepositoryId = some expected →
              repositoryId = expected) ∨
          searchEntryId (entry.id.getD "") = none ∧ entry.title = some tag) := by
  refine ⟨fun encoding document content hdeclares hbytes => ?_, fun content tag h => ?_⟩
  · rw [refused_iff]
    refine ⟨.inr, fun h => h.elim ?_ id⟩
    rintro ⟨codec, rfl⟩
    exact .inr (declaresDtd_of_ascii codec hdeclares hbytes)
  · unfold newestFeedTag at h
    split at h
    · cases h
    · split at h
      · cases h
      · split at h
        · cases h
        · cases h
        next feed hfeed =>
          obtain ⟨before, entry, after, hsplit, -, hsource⟩ := newestTag_eq_some h
          refine ⟨feed, before, entry, after, hfeed, hsplit, hsource.imp_left ?_⟩
          rintro ⟨repositoryId, hsearch, hpinned⟩
          refine ⟨repositoryId, ?_, hpinned⟩
          cases hid : entry.id with
          | none =>
            rw [hid] at hsearch
            cases hsearch
          | some id =>
            rw [hid] at hsearch
            exact ⟨id, hid, suffix_of_searchEntryId hsearch⟩

end Main

/-- A document type declaration, in UTF-16 with a byte order mark. -/
def utf16Feed : String := "\uFEFF<!DOCTYPE feed [<!ENTITY a \"b\">]><feed/>"

theorem utf16_parsed :
    ¬ ∀ (fromstring : Bytes → Except FeedFailure (List FeedEntry))
      (expectRepositoryId : Option String) (encoding : Encoding) (document : String)
      (content : Bytes), Declares document → bytesOf encoding document = some content →
      ∃ error, newestFeedTag fromstring content expectRepositoryId =
        ⟨false, .error (.ForgeError error)⟩ := by
  intro h
  have hdeclares : Declares utf16Feed := .inl ⟨["\uFEFF".toList.headD ' '], _, rfl⟩
  have hrun : (bytesOf (.utf16 false) utf16Feed).map (fun content =>
      decide (content.length ≤ MAX_FEED_BYTES ∧ declaresDtd content = false)) = some true := by
    decide +kernel
  obtain ⟨content, hcontent, hchecked⟩ := Option.map_eq_some_iff.mp hrun
  obtain ⟨hshort, hunseen⟩ := of_decide_eq_true hchecked
  have hrefused := refused_iff.mp (h (fun _ => .ok []) none _ _ _ hdeclares hcontent)
  rw [hunseen] at hrefused
  exact hrefused.elim (fun hlong => absurd hlong (Nat.not_lt.mpr hshort)) nofun

end DistPlatform.Ingest
