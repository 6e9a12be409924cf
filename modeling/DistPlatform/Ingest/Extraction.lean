import DistPlatform.Ingest.Soundness
import DistPlatform.Library.FileTree

/-!
# What extracting an archive can reach

The archive gate reads names and sizes. Extraction makes the entries in order, follows the links
that are there by then and makes the ones that the archive asks for, so what an entry's name
reaches is decided by the entries before it.

## Main definitions

* `Member` — an entry of a zip or tar, with what the gate does not read.
* `extractMember`, `extract` — ordinary extraction, with the places it touches.
* `Confined` — nothing outside the root is made, written or linked to.
-/

namespace DistPlatform.Ingest

open Fallible FileTree

abbrev Name := List Char

inductive MemberKind
  | file
  | dir
  | symlink (linkname : String)
  | hardlink (linkname : String)
  deriving DecidableEq, Repr

def MemberKind.isLink : MemberKind → Bool
  | .symlink _ | .hardlink _ => true
  | .file | .dir => false

structure Member where
  name : String
  size : Int
  kind : MemberKind
  deriving DecidableEq, Repr

/-- The names and sizes that `infolist` and `getmembers` are asked for. -/
def namesAndSizes (members : List Member) : List (String × Int) :=
  members.map fun member => (member.name, member.size)

/-! ## Extraction -/

/-- One part of a path; an empty part and `.` stay where they are. -/
def stepOf (part : Name) : Option (Step Name) :=
  if part = [] ∨ part = ['.'] then none else if part = ['.', '.'] then some .up
  else some (.into part)

def stepsOf (path : String) : List (Step Name) := (Text.segments path).filterMap stepOf

def targetOf (linkname : String) : Target Name := ⟨Text.startsWith linkname "/", stepsOf linkname⟩

/-- The tree, the directories made on the way, and the last one if nothing was in the way. -/
structure Walk where
  tree : FileTree.Tree Name
  made : List (Place Name)
  found : Option (Place Name)

section Extract

variable (fuel : Nat)

/-- `os.makedirs`. -/
def makeDirs : FileTree.Tree Name → Place Name → List (Step Name) → Walk
  | tree, place, [] => ⟨tree, [], some place⟩
  | tree, place, .up :: steps => makeDirs tree place.dropLast steps
  | tree, place, .into name :: steps =>
    match resolve tree fuel place [.into name] with
    | none => ⟨tree, [], none⟩
    | some entry =>
      match tree entry with
      | some .dir => makeDirs tree entry steps
      | some _ => ⟨tree, [], none⟩
      | none =>
        -- no directory is made through a link that leads nowhere
        if entry = place ++ [name] then
          let rest := makeDirs (tree.put entry .dir) entry steps
          ⟨rest.tree, entry :: rest.made, rest.found⟩
        else ⟨tree, [], none⟩

/-- The place of the file that a hard link names; the last name is not followed. -/
def linkSource (tree : FileTree.Tree Name) (root : Place Name) (linkname : String) : Option (Place Name) :=
  match (stepsOf linkname).getLast? with
  | some (.into name) =>
    (resolve tree fuel ((targetOf linkname).start root) (stepsOf linkname).dropLast).map (· ++ [name])
  | _ => none

/-- Make an entry in a directory: what is left, and the places written, made or linked to. -/
def makeEntry (tree : FileTree.Tree Name) (root directory : Place Name) (name : Name) :
    MemberKind → FileTree.Tree Name × List (Place Name)
  | .file =>
    match resolve tree fuel directory [.into name] with
    | none => (tree, [])
    | some place =>
      match tree place with
      | none | some .file => (tree.put place .file, [place])
      | some _ => (tree, [])
  | .dir =>
    match resolve tree fuel directory [.into name] with
    | none => (tree, [])
    | some place =>
      match tree place with
      | none => if place = directory ++ [name] then (tree.put place .dir, [place]) else (tree, [])
      | some .dir => (tree, [place])
      | some _ => (tree, [])
  | .symlink linkname =>
    if tree (directory ++ [name]) = some .dir then (tree, [])
    else (tree.put (directory ++ [name]) (.link (targetOf linkname)), [directory ++ [name]])
  | .hardlink linkname =>
    match linkSource fuel tree root linkname with
    | none => (tree, [])
    | some source =>
      match tree source with
      | none | some .dir => (tree, [])
      | some node =>
        if tree (directory ++ [name]) = some .dir then (tree, [])
        else (tree.put (directory ++ [name]) node, [source, directory ++ [name]])

/-- Extract one member: the directories above it, then the entry. -/
def extractMember (root : Place Name) (tree : FileTree.Tree Name) (member : Member) :
    FileTree.Tree Name × List (Place Name) :=
  match (stepsOf member.name).getLast? with
  | some (.into name) =>
    let walk := makeDirs fuel tree root (stepsOf member.name).dropLast
    match walk.found with
    | none => (walk.tree, walk.made)
    | some directory =>
      let entry := makeEntry fuel walk.tree root directory name member.kind
      (entry.1, walk.made ++ entry.2)
  | _ => (tree, [])

def extract (root : Place Name) (tree : FileTree.Tree Name) (members : List Member) : FileTree.Tree Name :=
  members.foldl (fun tree member => (extractMember fuel root tree member).1) tree

end Extract

/-! ## Containment -/

section Containment

variable (fuel : Nat) (root : Place Name)

/-- A member touches nothing outside the root, and leaves no link that leads out of it. -/
def StepConfined (tree : FileTree.Tree Name) (member : Member) : Prop :=
  (∀ place ∈ (extractMember fuel root tree member).2, root <+: place) ∧
    Closed (extractMember fuel root tree member).1 root

def Confined (tree : FileTree.Tree Name) (members : List Member) : Prop :=
  ∀ before member after, members = before ++ member :: after →
    StepConfined fuel root (extract fuel root tree before) member

/-- The file that a member becomes another name of, where it is a hard link and is made. -/
def linkedFile (tree : FileTree.Tree Name) (member : Member) : Option (Place Name) :=
  match (stepsOf member.name).getLast?, member.kind with
  | some (.into name), .hardlink linkname =>
    let walk := makeDirs fuel tree root (stepsOf member.name).dropLast
    walk.found.bind fun directory =>
      (linkSource fuel walk.tree root linkname).filter fun source =>
        walk.tree source ≠ none ∧ walk.tree source ≠ some .dir ∧
          walk.tree (directory ++ [name]) ≠ some .dir
  | _, _ => none

/-- When a link is made, a hard link leads to a file below the root, and with the new link in its
place the target of every link below the root leads below it. -/
def LinksConfined (tree : FileTree.Tree Name) (members : List Member) : Prop :=
  ∀ before member after, members = before ++ member :: after → member.kind.isLink = true →
    (∀ file, linkedFile fuel root (extract fuel root tree before) member = some file →
      root <+: file) ∧
    Closed (extract fuel root tree (before ++ [member])) root

variable {fuel root} {tree : FileTree.Tree Name} {directory place : Place Name} {name : Name}
  {steps : List (Step Name)} {member : Member} {members : List Member}

theorem makeDirs_below (fuel : Nat) (hclosed : Closed tree root) (hplace : root <+: place)
    (hsteps : .up ∉ steps) :
    (makeDirs fuel tree place steps).tree.link? = tree.link? ∧
      (∀ made ∈ (makeDirs fuel tree place steps).made, root <+: made) ∧
      ∀ found, (makeDirs fuel tree place steps).found = some found → root <+: found := by
  induction steps generalizing tree place with
  | nil =>
    refine ⟨rfl, nofun, fun found hfound => ?_⟩
    exact Option.some.inj hfound ▸ hplace
  | cons step steps ih =>
    have hrest : .up ∉ steps := fun hup => hsteps (List.mem_cons_of_mem _ hup)
    cases step with
    | up => exact absurd List.mem_cons_self hsteps
    | into name =>
      rw [makeDirs]
      cases hresolve : resolve tree fuel place [.into name] with
      | none => exact ⟨rfl, nofun, nofun⟩
      | some entry =>
        have hentry : root <+: entry :=
          hclosed.below hplace (by simp) (leads_of_resolve hresolve)
        dsimp only
        split
        · exact ih hclosed hentry hrest
        · exact ⟨rfl, nofun, nofun⟩
        next hnone =>
          split
          · have hlinks : (tree.put entry .dir).link? = tree.link? :=
              link?_put (by rw [FileTree.Tree.link?, hnone]) nofun
            obtain ⟨hsame, hmade, hfound⟩ := ih (hclosed.congr hlinks.symm) hentry hrest
            refine ⟨hsame.trans hlinks, fun made hmem => ?_, hfound⟩
            obtain rfl | hmem := List.mem_cons.mp hmem
            · exact hentry
            · exact hmade made hmem
          · exact ⟨rfl, nofun, nofun⟩

/-- A file or directory is made where its name leads, and is no link. -/
theorem makeEntry_below (fuel : Nat) (name : Name) {kind : MemberKind} (hclosed : Closed tree root)
    (hdirectory : root <+: directory) (hkind : kind.isLink = false) :
    (makeEntry fuel tree root directory name kind).1.link? = tree.link? ∧
      ∀ place ∈ (makeEntry fuel tree root directory name kind).2, root <+: place := by
  have hbelow (place : Place Name) (h : resolve tree fuel directory [.into name] = some place) :
      root <+: place := hclosed.below hdirectory (by simp) (leads_of_resolve h)
  cases kind with
  | file =>
    rw [makeEntry]
    split
    · exact ⟨rfl, nofun⟩
    next place hplace =>
      split
      next hnone =>
        refine ⟨link?_put (by rw [FileTree.Tree.link?, hnone]) nofun, fun other hother => ?_⟩
        exact List.mem_singleton.mp hother ▸ hbelow place hplace
      next hfile =>
        refine ⟨link?_put (by rw [FileTree.Tree.link?, hfile]) nofun, fun other hother => ?_⟩
        exact List.mem_singleton.mp hother ▸ hbelow place hplace
      · exact ⟨rfl, nofun⟩
  | dir =>
    rw [makeEntry]
    split
    · exact ⟨rfl, nofun⟩
    next place hplace =>
      split
      next hnone =>
        split
        · refine ⟨link?_put (by rw [FileTree.Tree.link?, hnone]) nofun, fun other hother => ?_⟩
          exact List.mem_singleton.mp hother ▸ hbelow place hplace
        · exact ⟨rfl, nofun⟩
      · exact ⟨rfl, fun other hother => List.mem_singleton.mp hother ▸ hbelow place hplace⟩
      · exact ⟨rfl, nofun⟩
  | symlink linkname => cases hkind
  | hardlink linkname => cases hkind

theorem up_not_mem_stepsOf {path : String} (h : checkEntryName path = .ok ()) :
    .up ∉ stepsOf path := by
  simp only [checkEntryName, bind_eq_ok, ensure_eq_ok] at h
  obtain ⟨-, -, -, -, -, -, -, -, -, hsegments, -⟩ := h
  intro hup
  obtain ⟨part, hpart, hstep⟩ := List.mem_filterMap.mp hup
  unfold stepOf at hstep
  split at hstep
  · cases hstep
  · split at hstep
    next hdots => exact hsegments (hdots ▸ hpart)
    · cases hstep

/-- An entry that is no link stays below the root and adds no link. -/
theorem stepConfined_of_not_link (hclosed : Closed tree root)
    (hname : .up ∉ stepsOf member.name) (hkind : member.kind.isLink = false) :
    StepConfined fuel root tree member := by
  have hdirs : .up ∉ (stepsOf member.name).dropLast :=
    fun hup => hname (List.dropLast_subset _ hup)
  obtain ⟨hlinks, hmade, hfound⟩ := makeDirs_below fuel hclosed (List.prefix_refl root) hdirs
  unfold StepConfined extractMember
  split
  next name _ =>
    dsimp only
    split
    · exact ⟨hmade, hclosed.congr hlinks.symm⟩
    next directory hdirectory =>
      obtain ⟨hentry, hbelow⟩ := makeEntry_below fuel name
        (hclosed.congr hlinks.symm) (hfound directory hdirectory) hkind
      refine ⟨fun place hplace => ?_, hclosed.congr (hentry.trans hlinks).symm⟩
      obtain hplace | hplace := List.mem_append.mp hplace
      · exact hmade place hplace
      · exact hbelow place hplace
  · exact ⟨nofun, hclosed⟩

/-- A link touches the directories above it, its own place and the file that it leads to. -/
theorem stepConfined_of_link (hclosed : Closed tree root) (hname : .up ∉ stepsOf member.name)
    (hfile : ∀ file, linkedFile fuel root tree member = some file → root <+: file)
    (hlinks : Closed (extractMember fuel root tree member).1 root)
    (hkind : member.kind.isLink = true) : StepConfined fuel root tree member := by
  have hdirs : .up ∉ (stepsOf member.name).dropLast :=
    fun hup => hname (List.dropLast_subset _ hup)
  obtain ⟨-, hmade, hfound⟩ := makeDirs_below fuel hclosed (List.prefix_refl root) hdirs
  refine ⟨?_, hlinks⟩
  unfold extractMember
  split
  next name hlast =>
    dsimp only
    split
    · exact hmade
    next directory hdirectory =>
      have hhere : root <+: directory ++ [name] :=
        (hfound directory hdirectory).trans (List.prefix_append _ _)
      refine fun place hplace => (List.mem_append.mp hplace).elim (hmade place) fun hplace => ?_
      cases hmember : member.kind with
      | file => rw [hmember] at hkind; cases hkind
      | dir => rw [hmember] at hkind; cases hkind
      | symlink linkname =>
        rw [hmember, makeEntry] at hplace
        split at hplace
        · cases hplace
        · exact List.mem_singleton.mp hplace ▸ hhere
      | hardlink linkname =>
        rw [hmember, makeEntry] at hplace
        split at hplace
        · cases hplace
        next source hsource =>
          split at hplace
          · cases hplace
          · cases hplace
          next node hdir hnode =>
            split at hplace
            · cases hplace
            next hfree =>
              obtain rfl | hplace := List.mem_cons.mp hplace
              · refine hfile place ?_
                have hdir : node ≠ .dir := hdir
                simp [linkedFile, hlast, hmember, hdirectory, hsource, hnode, hfree, hdir]
              · exact List.mem_singleton.mp hplace ▸ hhere
  · exact nofun

/-- The file that a hard link leads to is among what it touches. -/
theorem mem_touched_of_linkedFile {file : Place Name}
    (h : linkedFile fuel root tree member = some file) :
    file ∈ (extractMember fuel root tree member).2 := by
  unfold linkedFile at h
  split at h
  next name linkname hlast hmember =>
    obtain ⟨directory, hdirectory, h⟩ := Option.bind_eq_some_iff.mp h
    obtain ⟨hsource, hnode⟩ := Option.filter_eq_some_iff.mp h
    obtain ⟨hthere, hdir, hfree⟩ := of_decide_eq_true hnode
    obtain ⟨node, hnode⟩ := Option.ne_none_iff_exists'.mp hthere
    rw [extractMember, hlast]
    dsimp only
    rw [hdirectory]
    refine List.mem_append.mpr (.inr ?_)
    rw [hmember, makeEntry, hsource]
    dsimp only
    rw [hnode]
    cases node with
    | dir => exact absurd hnode hdir
    | file => simp [hfree]
    | link target => simp [hfree]
  · cases h

theorem extract_append {before after : List Member} :
    extract fuel root tree (before ++ after) =
      extract fuel root (extract fuel root tree before) after :=
  List.foldl_append ..

/-- An archive that the gate accepts stays in its root exactly where its links lead below it, each
from the moment it is made. -/
theorem confined_iff {limits : ArchiveLimits} {compressed : Nat} {report : Option ArchiveReport}
    (haccepted : inspectArchive limits compressed (some (namesAndSizes members)) = .ok report)
    (hclosed : Closed tree root) :
    Confined fuel root tree members ↔ LinksConfined fuel root tree members := by
  refine ⟨fun h before member after hsplit _ => ?_, fun h => ?_⟩
  · obtain ⟨htouched, hclosed⟩ := h before member after hsplit
    rw [extract_append]
    exact ⟨fun file hfile => htouched file (mem_touched_of_linkedFile hfile), hclosed⟩
  have hnames (member : Member) (hmember : member ∈ members) : .up ∉ stepsOf member.name :=
    up_not_mem_stepsOf ((inspectArchive_eq_ok haccepted _ rfl).names _
      (List.mem_map.mpr ⟨member, hmember, rfl⟩))
  have hstep (before : List Member) (member : Member) (after : List Member)
      (hsplit : members = before ++ member :: after)
      (hbefore : Closed (extract fuel root tree before) root) :
      StepConfined fuel root (extract fuel root tree before) member := by
    cases hkind : member.kind.isLink with
    | true =>
      obtain ⟨hfile, hlinks⟩ := h before member after hsplit hkind
      rw [extract_append] at hlinks
      exact stepConfined_of_link hbefore (hnames member (by simp [hsplit])) hfile hlinks hkind
    | false => exact stepConfined_of_not_link hbefore (hnames member (by simp [hsplit])) hkind
  have hrun (before after : List Member) (hsplit : members = before ++ after) :
      Closed (extract fuel root tree before) root := by
    induction before using List.reverseRecOn generalizing after with
    | nil => exact hclosed
    | append_singleton before member ih =>
      rw [List.append_assoc] at hsplit
      rw [extract_append]
      exact (hstep before member after hsplit (ih _ hsplit)).2
  exact fun before member after hsplit => hstep before member after hsplit (hrun before _ hsplit)

/-- A host with two directories, one of them an empty root. -/
def hostTree : FileTree.Tree Name := fun place =>
  if place = ["etc".toList] ∨ place = ["srv".toList] then some .dir else none

theorem hostTree_closed : Closed hostTree ["srv".toList] := by
  refine closed_of_plain fun place target _ hlink => ?_
  unfold Tree.link? hostTree at hlink
  split_ifs at hlink

/-- A library with its usual second name. -/
def libraryMembers : List Member :=
  [⟨"lib", 0, .dir⟩, ⟨"lib/libx.so.1", 40, .file⟩, ⟨"lib/libx.so", 0, .symlink "libx.so.1"⟩]

theorem confined_iff_library :
    ∃ report, inspectArchive {} 20 (some (namesAndSizes libraryMembers)) = .ok report ∧
      (Confined 40 ["srv".toList] hostTree libraryMembers ↔
        LinksConfined 40 ["srv".toList] hostTree libraryMembers) := by
  have haccepted : inspectArchive {} 20 (some (namesAndSizes libraryMembers)) =
      .ok (some ⟨3, 40, 20⟩) := by
    decide
  exact ⟨_, haccepted, confined_iff haccepted hostTree_closed⟩

/-- A link out of the root and a file through it: the gate accepts both names. -/
def linkedMembers : List Member :=
  [⟨"a", 0, .symlink "/etc"⟩, ⟨"a/passwd", 40, .file⟩]

theorem linked_escapes :
    ¬ ∀ (fuel : Nat) (root : Place Name) (tree : FileTree.Tree Name) (members : List Member)
      (limits : ArchiveLimits) (compressed : Nat) (report : Option ArchiveReport),
      inspectArchive limits compressed (some (namesAndSizes members)) = .ok report →
      Closed tree root → Confined fuel root tree members := by
  intro h
  have haccepted : inspectArchive {} 20 (some (namesAndSizes linkedMembers)) =
      .ok (some ⟨2, 40, 20⟩) := by
    decide
  have hconfined := h 40 _ _ _ _ _ _ haccepted hostTree_closed [⟨"a", 0, .symlink "/etc"⟩]
    ⟨"a/passwd", 40, .file⟩ [] rfl
  have htouched : ["etc".toList, "passwd".toList] ∈ (extractMember 40 ["srv".toList]
      (extract 40 ["srv".toList] hostTree [⟨"a", 0, .symlink "/etc"⟩])
      ⟨"a/passwd", 40, .file⟩).2 := by
    decide +kernel
  exact absurd (hconfined.1 _ htouched) (by decide)

end Containment

end DistPlatform.Ingest
