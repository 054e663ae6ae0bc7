import Myscm.Client.SysImgExtractor
import Myscm.Library.Removal

/-!
Owns where an archive is extracted to.

Owns: archives whose names stay below the directory they are extracted in; that their
extraction changes nothing outside of it.

Does not own: which directory that is.
-/

namespace Myscm.Client

open Myscm.Library Myscm.Library.Fs

/-! ## Members -/

namespace TarInfo

variable (info : TarInfo)

/-- The pieces of the text the member is extracted at. -/
def pieces : List Str := (Str.rstripChars ['/'] info.name).splitOn '/'

/-- The names on the way to the member, and its own unless it is a link itself. -/
def passes : Path :=
  if info.isSym then names info.pieces.dropLast else Str.parts info.name

end TarInfo

namespace Archive

/-- Where the symbolic links of an archive are made. -/
def linkPlaces (archive : Archive) : List Path :=
  (archive.filter fun info => info.isSym ∧ ∀ last ∈ info.pieces.getLast?, ¬ Idle last).map
    fun info => Str.parts info.name

/-- The names of an archive are relative, lead nowhere up, and pass through no symbolic link
of it. So do the names its hard links refer to, which are none of its symbolic links. -/
structure Tame (archive : Archive) : Prop where
  relative : ∀ info ∈ archive, Str.isAbs info.name = false
  noUp : ∀ info ∈ archive, ['.', '.'] ∉ Str.parts info.name
  passes : ∀ info ∈ archive, ∀ front, front <+: info.passes → front ∉ archive.linkPlaces
  sym : ∀ info ∈ archive, info.isSym = true → info.name ≠ []
  lnk : ∀ info ∈ archive, ∀ linkname, info.type = .lnk linkname →
    Str.isAbs linkname = false ∧ Inside archive.linkPlaces (Str.parts linkname) ∧
      ∀ other, archive.findLinkTarget info = some other → other.isSym = false

variable {archive : Archive}

theorem inside_of_not_sym {info : TarInfo} (tame : Tame archive) (member : info ∈ archive)
    (notSym : info.isSym = false) : Inside archive.linkPlaces (Str.parts info.name) where
  noUp := tame.noUp info member
  free front isFront := by
    apply tame.passes info member front
    rwa [TarInfo.passes, if_neg (by simp [notSym])]

/-- Without links, relative names that lead nowhere up are enough. -/
theorem tame_of_no_links (relative : ∀ info ∈ archive, Str.isAbs info.name = false)
    (noUp : ∀ info ∈ archive, ['.', '.'] ∉ Str.parts info.name)
    (noSym : ∀ info ∈ archive, info.isSym = false)
    (noLnk : ∀ info ∈ archive, ∀ linkname, info.type ≠ .lnk linkname) : Tame archive where
  relative := relative
  noUp := noUp
  passes info member front _ isPlace := by
    obtain ⟨other, isLink, _⟩ := List.mem_map.mp isPlace
    obtain ⟨inArchive, isSym⟩ := List.mem_filter.mp isLink
    have both := of_decide_eq_true isSym
    rw [noSym other inArchive] at both
    cases both.1
  sym info member isSym := by
    rw [noSym info member] at isSym
    cases isSym
  lnk info member linkname isLnk := absurd isLnk (noLnk info member linkname)

theorem mem_of_getNormalized {name : Str} {info : TarInfo}
    (found : archive.getNormalized name = some info) : info ∈ archive :=
  List.mem_reverse.mp (List.mem_of_find?_eq_some found)

theorem mem_of_findLinkTarget {info other : TarInfo}
    (found : archive.findLinkTarget info = some other) : other ∈ archive := by
  unfold findLinkTarget at found
  split at found
  · exact mem_of_getNormalized found
  · exact (List.takeWhile_prefix _).subset (mem_of_getNormalized found)
  · cases found

end Archive

/-! ## One member -/

section Extraction

variable (umask : Nat)

/-- The directories above the place of a member are made where they are missing. -/
def makeUpperdirs (target : Str) : Prog Fs ClientError Unit := do
  let missing ← Prog.reads fun fs =>
    Str.dirname target ≠ [] && !fs.pathExists (Str.dirname target)
  if missing then makedirs .os (masked umask 0o777) false (Str.dirname target) else Prog.ret ()

/-- What `_extract_member` does behind that, before `attributes` sets owner and mode. -/
def extractInto (archive : Archive) (path : Str) (links : Nat) (info : TarInfo) (target : Str)
    (attributes : Prog Fs ClientError Unit) : Prog Fs ClientError Unit :=
  match info.type with
  | .lnk linkname => do
      let linkTarget := Str.joinPath path linkname
      let there ← Prog.reads fun fs => fs.pathExists linkTarget
      if there then do
        sys .os (link linkTarget target)
        attributes
      else
        match archive.findLinkTarget info with
        | some other => do
            extractMember umask archive path links other target true
            attributes
        | none => Prog.ret ()
  | _ => do
      makeNode umask info target
      attributes

theorem extractMember_succ (archive : Archive) (path : Str) (links : Nat) (info : TarInfo)
    (targetpath : Str) (setAttrs : Bool) :
    extractMember umask archive path (links + 1) info targetpath setAttrs =
      Prog.andThen (makeUpperdirs umask (Str.rstripChars ['/'] targetpath)) fun _ =>
        extractInto umask archive path links info (Str.rstripChars ['/'] targetpath)
          (if setAttrs then setAttributes info (Str.rstripChars ['/'] targetpath)
            else Prog.ret ()) := by
  rw [extractMember, makeUpperdirs, Prog.bind_eq, Prog.bind_eq, Prog.andThen_assoc]
  congr 1
  funext missing
  cases missing with
  | false => rfl
  | true => rfl

theorem setAttributes_eq (info : TarInfo) (target : Str) :
    setAttributes info target =
      Prog.handle
        (Prog.andThen (sys .os (Fs.chown (!info.isSym) info.uid info.gid target)) fun _ =>
          if info.isSym then Prog.ret () else sys .os (Fs.chmod info.mode target))
        fun _ => Prog.ret () := by
  rw [setAttributes]
  rfl

/-- The program changes nothing outside of `root`, and makes links at the places of the
archive alone. -/
abbrev Keeps {α : Type} (archive : Archive) (root : Path) (start : Fs)
    (program : Prog Fs ClientError α) : Prop :=
  Prog.Always (Contained root archive.linkPlaces start) program

section Contained

variable {umask : Nat} {archive : Archive} {dir : Str} {root : Path} {start : Fs}

/-! ## A member that is no symbolic link -/

theorem keeps_setAttributes {info : TarInfo} (notSym : info.isSym = false) {target : Str}
    (stays : Stays root archive.linkPlaces start target) :
    Keeps archive root start (setAttributes info target) := by
  rw [setAttributes_eq, notSym]
  refine Prog.always_handle ?_ fun _ => Prog.always_ret _ _
  exact Prog.always_andThen (contained_sys stays (touching_chown _ _ _)) fun _ =>
    contained_sys stays (touching_chmod _ _)

theorem keeps_makeNode {info : TarInfo} (notSym : info.isSym = false) {target : Str}
    (stays : Stays root archive.linkPlaces start target) :
    Keeps archive root start (makeNode umask info target) := by
  unfold makeNode
  split
  · exact Prog.always_andThen (contained_sys stays (touching_openTruncating _ _)) fun _ =>
      contained_sys stays (touching_setContent _ _)
  · refine Prog.always_handle (contained_sys stays (touching_mkdir _ _)) fun failure => ?_
    refine Prog.always_andThen (Prog.always_reads _ _) fun there => ?_
    split
    · exact Prog.always_ret _ _
    · exact Prog.always_raise _ _
  · rename_i isSym
    simp [TarInfo.isSym, isSym] at notSym
  · exact contained_sys stays (touching_create rfl _)
  · exact contained_sys stays (touching_create rfl _)
  · exact contained_sys stays (touching_create rfl _)
  · exact Prog.always_ret _ _

variable (lead : Leads start dir root)
include lead

/-- A hard link is made to a node that is no symbolic link. -/
theorem keeps_link {linkname target : Str} (relative : Str.isAbs linkname = false)
    (inside : Inside archive.linkPlaces (Str.parts linkname))
    (stays : Stays root archive.linkPlaces start target) :
    Keeps archive root start (sys .os (link (Str.joinPath dir linkname) target)) := by
  apply always_sys
  intro fs next contained linked
  have leadHere := lead.congr contained.outside
  rw [Str.joinPath_of_open lead.isOpen lead.ne_nil relative] at linked
  obtain ⟨node, found, linked⟩ := Option.bind_eq_some_iff.mp linked
  split at linked
  · cases linked
  · obtain ⟨source, located, here⟩ := Option.bind_eq_some_iff.mp found
    have noTarget : node.target? = none := by
      have clear := inside.clear contained
      rw [leadHere.locate_join inside.noUp clear located] at here
      rw [← targetAt_of_node here]
      exact clear _ (List.prefix_refl _)
    obtain ⟨path, placed, touches⟩ := touching_create noTarget target fs next linked
    exact contained.of_touches (stays fs path contained placed) touches

theorem keeps_makeUpperdirs {name : Str}
    (inside : Inside archive.linkPlaces (names (name.splitOn '/').dropLast)) :
    Keeps archive root start (makeUpperdirs umask (Str.behind dir name)) := by
  by_cases empty : name = []
  · intro fs contained state member
    have noLink := (inside.clear contained).noLink
    have there := pathExists_dirname (lead.congr contained.outside) noLink
    rw [empty, Str.behind_nil, makeUpperdirs, Prog.bind_eq, Prog.reads_andThen, if_neg] at member
    · cases member
    · rcases there with none | present
      · simp [none]
      · simp [present]
  · obtain ⟨text, isDirname, _, names⟩ := Str.dirname_behind lead.isOpen lead.ne_nil empty
    rw [← names] at inside
    rw [makeUpperdirs, isDirname]
    refine Prog.always_andThen (Prog.always_reads _ _) fun missing => ?_
    split
    · exact contained_makedirs lead inside _ _
    · exact Prog.always_ret _ _

theorem keeps_extractMember (tame : archive.Tame) {links : Nat} {info : TarInfo}
    (member : info ∈ archive) (notSym : info.isSym = false) {name targetpath : Str}
    (isOpen : Str.Open name) (inside : Inside archive.linkPlaces (Str.parts name))
    (isTarget : Str.rstripChars ['/'] targetpath = Str.behind dir name) (setAttrs : Bool) :
    Keeps archive root start (extractMember umask archive dir links info targetpath setAttrs) := by
  induction links generalizing info targetpath setAttrs with
  | zero => exact Prog.always_raise _ _
  | succ links inductionHypothesis =>
      have stays := stays_behind lead inside
      have above := inside.mono ((List.dropLast_prefix (name.splitOn '/')).filter _)
      have attributes :
          Keeps archive root start
            (if setAttrs then setAttributes info (Str.behind dir name) else Prog.ret ()) := by
        split
        · exact keeps_setAttributes notSym stays
        · exact Prog.always_ret _ _
      rw [extractMember_succ, isTarget]
      refine Prog.always_andThen (keeps_makeUpperdirs lead above) fun _ => ?_
      generalize (if setAttrs then setAttributes info (Str.behind dir name)
        else Prog.ret ()) = settings at attributes ⊢
      unfold extractInto
      split
      · rename_i linkname isLink
        obtain ⟨relative, linkInside, targets⟩ := tame.lnk info member linkname isLink
        refine Prog.always_andThen (Prog.always_reads _ _) fun there => ?_
        split
        · exact Prog.always_andThen (keeps_link lead relative linkInside stays) fun _ => attributes
        · split
          · rename_i other found
            have stripped : Str.rstripChars ['/'] (Str.behind dir name) = Str.behind dir name :=
              Str.rstripChars_of_open (Str.open_behind lead.isOpen isOpen)
            exact Prog.always_andThen
              (inductionHypothesis (Archive.mem_of_findLinkTarget found) (targets other found)
                stripped true)
              fun _ => attributes
          · exact Prog.always_ret _ _
      · exact Prog.always_andThen (keeps_makeNode notSym stays) fun _ => attributes

end Contained

/-! ## A symbolic link -/

section SymbolicLink

variable {umask : Nat} {archive : Archive} {dir : Str} {root : Path} {start : Fs} {info : TarInfo}
  (lead : Leads start dir root) (tame : archive.Tame) (member : info ∈ archive)
  (isSym : info.isSym = true)
include lead tame member isSym

omit lead in
theorem stripped_ne_nil : Str.rstripChars ['/'] info.name ≠ [] :=
  Str.rstripChars_ne_nil (tame.relative info member) (tame.sym info member isSym)

omit lead in
theorem inside_passes : Inside archive.linkPlaces (names info.pieces.dropLast) where
  noUp inFront := by
    have above : names info.pieces.dropLast <+: Str.parts info.name := by
      rw [← Str.parts_rstripChars]
      exact (List.dropLast_prefix _).filter _
    exact tame.noUp info member (above.subset inFront)
  free front isFront := by
    apply tame.passes info member front
    rwa [TarInfo.passes, if_pos isSym]

/-- Where a member that is a symbolic link is placed. -/
theorem place_of_sym {fs : Fs} (contained : Contained root archive.linkPlaces start fs)
    {path : Path}
    (located : fs.locate false (Str.behind dir (Str.rstripChars ['/'] info.name)) = some path) :
    path = root ++ Str.parts info.name ∧
      (fs.node path = none → Str.parts info.name ∈ archive.linkPlaces) := by
  obtain ⟨last, isLast⟩ := Option.ne_none_iff_exists'.mp
    (mt List.getLast?_eq_none_iff.mp (List.splitOn_ne_nil '/' (Str.rstripChars ['/'] info.name)))
  have split : (Str.rstripChars ['/'] info.name).splitOn '/' = info.pieces.dropLast ++ [last] :=
    (List.dropLast_append_getLast? _ isLast).symm
  have leadHere := lead.congr contained.outside
  have clear := (inside_passes tame member isSym).clear contained
  have noUp := tame.noUp info member
  rw [Str.behind_of_ne (stripped_ne_nil tame member isSym)] at located
  rw [← Str.parts_rstripChars] at noUp ⊢
  by_cases idle : Idle last
  · have same : Str.parts (Str.rstripChars ['/'] info.name) = names info.pieces.dropLast := by
      rw [Str.parts, split, names_append, names_cons_idle idle]
      exact List.append_nil _
    refine ⟨leadHere.locate_join noUp (same ▸ clear) located, fun missing => ?_⟩
    rw [leadHere.locate_slash, split, ← List.append_assoc] at located
    have isDir := isDirAt_of_walks_idle idle (walks_of_walk located)
    rw [isDirAt_of_none missing] at isDir
    cases isDir
  · refine ⟨leadHere.locate_last noUp split idle clear located, fun _ => ?_⟩
    rw [Str.parts_rstripChars]
    refine List.mem_map.mpr ⟨info, List.mem_filter.mpr ⟨member, ?_⟩, rfl⟩
    refine decide_eq_true ⟨isSym, fun other isOther => ?_⟩
    have same : some other = some last := isOther.symm.trans isLast
    rwa [Option.some.inj same]

theorem keeps_extractMember_of_sym {links : Nat} {targetpath : Str}
    (isTarget : Str.rstripChars ['/'] targetpath =
      Str.behind dir (Str.rstripChars ['/'] info.name)) (setAttrs : Bool) :
    Keeps archive root start (extractMember umask archive dir links info targetpath setAttrs) := by
  cases links with
  | zero => exact Prog.always_raise _ _
  | succ links =>
      rw [extractMember_succ, isTarget]
      refine Prog.always_andThen
        (keeps_makeUpperdirs lead (inside_passes tame member isSym)) fun _ => ?_
      have attributes :
          Keeps archive root start
            (if setAttrs then
              setAttributes info (Str.behind dir (Str.rstripChars ['/'] info.name))
            else Prog.ret ()) := by
        split
        · rw [setAttributes_eq, isSym]
          refine Prog.always_handle ?_ fun _ => Prog.always_ret _ _
          refine Prog.always_andThen (always_sys fun fs next contained owned => ?_) fun _ =>
            Prog.always_ret _ _
          obtain ⟨path, located, touches⟩ := touches_of_chown owned
          have here := (place_of_sym lead tame member isSym contained located).1
          exact contained.of_touches (here ▸ List.prefix_append _ _) touches
        · exact Prog.always_ret _ _
      generalize (if setAttrs then
          setAttributes info (Str.behind dir (Str.rstripChars ['/'] info.name))
        else Prog.ret ()) = settings at attributes ⊢
      cases type : info.type with
      | sym linkname =>
          rw [extractInto, type]
          refine Prog.always_andThen ?_ fun _ => attributes
          rw [makeNode, type]
          refine always_sys fun fs next contained linked => ?_
          obtain ⟨path, located, placed⟩ := Option.bind_eq_some_iff.mp linked
          have missing : fs.node path = none := by
            split at placed
            · cases placed
            · rename_i free
              simpa using free
          obtain ⟨here, expected⟩ := place_of_sym lead tame member isSym contained located
          exact contained.of_create (here ▸ located) (expected missing) linked
      | _ => simp [TarInfo.isSym, type] at isSym

end SymbolicLink

/-! ## The whole archive -/

section Whole

variable {umask : Nat} {archive : Archive} {dir : Str} {root : Path} {start : Fs}

/-- The extraction of a tame archive changes nothing outside the directory. -/
theorem keeps_extractall (lead : Leads start dir root) (tame : archive.Tame) :
    Keeps archive root start (extractall umask archive dir) := by
  have behind {info : TarInfo} (member : info ∈ archive) :
      Str.joinPath dir info.name = dir ++ '/' :: info.name :=
    Str.joinPath_of_open lead.isOpen lead.ne_nil (tame.relative info member)
  refine Prog.always_andThen (Prog.always_forEach _ fun info member => ?_) fun _ =>
    Prog.always_forEach _ fun info sorted => ?_
  · have isTarget : Str.rstripChars ['/'] (Str.joinPath dir info.name) =
        Str.behind dir (Str.rstripChars ['/'] info.name) := by
      rw [behind member, Str.rstripChars_behind lead.isOpen]
    cases isSym : info.isSym with
    | true => exact keeps_extractMember_of_sym lead tame member isSym isTarget _
    | false =>
        have inside := Archive.inside_of_not_sym tame member isSym
        rw [← Str.parts_rstripChars] at inside
        exact keeps_extractMember lead tame member isSym (Str.open_rstripChars _) inside isTarget _
  · obtain ⟨member, isDir⟩ := List.mem_filter.mp (List.mem_mergeSort.mp (List.mem_reverse.mp sorted))
    have notSym : info.isSym = false := by
      have type : info.type = .dir := by simpa using isDir
      rw [TarInfo.isSym, type]
    rw [behind member]
    exact keeps_setAttributes notSym
      (stays_join lead (Archive.inside_of_not_sym tame member notSym))

/-- A file system without the directory is contained, whatever links there are to be. -/
theorem contained_of_missing {fs : Fs} {places : List Path} (same : SameOutside root start fs)
    (missing : fs.node root = none) : Contained root places start fs where
  outside := same
  links below target link := by
    rw [targetAt_of_none (node_of_missing missing (List.prefix_append root below))] at link
    cases link

end Whole

end Extraction

namespace SysImgExtractor

variable {env : ClientEnv} {options : ClientOptions} {imgName : Str} {archive : Archive} {root : Path}
  {start : Fs}

/-- What `_extract_sys_img` does before it extracts: a directory that is there is removed by
force, or in the way. -/
def clearDir (options : ClientOptions) (imgName : Str) (there : Bool) : Prog Fs ClientError Unit :=
  if there then
    if options.forceApply then
      rmtree .os (extractDir options imgName)
    else
      Prog.raise (.sysImgExtractor
        ("Directory '".toList ++ extractDir options imgName ++
          "' already exists - it may be caused if last system upgrade has failed or ".toList ++
          "was interrupred.".toList))
  else
    Prog.ret ()

theorem extractSysImg_run :
    extractSysImg env options imgName archive start =
      Prog.andThen
        (clearDir options imgName (start.pathExists (extractDir options imgName)))
        (fun _ => Prog.andThen (extractall env.umask archive (extractDir options imgName)) fun _ =>
          Prog.ret (extractDir options imgName)) start := by
  rw [extractSysImg, clearDir, Prog.bind_eq, Prog.reads_andThen]
  cases start.pathExists (extractDir options imgName) with
  | false => rfl
  | true => cases options.forceApply <;> rfl

section

variable (lead : Leads start (extractDir options imgName) root)
  (noLink : start.targetAt root = none)
include lead noLink

theorem pathExists_extractDir :
    start.pathExists (extractDir options imgName) = (start.node root).isSome := by
  rw [pathExists, stat, lead.locate noLink true, Option.bind_some]

theorem sameOutside_clearDir {there : Bool} :
    ∀ state ∈ (clearDir options imgName there start).states, SameOutside root start state := by
  intro state member
  unfold clearDir at member
  split at member
  · split at member
    · exact sameOutside_rmtree lead noLink state member
    · cases member
  · cases member

/-- Where the extraction goes on, there is no such directory. -/
theorem missing_of_clearDir {middle : Fs}
    (ends : Prog.Ends
      (clearDir options imgName (start.pathExists (extractDir options imgName))) start () middle) :
    middle.node root = none := by
  unfold clearDir at ends
  split at ends
  · split at ends
    · exact node_of_rmtree lead noLink ends
    · exact absurd ends (Prog.not_ends_raise _ _ _ _)
  · rename_i missing
    obtain ⟨_, rfl⟩ := (Prog.ends_ret_iff _ _ _ _).mp ends
    rw [pathExists_extractDir lead noLink] at missing
    simpa using missing

theorem contained_of_clearDir {middle : Fs}
    (ends : Prog.Ends
      (clearDir options imgName (start.pathExists (extractDir options imgName))) start () middle) :
    Contained root archive.linkPlaces start middle := by
  apply contained_of_missing _ (missing_of_clearDir lead noLink ends)
  rcases List.mem_cons.mp (Prog.final_mem
    (clearDir options imgName (start.pathExists (extractDir options imgName)) start) start) with
    here | later
  · rw [← ends.2, here]
    exact SameOutside.refl root start
  · rw [← ends.2]
    exact sameOutside_clearDir lead noLink _ later

variable (tame : archive.Tame)
include tame

/-- Every state of the extraction differs from the first one below the directory alone. -/
theorem sameOutside_extractSysImg :
    ∀ state ∈ (extractSysImg env options imgName archive start).states,
      SameOutside root start state := by
  intro state member
  rw [extractSysImg_run] at member
  rcases Prog.mem_states_andThen_cases member with early | ⟨_, middle, cleared, late⟩
  · exact sameOutside_clearDir lead noLink state early
  · have extraction := Prog.always_andThen (@keeps_extractall env.umask _ _ _ _ lead tame)
      fun _ => Prog.always_ret _ (extractDir options imgName)
    exact (extraction middle (contained_of_clearDir lead noLink cleared) state late).outside

theorem contained_of_extractSysImg {finish : Fs} {dir : Str}
    (ends : Prog.Ends (extractSysImg env options imgName archive) start dir finish) :
    dir = extractDir options imgName ∧ Contained root archive.linkPlaces start finish := by
  rw [Prog.Ends, extractSysImg_run] at ends
  obtain ⟨_, middle, cleared, rest⟩ := (Prog.ends_andThen_iff _ _ _ _ _).mp ends
  obtain ⟨_, last, extracted, returned⟩ := (Prog.ends_andThen_iff _ _ _ _ _).mp rest
  obtain ⟨rfl, rfl⟩ := (Prog.ends_ret_iff _ _ _ _).mp returned
  exact ⟨rfl, (keeps_extractall lead tame).ends (contained_of_clearDir lead noLink cleared)
    extracted⟩

end

end SysImgExtractor

end Myscm.Client
