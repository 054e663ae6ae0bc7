import Myscm.Library.Subtree

/-!
Owns programs that change nothing outside one directory, which a text leads to.

Owns: where texts behind it are located; calls on them; making directories below it.

Does not own: when the programs fail.
-/

namespace Myscm.Library

namespace Fs

section Located

variable {fs : Fs} {s name : Str} {root finish : Path} (lead : Leads fs s root)
include lead

theorem Leads.locate_slash {follow : Bool} :
    fs.locate follow (s ++ '/' :: name) =
      fs.walk follow maxSymlinks (fs.textStart s) (s.splitOn '/' ++ name.splitOn '/') := by
  have head : (s ++ '/' :: name).head? = s.head? := List.head?_append_of_ne_nil _ lead.ne_nil
  rw [locate_eq (by simp), textStart, head, List.splitOn_append_cons_self]
  rfl

/-- The text itself names the directory. -/
theorem Leads.locate (noLink : fs.targetAt root = none) (follow : Bool) :
    fs.locate follow s = some root := by
  rw [locate_eq lead.ne_nil]
  exact PiecesLead.walk lead noLink follow

variable (noUp : ['.', '.'] ∉ Str.parts name)
include noUp

/-- A text behind it names what its own names say, where they meet no link. -/
theorem Leads.locate_join {follow : Bool} (clear : Clear fs root (Str.parts name))
    (located : fs.locate follow (s ++ '/' :: name) = some finish) :
    finish = root ++ Str.parts name := by
  rw [lead.locate_slash] at located
  exact PiecesLead.walk_names lead (.inl (List.splitOn_ne_nil _ _)) noUp clear located

theorem Leads.locate_behind (clear : Clear fs root (Str.parts name))
    (located : fs.locate true (Str.behind s name) = some finish) :
    finish = root ++ Str.parts name := by
  by_cases empty : name = []
  · rw [empty, Str.behind_nil, lead.locate clear.noLink] at located
    rw [empty, Str.parts_nil, List.append_nil]
    exact (Option.some.inj located).symm
  · rw [Str.behind_of_ne empty] at located
    exact lead.locate_join noUp clear located

/-- A last name is not followed where links are not. -/
theorem Leads.locate_last {rest : List Str} {last : Str} (split : name.splitOn '/' = rest ++ [last])
    (named : ¬ Idle last) (clear : Clear fs root (names rest))
    (located : fs.locate false (s ++ '/' :: name) = some finish) :
    finish = root ++ Str.parts name := by
  rw [lead.locate_slash, split] at located
  rw [Str.parts, split] at noUp ⊢
  exact PiecesLead.walk_last lead named noUp clear located

end Located

/-! ## Texts put together from pieces -/

section Pieces

theorem splitOn_piecesText (absolute : Bool) {pieces : List Str} (more : pieces ≠ [])
    (noSlash : ∀ piece ∈ pieces, '/' ∉ piece) :
    (piecesText absolute pieces).splitOn '/' = (if absolute then [[]] else []) ++ pieces := by
  have split := List.splitOn_intercalate '/' noSlash more
  cases absolute with
  | false => exact split
  | true =>
      have slash : piecesText true pieces = [] ++ '/' :: ['/'].intercalate pieces := rfl
      rw [slash, List.splitOn_append_cons_self, split]
      rfl

theorem isAbs_iff_head? (s : Str) : Str.isAbs s = true ↔ s.head? = some '/' := by
  cases s with
  | nil => simp [Str.isAbs, Str.startsWith, List.isPrefixOf]
  | cons c rest =>
      have same : Str.isAbs (c :: rest) = ('/' == c) := by
        simp [Str.isAbs, Str.startsWith, List.isPrefixOf]
      rw [same, beq_iff_eq, List.head?_cons, Option.some.injEq]
      exact eq_comm

/-- A text starts with a slash where it has no first piece. -/
theorem head?_eq_slash_iff {s : Str} (nonempty : s ≠ []) :
    s.head? = some '/' ↔ (s.splitOn '/').head? = some [] := by
  cases s with
  | nil => exact absurd rfl nonempty
  | cons c rest =>
      rw [List.splitOn_cons_eq_if_modifyHead]
      cases pieces : rest.splitOn '/' with
      | nil => exact absurd pieces (List.splitOn_ne_nil _ _)
      | cons first later => by_cases slash : c = '/' <;> simp [slash]

theorem textStart_eq (fs : Fs) (s : Str) :
    fs.textStart s = if Str.isAbs s then [] else fs.cwd := by
  simp only [textStart, isAbs_iff_head?]

theorem piecesText_ne_nil {absolute : Bool} {pieces : List Str} (more : pieces ≠ [])
    (solid : ∀ piece ∈ pieces, piece ≠ [] ∧ '/' ∉ piece) : piecesText absolute pieces ≠ [] := by
  intro empty
  have split := splitOn_piecesText absolute more fun piece member => (solid piece member).2
  obtain ⟨first, later, rfl⟩ := List.exists_cons_of_ne_nil more
  have text : first ≠ [] := (solid first List.mem_cons_self).1
  rw [empty, List.splitOn_nil] at split
  cases absolute <;> simp [Ne.symm text] at split

/-- A text of pieces is walked along them. -/
theorem locate_piecesText {fs : Fs} {follow : Bool} {absolute : Bool} {pieces : List Str}
    (more : pieces ≠ []) (solid : ∀ piece ∈ pieces, piece ≠ [] ∧ '/' ∉ piece) :
    fs.locate follow (piecesText absolute pieces) =
      fs.walk follow maxSymlinks (if absolute then [] else fs.cwd)
        ((if absolute then [[]] else []) ++ pieces) := by
  have split := splitOn_piecesText absolute more fun piece member => (solid piece member).2
  have nonempty : piecesText absolute pieces ≠ [] := piecesText_ne_nil more solid
  obtain ⟨first, later, rfl⟩ := List.exists_cons_of_ne_nil more
  have text : first ≠ [] := (solid first List.mem_cons_self).1
  have head : (piecesText absolute (first :: later)).head? = some '/' ↔ absolute = true := by
    rw [head?_eq_slash_iff nonempty, split]
    cases absolute <;> simp [text]
  rw [locate_eq nonempty, split, textStart]
  simp only [head]

theorem solid_of_mem {s piece : Str} (member : piece ∈ (s.splitOn '/').filter (· ≠ [])) :
    piece ≠ [] ∧ '/' ∉ piece := by
  obtain ⟨inText, nonempty⟩ := List.mem_filter.mp member
  exact ⟨by simpa using nonempty, not_mem_of_mem_splitOn inText⟩

/-- The pieces of a text without the empty ones, but for that of a leading slash. -/
def solidPieces (s : Str) : List Str :=
  (if Str.isAbs s then [[]] else []) ++ (s.splitOn '/').filter (· ≠ [])

variable {fs : Fs} {s : Str} {root : Path} (lead : Leads fs s root)
include lead

theorem Leads.pieces_ne_nil : (s.splitOn '/').filter (· ≠ []) ≠ [] :=
  filter_ne_nil lead.solid (List.splitOn_ne_nil _ _)

theorem Leads.filter : PiecesLead fs (fs.textStart s) (solidPieces s) root := by
  have lead' : PiecesLead fs (fs.textStart s) (s.splitOn '/') root := lead
  have solid := lead.solid
  unfold solidPieces
  cases absolute : Str.isAbs s with
  | false => exact @PiecesLead.filter _ _ _ _ lead' [] _ rfl solid
  | true =>
      obtain ⟨rest, rfl⟩ : ∃ rest, s = '/' :: rest := by
        have head := (isAbs_iff_head? s).mp absolute
        cases s with
        | nil => cases head
        | cons c rest => exact ⟨rest, by rw [Option.some.inj head]⟩
      have split : ('/' :: rest).splitOn '/' = [[]] ++ rest.splitOn '/' :=
        List.splitOn_append_cons_self [] rest
      rw [split, List.getLast?_append_of_ne_nil _ (List.splitOn_ne_nil _ _)] at solid
      have filtered := lead'.filter split solid
      rw [split]
      exact filtered

theorem Leads.solid_append {rest : List Str} (solid : ∀ piece ∈ rest, piece ≠ [] ∧ '/' ∉ piece) :
    (s.splitOn '/').filter (· ≠ []) ++ rest ≠ [] ∧
      ∀ piece ∈ (s.splitOn '/').filter (· ≠ []) ++ rest, piece ≠ [] ∧ '/' ∉ piece := by
  refine ⟨List.append_ne_nil_of_left_ne_nil lead.pieces_ne_nil _, fun piece member => ?_⟩
  rcases List.mem_append.mp member with inFront | inRest
  · exact solid_of_mem inFront
  · exact solid piece inRest

/-- The text of the pieces of a text and further ones is walked as the text is. -/
theorem Leads.locate_pieces {follow : Bool} {rest : List Str}
    (solid : ∀ piece ∈ rest, piece ≠ [] ∧ '/' ∉ piece) :
    fs.locate follow (piecesText (Str.isAbs s) ((s.splitOn '/').filter (· ≠ []) ++ rest)) =
      fs.walk follow maxSymlinks (fs.textStart s) (solidPieces s ++ rest) := by
  obtain ⟨more, allSolid⟩ := lead.solid_append solid
  rw [locate_piecesText more allSolid, textStart_eq, solidPieces, List.append_assoc]

end Pieces

/-! ## Calls -/

/-- The call changes the node the text names, and makes no link of it. -/
def Touching (s : Str) (call : Fs → Option Fs) : Prop :=
  ∀ fs next, call fs = some next → ∃ path, fs.locate true s = some path ∧ Touches fs next path

theorem touching_create {node : Node} (noLink : node.target? = none) (s : Str) :
    Touching s (Fs.create · s node) := by
  intro fs next created
  obtain ⟨path, located, missing, touches⟩ := touches_of_create noLink created
  exact ⟨path, locate_follow (targetAt_of_none missing) located, touches⟩

theorem touching_mkdir (mode : Nat) (s : Str) : Touching s (Fs.mkdir mode s) :=
  touching_create rfl s

theorem touching_openTruncating (mode : Nat) (s : Str) : Touching s (Fs.openTruncating mode s) :=
  fun _ _ => touches_of_openTruncating

theorem touching_setContent (content : List UInt8) (s : Str) :
    Touching s (Fs.setContent content s) :=
  fun _ _ => touches_of_setContent

theorem touching_chmod (mode : Int) (s : Str) : Touching s (Fs.chmod mode s) :=
  fun _ _ => touches_of_chmod

theorem touching_chown (uid gid : Int) (s : Str) : Touching s (Fs.chown true uid gid s) :=
  fun _ _ => touches_of_chown

/-- Where the file system is contained, the text names nothing outside. -/
def Stays (root : Path) (places : List Path) (start : Fs) (s : Str) : Prop :=
  ∀ fs path, Contained root places start fs → fs.locate true s = some path → root <+: path

section Programs

variable {ε : Type} {osError : ε} {start : Fs} {s : Str} {root : Path} {places : List Path}

theorem contained_sys {text : Str} (stays : Stays root places start text) {call : Fs → Option Fs}
    (touching : Touching text call) :
    Prog.Always (Contained root places start) (sys osError call) := by
  apply always_sys
  intro fs next contained called
  obtain ⟨path, located, touches⟩ := touching fs next called
  exact contained.of_touches (stays fs path contained located) touches

/-- Names below the directory that pass no place a link may stand at. -/
structure Inside (places : List Path) (parts : Path) : Prop where
  noUp : ['.', '.'] ∉ parts
  free : ∀ front, front <+: parts → front ∉ places

theorem Inside.clear {parts : Path} (inside : Inside places parts) {fs : Fs}
    (contained : Contained root places start fs) : Clear fs root parts :=
  contained.clear inside.free

theorem Inside.mono {parts fewer : Path} (inside : Inside places parts)
    (isPrefix : fewer <+: parts) : Inside places fewer where
  noUp member := inside.noUp (isPrefix.subset member)
  free front isFront := inside.free front (isFront.trans isPrefix)

theorem contained_makeLast {text : Str} (stays : Stays root places start text) (mode : Nat)
    (existOk : Bool) :
    Prog.Always (Contained root places start)
      (makedirsPieces.makeLast osError mode existOk text) := by
  refine Prog.always_handle (contained_sys stays (touching_mkdir mode text)) fun failure => ?_
  refine Prog.always_andThen (Prog.always_reads _ _) fun there => ?_
  split
  · exact Prog.always_ret _ _
  · exact Prog.always_raise _ _

variable (lead : Leads start s root)
include lead

theorem stays_behind {name : Str} (inside : Inside places (Str.parts name)) :
    Stays root places start (Str.behind s name) := by
  intro fs path contained located
  have here := (lead.congr contained.outside).locate_behind inside.noUp (inside.clear contained)
    located
  exact here ▸ List.prefix_append _ _

theorem stays_join {name : Str} (inside : Inside places (Str.parts name)) :
    Stays root places start (s ++ '/' :: name) := by
  intro fs path contained located
  have here := (lead.congr contained.outside).locate_join inside.noUp (inside.clear contained)
    located
  exact here ▸ List.prefix_append _ _

theorem stays_pieces {rest : List Str} (inside : Inside places (names rest))
    (solid : ∀ piece ∈ rest, piece ≠ [] ∧ '/' ∉ piece) :
    Stays root places start
      (piecesText (Str.isAbs s) ((s.splitOn '/').filter (· ≠ []) ++ rest)) := by
  intro fs path contained located
  have leadHere := lead.congr contained.outside
  rw [leadHere.locate_pieces solid] at located
  have here := leadHere.filter.walk_names (.inr rfl) inside.noUp (inside.clear contained) located
  exact here ▸ List.prefix_append _ _

/-- The directory that the text leads to has a directory above it. -/
theorem pathExists_above (noLink : start.targetAt root = none) {front : List Str} {last : Str}
    (split : (s.splitOn '/').filter (· ≠ []) = front ++ [last]) :
    piecesText (Str.isAbs s) front = [] ∨
      start.pathExists (piecesText (Str.isAbs s) front) = true := by
  have pieces : solidPieces s = ((if Str.isAbs s then [[]] else []) ++ front) ++ [last] := by
    rw [solidPieces, split, List.append_assoc]
  obtain ⟨dir, walked, isDir⟩ := lead.filter.parent noLink pieces
  have exists_of_locate {text : Str} (located : start.locate true text = some dir) :
      start.pathExists text = true := by
    rw [pathExists, stat, located]
    exact isSome_of_isDirAt isDir
  rw [textStart_eq] at walked
  by_cases alone : front = []
  · subst alone
    cases absolute : Str.isAbs s with
    | false => exact .inl rfl
    | true =>
        right
        have root : start.locate true (piecesText true []) = some [] :=
          locate_text (isSome_of_isDirAt start.root) (.inr (targetAt_of_isDirAt start.root))
        rw [pathExists, stat, root]
        exact isSome_of_isDirAt start.root
  · right
    apply exists_of_locate
    rw [locate_piecesText alone, walked]
    intro piece member
    exact solid_of_mem (split ▸ List.mem_append_left _ member)

omit lead in
/-- A text that leads to a directory does so without slashes at its end. -/
theorem pathExists_rstripChars {fs : Fs} {text : Str} {dir : Path}
    (located : fs.locate true text = some dir) (isDir : fs.isDirAt dir = true) :
    Str.rstripChars ['/'] text = [] ∨ fs.pathExists (Str.rstripChars ['/'] text) = true := by
  induction text using List.reverseRecOn generalizing dir with
  | nil => exact .inl rfl
  | append_singleton front c inductionHypothesis =>
      by_cases slash : c = '/'
      · subst slash
        rw [Str.rstripChars, List.rdropWhile_concat_pos _ _ _ (by decide)]
        by_cases empty : front = []
        · exact .inl (by rw [empty]; rfl)
        · rw [locate_eq (by simp), List.splitOn_append_cons_self, List.splitOn_nil,
            textStart, List.head?_append_of_ne_nil _ empty] at located
          obtain ⟨above, walked, aboveDir⟩ := walks_snoc (walks_of_walk located)
          exact inductionHypothesis ((locate_eq empty).trans walked) aboveDir
      · right
        rw [Str.rstripChars, List.rdropWhile_concat_neg _ _ _ (by simpa using slash), pathExists,
          stat, located]
        exact isSome_of_isDirAt isDir

/-- The directory of the text is there, or the text has none. -/
theorem pathExists_dirname (noLink : start.targetAt root = none) :
    Str.dirname s = [] ∨ start.pathExists (Str.dirname s) = true := by
  obtain ⟨front, last, split⟩ : ∃ front last, s.splitOn '/' = front ++ [last] := by
    rcases List.eq_nil_or_concat (s.splitOn '/') with none | ⟨front, last, some⟩
    · exact absurd none (List.splitOn_ne_nil _ _)
    · exact ⟨front, last, by rw [some, List.concat_eq_append]⟩
  have noSlash : '/' ∉ last := not_mem_of_mem_splitOn (split ▸ List.mem_append_right _ (by simp))
  obtain ⟨dir, walked, isDir⟩ := PiecesLead.parent lead noLink split
  by_cases alone : front = []
  · left
    rw [Str.dirname, split, alone]
    rfl
  · let text := ['/'].intercalate front
    have whole : s = text ++ '/' :: last := by
      rw [← @List.intercalate_splitOn _ s _ _ '/', split, intercalate_append alone (by simp),
        List.intercalate_singleton]
    have pieces : text.splitOn '/' = front := by
      apply List.splitOn_intercalate _ _ alone
      intro piece member
      exact not_mem_of_mem_splitOn (split ▸ List.mem_append_left _ member)
    have startOf {tail : Str} : start.textStart (text ++ '/' :: tail) = start.textStart s := by
      rw [whole, textStart, textStart]
      cases text <;> rfl
    right
    rw [whole, Str.dirname_slash noSlash]
    split
    · -- Only slashes are left, which stand for the root.
      have extends_self : Extends start start := ⟨fun _ => id, fun _ _ => id, fun _ _ _ => id⟩
      obtain ⟨fewer, same⟩ := @walk_append _ true _ _ _ extends_self _ [[]] _ (.inr rfl)
        (walks_of_walk walked)
      rw [walk_idle isDir (.inl rfl), walk_nil] at same
      rw [pathExists, stat, locate_eq (by simp), startOf, List.splitOn_append_cons_self, pieces,
        List.splitOn_nil, same]
      exact isSome_of_isDirAt isDir
    · rename_i kept
      have more : text ≠ [] := fun empty => kept (by rw [empty]; rfl)
      have startText : start.textStart text = start.textStart s := by
        rw [← @startOf [], textStart, textStart, List.head?_append_of_ne_nil _ more]
      have located : start.locate true text = some dir := by
        rw [locate_eq more, startText, pieces]
        exact walked
      exact (pathExists_rstripChars located isDir).resolve_left kept

omit lead in
theorem filter_splitOn_behind (s name : Str) :
    ((Str.behind s name).splitOn '/').filter (· ≠ []) =
      (s.splitOn '/').filter (· ≠ []) ++ (name.splitOn '/').filter (· ≠ []) := by
  by_cases empty : name = []
  · subst empty
    rw [Str.behind_nil]
    simp
  · rw [Str.behind_of_ne empty, List.splitOn_append_cons_self, List.filter_append]

theorem isAbs_behind (name : Str) : Str.isAbs (Str.behind s name) = Str.isAbs s := by
  have head : (Str.behind s name).head? = s.head? := by
    unfold Str.behind
    split
    · rfl
    · exact List.head?_append_of_ne_nil _ lead.ne_nil
  rw [Bool.eq_iff_iff, isAbs_iff_head?, isAbs_iff_head?, head]

theorem makedirs_behind (mode : Nat) (existOk : Bool) (name : Str) :
    makedirs osError mode existOk (Str.behind s name) =
      makedirsPieces osError mode existOk (Str.isAbs s)
        ((s.splitOn '/').filter (· ≠ []) ++ (name.splitOn '/').filter (· ≠ [])).reverse := by
  rw [makedirs, filter_splitOn_behind, isAbs_behind lead]

/-- Only the directory itself may be missing: above it there is one already. -/
theorem makedirsPieces_self (noLink : start.targetAt root = none) (mode : Nat) (existOk : Bool) :
    makedirsPieces osError mode existOk (Str.isAbs s)
        ((s.splitOn '/').filter (· ≠ [])).reverse start =
      makedirsPieces.makeLast osError mode existOk
        (piecesText (Str.isAbs s) ((s.splitOn '/').filter (· ≠ []))) start := by
  obtain ⟨front, last, split⟩ : ∃ front last,
      (s.splitOn '/').filter (· ≠ []) = front ++ [last] := by
    rcases List.eq_nil_or_concat ((s.splitOn '/').filter (· ≠ [])) with none | ⟨front, last, some⟩
    · exact absurd none lead.pieces_ne_nil
    · exact ⟨front, last, by rw [some, List.concat_eq_append]⟩
  have above := pathExists_above lead noLink split
  rw [split, List.reverse_append, List.reverse_singleton, List.singleton_append, makedirsPieces,
    List.reverse_reverse, List.reverse_cons, List.reverse_reverse, Prog.bind_eq,
    Prog.reads_andThen, if_pos (by simpa using above)]

theorem contained_makedirs {name : Str} (inside : Inside places (Str.parts name)) (mode : Nat)
    (existOk : Bool) :
    Prog.Always (Contained root places start)
      (makedirs osError mode existOk (Str.behind s name)) := by
  rw [Str.parts, ← names_filter] at inside
  have solid : ∀ piece ∈ (name.splitOn '/').filter (· ≠ []), piece ≠ [] ∧ '/' ∉ piece :=
    fun _ => solid_of_mem
  rw [makedirs_behind lead]
  generalize (name.splitOn '/').filter (· ≠ []) = rest at inside solid
  induction rest using List.reverseRecOn with
  | nil =>
      have self := @contained_makeLast _ osError _ _ _ _ (stays_pieces lead inside solid) mode
        existOk
      rw [List.append_nil] at self ⊢
      intro fs contained state member
      rw [makedirsPieces_self (lead.congr contained.outside) (inside.clear contained).noLink] at member
      exact self fs contained state member
  | append_singleton front last inductionHypothesis =>
      have insideFront : Inside places (names front) :=
        inside.mono (names_append front [last] ▸ List.prefix_append _ _)
      have above := inductionHypothesis insideFront fun piece member =>
        solid piece (List.mem_append_left _ member)
      have self := @contained_makeLast _ osError _ _ _ _ (stays_pieces lead inside solid) mode
        existOk
      rw [← List.append_assoc] at self ⊢
      rw [List.reverse_append, List.reverse_singleton, List.singleton_append, makedirsPieces,
        List.reverse_reverse, List.reverse_cons, List.reverse_reverse]
      refine Prog.always_andThen (Prog.always_reads _ _) fun there => ?_
      split
      · exact self
      · refine Prog.always_andThen above fun _ => ?_
        split
        · exact Prog.always_ret _ _
        · exact self

omit lead in
/-- Where the directory is missing, so is all behind it. -/
theorem walk_of_missing (missing : start.node root = none) {front rest : List Str}
    (leads : PiecesLead start (start.textStart s) front root) :
    (start.walk true maxSymlinks (start.textStart s) (front ++ rest)).bind start.node = none := by
  obtain ⟨fewer, same⟩ := @PiecesLead.append _ _ _ _ leads (targetAt_of_none missing) true rest
    (.inr rfl)
  rw [same]
  cases rest with
  | nil =>
      rw [walk_nil]
      exact missing
  | cons first later =>
      rw [walk_cons, if_pos (isDirAt_of_none missing)]
      rfl

theorem pathExists_behind_of_missing (missing : start.node root = none) (name : Str) :
    start.pathExists (Str.behind s name) = false := by
  by_cases empty : name = []
  · rw [empty, Str.behind_nil, pathExists, stat, lead.locate (targetAt_of_none missing) true]
    rw [Option.bind_some, missing]
    rfl
  · rw [Str.behind_of_ne empty, pathExists, stat, lead.locate_slash,
      walk_of_missing missing lead]
    rfl

/-- Where the directory is missing, it is made first. -/
theorem exists_root_of_makedirs (missing : start.node root = none) (mode : Nat) (existOk : Bool)
    (name : Str) :
    ∃ state ∈ (makedirs osError mode existOk (Str.behind s name) start).states,
      (state.node root).isSome = true := by
  have noLink := targetAt_of_none missing
  have solid : ∀ piece ∈ (name.splitOn '/').filter (· ≠ []), piece ≠ [] ∧ '/' ∉ piece :=
    fun _ => solid_of_mem
  rw [makedirs_behind lead]
  generalize (name.splitOn '/').filter (· ≠ []) = rest at solid
  induction rest using List.reverseRecOn with
  | nil =>
      rw [List.append_nil, makedirsPieces_self lead noLink]
      have located := @Leads.locate_pieces _ _ _ lead false _ solid
      rw [List.append_nil, List.append_nil, lead.filter.walk noLink false] at located
      obtain ⟨next, placed⟩ := Option.isSome_iff_exists.mp (place_isSome_of_locate
        ⟨.directory, mode, 0, 0, 2⟩ located fun _ => rfl)
      have made : start.mkdir mode
          (piecesText (Str.isAbs s) ((s.splitOn '/').filter (· ≠ []))) = some next := by
        rw [mkdir, create, located, Option.bind_some, if_neg (by simp [missing])]
        exact placed
      refine ⟨next, Prog.mem_states_handle
        (Prog.mem_states_step ((ends_sys_iff osError _ _ _).mpr made)), ?_⟩
      rw [node_of_place placed, if_pos rfl]
      rfl
  | append_singleton front last inductionHypothesis =>
      have solidFront : ∀ piece ∈ front, piece ≠ [] ∧ '/' ∉ piece :=
        fun piece inFront => solid piece (List.mem_append_left _ inFront)
      have there : start.pathExists
          (piecesText (Str.isAbs s) ((s.splitOn '/').filter (· ≠ []) ++ front)) = false := by
        rw [pathExists, stat, lead.locate_pieces solidFront,
          walk_of_missing missing lead.filter]
        rfl
      obtain ⟨more, allSolid⟩ := lead.solid_append solidFront
      have text := @piecesText_ne_nil (Str.isAbs s) _ more allSolid
      rw [← List.append_assoc, List.reverse_append, List.reverse_singleton, List.singleton_append,
        makedirsPieces, List.reverse_reverse, Prog.bind_eq, Prog.reads_andThen, there,
        decide_eq_false text, if_neg (by decide)]
      obtain ⟨state, member, made⟩ := inductionHypothesis solidFront
      exact ⟨state, Prog.mem_states_andThen_left member, made⟩

end Programs

end Fs

end Myscm.Library
