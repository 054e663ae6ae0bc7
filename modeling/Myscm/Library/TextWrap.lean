import Myscm.Library.Text

/-!
Owns `textwrap.wrap` of Python with its default options and one indent.

Owns: white space of the text; the chunks a text may be broken between, hyphens
and dashes included; filling lines; what stands in a line.

Does not own: which characters are word characters, which is given.
-/

namespace Myscm.Library

/-- The classes `\\w` and `\\d` of `re`. -/
structure WordChars where
  isWord : Char → Bool
  isDigit : Char → Bool

namespace TextWrap

/-- The white space of `textwrap`. -/
def whitespace : List Char := ['\t', '\n', '\x0b', '\x0c', '\r', ' ']

def isWhite (c : Char) : Bool := whitespace.contains c

/-- `str.expandtabs` behind `column` characters of a line. -/
def expandTabs : Nat → Str → Str
  | _, [] => []
  | column, c :: rest =>
      if c = '\t' then
        List.replicate (8 - column % 8) ' ' ++ expandTabs 0 rest
      else
        c :: expandTabs (if c = '\n' ∨ c = '\r' then 0 else column + 1) rest

/-- `_munge_whitespace`. -/
def mungeWhitespace (text : Str) : Str :=
  (expandTabs 0 text).map fun c => if isWhite c then ' ' else c

section Chunks

variable (chars : WordChars)

/-- `[^\\d\\W]`. -/
def isLetter (c : Char) : Bool := chars.isWord c && !chars.isDigit c

/-- `[\\w!"'&.,?]`. -/
def isWordPunct (c : Char) : Bool :=
  chars.isWord c || ['!', '"', '\'', '&', '.', ',', '?'].contains c

/-- `-{2,}` in front of a word character: the number of dashes. -/
def dashes (s : Str) : Option Nat :=
  let count := (s.takeWhile (· = '-')).length
  if 2 ≤ count ∧ (s.drop count).head?.any chars.isWord = true then some count else none

/-- A hyphen that may end a chunk: `before` are the characters in front of it, the
nearest first, `after` those behind it. -/
def breaksAtHyphen (before after : Str) : Bool :=
  let front :=
    match before with
    | a :: b :: _ =>
        isLetter chars a && isLetter chars b ||
          isWordPunct chars a && decide (b = '-') &&
            ((before[2]?).any (isLetter chars))
    | _ => false
  let back :=
    match after with
    | a :: b :: _ =>
        isLetter chars a &&
          (isLetter chars b || decide (b = '-') && (after[2]?).any (isLetter chars))
    | _ => false
  front && back

/-- How far a word goes on behind the characters `before`, of which it holds one at least. -/
def wordRest (before : Str) : Str → Nat
  | [] => 0
  | c :: rest =>
      if c = '-' ∧ breaksAtHyphen chars before rest = true then 1
      else if isWhite c then 0
      else if before.head?.any (isWordPunct chars) = true ∧ (dashes chars (c :: rest)).isSome then 0
      else wordRest (c :: before) rest + 1

/-- The length of the chunk a text starts with. -/
def chunkLength (before : Str) : Str → Nat
  | [] => 0
  | c :: rest =>
      if isWhite c then
        ((c :: rest).takeWhile isWhite).length
      else
        match (if before.head?.any (isWordPunct chars) then dashes chars (c :: rest) else none) with
        | some count => count
        | none => wordRest chars (c :: before) rest + 1

/-- `_split`, with a bound on the number of chunks. -/
def splitFrom : Nat → Str → Str → List Str
  | 0, _, _ => []
  | bound + 1, before, s =>
      if s = [] then
        []
      else
        let chunk := s.take (chunkLength chars before s)
        chunk :: splitFrom bound (chunk.reverse ++ before) (s.drop (chunkLength chars before s))

/-- `_split`. -/
def split (text : Str) : List Str :=
  splitFrom chars text.length [] text

end Chunks

/-- The chunks that fit behind `curLen` characters, and those left. -/
def fitChunks (width : Nat) : Nat → List Str → List Str × List Str
  | _, [] => ([], [])
  | curLen, chunk :: chunks =>
      if curLen + chunk.length ≤ width then
        let fitting := fitChunks width (curLen + chunk.length) chunks
        (chunk :: fitting.1, fitting.2)
      else
        ([], chunk :: chunks)

/-- The chunk is white space alone. -/
def isGap (chunk : Str) : Bool := decide (Str.strip chunk = [])

/-- `_handle_long_word`: a chunk longer than a line is broken where the line ends. -/
def handleLongWord (width : Nat) (line : List Str) : List Str → List Str × List Str
  | [] => (line, [])
  | chunk :: rest =>
      if width < chunk.length then
        let room := width - line.flatten.length
        (line ++ [chunk.take room], chunk.drop room :: rest)
      else
        (line, chunk :: rest)

/-- A line without the white space it ends in. -/
def dropGap (line : List Str) : List Str :=
  if (line.getLast?.map isGap).getD false then line.dropLast else line

/-- One line of `_wrap_chunks`, and the chunks left. -/
def wrapLine (width : Nat) (chunks : List Str) : Str × List Str :=
  let fitting := fitChunks width 0 chunks
  let filled := handleLongWord width fitting.1 fitting.2
  ((dropGap filled.1).flatten, filled.2)

/-- `_wrap_chunks` with a bound on the number of lines. -/
def wrapChunks (width : Nat) (indent : Str) : Nat → Bool → List Str → List Str
  | 0, _, _ => []
  | bound + 1, first, chunks =>
      match (if !first && (chunks.head?.map isGap).getD false then chunks.tail else chunks) with
      | [] => []
      | chunk :: later =>
          let (line, rest) := wrapLine (width - indent.length) (chunk :: later)
          if line = [] then wrapChunks width indent bound first rest
          else (indent ++ line) :: wrapChunks width indent bound false rest

/-- `textwrap.wrap(text, width, initial_indent=indent, subsequent_indent=indent)`. -/
def wrap (chars : WordChars) (width : Nat) (indent text : Str) : List Str :=
  let munged := mungeWhitespace text
  wrapChunks width indent (munged.length + 1) true (split chars munged)

/-! ## What stands in a line -/

theorem mem_expandTabs {column : Nat} {text : Str} {c : Char}
    (member : c ∈ expandTabs column text) : c = ' ' ∨ c ∈ text := by
  induction text generalizing column with
  | nil => simp [expandTabs] at member
  | cons d rest inductionHypothesis =>
      unfold expandTabs at member
      split at member
      · rcases List.mem_append.mp member with blank | later
        · exact .inl (List.mem_replicate.mp blank).2
        · exact (inductionHypothesis later).imp_right (List.mem_cons_of_mem d)
      · rcases List.mem_cons.mp member with here | later
        · exact .inr (here ▸ List.mem_cons_self)
        · exact (inductionHypothesis later).imp_right (List.mem_cons_of_mem d)

/-- Of white space only blanks are left. -/
theorem mem_mungeWhitespace {text : Str} {c : Char} (member : c ∈ mungeWhitespace text) :
    c = ' ' ∨ (c ∈ text ∧ isWhite c = false) := by
  obtain ⟨d, expanded, rfl⟩ := List.mem_map.mp member
  split
  · exact .inl rfl
  · rename_i solid
    rcases mem_expandTabs expanded with blank | inText
    · exact .inl blank
    · exact .inr ⟨inText, by simpa using solid⟩

theorem mem_splitFrom {chars : WordChars} {bound : Nat} {before s chunk : Str} {c : Char}
    (chunkMember : chunk ∈ splitFrom chars bound before s) (member : c ∈ chunk) : c ∈ s := by
  induction bound generalizing before s with
  | zero => simp [splitFrom] at chunkMember
  | succ bound inductionHypothesis =>
      unfold splitFrom at chunkMember
      split at chunkMember
      · cases chunkMember
      · rcases List.mem_cons.mp chunkMember with rfl | later
        · exact List.mem_of_mem_take member
        · exact List.mem_of_mem_drop (inductionHypothesis later)

theorem fitChunks_append (width curLen : Nat) (chunks : List Str) :
    (fitChunks width curLen chunks).1 ++ (fitChunks width curLen chunks).2 = chunks := by
  induction chunks generalizing curLen with
  | nil => rfl
  | cons chunk chunks inductionHypothesis =>
      unfold fitChunks
      split
      · simp [inductionHypothesis]
      · rfl

theorem handleLongWord_flatten (width : Nat) (line rest : List Str) :
    (handleLongWord width line rest).1.flatten ++ (handleLongWord width line rest).2.flatten =
      line.flatten ++ rest.flatten := by
  unfold handleLongWord
  cases rest with
  | nil => simp
  | cons chunk later =>
      dsimp only
      split
      · rw [List.flatten_append, List.flatten_cons, List.flatten_nil, List.append_nil,
          List.flatten_cons, List.flatten_cons, List.append_assoc, ← List.append_assoc (List.take _ _),
          List.take_append_drop]
      · rfl

/-- A line and the chunks left hold nothing new. -/
theorem mem_wrapLine {width : Nat} {chunks : List Str} {c : Char}
    (member : c ∈ (wrapLine width chunks).1 ∨ c ∈ (wrapLine width chunks).2.flatten) :
    c ∈ chunks.flatten := by
  have whole := handleLongWord_flatten width (fitChunks width 0 chunks).1
    (fitChunks width 0 chunks).2
  rw [← @List.flatten_append _ (fitChunks width 0 chunks).1, fitChunks_append] at whole
  rw [← whole]
  apply List.mem_append.mpr
  rcases member with inLine | left
  · left
    unfold wrapLine dropGap at inLine
    dsimp only at inLine
    split at inLine
    · obtain ⟨chunk, chunkMember, inChunk⟩ := List.mem_flatten.mp inLine
      exact List.mem_flatten.mpr ⟨chunk, List.mem_of_mem_dropLast chunkMember, inChunk⟩
    · exact inLine
  · exact .inr left

theorem wrapChunks_indent {width bound : Nat} {indent line : Str} {first : Bool}
    {chunks : List Str} (member : line ∈ wrapChunks width indent bound first chunks) :
    ∃ body, line = indent ++ body ∧ ∀ c ∈ body, c ∈ chunks.flatten := by
  induction bound generalizing first chunks with
  | zero => simp [wrapChunks] at member
  | succ bound inductionHypothesis =>
      have kept (c : Char) (inside : c ∈ (if !first && (chunks.head?.map isGap).getD false
          then chunks.tail else chunks).flatten) : c ∈ chunks.flatten := by
        split at inside
        · obtain ⟨chunk, chunkMember, inChunk⟩ := List.mem_flatten.mp inside
          exact List.mem_flatten.mpr ⟨chunk, List.mem_of_mem_tail chunkMember, inChunk⟩
        · exact inside
      unfold wrapChunks at member
      generalize (if !first && (chunks.head?.map isGap).getD false then chunks.tail else chunks) =
        left at kept member
      cases left with
      | nil => cases member
      | cons chunk later =>
          have wrapped (c : Char)
              (inside : c ∈ (wrapLine (width - indent.length) (chunk :: later)).1 ∨
                c ∈ (wrapLine (width - indent.length) (chunk :: later)).2.flatten) :
              c ∈ chunks.flatten := kept c (mem_wrapLine inside)
          have later_ {first' : Bool}
              (inLater : line ∈ wrapChunks width indent bound first'
                (wrapLine (width - indent.length) (chunk :: later)).2) :
              ∃ body, line = indent ++ body ∧ ∀ c ∈ body, c ∈ chunks.flatten := by
            obtain ⟨body, whole, inside⟩ := inductionHypothesis inLater
            exact ⟨body, whole, fun c inBody => wrapped c (.inr (inside c inBody))⟩
          dsimp only at member
          split at member
          · exact later_ member
          · rcases List.mem_cons.mp member with here | inLater
            · exact ⟨_, here, fun c inBody => wrapped c (.inl inBody)⟩
            · exact later_ inLater

/-- A wrapped line is the indent and characters of the text. -/
theorem wrap_indent {chars : WordChars} {width : Nat} {indent text line : Str}
    (member : line ∈ wrap chars width indent text) :
    ∃ body, line = indent ++ body ∧ ∀ c ∈ body, c ∈ mungeWhitespace text := by
  obtain ⟨body, whole, inside⟩ := wrapChunks_indent member
  refine ⟨body, whole, fun c inBody => ?_⟩
  obtain ⟨chunk, chunkMember, inChunk⟩ := List.mem_flatten.mp (inside c inBody)
  exact mem_splitFrom chunkMember inChunk

end TextWrap

end Myscm.Library
