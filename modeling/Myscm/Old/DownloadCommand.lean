import Myscm.Old.PackagesManager

/-!
Owns what `append_pkg_list` does to the buffer of the download command.

Owns: the invariant that ties the length of the command, the length of the buffer and the
buffer; that it survives every turn of the loop; what the buffer holds at the end; how large the
sizes grow.

Does not own: what the shell makes of the command.
-/

namespace Myscm.Old

open Myscm.Library

/-! ## The names -/

/-- A string without the white space around it. -/
def trimmed (str : List UInt8) : List UInt8 := (str.dropWhile isspace).rdropWhile isspace

/-- The names of the lines that are not ignored. -/
def accepted (system : Nat → List UInt8 → Int) (lineNo : Nat) :
    List (List UInt8) → List (List UInt8)
  | [] => []
  | line :: rest =>
      if checkIfIgnorePkg (system lineNo) (trimmed (cString line)) then
        accepted system (lineNo + 1) rest
      else
        trimmed (cString line) :: accepted system (lineNo + 1) rest

/-- Each name with a space before it. -/
def spaced (names : List (List UInt8)) : List UInt8 := names.flatMap (32 :: ·)

theorem take_trimEnd {str : List UInt8} {last : Nat} (inside : last < str.length)
    (solid : ∀ c ∈ str.head?, isspace c = false) :
    str.take (trimEnd str last + 1) = (str.take (last + 1)).rdropWhile isspace := by
  induction last with
  | zero =>
      cases str with
      | nil => rfl
      | cons c rest =>
          have first : isspace c = false := solid c rfl
          rw [trimEnd, List.take_succ_cons, List.take_zero, List.rdropWhile_singleton,
            if_neg (by rw [first]; exact Bool.false_ne_true)]
  | succ last inductionHypothesis =>
      have atLast : str.getD (last + 1) 0 = str[last + 1] := by
        rw [List.getD_eq_getElem?_getD, List.getElem?_eq_getElem inside, Option.getD_some]
      have front : str.take (last + 1 + 1) = str.take (last + 1) ++ [str[last + 1]] :=
        List.take_succ_eq_append_getElem inside
      rw [trimEnd, atLast, front]
      by_cases space : isspace str[last + 1] = true
      · rw [if_pos space, List.rdropWhile_concat_pos _ _ _ space]
        exact inductionHypothesis (by omega)
      · rw [if_neg space, List.rdropWhile_concat_neg _ _ _ space, front]

theorem head?_dropWhile_not_space (str : List UInt8) :
    ∀ c ∈ (str.dropWhile isspace).head?, isspace c = false := by
  intro c member
  have first := List.head?_dropWhile_not isspace str
  rw [Option.mem_def.mp member] at first
  exact Bool.eq_false_iff.mpr (by simpa using first)

theorem trimwhitespace_eq (str : List UInt8) : trimwhitespace str = trimmed str := by
  rw [trimwhitespace, trimmed]
  by_cases empty : str.dropWhile isspace = []
  · rw [if_pos empty, empty, List.rdropWhile_nil]
  · have some' := List.length_pos_iff.mpr empty
    rw [if_neg empty, take_trimEnd (by omega) (head?_dropWhile_not_space str),
      Nat.sub_add_cancel some', List.take_length]

theorem length_trimmed_le (str : List UInt8) : (trimmed str).length ≤ str.length :=
  (List.rdropWhile_prefix isspace _).length_le.trans (List.dropWhile_suffix _).length_le

/-- A name that is not ignored has at least one character, and only such as the expression
allows. -/
theorem pkgName_of_not_ignored {system : List UInt8 → Int} {pkgName : List UInt8}
    (isAccepted : checkIfIgnorePkg system pkgName = false) :
    pkgName ≠ [] ∧ ∀ c ∈ pkgName, isPkgChar c = true := by
  unfold checkIfIgnorePkg at isAccepted
  split at isAccepted
  · cases isAccepted
  · rename_i valid
    have matching : matchesPkgRegex pkgName = true := by
      apply eq_true_of_ne_false
      intro different
      exact valid (.inr (.inr different))
    rw [matchesPkgRegex, Bool.and_eq_true, decide_eq_true_eq, List.all_eq_true] at matching
    exact matching

theorem isPkgChar_free : isPkgChar 10 = false ∧ isPkgChar 0 = false := by decide

theorem strcspn_of_pkgChars {pkgName : List UInt8} (chars : ∀ c ∈ pkgName, isPkgChar c = true) :
    strcspn pkgName = pkgName.length := by
  have single : pkgName.takeWhile (· ≠ 10) = pkgName := by
    apply List.takeWhile_eq_self_iff.mpr
    intro c member
    apply decide_eq_true
    intro lineFeed
    have allowed := chars c member
    rw [lineFeed, isPkgChar_free.1] at allowed
    cases allowed
  rw [strcspn, single]

theorem strncpy_length (src : List UInt8) : strncpy src src.length = src :=
  List.take_left

/-! ## The buffer -/

/-- **The invariant of the loop.** The buffer starts with the command and a NUL, `cmd_len` is
the length of the command, `cmd_buf_len` that of the buffer, and the command is shorter. A
buffer that was grown is at most twice as long as what it was grown for. -/
structure DownloadCmd.Holds (s : DownloadCmd) (text : List UInt8) : Prop where
  length_eq : text.length = s.cmdLen
  size_eq : s.block.size = s.cmdBufLen
  lt : s.cmdLen < s.cmdBufLen
  cells : s.block.Holds (text ++ [0])
  atMost : s.cmdBufLen ≤ max minPkgDownloadCmdCharLen (2 * (s.cmdLen + 1))

variable {s : DownloadCmd} {text : List UInt8}

/-- A buffer that has room for `k` bytes keeps the text, and is at most twice as long. -/
theorem grow_some (holds : s.Holds text) {realloc : Bool} {k : Nat} (more : s.cmdLen < k)
    {grown : DownloadCmd} (isGrown : grow realloc k s = some grown) :
    grown.cmdLen = s.cmdLen ∧ grown.block.size = grown.cmdBufLen ∧ k ≤ grown.cmdBufLen ∧
      grown.block.Holds text ∧ grown.cmdBufLen ≤ max minPkgDownloadCmdCharLen (2 * k) := by
  have len := holds.length_eq
  have below := holds.lt
  unfold grow at isGrown
  split at isGrown
  · rename_i short
    dsimp only at isGrown
    split at isGrown
    · rw [← Option.some.inj isGrown]
      refine ⟨rfl, Block.size_realloc _ _, Nat.le_max_left _ _, ?_, ?_⟩
      · apply holds.cells.left.realloc
        omega
      · show max k (pkgDownloadCmdResizeFactor * s.cmdBufLen) ≤ _
        rw [pkgDownloadCmdResizeFactor]
        omega
    · cases isGrown
  · rename_i room
    rw [← Option.some.inj isGrown]
    have bound := holds.atMost
    refine ⟨rfl, holds.size_eq, by omega, holds.cells.left, ?_⟩
    omega

theorem grow_none {realloc : Bool} {k : Nat} (none' : grow realloc k s = none) :
    realloc = false := by
  unfold grow at none'
  split at none'
  · dsimp only at none'
    split at none'
    · cases none'
    · rename_i failed
      exact Bool.eq_false_iff.mpr failed
  · cases none'

/-- The stores of one turn: with room for the space, the name and a NUL, they are within the
buffer, and the command is longer by the space and the name. -/
theorem stores_within {block : Block} (holds : block.Holds text) (name : List UInt8)
    (room : text.length + name.length + 2 ≤ block.size) :
    ∃ spacedBlock named final,
      block.storeAll text.length (strncpy (ascii " ") 1) = some spacedBlock ∧
      spacedBlock.storeAll (text.length + 1) (strncpy name name.length) = some named ∧
      named.store (text.length + (name.length + 1)) 0 = some final ∧
      final.size = block.size ∧ final.Holds ((text ++ 32 :: name) ++ [0]) := by
  have space : strncpy (ascii " ") 1 = [32] := by decide
  have first := holds.storeAll [32] (by rw [List.length_singleton]; omega)
  obtain ⟨spacedBlock, storedSpace, spacedSize, spacedHolds⟩ := first
  have longer : (text ++ [32]).length = text.length + 1 := by
    rw [List.length_append, List.length_singleton]
  obtain ⟨named, storedName, namedSize, namedHolds⟩ :=
    spacedHolds.storeAll name (by omega)
  have longest : ((text ++ [32]) ++ name).length = text.length + (name.length + 1) := by
    rw [List.length_append, longer]
    omega
  obtain ⟨final, storedNul, finalSize, finalHolds⟩ := namedHolds.store (by omega) 0
  rw [longer] at storedName
  rw [longest] at storedNul
  refine ⟨spacedBlock, named, final, ?_, ?_, storedNul, by omega, ?_⟩
  · rw [space, storedSpace]
  · rw [strncpy_length, storedName]
  · rw [List.append_assoc text, List.singleton_append] at finalHolds
    exact finalHolds

/-- **One turn of the loop keeps the invariant.** No store is out of bounds, and the command is
longer by the name of a line that is not ignored. Where there is no memory to grow, nothing
changes and the loop ends. -/
theorem appendPkg_holds (holds : s.Holds text) (os : Outcomes) (lineNo : Nat)
    (line : List UInt8) :
    (∃ next, appendPkg os lineNo line s = some (true, next) ∧
      next.Holds (text ++ spaced (accepted os.system lineNo [line]))) ∨
    (appendPkg os lineNo line s = some (false, s) ∧ os.realloc lineNo = false) := by
  rw [appendPkg, trimwhitespace_eq, accepted, accepted]
  cases ignored : checkIfIgnorePkg (os.system lineNo) (trimmed (cString line)) with
  | true =>
      left
      refine ⟨s, if_pos rfl, ?_⟩
      rw [if_pos rfl]
      show s.Holds (text ++ [])
      rw [List.append_nil]
      exact holds
  | false =>
      have chars := (pkgName_of_not_ignored ignored).2
      rw [if_neg Bool.false_ne_true, if_neg Bool.false_ne_true]
      dsimp only
      rw [strcspn_of_pkgChars chars]
      generalize trimmed (cString line) = name
      have text' : text ++ spaced [name] = text ++ 32 :: name := by
        rw [spaced, List.flatMap_cons, List.flatMap_nil, List.append_nil]
      cases isGrown : grow (os.realloc lineNo) (s.cmdLen + name.length + 2) s with
      | none => exact .inr ⟨rfl, grow_none isGrown⟩
      | some grown =>
          left
          obtain ⟨sameLen, size, room, grownHolds, atMost⟩ := grow_some holds (by omega) isGrown
          obtain ⟨spacedBlock, named, final, storedSpace, storedName, storedNul, finalSize,
            finalHolds⟩ := stores_within grownHolds name (by
              rw [holds.length_eq, size]
              exact room)
          rw [holds.length_eq] at storedSpace storedName storedNul
          refine ⟨⟨final, s.cmdLen + (name.length + 1), grown.cmdBufLen⟩, ?_, ?_⟩
          · dsimp only
            simp only [sameLen, storedSpace, storedName, storedNul, Option.bind_eq_bind,
              Option.bind_some]
          · rw [text']
            refine ⟨?_, finalSize.trans size, ?_, finalHolds, ?_⟩
            · show (text ++ 32 :: name).length = s.cmdLen + (name.length + 1)
              rw [List.length_append, List.length_cons, holds.length_eq]
            · show s.cmdLen + (name.length + 1) < grown.cmdBufLen
              omega
            · show grown.cmdBufLen ≤ max _ (2 * (s.cmdLen + (name.length + 1) + 1))
              omega

/-! ## The loop -/

theorem spaced_accepted_cons (system : Nat → List UInt8 → Int) (lineNo : Nat)
    (line : List UInt8) (rest : List (List UInt8)) :
    spaced (accepted system lineNo (line :: rest)) =
      spaced (accepted system lineNo [line]) ++ spaced (accepted system (lineNo + 1) rest) := by
  simp only [accepted]
  split
  · rfl
  · rw [spaced, spaced, spaced, List.flatMap_cons, List.flatMap_cons, List.flatMap_nil,
      List.append_nil]

/-- **Every run of the loop keeps the invariant.** Behind each turn, and at the end, the buffer
holds the names of the lines so far; if the loop ends well these are all lines. -/
theorem appendPkgs_holds (os : Outcomes) (lines : List (List UInt8)) (holds : s.Holds text)
    (lineNo : Nat) :
    ∃ run, appendPkgs os lineNo s lines = some run ∧
      (∀ turn ∈ run.turns, ∃ front, front <+: lines ∧
        turn.Holds (text ++ spaced (accepted os.system lineNo front))) ∧
      (∃ front, front <+: lines ∧
        run.last.Holds (text ++ spaced (accepted os.system lineNo front)) ∧
        (run.ret = -1 ∨ run.ret = 0 ∧ front = lines)) ∧
      ((∀ lineNo, os.errno lineNo = false ∧ os.realloc lineNo = true) → run.ret = 0) := by
  have start : s.Holds (text ++ spaced (accepted os.system lineNo [])) := by
    show s.Holds (text ++ [])
    rw [List.append_nil]
    exact holds
  induction lines generalizing s text lineNo with
  | nil =>
      refine ⟨_, rfl, ?_, ⟨[], List.prefix_rfl, start, ?_⟩, ?_⟩
      · intro turn member
        cases member
      · show (if os.errno lineNo = true then (-1 : Int) else 0) = -1 ∨
          (if os.errno lineNo = true then (-1 : Int) else 0) = 0 ∧ _
        split
        · exact .inl rfl
        · exact .inr ⟨rfl, rfl⟩
      · intro succeed
        show (if os.errno lineNo = true then (-1 : Int) else 0) = 0
        rw [(succeed lineNo).1]
        rfl
  | cons line rest inductionHypothesis =>
      rw [appendPkgs]
      cases set : os.errno lineNo with
      | true =>
          refine ⟨_, if_pos rfl, ?_, ⟨[], List.nil_prefix, start, .inl rfl⟩, ?_⟩
          · intro turn member
            cases member
          · intro succeed
            rw [(succeed lineNo).1] at set
            cases set
      | false =>
          rw [if_neg Bool.false_ne_true]
          cases appendPkg_holds holds os lineNo line with
          | inl goesOn =>
              obtain ⟨next, turned, nextHolds⟩ := goesOn
              obtain ⟨run, isRun, turns, last, well⟩ :=
                inductionHypothesis nextHolds (lineNo + 1) (by
                  show next.Holds (_ ++ [])
                  rw [List.append_nil]
                  exact nextHolds)
              have extend : ∀ {t : DownloadCmd} {front : List (List UInt8)},
                  t.Holds (text ++ spaced (accepted os.system lineNo [line]) ++
                    spaced (accepted os.system (lineNo + 1) front)) →
                  t.Holds (text ++ spaced (accepted os.system lineNo (line :: front))) := by
                intro t front holds'
                rw [spaced_accepted_cons, ← List.append_assoc]
                exact holds'
              refine ⟨{ run with turns := next :: run.turns }, ?_, ?_, ?_, well⟩
              · rw [turned, Option.bind_eq_bind, Option.bind_some]
                dsimp only
                rw [if_pos rfl, isRun]
                rfl
              · intro turn member
                cases List.mem_cons.mp member with
                | inl first =>
                    refine ⟨[line], List.cons_prefix_cons.mpr ⟨rfl, List.nil_prefix⟩, ?_⟩
                    rw [first]
                    exact nextHolds
                | inr later =>
                    obtain ⟨front, isFront, turnHolds⟩ := turns turn later
                    exact ⟨line :: front, List.cons_prefix_cons.mpr ⟨rfl, isFront⟩,
                      extend turnHolds⟩
              · obtain ⟨front, isFront, lastHolds, ret⟩ := last
                refine ⟨line :: front, List.cons_prefix_cons.mpr ⟨rfl, isFront⟩,
                  extend lastHolds, ?_⟩
                cases ret with
                | inl stopped => exact .inl stopped
                | inr whole => exact .inr ⟨whole.1, congrArg (line :: ·) whole.2⟩
          | inr ends =>
              refine ⟨⟨-1, [s], s⟩, ?_, ?_, ⟨[], List.nil_prefix, start, .inl rfl⟩, ?_⟩
              · rw [ends.1]
                rfl
              · intro turn member
                rw [List.mem_singleton.mp member]
                exact ⟨[], List.nil_prefix, start⟩
              · intro succeed
                rw [(succeed lineNo).2] at ends
                cases ends.2

/-! ## The lines of the file -/

theorem trimmed_append_lineFeed (str : List UInt8) : trimmed (str ++ [10]) = trimmed str := by
  have space : isspace 10 = true := by decide
  rw [trimmed, trimmed, List.dropWhile_append]
  cases blank : str.dropWhile isspace with
  | nil => rfl
  | cons c rest => exact List.rdropWhile_concat_pos _ _ _ space

theorem trimmed_cString_append_lineFeed (line : List UInt8) :
    trimmed (cString (line ++ [10])) = trimmed (cString line) := by
  by_cases ends : 0 ∈ line
  · rw [cString_append_of_mem ends]
  · have free : 0 ∉ line ++ [10] := by
      intro member
      cases List.mem_append.mp member with
      | inl inside => exact ends inside
      | inr last => exact absurd (List.mem_singleton.mp last) (by decide)
    rw [cString_eq_self ends, cString_eq_self free, trimmed_append_lineFeed]

theorem accepted_of_lineFeeds {reads lines : List (List UInt8)}
    (same : List.Forall₂ (fun read line => read = line ∨ read = line ++ [10]) reads lines)
    (system : Nat → List UInt8 → Int) (lineNo : Nat) :
    accepted system lineNo reads = accepted system lineNo lines := by
  induction same generalizing lineNo with
  | nil => rfl
  | @cons read line _ _ first _ inductionHypothesis =>
      have name : trimmed (cString read) = trimmed (cString line) := by
        cases first with
        | inl whole => rw [whole]
        | inr lineFeed => rw [lineFeed, trimmed_cString_append_lineFeed]
      rw [accepted, accepted, name, inductionHypothesis]

/-! ## A whole call -/

/-- The command before any name is appended. -/
def initialText (pkgCacheDir : List UInt8) : List UInt8 :=
  snprintf minPkgDownloadCmdCharLen (cmdPrefix pkgCacheDir)

theorem length_initialText_lt (pkgCacheDir : List UInt8) :
    (initialText pkgCacheDir).length < minPkgDownloadCmdCharLen := by
  have atMost := List.length_take_le (minPkgDownloadCmdCharLen - 1) (cmdPrefix pkgCacheDir)
  show ((cmdPrefix pkgCacheDir).take (minPkgDownloadCmdCharLen - 1)).length < _
  rw [minPkgDownloadCmdCharLen] at atMost ⊢
  omega

theorem zero_not_mem_initialText (pkgCacheDir : List UInt8) : 0 ∉ initialText pkgCacheDir := by
  have words : 0 ∉ ascii "cd '" ∧ 0 ∉ ascii "' && apt-get download" := by decide
  intro member
  cases List.mem_append.mp (List.mem_of_mem_take member) with
  | inl front =>
      cases List.mem_append.mp front with
      | inl first => exact words.1 first
      | inr dir => exact zero_not_mem_cString _ dir
  | inr last => exact words.2 last

theorem initialCmd_holds (pkgCacheDir : List UInt8) :
    ∃ block, initialCmd pkgCacheDir = some block ∧
      (⟨block, (initialText pkgCacheDir).length, minPkgDownloadCmdCharLen⟩ : DownloadCmd).Holds
        (initialText pkgCacheDir) := by
  have short := length_initialText_lt pkgCacheDir
  obtain ⟨block, stored, size, holds⟩ :=
    (Block.holds_nil (Block.malloc minPkgDownloadCmdCharLen)).storeAll
      (initialText pkgCacheDir ++ [0]) (by
        rw [Block.size_malloc, List.length_append, List.length_singleton, List.length_nil]
        omega)
  rw [Block.size_malloc] at size
  exact ⟨block, stored, rfl, size, short, holds, Nat.le_max_left _ _⟩

/-- Every call that is made while a command is appended succeeds. -/
structure Outcomes.Succeed (os : Outcomes) : Prop where
  regcomp : os.regcomp = true
  fopen : os.fopen.isSome = true
  loop : ∀ lineNo, os.errno lineNo = false ∧ os.realloc lineNo = true
  fclose : os.fclose = true

/-- What a call leaves behind each turn, and at the end. -/
theorem appendPkgList_holds (os : Outcomes) {block : Block}
    (holds : (⟨block, text.length, minPkgDownloadCmdCharLen⟩ : DownloadCmd).Holds text)
    (free : 0 ∉ text) :
    ∃ run, appendPkgList os block minPkgDownloadCmdCharLen = some run ∧
      (∀ turn ∈ run.turns, ∃ file ∈ os.fopen, ∃ front, front <+: fgetsAll maxPkgNameLen file ∧
        turn.Holds (text ++ spaced (accepted os.system 1 front))) ∧
      (run.ret = -1 ∨ run.ret = 0 ∧ ∃ file ∈ os.fopen,
        run.last.Holds (text ++ spaced (accepted os.system 1 (fgetsAll maxPkgNameLen file)))) ∧
      (os.Succeed → run.ret = 0) := by
  rw [appendPkgList, holds.cells.string free]
  simp only [Option.bind_eq_bind, Option.bind_some]
  cases compiled : os.regcomp with
  | false =>
      rw [if_neg Bool.false_ne_true]
      refine ⟨_, rfl, ?_, .inl rfl, ?_⟩
      · intro turn member
        cases member
      · intro succeed
        rw [succeed.regcomp] at compiled
        cases compiled
  | true =>
      rw [if_pos rfl]
      cases opened : os.fopen with
      | none =>
          refine ⟨_, rfl, ?_, .inl rfl, ?_⟩
          · intro turn member
            cases member
          · intro succeed
            have isSome := succeed.fopen
            rw [opened] at isSome
            cases isSome
      | some file =>
          obtain ⟨run, isRun, turns, last, well⟩ :=
            appendPkgs_holds os (fgetsAll maxPkgNameLen file) holds 1
          dsimp only
          rw [isRun, Option.bind_some]
          have behind : ∀ turn ∈ run.turns, ∃ other ∈ some file, ∃ front,
              front <+: fgetsAll maxPkgNameLen other ∧
                turn.Holds (text ++ spaced (accepted os.system 1 front)) := by
            intro turn member
            exact ⟨file, rfl, turns turn member⟩
          cases closed : os.fclose with
          | true =>
              refine ⟨run, rfl, behind, ?_, fun succeed => well succeed.loop⟩
              obtain ⟨front, _, lastHolds, ret⟩ := last
              cases ret with
              | inl stopped => exact .inl stopped
              | inr whole =>
                  rw [whole.2] at lastHolds
                  exact .inr ⟨whole.1, file, rfl, lastHolds⟩
          | false =>
              refine ⟨_, rfl, behind, .inl rfl, ?_⟩
              intro succeed
              rw [succeed.fclose] at closed
              cases closed

/-- **The download command is built within bounds.** For every directory, every file and every
outcome of the calls that are made, no store is outside the buffer, and behind each line the
command is shorter than the buffer. A call that returns 0 leaves the initial command, then a
space and the trimmed name for each line that was not ignored, then a NUL; otherwise it returns
-1, which it does not if no call fails. A line is what one `fgets` reads; these are the lines of the file where each of
them fits into the buffer it is read into. -/
theorem appendPkgList_withinBounds (os : Outcomes) (pkgCacheDir : List UInt8) :
    ∃ block run, initialCmd pkgCacheDir = some block ∧
      appendPkgList os block minPkgDownloadCmdCharLen = some run ∧
      (∀ turn ∈ run.turns,
        turn.cmdLen < turn.cmdBufLen ∧ turn.block.size = turn.cmdBufLen) ∧
      (run.ret = -1 ∨ run.ret = 0 ∧ ∃ file ∈ os.fopen,
        run.last.block.Holds (initialText pkgCacheDir ++
          spaced (accepted os.system 1 (fgetsAll maxPkgNameLen file)) ++ [0]) ∧
        ((∀ line ∈ splitLines 10 file, line.length + 1 < maxPkgNameLen) →
          accepted os.system 1 (fgetsAll maxPkgNameLen file) =
            accepted os.system 1 (splitLines 10 file))) ∧
      (os.Succeed → run.ret = 0) := by
  obtain ⟨block, isBlock, holds⟩ := initialCmd_holds pkgCacheDir
  obtain ⟨run, isRun, turns, last, well⟩ :=
    appendPkgList_holds os holds (zero_not_mem_initialText pkgCacheDir)
  refine ⟨block, run, isBlock, isRun, ?_, ?_, well⟩
  · intro turn member
    obtain ⟨_, _, _, _, turnHolds⟩ := turns turn member
    exact ⟨turnHolds.lt, turnHolds.size_eq⟩
  · cases last with
    | inl stopped => exact .inl stopped
    | inr whole =>
        obtain ⟨isZero, file, isFile, lastHolds⟩ := whole
        refine .inr ⟨isZero, file, isFile, lastHolds.cells, ?_⟩
        intro fits
        exact accepted_of_lineFeeds (fgetsAll_of_fits fits) os.system 1

/-! ## The command that is run -/

theorem zero_not_mem_spaced_accepted (system : Nat → List UInt8 → Int) (lineNo : Nat)
    (lines : List (List UInt8)) : 0 ∉ spaced (accepted system lineNo lines) := by
  induction lines generalizing lineNo with
  | nil => exact List.not_mem_nil
  | cons line rest inductionHypothesis =>
      rw [accepted]
      cases ignored : checkIfIgnorePkg (system lineNo) (trimmed (cString line)) with
      | true => exact inductionHypothesis (lineNo + 1)
      | false =>
          have chars := (pkgName_of_not_ignored ignored).2
          intro member
          cases List.mem_append.mp member with
          | inl first =>
              cases List.mem_cons.mp first with
              | inl space => exact absurd space (by decide)
              | inr inName =>
                  have allowed := chars 0 inName
                  rw [isPkgChar_free.2] at allowed
                  cases allowed
          | inr later => exact inductionHypothesis (lineNo + 1) later

/-- A call of `download_missing_packages` has an outcome, and the command it runs, if any, is the
initial one with the accepted names. -/
theorem downloadMissingPackages_runs (os : Outcomes) (malloc : Bool)
    (system : List UInt8 → Int) (pkgCacheDir : List UInt8) :
    ∃ ret cmd, downloadMissingPackages os malloc system pkgCacheDir = some (ret, cmd) ∧
      ∀ text ∈ cmd, ∃ file ∈ os.fopen, text = initialText pkgCacheDir ++
        spaced (accepted os.system 1 (fgetsAll maxPkgNameLen file)) := by
  rw [downloadMissingPackages]
  cases malloc with
  | false =>
      refine ⟨-1, none, rfl, ?_⟩
      intro text member
      cases member
  | true =>
      obtain ⟨block, isBlock, holds⟩ := initialCmd_holds pkgCacheDir
      obtain ⟨run, isRun, _, last, _⟩ :=
        appendPkgList_holds os holds (zero_not_mem_initialText pkgCacheDir)
      simp only [if_true, isBlock, isRun, Option.bind_eq_bind, Option.bind_some]
      cases last with
      | inl stopped =>
          refine ⟨-1, none, if_pos (by rw [stopped]; decide), ?_⟩
          intro text member
          cases member
      | inr whole =>
          obtain ⟨isZero, file, isFile, lastHolds⟩ := whole
          have free : 0 ∉ initialText pkgCacheDir ++
              spaced (accepted os.system 1 (fgetsAll maxPkgNameLen file)) := by
            intro member
            cases List.mem_append.mp member with
            | inl front => exact zero_not_mem_initialText pkgCacheDir front
            | inr names => exact zero_not_mem_spaced_accepted _ _ _ names
          rw [if_neg (by rw [isZero]; decide), lastHolds.cells.string free, Option.bind_some]
          refine ⟨_, _, rfl, ?_⟩
          intro text member
          exact ⟨file, isFile, (Option.some.inj member).symm⟩

/-! ## Sizes -/

theorem length_spaced_accepted_le (system : Nat → List UInt8 → Int) (lineNo : Nat)
    (lines : List (List UInt8)) :
    (spaced (accepted system lineNo lines)).length ≤ lines.flatten.length + lines.length := by
  induction lines generalizing lineNo with
  | nil => exact Nat.le_refl 0
  | cons line rest inductionHypothesis =>
      have later := inductionHypothesis (lineNo + 1)
      rw [accepted, List.flatten_cons, List.length_append, List.length_cons]
      split
      · omega
      · have name : (trimmed (cString line)).length ≤ line.length :=
          (length_trimmed_le _).trans (List.takeWhile_prefix _).length_le
        rw [spaced, List.flatMap_cons, List.length_append, List.length_cons]
        rw [spaced] at later
        omega

/-- No size that is computed exceeds four times that of the file by more than a constant. The
arithmetic of `size_t` wraps for no file that is shorter than that. -/
theorem cmdBufLen_le (os : Outcomes) {file : List UInt8} (opened : os.fopen = some file)
    (pkgCacheDir : List UInt8) :
    ∃ block run, initialCmd pkgCacheDir = some block ∧
      appendPkgList os block minPkgDownloadCmdCharLen = some run ∧
      ∀ turn ∈ run.turns, turn.cmdBufLen ≤ 2 * minPkgDownloadCmdCharLen + 4 * file.length := by
  obtain ⟨block, isBlock, holds⟩ := initialCmd_holds pkgCacheDir
  obtain ⟨run, isRun, turns, _, _⟩ :=
    appendPkgList_holds os holds (zero_not_mem_initialText pkgCacheDir)
  refine ⟨block, run, isBlock, isRun, ?_⟩
  intro turn member
  obtain ⟨other, isFile, front, isFront, turnHolds⟩ := turns turn member
  have same : other = file := by
    rw [opened] at isFile
    exact (Option.some.inj isFile).symm
  have room : 0 < maxPkgNameLen - 1 := by decide
  have initial := length_initialText_lt pkgCacheDir
  have names := length_spaced_accepted_le os.system 1 front
  have bytes : front.flatten.length ≤ file.length := by
    rw [← flatten_fgetsAll room file, ← same]
    exact (List.IsPrefix.flatten isFront).length_le
  have lines : front.length ≤ file.length :=
    (same ▸ isFront).length_le.trans (length_fgetsAll_le room file)
  have length := turnHolds.length_eq
  have atMost := turnHolds.atMost
  rw [List.length_append] at length
  omega

end Myscm.Old
