import Myscm.Client.Acceptance

/-!
Owns what an accepted `changed.txt` says of the local file system: that the validator of its
lines is sound.

Owns: the expected value of a field; what a line claims of the file at its path; that each line
of a report that was accepted without force claims what holds.

Does not own: the other two reports.
-/

namespace Myscm.Client

open Myscm.Library Myscm.Server

namespace SysImgValidator

/-! ## What a line claims -/

/-- A previous value without its parentheses. -/
def bare (previous : Str) : Str := Str.rstripChars [')'] (Str.lstripChars ['('] previous)

/-- A previous value that marks its field as changed. -/
def MarksChange (previous : Str) : Prop := bare previous ≠ ['.'] ∧ bare previous ≠ ['=']

/-- The value that a field lets one expect on the local system: its previous value where it is
marked as changed, and its current value otherwise. -/
def Expects (field expected : Str) : Prop :=
  ∃ current previous, Str.words field = [current, previous] ∧
    ((MarksChange previous ∧ expected = bare previous) ∨
      (¬ MarksChange previous ∧ expected = current))

/-- A field is marked as changed, with a value other than the current one. -/
def Differs (field : Str) : Prop :=
  ∃ current previous, Str.words field = [current, previous] ∧ MarksChange previous ∧
    bare previous ≠ current

/-- The number a field lets one expect. -/
def ExpectsNat (field : Str) (n : Nat) : Prop :=
  ∃ expected, Expects field expected ∧ Str.parseInt expected = some (n : Int)

/-- A node that `os.stat` gives has a type. -/
def StatType (node : Node) : FileType → Prop
  | .regularFile => node.isRegular = true
  | .directory => node.isDirectory = true
  | .symbolicLink => node.isSymlink = true
  | .characterDevice => node.typeBits = 0o20000
  | .blockDevice => node.typeBits = 0o60000
  | .fifo => node.typeBits = 0o10000
  | .unixSocket => node.typeBits = 0o140000
  | _ => False

/-- What stands at a path has a declared type: a symbolic link is one itself, and for all other
types it is the type that `os.stat` gives. -/
def DeclaredType (fs : Fs) (path : Str) (node : Node) (type : FileType) : Prop :=
  if type = .symbolicLink then fs.islink path = true else StatType node type

/-- The archive has the new content of a changed file, or a patch to it. -/
def HoldsChange (archive : Archive) (path : Str) : Prop :=
  let origPath := intarPath SystemImageGenerator.inArchiveChangedDirName path
  (archive.getmember origPath).isSome = true ∨
    (archive.getmember (origPath ++ SystemImageGenerator.patchExt)).isSome = true

/-- What a line claims of a regular file. -/
structure RegularHolds (env : ValidatorEnv) (archive : Archive) (values : List Str) (node : Node) :
    Prop where
  content : ∃ content, node.content? = some content ∧
    Expects (values.getD 15 []) (env.md5 content) ∧
    Expects (values.getD 16 []) (env.sha1 content)
  size : ExpectsNat (values.getD 6 []) node.stSize
  inArchive : Differs (values.getD 16 []) → HoldsChange archive (values.getD 0 [])

/-- What a line claims of what `os.stat` gives for its path. -/
structure LineHolds (env : ValidatorEnv) (archive : Archive) (fs : Fs) (values : List Str)
    (node : Node) : Prop where
  stat : fs.stat (values.getD 0 []) = some node
  type : ∃ type : FileType, values.getD 4 [] = [type.value] ∧
    DeclaredType fs (values.getD 0 []) node type
  regular : values.getD 4 [] = [FileType.regularFile.value] →
    RegularHolds env archive values node
  mode : Expects (values.getD 8 []) (Str.octal node.stMode)
  uid : ExpectsNat (values.getD 9 []) node.uid
  gid : ExpectsNat (values.getD 10 []) node.gid
  lcount : ExpectsNat (values.getD 14 []) node.nlink

/-! ## Single checks -/

section Checks

variable {imgName : Str} {env : ValidatorEnv} {archive : Archive} {fs : Fs}

theorem not_refused {message : Str} : refuse false message ≠ .ok () := by
  intro accepted
  cases accepted

theorem words_of_getNewOld {field path current previous : Str}
    (read : getNewOldPropertyFromString field path = .ok (current, previous)) :
    ∃ word, Str.words field = [current, word] ∧ previous = bare word := by
  unfold getNewOldPropertyFromString at read
  split at read
  · rename_i new old words
    obtain ⟨rfl, rfl⟩ := Prod.mk.inj (Except.ok.inj read)
    exact ⟨old, words, rfl⟩
  · cases read

theorem expects_of_getExpected {field path expected : Str}
    (read : getExpectedValFromPropertyString field path = .ok expected) :
    Expects field expected := by
  obtain ⟨⟨current, previous⟩, parts, returned⟩ := bind_ok read
  obtain ⟨word, words, rfl⟩ := words_of_getNewOld parts
  obtain rfl := Except.ok.inj returned
  refine ⟨current, word, words, ?_⟩
  by_cases unmarked : bare word = ['.'] ∨ bare word = ['=']
  · refine .inr ⟨?_, if_pos unmarked⟩
    rintro ⟨noDot, noSign⟩
    exact unmarked.elim noDot noSign
  · exact .inl ⟨not_or.mp unmarked, if_neg unmarked⟩

theorem expects_of_checksum {path hashName field : Str} {hashLen : Nat}
    {checksumFun : List UInt8 → Str}
    (accepted : assertFileChecksumValid false fs path hashName field hashLen checksumFun = .ok ()) :
    ∃ content, fs.readFile path = some content ∧ Expects field (checksumFun content) := by
  obtain ⟨expected, hash, compared⟩ := bind_ok accepted
  obtain ⟨checksum, read, sized⟩ := bind_ok hash
  split at sized
  · cases sized
  · obtain rfl := Except.ok.inj sized
    dsimp only at compared
    split at compared
    · rename_i content isContent
      dsimp only [bind, Except.bind] at compared
      split at compared
      · exact absurd compared not_refused
      · rename_i same
        rw [not_not] at same
        exact ⟨content, isContent, same ▸ expects_of_getExpected read⟩
    · cases compared

theorem expects_of_size {path field : Str} {node : Node}
    (accepted : assertChangedFileSizeValid false path field node = .ok ()) :
    ExpectsNat field node.stSize := by
  obtain ⟨expected, read, compared⟩ := bind_ok accepted
  split at compared
  · cases compared
  · rename_i size isSize
    split at compared
    · exact absurd compared not_refused
    · rename_i same
      rw [not_not] at same
      exact ⟨expected, expects_of_getExpected read, same ▸ isSize⟩

theorem expects_of_perm {path field : Str} {node : Node}
    (accepted : assertChangedPermValid false path field node = .ok ()) :
    Expects field (Str.octal node.stMode) := by
  obtain ⟨expected, read, compared⟩ := bind_ok accepted
  split at compared
  · exact absurd compared not_refused
  · rename_i same
    rw [not_not] at same
    exact same ▸ expects_of_getExpected read

theorem expects_of_int {path field name : Str} {localVal : Nat}
    (accepted : assertChangedIntValid false path localVal field name false = .ok ()) :
    ExpectsNat field localVal := by
  obtain ⟨expected, read, compared⟩ := bind_ok accepted
  split at compared
  · cases compared
  · rename_i n isInt
    split at compared
    · exact absurd compared not_refused
    · rename_i same
      rw [not_not] at same
      exact ⟨expected, expects_of_getExpected read, same ▸ isInt⟩

/-- A validator belongs to a type, and tests for it. -/
theorem declaredType_of_ftypeValidator {path ftypeChar name : Str} {node : Node} {passes : Bool}
    (found : fs.stat path = some node)
    (validator : ftypeValidator fs path node ftypeChar = some (passes, name)) :
    ∃ type : FileType, ftypeChar = [type.value] ∧
      (passes = true → DeclaredType fs path node type) := by
  have isfile : fs.isfile path = node.isRegular := by rw [Fs.isfile, found]; rfl
  have isdir : fs.isdir path = node.isDirectory := by rw [Fs.isdir, found]; rfl
  have fromStat (type : FileType) (noLink : type ≠ .symbolicLink) {test : Bool} {text : String}
      (same : some (test, text.toList) = some (passes, name))
      (means : test = true → StatType node type) : passes = true → DeclaredType fs path node type := by
    intro isTrue
    rw [DeclaredType, if_neg noLink]
    exact means ((Prod.mk.inj (Option.some.inj same)).1.trans isTrue)
  unfold ftypeValidator at validator
  dsimp only at validator
  split at validator
  · rename_i isType
    exact ⟨.regularFile, isType, fromStat _ (by decide) validator isfile.symm.trans⟩
  · split at validator
    · rename_i isType
      exact ⟨.directory, isType, fromStat _ (by decide) validator isdir.symm.trans⟩
    · split at validator
      · rename_i isType
        refine ⟨.symbolicLink, isType, fun isTrue => ?_⟩
        rw [DeclaredType, if_pos rfl]
        exact (Prod.mk.inj (Option.some.inj validator)).1.trans isTrue
      · split at validator
        · rename_i isType
          exact ⟨.characterDevice, isType, fromStat _ (by decide) validator of_decide_eq_true⟩
        · split at validator
          · rename_i isType
            exact ⟨.blockDevice, isType, fromStat _ (by decide) validator of_decide_eq_true⟩
          · split at validator
            · rename_i isType
              exact ⟨.fifo, isType, fromStat _ (by decide) validator of_decide_eq_true⟩
            · split at validator
              · rename_i isType
                exact ⟨.unixSocket, isType, fromStat _ (by decide) validator of_decide_eq_true⟩
              · split at validator
                · rename_i isType
                  exact ⟨.solarisDoor, isType,
                    fromStat _ (by decide) validator fun holds => by cases holds⟩
                · split at validator
                  · rename_i isType
                    exact ⟨.solarisEventPort, isType,
                      fromStat _ (by decide) validator fun holds => by cases holds⟩
                  · cases validator

theorem declaredType_of_ftype {path ftypeChar : Str} {node : Node}
    (found : fs.stat path = some node)
    (accepted : assertChangedFtypeValid false fs path ftypeChar node = .ok ()) :
    ∃ type : FileType, ftypeChar = [type.value] ∧ DeclaredType fs path node type := by
  unfold assertChangedFtypeValid at accepted
  split at accepted
  · cases accepted
  · rename_i name validator
    obtain ⟨type, isType, means⟩ := declaredType_of_ftypeValidator found validator
    exact ⟨type, isType, means rfl⟩
  · exact absurd accepted not_refused

/-- The new content of a changed file is looked up where its checksum changes. -/
theorem regularHolds_of_accepted {values : List Str} {node : Node}
    (found : fs.stat (values.getD 0 []) = some node)
    (accepted : assertRegularFileValid false imgName env archive fs values node = .ok ()) :
    RegularHolds env archive values node := by
  obtain ⟨_, md5, accepted⟩ := bind_ok accepted
  obtain ⟨_, sha1, accepted⟩ := bind_ok accepted
  obtain ⟨_, size, accepted⟩ := bind_ok accepted
  obtain ⟨⟨current, previous⟩, parts, inArchive⟩ := bind_ok accepted
  have isContent : fs.readFile (values.getD 0 []) = node.content? := by
    rw [Fs.readFile, found]
    rfl
  refine ⟨?_, expects_of_size size, ?_⟩
  · obtain ⟨content, read, md5Expected⟩ := expects_of_checksum md5
    obtain ⟨other, otherRead, sha1Expected⟩ := expects_of_checksum sha1
    obtain rfl := Option.some.inj (read.symm.trans otherRead)
    exact ⟨content, isContent.symm.trans read, md5Expected, sha1Expected⟩
  · rintro ⟨new, word, words, ⟨noDot, _⟩, differs⟩
    obtain ⟨otherWord, otherWords, rfl⟩ := words_of_getNewOld parts
    rw [words] at otherWords
    obtain ⟨rfl, tail⟩ := List.cons.inj otherWords
    obtain ⟨rfl, _⟩ := List.cons.inj tail
    dsimp only at inArchive
    rw [if_pos ⟨differs, noDot⟩] at inArchive
    unfold assertChangedFileInSysImgChangedFiles at inArchive
    dsimp only at inArchive
    split at inArchive
    · rename_i held
      exact held
    · cases inArchive

/-- A line that is accepted without force claims what holds. -/
theorem lineHolds_of_accepted {values : List Str}
    (accepted : assertChangedLineValid false imgName env archive fs values = .ok ()) :
    ∃ node, LineHolds env archive fs values node := by
  obtain ⟨_, _, accepted⟩ := bind_ok accepted
  dsimp only at accepted
  split at accepted
  · cases accepted
  · rename_i node found
    obtain ⟨_, ftype, accepted⟩ := bind_ok accepted
    obtain ⟨regular, rest⟩ : (values.getD 4 [] = [FileType.regularFile.value] →
        assertRegularFileValid false imgName env archive fs values node = .ok ()) ∧ _ := by
      split at accepted
      · obtain ⟨_, checks, rest⟩ := bind_ok accepted
        exact ⟨fun _ => checks, rest⟩
      · rename_i other
        obtain ⟨_, _, rest⟩ := bind_ok accepted
        exact ⟨fun isRegular => absurd isRegular other, rest⟩
    obtain ⟨_, perm, rest⟩ := bind_ok rest
    obtain ⟨_, uid, rest⟩ := bind_ok rest
    obtain ⟨_, gid, lcount⟩ := bind_ok rest
    exact ⟨node, found, declaredType_of_ftype found ftype,
      fun isRegular => regularHolds_of_accepted found (regular isRegular), expects_of_perm perm,
      expects_of_int uid, expects_of_int gid, expects_of_int lcount⟩

end Checks

/-! ## The report -/

/-- A line that is neither blank nor a comment. -/
def HoldsValues (line : Str) : Prop :=
  Str.startsWith (Str.strip line) ['#'] = false ∧ Str.strip line ≠ []

/-- What a reading that reaches the end makes of one of its lines. -/
theorem values_of_mem {host : Host} {n : Nat} {name : ReportName} {lineNo validLines : Nat}
    {lines : List (Option Str)} {counts : Nat × Nat} {line : Option Str}
    (completes : (readReport host n name lineNo validLines lines).2 = .ok counts)
    (member : line ∈ lines) :
    ∃ text, line = some text ∧ (HoldsValues text →
      (lineParts (Str.strip text)).length = n ∧
        lineParts (Str.strip text) ∈ (readReport host n name lineNo validLines lines).1) := by
  induction lines generalizing lineNo validLines with
  | nil => cases member
  | cons first rest inductionHypothesis =>
      cases first with
      | none =>
          rw [readReport] at completes
          cases completes
      | some text =>
          rw [readReport] at completes ⊢
          cases result : lineValues host n name (lineNo + 1) text with
          | error failure =>
              rw [result] at completes
              cases completes
          | ok passed =>
              cases passed with
              | none =>
                  rw [result] at completes
                  rcases List.mem_cons.mp member with rfl | later
                  · refine ⟨text, rfl, ?_⟩
                    intro holds
                    unfold lineValues at result
                    dsimp only at result
                    rw [holds.1, if_neg (by decide), if_pos holds.2] at result
                    split at result <;> cases result
                  · exact inductionHypothesis completes later
              | some values =>
                  rw [result] at completes
                  rcases List.mem_cons.mp member with rfl | later
                  · refine ⟨text, rfl, ?_⟩
                    intro holds
                    unfold lineValues at result
                    dsimp only at result
                    rw [holds.1, if_neg (by decide), if_pos holds.2] at result
                    split at result
                    · cases result
                    · rename_i counted
                      rw [not_not] at counted
                      obtain rfl := Option.some.inj (Except.ok.inj result)
                      exact ⟨counted, List.mem_cons_self⟩
                  · obtain ⟨other, isOther, holds⟩ := inductionHypothesis completes later
                    exact ⟨other, isOther, fun value =>
                      ⟨(holds value).1, List.mem_cons_of_mem _ (holds value).2⟩⟩

/-- `_assert_changed_summary_valid`. -/
def assertChangedSummaryValid (forceApply : Bool) (imgName : Str) (env : ValidatorEnv)
    (archive : Archive) : Prog Fs ClientError (Nat × Nat) :=
  assertSummaryValid forceApply imgName env archive SystemImageGenerator.changedFilesFname
    propertiesCount (assertChangedLineValid forceApply imgName env archive)

/-- Where the validation of `changed.txt` succeeds without force, each of its lines claims what
holds of the file at its path. -/
theorem changedSummary_sound {imgName : Str} {env : ValidatorEnv} {archive : Archive}
    {fs finish : Fs} {counts : Nat × Nat}
    (ends : Prog.Ends (assertChangedSummaryValid false imgName env archive) fs counts finish) :
    ∃ bytes, archive.extractfile SystemImageGenerator.changedFilesFname = some bytes ∧
      ∀ line ∈ binaryLines bytes, ∃ text, line = some text ∧ (HoldsValues text →
        (lineParts (Str.strip text)).length = propertiesCount ∧
          ∃ node, LineHolds env archive fs (lineParts (Str.strip text)) node) := by
  obtain ⟨_, checked⟩ := checked_of_ends ends
  obtain ⟨bytes, found, ⟨lines, completes⟩, accepted⟩ := checked.bytes
  refine ⟨bytes, found, fun line member => ?_⟩
  obtain ⟨text, isText, passes⟩ := values_of_mem completes member
  refine ⟨text, isText, fun value => ?_⟩
  obtain ⟨counted, passed⟩ := passes value
  exact ⟨counted, lineHolds_of_accepted (accepted _ passed)⟩

/-! ## A link that is declared as one -/

/-- A machine without hash functions of its own. -/
def plainEnv : ValidatorEnv := ⟨⟨[], [], [], id⟩, fun _ => [], fun _ => []⟩

/-- The line of a symbolic link with the attributes of the file it leads to. -/
def linkLine : Str :=
  ['\x00'].intercalate (["/l".toList, ['-'], ['-'], ['-'], ['l'], ['-'], ['-'], ['-'],
    "100644 (.)".toList, "0 (.)".toList, "0 (.)".toList, ['-'], ['-'], ['-'], "1 (.)".toList,
    ['-'], ['-'], ['-']])

def linkImage : Archive :=
  [⟨SystemImageGenerator.changedFilesFname, .reg (Utf8.encode linkLine), 0o644, 0, 0⟩]

/-- A client on which `/l` is a link to the file `/f`. -/
def linkClient : Fs :=
  Fs.ofNodes [(["f".toList], ⟨.regular [], 0o644, 0, 0, 1⟩),
    (["l".toList], ⟨.symlink "/f".toList, 0o777, 0, 0, 1⟩)]

theorem extractfile_linkImage :
    linkImage.extractfile SystemImageGenerator.changedFilesFname = some (Utf8.encode linkLine) := rfl

theorem binaryLines_linkLine : binaryLines (Utf8.encode linkLine) = [some linkLine] := by
  rw [binaryLines, Utf8.splitLines_encode]
  decide

/-- A report of one line whose values pass is accepted. -/
theorem ends_assertSummaryValid_single {imgName : Str} {env : ValidatorEnv} {archive : Archive}
    {path : Str} {valCount : Nat} {fn : Fs → List Str → Except ClientError Unit}
    {bytes : List UInt8} {text : Str} {values : List Str} {fs : Fs}
    (present : assertFilePresentInSysImg false imgName archive path = .ok ())
    (found : archive.extractfile path = some bytes) (lines : binaryLines bytes = [some text])
    (isValue : lineValues env.host valCount ⟨path, imgName⟩ 1 text = .ok (some values))
    (isValid : fn fs values = .ok ()) :
    Prog.Ends (assertSummaryValid false imgName env archive path valCount fn) fs (1, 1) fs := by
  refine (Prog.ends_andThen_iff _ _ _ _ _).mpr ⟨(), fs, ?_, ?_⟩
  · exact (Prog.ends_tryReads_iff _ _ _ _).mpr ⟨present, rfl⟩
  · rw [found]
    dsimp only
    rw [lines, runFunForEachReportLine, reportLoop, isValue]
    refine (Prog.ends_andThen_iff _ _ _ _ _).mpr ⟨(), fs, ?_, ?_⟩
    · exact (Prog.ends_tryReads_iff _ _ _ _).mpr ⟨isValid, rfl⟩
    · exact (Prog.ends_ret_iff _ _ _ _).mpr ⟨rfl, rfl⟩

/-- A field whose expected value is the local one passes. -/
theorem assertChangedIntValid_eq_ok {path valStr name expected : Str} {localVal : Nat}
    (expects : getExpectedValFromPropertyString valStr path = .ok expected)
    (isInt : Str.parseInt expected = some (localVal : Int)) :
    assertChangedIntValid false path localVal valStr name false = .ok () := by
  unfold assertChangedIntValid
  rw [expects]
  simp [bind, Except.bind, isInt]

/-- What `os.stat` gives for the link. -/
def linkedFile : Node := ⟨.regular [], 0o644, 0, 0, 1⟩

theorem lineParts_linkLine : lineParts (Str.strip linkLine) =
    ["/l".toList, ['-'], ['-'], ['-'], ['l'], ['-'], ['-'], ['-'], "100644 (.)".toList,
      "0 (.)".toList, "0 (.)".toList, ['-'], ['-'], ['-'], "1 (.)".toList, ['-'], ['-'],
      ['-']] := by
  decide

theorem stat_linkClient : linkClient.stat "/l".toList = some linkedFile := by decide

theorem linkLine_valid :
    assertChangedLineValid false [] plainEnv linkImage linkClient
      (lineParts (Str.strip linkLine)) = .ok () := by
  have there : linkClient.pathExists "/l".toList = true := by decide
  have isLink : assertChangedFtypeValid false linkClient "/l".toList ['l'] linkedFile =
      .ok () := by decide
  have perm : assertChangedPermValid false "/l".toList "100644 (.)".toList linkedFile =
      .ok () := by decide
  have zero (name : Str) :
      assertChangedIntValid false "/l".toList 0 "0 (.)".toList name false = .ok () :=
    assertChangedIntValid_eq_ok (@rfl _ (Except.ok "0".toList)) (by decide)
  have one (name : Str) :
      assertChangedIntValid false "/l".toList 1 "1 (.)".toList name false = .ok () :=
    assertChangedIntValid_eq_ok (@rfl _ (Except.ok "1".toList)) (by decide)
  rw [lineParts_linkLine]
  unfold assertChangedLineValid assertChangedFileExistsOnLocalFilesystem assertChangedUidValid
    assertChangedGidValid assertChangedLcountValid
  simp only [List.getD_cons_zero, List.getD_cons_succ]
  rw [if_pos there, stat_linkClient]
  dsimp only [linkedFile] at *
  rw [isLink, perm, zero, zero, one]
  rfl

theorem linkImage_accepted :
    Prog.Ends (assertChangedSummaryValid false [] plainEnv linkImage) linkClient (1, 1)
      linkClient := by
  have present : assertFilePresentInSysImg false [] linkImage
      SystemImageGenerator.changedFilesFname = .ok () := by
    unfold assertFilePresentInSysImg
    obtain ⟨member, isMember⟩ : ∃ member, linkImage.getmember
        SystemImageGenerator.changedFilesFname = some member :=
      Option.isSome_iff_exists.mp (by decide)
    rw [isMember]
  have isValue : lineValues plainEnv.host propertiesCount
      ⟨SystemImageGenerator.changedFilesFname, []⟩ 1 linkLine =
        .ok (some (lineParts (Str.strip linkLine))) := by decide
  exact ends_assertSummaryValid_single present extractfile_linkImage binaryLines_linkLine isValue
    linkLine_valid

theorem changedSummary_sound_link :
    ∃ bytes, linkImage.extractfile SystemImageGenerator.changedFilesFname = some bytes ∧
      ∀ line ∈ binaryLines bytes, ∃ text, line = some text ∧ (HoldsValues text →
        (lineParts (Str.strip text)).length = propertiesCount ∧
          ∃ node, LineHolds plainEnv linkImage linkClient (lineParts (Str.strip text)) node) :=
  changedSummary_sound linkImage_accepted

/-- What `os.stat` gives for a link that is declared as one has another type. -/
theorem not_statType_link :
    ¬ ∀ imgName env archive fs finish counts,
      Prog.Ends (assertChangedSummaryValid false imgName env archive) fs counts finish →
      ∃ bytes, archive.extractfile SystemImageGenerator.changedFilesFname = some bytes ∧
        ∀ line ∈ binaryLines bytes, ∃ text, line = some text ∧ (HoldsValues text →
          ∃ node type, fs.stat ((lineParts (Str.strip text)).getD 0 []) = some node ∧
            (lineParts (Str.strip text)).getD 4 [] = [FileType.value type] ∧
              StatType node type) := by
  intro sound
  obtain ⟨bytes, found, lines⟩ := sound _ _ _ _ _ _ linkImage_accepted
  obtain rfl := Option.some.inj (found.symm.trans extractfile_linkImage)
  rw [binaryLines_linkLine] at lines
  obtain ⟨text, isText, claims⟩ := lines _ List.mem_cons_self
  obtain rfl := Option.some.inj isText
  obtain ⟨node, type, stat, isType, hasType⟩ :=
    claims ⟨by decide, by decide⟩
  have isLink : type = .symbolicLink := by
    have declared : (lineParts (Str.strip linkLine)).getD 4 [] = ['l'] := by decide
    rw [declared] at isType
    revert isType
    cases type <;> decide
  have isFile : linkClient.stat ((lineParts (Str.strip linkLine)).getD 0 []) =
      some ⟨.regular [], 0o644, 0, 0, 1⟩ := by decide
  obtain rfl := Option.some.inj (stat.symm.trans isFile)
  rw [isLink] at hasType
  cases hasType

end SysImgValidator

end Myscm.Client
