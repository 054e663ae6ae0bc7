import Myscm.Server.AideDbManager

/-!
Owns what `get_recent_aide_db_version` tells about old databases that are
newer than the recorded version.

Owns: the listing of the old databases; the value returned for a readable
version file; when the check does what its comparison is there for.

Does not own: the rotation.
-/

namespace Myscm.Server.AIDEDatabasesManager

open Myscm.Library Myscm.Common

variable {δ : Type} {config : ServerConfig} {s : ServerState δ}

/-- There is a directory `aide.db.X` with `X` above the given version. -/
def NewerDbExists (config : ServerConfig) (s : ServerState δ) (ver : Int) : Prop :=
  ∃ num : Nat, ver < num ∧ s.isdir (config.aideOldDbFname num) = true

/-- The version is returned when no newer directory exists, and the manager's
error is raised when there is one. -/
def DetectsNewerDb (config : ServerConfig) (s : ServerState δ) (ver : Int) : Prop :=
  (¬ NewerDbExists config s ver ∧ getRecentAideDbVersion config s = .ok ver) ∨
    (NewerDbExists config s ver ∧
      ∃ message, getRecentAideDbVersion config s = .error (.aideDatabasesManager message))

/-! ## The listing finds every old database -/

private theorem fullmatch_oldDbFname (config : ServerConfig)
    (single : '\n' ∉ config.aideReferenceDbFname) (num : Nat) :
    config.aideOldDbFnameRegex.fullmatch (config.aideOldDbFname num) = some [Str.ofNat num] := by
  have digits : ∀ c ∈ Str.ofNat num, (Str.decimalValue c).isSome = true := by
    intro c member
    rw [Str.decimalValue_of_isDigit
      (@Str.toDigits_isDigit 10 num (by decide) (by decide) c member)]
    rfl
  have long : 1 ≤ (Str.ofNat num).length := Nat.length_toDigits_pos
  have front : List.Forall₂ (fun accept c => accept c = true)
      ((config.aideReferenceDbFname ++ ['.']).map fun c =>
        if c = '.' then fun d => decide (d ≠ '\n') else fun d => decide (d = c))
      (config.aideReferenceDbFname ++ ['.']) := by
    rw [List.forall₂_map_left_iff, List.forall₂_same]
    intro c member
    have notEnd : c ≠ '\n' := by
      rintro rfl
      rcases List.mem_append.mp member with inName | inDot
      · exact single inName
      · simp at inDot
    by_cases dot : c = '.'
    · simp [dot]
    · simp [dot]
  have split : config.aideOldDbFname num =
      (config.aideReferenceDbFname ++ ['.']) ++ Str.ofNat num := by
    simp [ServerConfig.aideOldDbFname, oldDbFname, Str.ofInt]
  apply Regex.fullmatch_of_head?
  rw [ServerConfig.aideOldDbFnameRegex, split, Regex.ways_chars_append front]
  have all := @Regex.head?_ways_group_many _ _ [] _ long digits (by simp)
  rwa [List.append_nil] at all

/-- `_get_aide_db_ver_list` has the number of every old database directory. -/
theorem mem_getAideDbVerList {num : Nat} (exist : s.isdir (config.aideOldDbFname num) = true) :
    num ∈ getAideDbVerList config s := by
  have single : '\n' ∉ config.aideReferenceDbFname := by
    intro member
    have := config.plainFname _ member
    revert this
    decide
  have listed : config.aideOldDbFname num ∈ s.aideOldDbDir.listdir := by
    rw [Directory.mem_listdir]
    cases found : s.aideOldDbDir.lookup (config.aideOldDbFname num) with
    | none => simp [ServerState.isdir, found] at exist
    | some entry => exact ⟨entry, rfl⟩
  have value : Str.digitsValue 10 (Str.ofNat num) = num :=
    Str.digitsValue_toDigits (by decide) (by decide) num
  rw [getAideDbVerList, List.mem_filterMap]
  exact ⟨_, listed, by simp [fullmatch_oldDbFname config single num, value]⟩

/-! ## The value returned -/

/-- `list.sort()` hands no list on, so the directories count as version -1
whatever they are. -/
theorem dbVerFromDir_sort (numbers : List Nat) : dbVerFromDir (sort numbers).2 = -1 := rfl

theorem getRecentAideDbVersion_of_parse {ver : Int}
    (valid : MySCMDatabaseVersionFile.parse config.recentlyGenDbVerPath s.dbVerFile = .ok ver) :
    getRecentAideDbVersion config s = .ok ver := by
  have allowed : -1 ≤ ver := MySCMDatabaseVersionFile.startingValue_le_of_parse valid
  simp [getRecentAideDbVersion, valid, dbVerFromDir_sort, Int.not_lt.mpr allowed]

theorem getRecentAideDbVersion_of_parse_error {failure : VersionFileError}
    (invalid : MySCMDatabaseVersionFile.parse config.recentlyGenDbVerPath s.dbVerFile =
      .error failure) :
    getRecentAideDbVersion config s = .ok (-1) := by
  simp [getRecentAideDbVersion, invalid, dbVerFromDir_sort]

/-! ## When the check works -/

/-- For a readable version file the check works exactly when there is nothing
to detect: no directory is newer than the recorded version. -/
theorem detectsNewerDb_iff {ver : Int}
    (valid : MySCMDatabaseVersionFile.parse config.recentlyGenDbVerPath s.dbVerFile = .ok ver) :
    DetectsNewerDb config s ver ↔ ¬ NewerDbExists config s ver := by
  have returned := getRecentAideDbVersion_of_parse valid
  constructor
  · rintro (⟨none, _⟩ | ⟨_, message, raised⟩)
    · exact none
    · rw [returned] at raised
      cases raised
  · intro none
    exact .inl ⟨none, returned⟩

/-- A version file holding 3 next to the directory `aide.db.5`. -/
def behindByTwo : ServerState Nat where
  aideOldDbDir := Finmap.singleton "aide.db.5".toList (.dir ∅)
  dbVerFile := some "3".toList

theorem detectsNewerDb_iff_behindByTwo :
    DetectsNewerDb ServerConfig.default behindByTwo 3 ↔
      ¬ NewerDbExists ServerConfig.default behindByTwo 3 :=
  detectsNewerDb_iff (MySCMDatabaseVersionFile.parse_ofInt (i := 3) (by decide))

/-- Version 3 is returned although `aide.db.5` exists. -/
theorem not_detectsNewerDb_behindByTwo :
    MySCMDatabaseVersionFile.parse ServerConfig.default.recentlyGenDbVerPath
        behindByTwo.dbVerFile = .ok 3 ∧
      ¬ DetectsNewerDb ServerConfig.default behindByTwo 3 := by
  have valid : MySCMDatabaseVersionFile.parse ServerConfig.default.recentlyGenDbVerPath
      behindByTwo.dbVerFile = .ok 3 := MySCMDatabaseVersionFile.parse_ofInt (i := 3) (by decide)
  have newer : NewerDbExists ServerConfig.default behindByTwo 3 := ⟨5, by decide, by decide⟩
  refine ⟨valid, ?_⟩
  rintro (⟨none, _⟩ | ⟨_, message, raised⟩)
  · exact none newer
  · rw [getRecentAideDbVersion_of_parse (s := behindByTwo) valid] at raised
    cases raised

end Myscm.Server.AIDEDatabasesManager
