import Myscm.Server.VersionCheck

/-!
Owns the run of `replace_old_aide_db_with_new_one` on a server whose database
directories are in order: which states it passes through.

Owns: the effect of each half of the rotation on the directories; that no
half touches the version file before the increment.

Does not own: which servers are in order; what happens after an interruption.
-/

namespace Myscm.Server

open Myscm.Library Myscm.Common

variable {δ : Type} {config : ServerConfig} {s : ServerState δ}

namespace ServerState

/-- Two states with the same entries and the same version file are equal. -/
theorem ext_lookup {left right : ServerState δ}
    (entries : ∀ name, left.aideOldDbDir.lookup name = right.aideOldDbDir.lookup name)
    (version : left.dbVerFile = right.dbVerFile) : left = right := by
  cases left
  cases right
  simp only [mk.injEq]
  exact ⟨Finmap.ext_lookup entries, version⟩

theorem replaceEntry_dbVerFile {a b : Str} {next : ServerState δ}
    (renamed : s.replaceEntry a b = some next) : next.dbVerFile = s.dbVerFile := by
  obtain ⟨_, _, rfl⟩ := Option.map_eq_some_iff.mp renamed
  rfl

theorem replaceIn_dbVerFile {dir a b : Str} {next : ServerState δ}
    (renamed : s.replaceIn dir a b = some next) : next.dbVerFile = s.dbVerFile := by
  unfold replaceIn at renamed
  split at renamed
  · obtain ⟨_, _, rfl⟩ := Option.map_eq_some_iff.mp renamed
    rfl
  · cases renamed

end ServerState

namespace AIDEDatabasesManager

theorem rename_of_some {action : ServerState δ → Option (ServerState δ)} {fromPath toPath : Str}
    {next : ServerState δ} (renamed : action s = some next) :
    rename action fromPath toPath s = ⟨[next], .ok ()⟩ := by
  apply Prog.step_ok
  simp [renamed]

theorem rename_of_none {action : ServerState δ → Option (ServerState δ)} {fromPath toPath : Str}
    (failed : action s = none) :
    rename action fromPath toPath s =
      ⟨[], .error (.aideDatabasesManager
        ("Unable to rename '".toList ++ fromPath ++ "' to '".toList ++ toPath ++
          "'".toList))⟩ := by
  apply Prog.step_error
  simp [failed]

/-! ## The version file before the increment -/

/-- The version file holds the given text. -/
def HoldsText (content : Option Str) (s : ServerState δ) : Prop :=
  s.dbVerFile = content

private theorem always_rename {action : ServerState δ → Option (ServerState δ)} {a b : Str}
    (keeps : ∀ start next, action start = some next → next.dbVerFile = start.dbVerFile)
    (content : Option Str) : Prog.Always (HoldsText content) (rename action a b) := by
  apply Prog.always_step
  intro start next kept renamed
  cases result : action start with
  | none => simp [result] at renamed
  | some state =>
      simp only [result, Except.ok.injEq] at renamed
      rw [HoldsText, ← renamed, keeps start state result]
      exact kept

private theorem always_moveReferenceDbToOld (content : Option Str) :
    Prog.Always (HoldsText (δ := δ) content) (moveReferenceDbToOld config) := by
  refine Prog.always_andThen (Prog.always_tryReads _ _) fun num => ?_
  refine Prog.always_andThen ?_ fun _ => ?_
  · exact always_rename (fun _ _ renamed => ServerState.replaceIn_dbVerFile renamed) content
  · exact always_rename (fun _ _ renamed => ServerState.replaceEntry_dbVerFile renamed) content

private theorem parse_of_ends_installNewDb {finish : ServerState δ}
    (ends : Prog.Ends (installNewDb config) s () finish) :
    ∃ ver, MySCMDatabaseVersionFile.parse config.recentlyGenDbVerPath s.dbVerFile = .ok ver := by
  simp only [installNewDb, Prog.bind_eq, Prog.ends_andThen_iff] at ends
  obtain ⟨_, filed, fileRenamed, _, installed, dirRenamed, incremented⟩ := ends
  have filedKept : HoldsText s.dbVerFile filed :=
    (always_rename (fun _ _ renamed => ServerState.replaceIn_dbVerFile renamed) _).ends rfl
      fileRenamed
  have installedKept : installed.dbVerFile = s.dbVerFile :=
    (always_rename (fun _ _ renamed => ServerState.replaceEntry_dbVerFile renamed) _).ends
      filedKept dirRenamed
  simp only [MySCMDatabaseVersionFile.increment, Prog.bind_eq, Prog.ends_andThen_iff,
    Prog.ends_tryReads_iff, installedKept] at incremented
  obtain ⟨ver, _, ⟨parsed, _⟩, _⟩ := incremented
  cases result : MySCMDatabaseVersionFile.parse config.recentlyGenDbVerPath s.dbVerFile with
  | error failure =>
      rw [result] at parsed
      cases parsed
  | ok value => exact ⟨value, rfl⟩

/-- A rotation that ends has parsed the version file it started with. -/
theorem parse_of_ends_replaceOldAideDbWithNewOne {finish : ServerState δ}
    (ends : Prog.Ends (replaceOldAideDbWithNewOne config) s () finish) :
    ∃ ver, MySCMDatabaseVersionFile.parse config.recentlyGenDbVerPath s.dbVerFile = .ok ver := by
  simp only [replaceOldAideDbWithNewOne, Prog.bind_eq, Prog.ends_andThen_iff,
    Prog.ends_reads_iff] at ends
  obtain ⟨exist, _, ⟨_, rfl⟩, rest⟩ := ends
  cases exist with
  | false => exact parse_of_ends_installNewDb (by simpa using rest)
  | true =>
      simp only [if_true, Prog.ends_andThen_iff] at rest
      obtain ⟨_, middle, moved, installed⟩ := rest
      have kept : middle.dbVerFile = s.dbVerFile :=
        (always_moveReferenceDbToOld s.dbVerFile).ends rfl moved
      rw [← kept]
      exact parse_of_ends_installNewDb installed

/-! ## The two halves of the rotation -/

/-- The items of the reference directory after its database file is renamed. -/
def retiredItems (config : ServerConfig) (num : Int) (database : δ)
    (items : Directory (Item δ)) : Directory (Item δ) :=
  (items.erase config.aideReferenceDbFname).insert (config.aideOldDbFname num) (.file database)

/-- The scan directory after the reference directory, now holding `items`, is
renamed to `aide.db.num`. -/
def retireReference (config : ServerConfig) (num : Int) (items : Directory (Item δ))
    (dir : Directory (Entry δ)) : Directory (Entry δ) :=
  ((dir.insert config.aideReferenceDbDirname (.dir items)).erase
    config.aideReferenceDbDirname).insert (config.aideOldDbFname num) (.dir items)

/-- The scan directory after the out directory, now holding `items`, is renamed
to the reference directory. -/
def installReference (config : ServerConfig) (items : Directory (Item δ))
    (dir : Directory (Entry δ)) : Directory (Entry δ) :=
  ((dir.insert config.aideOutDbDirname (.dir items)).erase config.aideOutDbDirname).insert
    config.aideReferenceDbDirname (.dir items)

theorem lookup_retireReference (num : Int) (items : Directory (Item δ))
    (dir : Directory (Entry δ)) (name : Str) :
    (retireReference config num items dir).lookup name =
      if name = config.aideOldDbFname num then some (.dir items)
      else if name = config.aideReferenceDbDirname then none
      else dir.lookup name := by
  unfold retireReference
  split
  · rename_i same
    rw [same, Finmap.lookup_insert]
  · rename_i notOld
    rw [Finmap.lookup_insert_of_ne _ notOld]
    split
    · rename_i same
      rw [same, Finmap.lookup_erase]
    · rename_i notReference
      rw [Finmap.lookup_erase_ne notReference, Finmap.lookup_insert_of_ne _ notReference]

theorem lookup_installReference (items : Directory (Item δ)) (dir : Directory (Entry δ))
    (name : Str) :
    (installReference config items dir).lookup name =
      if name = config.aideReferenceDbDirname then some (.dir items)
      else if name = config.aideOutDbDirname then none
      else dir.lookup name := by
  unfold installReference
  split
  · rename_i same
    rw [same, Finmap.lookup_insert]
  · rename_i notReference
    rw [Finmap.lookup_insert_of_ne _ notReference]
    split
    · rename_i same
      rw [same, Finmap.lookup_erase]
    · rename_i notOut
      rw [Finmap.lookup_erase_ne notOut, Finmap.lookup_insert_of_ne _ notOut]

/-- Moving the reference database away takes two renames. -/
theorem moveReferenceDbToOld_run {items : Directory (Item δ)} {database : δ} {num : Int}
    (reference : s.aideOldDbDir.lookup config.aideReferenceDbDirname = some (.dir items))
    (file : items.lookup config.aideReferenceDbFname = some (.file database))
    (inFree : items.lookup (config.aideOldDbFname num) = none)
    (outFree : s.aideOldDbDir.lookup (config.aideOldDbFname num) = none)
    (recent : getRecentAideDbVersion config s = .ok num) :
    moveReferenceDbToOld config s =
      ⟨[{ s with
          aideOldDbDir := s.aideOldDbDir.insert config.aideReferenceDbDirname
            (.dir (retiredItems config num database items)) },
        { s with
          aideOldDbDir := retireReference config num (retiredItems config num database items)
            s.aideOldDbDir }],
        .ok ()⟩ := by
  have inside : s.replaceIn config.aideReferenceDbDirname config.aideReferenceDbFname
      (config.aideOldDbFname num) = some { s with
        aideOldDbDir := s.aideOldDbDir.insert config.aideReferenceDbDirname
          (.dir (retiredItems config num database items)) } := by
    rw [ServerState.replaceIn, reference]
    dsimp only
    rw [Directory.replace_to_new file (config.referenceFname_ne_old num) inFree]
    rfl
  have differ := config.referenceDirname_ne_old num
  have free : (s.aideOldDbDir.insert config.aideReferenceDbDirname
      (.dir (retiredItems config num database items))).lookup (config.aideOldDbFname num) =
        none := by
    rw [Finmap.lookup_insert_of_ne _ differ.symm, outFree]
  have entry : ServerState.replaceEntry config.aideReferenceDbDirname
      (config.aideOldDbFname num) { s with
        aideOldDbDir := s.aideOldDbDir.insert config.aideReferenceDbDirname
          (.dir (retiredItems config num database items)) } =
      some { s with
        aideOldDbDir := retireReference config num (retiredItems config num database items)
          s.aideOldDbDir } := by
    rw [ServerState.replaceEntry,
      Directory.replace_to_new (Finmap.lookup_insert _) differ free]
    rfl
  have recentRun : (Prog.tryReads (getRecentAideDbVersion config) : Prog _ ServerError Int) s =
      ⟨[], .ok num⟩ := by
    rw [Prog.tryReads_run, recent]
  exact Prog.andThen_run recentRun
    (Prog.andThen_run (rename_of_some inside) (rename_of_some entry))

/-- Installing the new database takes two renames and the two steps of the
version file. -/
theorem installNewDb_run {items renamed : Directory (Item δ)} {ver : Int}
    (out : s.aideOldDbDir.lookup config.aideOutDbDirname = some (.dir items))
    (filed : items.replace config.aideOutDbFname config.aideReferenceDbFname = some renamed)
    (referenceFree : s.aideOldDbDir.lookup config.aideReferenceDbDirname = none)
    (parsed : MySCMDatabaseVersionFile.parse config.recentlyGenDbVerPath s.dbVerFile =
      .ok ver) :
    installNewDb config s =
      ⟨[{ s with
          aideOldDbDir := s.aideOldDbDir.insert config.aideOutDbDirname (.dir renamed) },
        { s with aideOldDbDir := installReference config renamed s.aideOldDbDir },
        { aideOldDbDir := installReference config renamed s.aideOldDbDir,
          dbVerFile := some [] },
        { aideOldDbDir := installReference config renamed s.aideOldDbDir,
          dbVerFile := some (Str.ofInt (ver + 1)) }],
        .ok ()⟩ := by
  have inside : s.replaceIn config.aideOutDbDirname config.aideOutDbFname
      config.aideReferenceDbFname = some { s with
        aideOldDbDir := s.aideOldDbDir.insert config.aideOutDbDirname (.dir renamed) } := by
    rw [ServerState.replaceIn, out]
    dsimp only
    rw [filed]
    rfl
  have free : (s.aideOldDbDir.insert config.aideOutDbDirname (.dir renamed)).lookup
      config.aideReferenceDbDirname = none := by
    rw [Finmap.lookup_insert_of_ne _ config.dirsDiffer, referenceFree]
  have entry : ServerState.replaceEntry config.aideOutDbDirname config.aideReferenceDbDirname
      { s with aideOldDbDir := s.aideOldDbDir.insert config.aideOutDbDirname (.dir renamed) } =
      some { s with aideOldDbDir := installReference config renamed s.aideOldDbDir } := by
    rw [ServerState.replaceEntry,
      Directory.replace_to_new (Finmap.lookup_insert _) config.dirsDiffer.symm free]
    rfl
  have versionRun : (Prog.tryReads fun state : ServerState δ =>
      (MySCMDatabaseVersionFile.parse config.recentlyGenDbVerPath state.dbVerFile).mapError
        ServerError.versionFile)
      { s with aideOldDbDir := installReference config renamed s.aideOldDbDir } =
        ⟨[], .ok ver⟩ := by
    rw [Prog.tryReads_run, parsed]
    rfl
  exact Prog.andThen_run (rename_of_some inside)
    (Prog.andThen_run (rename_of_some entry) (Prog.andThen_run versionRun rfl))

theorem replaceOldAideDbWithNewOne_first
    (absent : s.isdir config.aideReferenceDbDirname = false) :
    replaceOldAideDbWithNewOne config s = installNewDb config s := by
  simp [replaceOldAideDbWithNewOne, Prog.andThen, Prog.final_nil, absent]

theorem replaceOldAideDbWithNewOne_later
    (present : s.isdir config.aideReferenceDbDirname = true) :
    replaceOldAideDbWithNewOne config s =
      Prog.andThen (moveReferenceDbToOld config) (fun _ => installNewDb config) s := by
  simp [replaceOldAideDbWithNewOne, Prog.andThen, Prog.final_nil, present]

/-! ## The out directory -/

/-- The items of the out directory when the new database is its only content,
a file under the reference name apart. -/
def HoldsNewDb (config : ServerConfig) (database : δ) (items : Directory (Item δ)) : Prop :=
  items.lookup config.aideOutDbFname = some (.file database) ∧
    ∀ name, name ≠ config.aideOutDbFname →
      items.lookup name = none ∨
        (name = config.aideReferenceDbFname ∧ ∃ content, items.lookup name = some (.file content))

/-- The items of a reference directory that holds one database. -/
def referenceItems (config : ServerConfig) (database : δ) : Directory (Item δ) :=
  Finmap.singleton config.aideReferenceDbFname (.file database)

theorem lookup_referenceItems (database : δ) (name : Str) :
    (referenceItems config database).lookup name =
      if name = config.aideReferenceDbFname then some (.file database) else none := by
  split
  · rename_i same
    rw [same]
    exact Finmap.lookup_singleton_eq
  · rename_i differ
    rw [Finmap.lookup_eq_none, referenceItems, Finmap.mem_singleton]
    exact differ

/-- Renaming the new database file leaves exactly that file. -/
theorem replace_outItems {database : δ} {items : Directory (Item δ)}
    (holds : HoldsNewDb config database items) :
    items.replace config.aideOutDbFname config.aideReferenceDbFname =
      some (referenceItems config database) := by
  obtain ⟨newFile, others⟩ := holds
  obtain ⟨renamed, result⟩ : ∃ renamed,
      items.replace config.aideOutDbFname config.aideReferenceDbFname = some renamed := by
    by_cases same : config.aideOutDbFname = config.aideReferenceDbFname
    · exact ⟨items, by simp [Directory.replace, newFile, ← same]⟩
    · rcases others config.aideReferenceDbFname (Ne.symm same) with free | ⟨_, content, taken⟩
      · exact ⟨_, Directory.replace_to_new newFile same free⟩
      · exact ⟨_, by rw [Directory.replace_over newFile same taken]; rfl⟩
  rw [result, Option.some.injEq]
  apply Finmap.ext_lookup
  intro name
  rw [lookup_referenceItems]
  split
  · rename_i same
    rw [same, Directory.lookup_replace_target result, newFile]
  · rename_i notReference
    by_cases isOut : name = config.aideOutDbFname
    · rw [isOut] at notReference ⊢
      exact Directory.lookup_replace_source result notReference
    · rw [Directory.lookup_replace_other result isOut notReference]
      rcases others name isOut with free | ⟨same, _⟩
      · exact free
      · exact absurd same notReference

end AIDEDatabasesManager

end Myscm.Server
