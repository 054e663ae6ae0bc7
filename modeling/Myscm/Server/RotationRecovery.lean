import Myscm.Server.ScanHistory

/-!
Owns what a scan does on a server whose last rotation stopped half way.

Owns: the states at which a rotation can stop, by a rename that raises or by a
process that dies; when the next scan takes the server to where it would be
without the stop; the stops behind which every scan fails.

Does not own: the invariant of servers in order.
-/

namespace Myscm.Server

open Myscm.Library Myscm.Common AIDEDatabasesManager

variable {δ : Type} {config : ServerConfig} {s : ServerState δ}

/-- A scan of `s` that finds the given database of the present system ends in
`finish`. -/
def ScanEnds (config : ServerConfig) (database : δ) (s finish : ServerState δ) : Prop :=
  ∃ fresh, Scanner.createNewDb config database s = .ok fresh ∧
    Prog.Ends (replaceOldAideDbWithNewOne config) fresh () finish

/-- The states in which a rotation can stop before it is complete, by the
number of steps it has made. -/
def stopStates (config : ServerConfig) (s : ServerState δ) : List (ServerState δ) :=
  (s :: (replaceOldAideDbWithNewOne config s).states).dropLast

/-- A stopped rotation is recoverable when nothing has changed, or when the
next scan ends in the state it would end in without the stopped rotation. -/
def Recoverable (config : ServerConfig) (before stopped : ServerState δ) : Prop :=
  stopped = before ∨
    ∀ database, ∃ finish,
      ScanEnds config database stopped finish ∧ ScanEnds config database before finish

/-- The stops a scan recovers from: before the first step; on the first scan,
behind the renaming of the new file; later, behind the renaming of the old
directory and behind that of the new file. -/
def StopIsSafe (scans : List δ) (steps : Nat) : Prop :=
  steps = 0 ∨ (scans = [] ∧ steps = 1) ∨ (scans ≠ [] ∧ (steps = 2 ∨ steps = 3))

theorem ScanEnds.unique {database : δ} {left right : ServerState δ}
    (leftEnds : ScanEnds config database s left) (rightEnds : ScanEnds config database s right) :
    left = right := by
  obtain ⟨fresh, created, ends⟩ := leftEnds
  obtain ⟨fresh', created', ends'⟩ := rightEnds
  rw [created, Except.ok.injEq] at created'
  subst created'
  exact (ends.unique ends').2

/-! ## Writing the next new database -/

theorem createNewDb_of_out {items : Directory (Item δ)} (database : δ)
    (found : s.aideOldDbDir.lookup config.aideOutDbDirname = some (.dir items))
    (notDir : ∀ names, items.lookup config.aideOutDbFname ≠ some (.dir names)) :
    Scanner.createNewDb config database s =
      .ok (withNewDb config (items.insert config.aideOutDbFname (.file database)) s) := by
  simp only [Scanner.createNewDb, found]
  rfl

theorem createNewDb_of_free (database : δ)
    (free : s.aideOldDbDir.lookup config.aideOutDbDirname = none) :
    Scanner.createNewDb config database s =
      .ok (withNewDb config
        ((∅ : Directory (Item δ)).insert config.aideOutDbFname (.file database)) s) := by
  simp [Scanner.createNewDb, free, Finmap.lookup_empty, withNewDb]

/-- Writing the new database only touches the out directory. -/
theorem createNewDb_cases {database : δ} {fresh : ServerState δ}
    (created : Scanner.createNewDb config database s = .ok fresh) :
    ∃ items, fresh = withNewDb config items s := by
  simp only [Scanner.createNewDb] at created
  split at created
  · split at created
    · cases created
    · exact ⟨_, (Except.ok.inj created).symm⟩
  · split at created
    · cases created
    · exact ⟨_, (Except.ok.inj created).symm⟩
  · cases created

theorem withNewDb_withNewDb (items items' : Directory (Item δ)) :
    withNewDb config items (withNewDb config items' s) = withNewDb config items s := by
  simp [withNewDb, Finmap.insert_insert]

/-- A new database over a file of an out directory in order. -/
theorem AIDEDatabasesManager.HoldsNewDb.overwrite {items : Directory (Item δ)} {database : δ}
    (holds : HoldsNewDb config database items) (next : δ) :
    HoldsNewDb config next (items.insert config.aideOutDbFname (.file next)) := by
  refine ⟨Finmap.lookup_insert _, ?_⟩
  intro name differ
  rw [Finmap.lookup_insert_of_ne _ differ]
  exact holds.2 name differ

/-- A new database next to one that already has the reference name. -/
theorem holdsNewDb_over_reference (config : ServerConfig) (database next : δ) :
    HoldsNewDb config next
      ((referenceItems config database).insert config.aideOutDbFname (.file next)) := by
  refine ⟨Finmap.lookup_insert _, ?_⟩
  intro name differ
  rw [Finmap.lookup_insert_of_ne _ differ, lookup_referenceItems]
  split
  · rename_i same
    exact .inr ⟨same, database, rfl⟩
  · exact .inl rfl

theorem referenceItems_not_dir (database : δ) (name : Str) (names : List Str) :
    (referenceItems config database).lookup name ≠ some (.dir names) := by
  rw [lookup_referenceItems]
  split <;> simp

theorem AIDEDatabasesManager.HoldsNewDb.not_dir {items : Directory (Item δ)} {database : δ}
    (holds : HoldsNewDb config database items) (names : List Str) :
    items.lookup config.aideOutDbFname ≠ some (.dir names) := by
  rw [holds.1]
  simp

/-! ## Scans that fail -/

/-- No scan ends behind a stop that truncated the version file. -/
theorem not_scanEnds_of_empty_version {database : δ} {finish : ServerState δ}
    (empty : s.dbVerFile = some []) : ¬ ScanEnds config database s finish := by
  rintro ⟨fresh, created, ends⟩
  obtain ⟨items, rfl⟩ := createNewDb_cases created
  obtain ⟨ver, parsed⟩ := parse_of_ends_replaceOldAideDbWithNewOne ends
  obtain ⟨failure, raised⟩ :=
    MySCMDatabaseVersionFile.parse_empty config.recentlyGenDbVerPath
  rw [withNewDb, empty, raised] at parsed
  cases parsed

/-- What a rotation of an existing reference directory that ends has done first. -/
private theorem moved_of_ends {finish : ServerState δ} (items : Directory (Item δ))
    (reference : s.aideOldDbDir.lookup config.aideReferenceDbDirname = some (.dir items))
    (ends : Prog.Ends (replaceOldAideDbWithNewOne config) s () finish) :
    ∃ num filed next, getRecentAideDbVersion config s = .ok num ∧
      Directory.replace config.aideReferenceDbFname (config.aideOldDbFname num) items =
        some filed ∧
      Directory.replace config.aideReferenceDbDirname (config.aideOldDbFname num)
        (s.aideOldDbDir.insert config.aideReferenceDbDirname (.dir filed)) = some next ∧
      Prog.Ends (installNewDb config) { s with aideOldDbDir := next } () finish := by
  have present : s.isdir config.aideReferenceDbDirname = true := by
    simp [ServerState.isdir, reference]
  rw [Prog.Ends, replaceOldAideDbWithNewOne_later present, ← Prog.Ends] at ends
  simp only [moveReferenceDbToOld, renameAideReferenceDbFileToOld, renameAideReferenceDbDirToOld,
    rename, Prog.bind_eq, Prog.ends_andThen_iff, Prog.ends_tryReads_iff] at ends
  obtain ⟨_, middle, ⟨num, _, ⟨recent, rfl⟩, _, inside, fileRenamed, dirRenamed⟩, installed⟩ :=
    ends
  rw [Prog.ends_step_iff] at fileRenamed dirRenamed
  cases filed : Directory.replace config.aideReferenceDbFname (config.aideOldDbFname num)
    items with
  | none => simp [ServerState.replaceIn, reference, filed] at fileRenamed
  | some renamed =>
      simp only [ServerState.replaceIn, reference, filed, Option.map_some,
        Except.ok.injEq] at fileRenamed
      subst fileRenamed
      cases moved : Directory.replace config.aideReferenceDbDirname (config.aideOldDbFname num)
        (s.aideOldDbDir.insert config.aideReferenceDbDirname (.dir renamed)) with
      | none => simp [ServerState.replaceEntry, moved] at dirRenamed
      | some next =>
          simp only [ServerState.replaceEntry, moved, Option.map_some,
            Except.ok.injEq] at dirRenamed
          subst dirRenamed
          exact ⟨num, renamed, next, recent, filed, moved, installed⟩

/-- No scan ends while the reference directory has lost its database file. -/
theorem not_scanEnds_of_no_file {database : δ} {finish : ServerState δ}
    (items : Directory (Item δ))
    (reference : s.aideOldDbDir.lookup config.aideReferenceDbDirname = some (.dir items))
    (noFile : items.lookup config.aideReferenceDbFname = none) :
    ¬ ScanEnds config database s finish := by
  rintro ⟨fresh, created, ends⟩
  obtain ⟨outItems, rfl⟩ := createNewDb_cases created
  obtain ⟨num, filed, _, _, renamed, _⟩ := moved_of_ends items
    (by rw [lookup_withNewDb, if_neg config.dirsDiffer, reference]) ends
  rw [Directory.replace_missing noFile] at renamed
  cases renamed

/-- No scan ends while the recorded version already has its directory. -/
theorem not_scanEnds_of_old_taken {database : δ} {finish : ServerState δ} (num : Int)
    (items taken : Directory (Item δ))
    (reference : s.aideOldDbDir.lookup config.aideReferenceDbDirname = some (.dir items))
    (parsed : MySCMDatabaseVersionFile.parse config.recentlyGenDbVerPath s.dbVerFile = .ok num)
    (old : s.aideOldDbDir.lookup (config.aideOldDbFname num) = some (.dir taken))
    (notEmpty : taken.keys ≠ ∅) : ¬ ScanEnds config database s finish := by
  rintro ⟨fresh, created, ends⟩
  obtain ⟨outItems, rfl⟩ := createNewDb_cases created
  obtain ⟨num', filed, _, recent, _, moved, _⟩ := moved_of_ends items
    (by rw [lookup_withNewDb, if_neg config.dirsDiffer, reference]) ends
  rw [getRecentAideDbVersion_of_parse (s := withNewDb config outItems s) parsed,
    Except.ok.injEq] at recent
  subst recent
  have differ := config.referenceDirname_ne_old num
  rw [Directory.replace_over (Finmap.lookup_insert _) differ
    (show _ = some (Entry.dir taken) by rw [Finmap.lookup_insert_of_ne _ differ.symm, lookup_withNewDb,
      if_neg (config.outDirname_ne_old num).symm, old])] at moved
  simp [Directory.mayReplace, FileNode.isDirectory, FileNode.isEmptyDirectory, notEmpty] at moved

/-! ## Scans that end -/

namespace ScanHistory

variable {scans : List δ}

theorem version_ne_empty (history : ScanHistory config scans s) : s.dbVerFile ≠ some [] := by
  intro empty
  have parsed := history.parsed
  obtain ⟨failure, raised⟩ :=
    MySCMDatabaseVersionFile.parse_empty config.recentlyGenDbVerPath
  rw [empty, raised] at parsed
  cases parsed

/-- Scans of a server that has never been scanned, whatever its out directory
holds. -/
private theorem scanEnds_first (history : ScanHistory config [] s) {items : Directory (Item δ)}
    {database : δ} (notDir : ∀ names, items.lookup config.aideOutDbFname ≠ some (.dir names))
    (holds : HoldsNewDb config database
      (items.insert config.aideOutDbFname (.file database))) :
    ∃ finish, ScanEnds config database (withNewDb config items s) finish ∧
      Rotated config [] s database none finish := by
  obtain ⟨finish, ends, rotated⟩ := history.ends_rotation_first holds
  refine ⟨finish, ⟨_, createNewDb_of_out database ?_ notDir, ?_⟩, rotated⟩
  · rw [lookup_withNewDb, if_pos rfl]
  · rw [withNewDb_withNewDb]
    exact ends

/-- Scans of a server that has been scanned before. -/
private theorem scanEnds_later (history : ScanHistory config scans s) {last : δ}
    {referenceDir : Directory (Item δ)} (reference : IsReference config last s referenceDir)
    {items : Directory (Item δ)} {old : δ} (holds : HoldsNewDb config old items)
    (database : δ) :
    ∃ finish, ScanEnds config database (withNewDb config items s) finish ∧
      Rotated config scans s database
        (some (.dir (retiredItems config ((scans.length : Int) - 1) last referenceDir)))
        finish := by
  obtain ⟨finish, ends, rotated⟩ :=
    history.ends_rotation_later reference (holds.overwrite database)
  refine ⟨finish, ⟨_, createNewDb_of_out database ?_ holds.not_dir, ?_⟩, rotated⟩
  · rw [lookup_withNewDb, if_pos rfl]
  · rw [withNewDb_withNewDb]
    exact ends

/-- The scan directory between the two halves of a rotation. -/
private def movedDir (config : ServerConfig) (scans : List δ) (last : δ)
    (referenceDir items : Directory (Item δ)) (s : ServerState δ) : Directory (Entry δ) :=
  retireReference config ((scans.length : Int) - 1)
    (retiredItems config ((scans.length : Int) - 1) last referenceDir)
    (withNewDb config items s).aideOldDbDir

/-- A scan of a server whose old reference directory has its number already. -/
private theorem scanEnds_moved (history : ScanHistory config scans s) (last : δ)
    (referenceDir items : Directory (Item δ)) {outItems : Directory (Item δ)} {database : δ}
    (notDir : ∀ names, outItems.lookup config.aideOutDbFname ≠ some (.dir names))
    (holds : HoldsNewDb config database
      (outItems.insert config.aideOutDbFname (.file database))) :
    ∃ finish,
      ScanEnds config database
        (withNewDb config outItems
          ⟨movedDir config scans last referenceDir items s, s.dbVerFile⟩) finish ∧
      Rotated config scans s database
        (some (.dir (retiredItems config ((scans.length : Int) - 1) last referenceDir)))
        finish := by
  have movedReference : (movedDir config scans last referenceDir items s).lookup
      config.aideReferenceDbDirname = none := by
    rw [movedDir, lookup_retireReference, if_neg (config.referenceDirname_ne_old _), if_pos rfl]
  have freshReference (newItems : Directory (Item δ)) :
      (withNewDb config newItems
        ⟨movedDir config scans last referenceDir items s, s.dbVerFile⟩).aideOldDbDir.lookup
          config.aideReferenceDbDirname = none := by
    rw [lookup_withNewDb, if_neg config.dirsDiffer]
    exact movedReference
  have absent (newItems : Directory (Item δ)) :
      (withNewDb config newItems
        ⟨movedDir config scans last referenceDir items s, s.dbVerFile⟩).isdir
          config.aideReferenceDbDirname = false := by
    simp [ServerState.isdir, freshReference]
  have run := installNewDb_run
    (s := withNewDb config (outItems.insert config.aideOutDbFname (.file database))
      ⟨movedDir config scans last referenceDir items s, s.dbVerFile⟩)
    (by rw [lookup_withNewDb, if_pos rfl]) (replace_outItems holds) (freshReference _)
    history.parsed
  rw [← replaceOldAideDbWithNewOne_first (absent _)] at run
  refine ⟨_, ⟨_, createNewDb_of_out database ?_ notDir, ⟨?_, rfl⟩⟩, ?_, ?_⟩
  · rw [lookup_withNewDb, if_pos rfl]
  · rw [withNewDb_withNewDb, run]
  · rw [withNewDb_withNewDb, run]
    simp only [Run.final, List.getLastD_cons, List.getLastD_nil, sub_add_cancel]
  · intro name
    rw [withNewDb_withNewDb, run]
    simp only [Run.final, List.getLastD_cons, List.getLastD_nil]
    rw [lookup_installReference, lookup_withNewDb]
    split
    · rfl
    · rename_i notReference
      split
      · rfl
      · rename_i notOut
        rw [movedDir, lookup_retireReference, if_neg notReference, lookup_withNewDb,
          if_neg notOut]

/-- Behind a first rotation without its count, the next scan gives the number
-1 to the first database. -/
private theorem scanEnds_uncounted (history : ScanHistory config [] s)
    (items : Directory (Item δ)) (database next : δ) :
    ∃ finish,
      ScanEnds config next
        ⟨installReference config (referenceItems config database)
          (withNewDb config items s).aideOldDbDir, s.dbVerFile⟩ finish ∧
      finish.aideOldDbDir.lookup (config.aideOldDbFname (-1)) ≠ none := by
  have free : (installReference config (referenceItems config database)
      (withNewDb config items s).aideOldDbDir).lookup (config.aideOldDbFname (-1)) = none := by
    rw [lookup_installReference, if_neg (config.referenceDirname_ne_old _).symm,
      if_neg (config.outDirname_ne_old _).symm, lookup_withNewDb,
      if_neg (config.outDirname_ne_old _).symm]
    exact history.lastNumberFree
  have reference : IsReference config database
      ⟨installReference config (referenceItems config database)
        (withNewDb config items s).aideOldDbDir, s.dbVerFile⟩
      (referenceItems config database) := by
    refine ⟨?_, ?_, ?_⟩
    · dsimp only
      rw [lookup_installReference, if_pos rfl]
    · rw [lookup_referenceItems, if_pos rfl]
    · intro num
      rw [lookup_referenceItems, if_neg (config.referenceFname_ne_old num).symm]
  have noOut : (installReference config (referenceItems config database)
      (withNewDb config items s).aideOldDbDir).lookup config.aideOutDbDirname = none := by
    rw [lookup_installReference, if_neg config.dirsDiffer.symm, if_pos rfl]
  have parsed : MySCMDatabaseVersionFile.parse config.recentlyGenDbVerPath s.dbVerFile = .ok (-1) :=
    history.parsed
  have run := rotation_later
    (s := ⟨installReference config (referenceItems config database)
      (withNewDb config items s).aideOldDbDir, s.dbVerFile⟩) parsed free reference
    (holdsNewDb_fresh config next)
  refine ⟨_, ⟨_, createNewDb_of_free next noOut, ⟨?_, rfl⟩⟩, ?_⟩
  · exact congrArg Run.ending run
  · rw [run]
    simp only [Run.final, List.getLastD_cons, List.getLastD_nil]
    rw [lookup_installReference, if_neg (config.referenceDirname_ne_old _).symm,
      if_neg (config.outDirname_ne_old _).symm, lookup_retireReference, if_pos rfl]
    simp

/-! ## The stops of a rotation -/

/-- The stops of the first rotation. -/
private theorem recoverable_first_iff (history : ScanHistory config [] s)
    {items : Directory (Item δ)} {database : δ} (holds : HoldsNewDb config database items)
    {steps : Nat} {stopped : ServerState δ}
    (isStop : (stopStates config (withNewDb config items s))[steps]? = some stopped) :
    Recoverable config (withNewDb config items s) stopped ↔ steps = 0 ∨ steps = 1 := by
  rw [stopStates, rotation_first history holds] at isStop
  have beforeReference : (withNewDb config items s).aideOldDbDir.lookup
      config.aideReferenceDbDirname = none := by
    rw [lookup_withNewDb, if_neg config.dirsDiffer, history.noReference rfl]
  match steps with
  | 0 =>
      simp only [List.dropLast, List.getElem?_cons_zero, Option.some.injEq] at isStop
      simp [Recoverable, isStop]
  | 1 =>
      simp only [List.dropLast, List.getElem?_cons_succ, List.getElem?_cons_zero,
        Option.some.injEq] at isStop
      subst isStop
      refine iff_of_true (.inr fun next => ?_) (.inr rfl)
      obtain ⟨finish, ends, rotated⟩ := history.scanEnds_first
        (referenceItems_not_dir database _) (holdsNewDb_over_reference config database next)
      obtain ⟨finish', ends', rotated'⟩ := history.scanEnds_first holds.not_dir
        (holds.overwrite next)
      rw [withNewDb_withNewDb]
      rw [rotated'.unique rotated] at ends'
      exact ⟨finish, ends, ends'⟩
  | 2 =>
      simp only [List.dropLast, List.getElem?_cons_succ, List.getElem?_cons_zero,
        Option.some.injEq] at isStop
      subst isStop
      refine iff_of_false ?_ (by omega)
      rintro (same | next)
      · have reference := congrArg
          (fun state => state.aideOldDbDir.lookup config.aideReferenceDbDirname) same
        simp only [lookup_installReference, if_true, beforeReference] at reference
        cases reference
      · obtain ⟨finish, ends, ends'⟩ := next database
        obtain ⟨finish', ends'', misnumbered⟩ :=
          history.scanEnds_uncounted items database database
        obtain ⟨expected, expectedEnds, rotated⟩ := history.scanEnds_first holds.not_dir
          (holds.overwrite database)
        rw [← ends.unique ends'', ends'.unique expectedEnds, rotated.entries,
          if_neg (config.referenceDirname_ne_old _).symm,
          if_neg (config.outDirname_ne_old _).symm] at misnumbered
        exact misnumbered (if_pos rfl)
  | 3 =>
      simp only [List.dropLast, List.getElem?_cons_succ, List.getElem?_cons_zero,
        Option.some.injEq] at isStop
      subst isStop
      refine iff_of_false ?_ (by omega)
      rintro (same | next)
      · exact history.version_ne_empty (congrArg ServerState.dbVerFile same).symm
      · obtain ⟨_, ends, _⟩ := next database
        exact not_scanEnds_of_empty_version rfl ends
  | steps + 4 => simp at isStop

/-- The stops of a later rotation. -/
private theorem recoverable_later_iff (history : ScanHistory config scans s) {last : δ}
    {referenceDir : Directory (Item δ)} (reference : IsReference config last s referenceDir)
    {items : Directory (Item δ)} {database : δ} (holds : HoldsNewDb config database items)
    {steps : Nat} {stopped : ServerState δ}
    (isStop : (stopStates config (withNewDb config items s))[steps]? = some stopped) :
    Recoverable config (withNewDb config items s) stopped ↔
      steps = 0 ∨ steps = 2 ∨ steps = 3 := by
  rw [stopStates, rotation_later history.parsed history.lastNumberFree reference holds] at isStop
  have recovers : ∀ {outItems : Directory (Item δ)},
      (∀ names, outItems.lookup config.aideOutDbFname ≠ some (.dir names)) →
      (∀ next, HoldsNewDb config next
        (outItems.insert config.aideOutDbFname (.file next))) →
      Recoverable config (withNewDb config items s)
        (withNewDb config outItems
          ⟨movedDir config scans last referenceDir items s, s.dbVerFile⟩) := by
    intro outItems notDir outHolds
    refine .inr fun next => ?_
    obtain ⟨finish, ends, rotated⟩ :=
      history.scanEnds_moved last referenceDir items notDir (outHolds next)
    obtain ⟨finish', ends', rotated'⟩ := history.scanEnds_later reference holds next
    rw [rotated'.unique rotated] at ends'
    exact ⟨finish, ends, ends'⟩
  match steps with
  | 0 =>
      simp only [List.dropLast, List.getElem?_cons_zero, Option.some.injEq] at isStop
      simp [Recoverable, isStop]
  | 1 =>
      simp only [List.dropLast, List.getElem?_cons_succ, List.getElem?_cons_zero,
        Option.some.injEq] at isStop
      subst isStop
      refine iff_of_false ?_ (by omega)
      have noFile : (retiredItems config ((scans.length : Int) - 1) last referenceDir).lookup
          config.aideReferenceDbFname = none := by
        rw [retiredItems, Finmap.lookup_insert_of_ne _ (config.referenceFname_ne_old _),
          Finmap.lookup_erase]
      rintro (same | next)
      · have unchanged := congrArg
          (fun state => state.aideOldDbDir.lookup config.aideReferenceDbDirname) same
        simp only [Finmap.lookup_insert, lookup_withNewDb, if_neg config.dirsDiffer,
          reference.1, Option.some.injEq, Entry.dir.injEq] at unchanged
        rw [unchanged, reference.2.1] at noFile
        cases noFile
      · obtain ⟨_, ends, _⟩ := next database
        exact not_scanEnds_of_no_file _ (Finmap.lookup_insert _) noFile ends
  | 2 =>
      simp only [List.dropLast, List.getElem?_cons_succ, List.getElem?_cons_zero,
        Option.some.injEq] at isStop
      subst isStop
      refine iff_of_true ?_ (.inr (.inl rfl))
      have same : withNewDb config items
          ⟨movedDir config scans last referenceDir items s, s.dbVerFile⟩ =
            ⟨movedDir config scans last referenceDir items s, s.dbVerFile⟩ := by
        apply ServerState.ext_lookup
        · intro name
          rw [lookup_withNewDb]
          split
          · rename_i isOut
            rw [isOut, movedDir, lookup_retireReference, if_neg (config.outDirname_ne_old _),
              if_neg config.dirsDiffer.symm, lookup_withNewDb, if_pos rfl]
          · rfl
        · rfl
      have recovered := recovers holds.not_dir fun next => holds.overwrite next
      rw [same] at recovered
      exact recovered
  | 3 =>
      simp only [List.dropLast, List.getElem?_cons_succ, List.getElem?_cons_zero,
        Option.some.injEq] at isStop
      subst isStop
      refine iff_of_true ?_ (.inr (.inr rfl))
      exact recovers (referenceItems_not_dir database _)
        fun next => holdsNewDb_over_reference config database next
  | 4 =>
      simp only [List.dropLast, List.getElem?_cons_succ, List.getElem?_cons_zero,
        Option.some.injEq] at isStop
      subst isStop
      refine iff_of_false ?_ (by omega)
      rintro (same | next)
      · have out := congrArg
          (fun state => state.aideOldDbDir.lookup config.aideOutDbDirname) same
        simp only [lookup_installReference, if_neg config.dirsDiffer.symm, if_true,
          lookup_withNewDb] at out
        cases out
      · obtain ⟨_, ends, _⟩ := next database
        refine not_scanEnds_of_old_taken ((scans.length : Int) - 1)
          (referenceItems config database)
          (retiredItems config ((scans.length : Int) - 1) last referenceDir)
          ?_ ?_ ?_ ?_ ends
        · dsimp only
          rw [lookup_installReference, if_pos rfl]
        · exact history.parsed
        · dsimp only
          rw [lookup_installReference, if_neg (config.referenceDirname_ne_old _).symm,
            if_neg (config.outDirname_ne_old _).symm, lookup_retireReference, if_pos rfl]
        · refine Finset.ne_empty_of_mem (a := config.aideOldDbFname ((scans.length : Int) - 1)) ?_
          rw [Finmap.mem_keys, Finmap.mem_iff]
          exact ⟨_, Finmap.lookup_insert _⟩
  | 5 =>
      simp only [List.dropLast, List.getElem?_cons_succ, List.getElem?_cons_zero,
        Option.some.injEq] at isStop
      subst isStop
      refine iff_of_false ?_ (by omega)
      rintro (same | next)
      · exact history.version_ne_empty (congrArg ServerState.dbVerFile same).symm
      · obtain ⟨_, ends, _⟩ := next database
        exact not_scanEnds_of_empty_version rfl ends
  | steps + 6 => simp at isStop

end ScanHistory

/-- On every reachable server, a rotation that stops before it is complete is
recoverable exactly at the safe stops. -/
theorem recoverable_iff_stopIsSafe {scans : List δ} {before stopped : ServerState δ}
    {database : δ} {steps : Nat} (reached : ScanReachable config scans s)
    (created : Scanner.createNewDb config database s = .ok before)
    (isStop : (stopStates config before)[steps]? = some stopped) :
    Recoverable config before stopped ↔ StopIsSafe scans steps := by
  have history := reached.history
  rw [history.createNewDb database, Except.ok.injEq] at created
  subst created
  have holds := holdsNewDb_fresh config database
  cases isLast : scans.getLast? with
  | none =>
      obtain rfl := List.getLast?_eq_none_iff.mp isLast
      rw [← withNewDb] at isStop ⊢
      rw [history.recoverable_first_iff holds isStop]
      simp [StopIsSafe]
  | some last =>
      obtain ⟨referenceDir, reference⟩ := history.reference last isLast
      have nonempty : scans ≠ [] := by
        rintro rfl
        cases isLast
      rw [← withNewDb] at isStop ⊢
      rw [history.recoverable_later_iff reference holds isStop]
      simp [StopIsSafe, nonempty]

/-- The second scan of a server, about to rotate. -/
def secondRotation : ServerState Nat :=
  withNewDb ServerConfig.default
    ((∅ : Directory (Item Nat)).insert ServerConfig.default.aideOutDbFname (.file 20))
    (scanOnce 10 emptyServer)

theorem scanReachable_one_scan :
    ScanReachable ServerConfig.default [10] (scanOnce 10 emptyServer) :=
  scanReachable_scanOnce 10 .start

theorem recoverable_iff_stopIsSafe_second :
    ∃ stopped, (stopStates ServerConfig.default secondRotation)[2]? = some stopped ∧
      (Recoverable ServerConfig.default secondRotation stopped ↔ StopIsSafe [10] 2) :=
  ⟨_, rfl, recoverable_iff_stopIsSafe scanReachable_one_scan
    (scanReachable_one_scan.history.createNewDb 20) rfl⟩

/-- A process that dies behind the first rename of the second scan leaves a
server on which every later scan fails. -/
theorem not_recoverable_behind_first_rename :
    ScanReachable ServerConfig.default [10] (scanOnce 10 emptyServer) ∧
      Scanner.createNewDb ServerConfig.default 20 (scanOnce 10 emptyServer) =
        .ok secondRotation ∧
      ∃ stopped, (stopStates ServerConfig.default secondRotation)[1]? = some stopped ∧
        ¬ Recoverable ServerConfig.default secondRotation stopped ∧
        ∀ database finish, ¬ ScanEnds ServerConfig.default database stopped finish := by
  refine ⟨scanReachable_one_scan, scanReachable_one_scan.history.createNewDb 20, _, rfl, ?_, ?_⟩
  · rintro (same | next)
    · have file := congrArg (fun state => state.isfileIn
        ServerConfig.default.aideReferenceDbDirname ServerConfig.default.aideReferenceDbFname) same
      revert file
      decide
    · obtain ⟨finish, ends, _⟩ := next 30
      exact not_scanEnds_of_no_file (retiredItems ServerConfig.default 0 10
        (referenceItems ServerConfig.default 10)) rfl (by decide) ends
  · intro database finish
    exact not_scanEnds_of_no_file (retiredItems ServerConfig.default 0 10
      (referenceItems ServerConfig.default 10)) rfl (by decide)

end Myscm.Server
