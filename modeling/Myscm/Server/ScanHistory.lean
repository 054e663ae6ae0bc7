import Myscm.Server.Rotation

/-!
Owns the history of scans: which numbers the databases carry after any
sequence of scans and deletions of old databases.

Owns: the reachable server states; the invariant that ties the version file,
the reference database and the old directories to the scans made so far; the
versions of the images that can be generated.

Does not own: interrupted rotations.
-/

namespace Myscm.Server

open Myscm.Library Myscm.Common

variable {δ : Type} {config : ServerConfig}

/-- The database file `name` in the directory `dir`. -/
def ServerState.databaseIn (s : ServerState δ) (dir name : Str) : Option δ :=
  match s.aideOldDbDir.lookup dir with
  | some (.dir items) =>
      match items.lookup name with
      | some (.file database) => some database
      | _ => none
  | _ => none

/-- The states a server reaches by successful scans, each of which writes a
fresh `aide.db.new` before the rotation and copies tracked files behind it,
and by deletions of old databases. The list holds the databases of the scans
made so far, oldest first. -/
inductive ScanReachable (config : ServerConfig) : List δ → ServerState δ → Prop where
  | start : ScanReachable config [] ⟨∅, some (Str.ofInt dbVerStartingValue)⟩
  | scan {scans : List δ} {s fresh next : ServerState δ} (database : δ)
      (reached : ScanReachable config scans s)
      (created : Scanner.createNewDb config database s = .ok fresh)
      (rotated : Prog.Ends (AIDEDatabasesManager.replaceOldAideDbWithNewOne config) fresh ()
        next) :
      ScanReachable config (scans ++ [database]) next
  | copy {scans : List δ} {s next : ServerState δ} (names : List Str)
      (reached : ScanReachable config scans s)
      (copied : Scanner.copySelectedTrackedDirs config names s = .ok next) :
      ScanReachable config scans next
  | delete {scans : List δ} {s : ServerState δ} (num : Int)
      (reached : ScanReachable config scans s) :
      ScanReachable config scans
        { s with aideOldDbDir := s.aideOldDbDir.erase (config.aideOldDbFname num) }

/-- The items of the reference directory: the database, and nothing under the
name of an old database. -/
def IsReference (config : ServerConfig) (database : δ) (s : ServerState δ)
    (items : Directory (Item δ)) : Prop :=
  s.aideOldDbDir.lookup config.aideReferenceDbDirname = some (.dir items) ∧
    items.lookup config.aideReferenceDbFname = some (.file database) ∧
    ∀ num, items.lookup (config.aideOldDbFname num) = none

/-- The entry is the directory of an earlier scan, under that scan's number. -/
def IsOldScan (config : ServerConfig) (scans : List δ) (name : Str) (entry : Entry δ) : Prop :=
  ∃ (num : Nat) (database : δ) (items : Directory (Item δ)),
    num + 1 < scans.length ∧ scans[num]? = some database ∧ name = config.aideOldDbFname num ∧
      entry = .dir items ∧ items.lookup (config.aideOldDbFname num) = some (.file database)

/-- The invariant of the scan history. -/
structure ScanHistory (config : ServerConfig) (scans : List δ) (s : ServerState δ) : Prop where
  version : s.dbVerFile = some (Str.ofInt ((scans.length : Int) - 1))
  noOut : s.aideOldDbDir.lookup config.aideOutDbDirname = none
  noReference : scans = [] → s.aideOldDbDir.lookup config.aideReferenceDbDirname = none
  reference : ∀ database, scans.getLast? = some database → ∃ items, IsReference config database s items
  old : ∀ name entry, s.aideOldDbDir.lookup name = some entry →
    name ≠ config.aideReferenceDbDirname → IsOldScan config scans name entry

namespace ScanHistory

variable {scans : List δ} {s : ServerState δ}

theorem parsed (history : ScanHistory config scans s) :
    MySCMDatabaseVersionFile.parse config.recentlyGenDbVerPath s.dbVerFile =
      .ok ((scans.length : Int) - 1) := by
  rw [history.version]
  exact MySCMDatabaseVersionFile.parse_ofInt (by omega)

theorem recent (history : ScanHistory config scans s) :
    AIDEDatabasesManager.getRecentAideDbVersion config s = .ok ((scans.length : Int) - 1) :=
  AIDEDatabasesManager.getRecentAideDbVersion_of_parse history.parsed

/-- A number that no earlier scan has is free among the old databases. -/
theorem numberFree (history : ScanHistory config scans s) {num : Int}
    (notEarlier : ∀ i : Nat, i + 1 < scans.length → num ≠ i) :
    s.aideOldDbDir.lookup (config.aideOldDbFname num) = none := by
  cases found : s.aideOldDbDir.lookup (config.aideOldDbFname num) with
  | none => rfl
  | some entry =>
      obtain ⟨i, _, _, below, _, same, _⟩ :=
        history.old _ entry found (config.referenceDirname_ne_old num).symm
      exact absurd (ServerConfig.aideOldDbFname_injective same) (notEarlier i below)

theorem lastNumberFree (history : ScanHistory config scans s) :
    s.aideOldDbDir.lookup (config.aideOldDbFname ((scans.length : Int) - 1)) = none :=
  history.numberFree fun i below => by omega

/-! ## One scan -/

/-- `aide --init` on a server in order leaves one new file in a new directory. -/
theorem createNewDb (history : ScanHistory config scans s) (database : δ) :
    Scanner.createNewDb config database s = .ok { s with
      aideOldDbDir := s.aideOldDbDir.insert config.aideOutDbDirname
        (.dir ((∅ : Directory (Item δ)).insert config.aideOutDbFname (.file database))) } := by
  simp [Scanner.createNewDb, history.noOut, Finmap.lookup_empty]

theorem isdir_reference (history : ScanHistory config scans s) :
    s.isdir config.aideReferenceDbDirname = !scans.isEmpty := by
  cases last : scans.getLast? with
  | none =>
      rw [List.getLast?_eq_none_iff] at last
      simp [ServerState.isdir, history.noReference last, last]
  | some database =>
      obtain ⟨items, found, _⟩ := history.reference database last
      have nonempty : scans ≠ [] := by
        rintro rfl
        cases last
      simp [ServerState.isdir, found, nonempty]

end ScanHistory

namespace AIDEDatabasesManager

variable {scans : List δ} {s : ServerState δ}

/-- A server in order, with the new database in its out directory. -/
def withNewDb (config : ServerConfig) (items : Directory (Item δ)) (s : ServerState δ) :
    ServerState δ :=
  { s with aideOldDbDir := s.aideOldDbDir.insert config.aideOutDbDirname (.dir items) }

theorem lookup_withNewDb (items : Directory (Item δ)) (s : ServerState δ) (name : Str) :
    (withNewDb config items s).aideOldDbDir.lookup name =
      if name = config.aideOutDbDirname then some (.dir items)
      else s.aideOldDbDir.lookup name := by
  unfold withNewDb
  split
  · rename_i same
    rw [same]
    exact Finmap.lookup_insert _
  · rename_i differ
    exact Finmap.lookup_insert_of_ne _ differ

variable (config) in
theorem holdsNewDb_fresh (database : δ) :
    HoldsNewDb config database
      ((∅ : Directory (Item δ)).insert config.aideOutDbFname (.file database)) := by
  refine ⟨Finmap.lookup_insert _, ?_⟩
  intro name differ
  left
  rw [Finmap.lookup_insert_of_ne _ differ, Finmap.lookup_empty]

/-- The first rotation of a server in order. -/
theorem rotation_first (history : ScanHistory config [] s) {items : Directory (Item δ)}
    {database : δ} (holds : HoldsNewDb config database items) :
    let filed := referenceItems config database
    let installed := installReference config filed (withNewDb config items s).aideOldDbDir
    replaceOldAideDbWithNewOne config (withNewDb config items s) =
      ⟨[withNewDb config filed (withNewDb config items s),
        ⟨installed, s.dbVerFile⟩,
        ⟨installed, some []⟩,
        ⟨installed, some (Str.ofInt 0)⟩],
        .ok ()⟩ := by
  intro filed installed
  have referenceFree : (withNewDb config items s).aideOldDbDir.lookup
      config.aideReferenceDbDirname = none := by
    rw [lookup_withNewDb, if_neg config.dirsDiffer, history.noReference rfl]
  have absent : (withNewDb config items s).isdir config.aideReferenceDbDirname = false := by
    simp [ServerState.isdir, referenceFree]
  have out : (withNewDb config items s).aideOldDbDir.lookup config.aideOutDbDirname =
      some (.dir items) := by
    rw [lookup_withNewDb, if_pos rfl]
  rw [replaceOldAideDbWithNewOne_first absent,
    installNewDb_run out (replace_outItems holds) referenceFree history.parsed]
  rfl

/-- A rotation of a server that has a reference database: it gets the recorded
number. -/
theorem rotation_later {num : Int} {last : δ} {referenceDir : Directory (Item δ)}
    (parsed : MySCMDatabaseVersionFile.parse config.recentlyGenDbVerPath s.dbVerFile = .ok num)
    (free : s.aideOldDbDir.lookup (config.aideOldDbFname num) = none)
    (reference : IsReference config last s referenceDir)
    {items : Directory (Item δ)} {database : δ} (holds : HoldsNewDb config database items) :
    let retired := retiredItems config num last referenceDir
    let filed := referenceItems config database
    let moved := retireReference config num retired (withNewDb config items s).aideOldDbDir
    let installed := installReference config filed moved
    replaceOldAideDbWithNewOne config (withNewDb config items s) =
      ⟨[⟨(withNewDb config items s).aideOldDbDir.insert config.aideReferenceDbDirname
          (.dir retired), s.dbVerFile⟩,
        ⟨moved, s.dbVerFile⟩,
        withNewDb config filed ⟨moved, s.dbVerFile⟩,
        ⟨installed, s.dbVerFile⟩,
        ⟨installed, some []⟩,
        ⟨installed, some (Str.ofInt (num + 1))⟩],
        .ok ()⟩ := by
  intro retired filed moved installed
  obtain ⟨found, file, noOldNames⟩ := reference
  have reference : (withNewDb config items s).aideOldDbDir.lookup
      config.aideReferenceDbDirname = some (.dir referenceDir) := by
    rw [lookup_withNewDb, if_neg config.dirsDiffer, found]
  have present : (withNewDb config items s).isdir config.aideReferenceDbDirname = true := by
    simp [ServerState.isdir, reference]
  have numFree : (withNewDb config items s).aideOldDbDir.lookup (config.aideOldDbFname num) =
      none := by
    rw [lookup_withNewDb, if_neg (config.outDirname_ne_old num).symm, free]
  have recent : getRecentAideDbVersion config (withNewDb config items s) = .ok num :=
    getRecentAideDbVersion_of_parse parsed
  have movedOut : moved.lookup config.aideOutDbDirname = some (.dir items) := by
    rw [lookup_retireReference, if_neg (config.outDirname_ne_old num),
      if_neg config.dirsDiffer.symm, lookup_withNewDb, if_pos rfl]
  have movedReference : moved.lookup config.aideReferenceDbDirname = none := by
    rw [lookup_retireReference, if_neg (config.referenceDirname_ne_old num), if_pos rfl]
  have install := installNewDb_run (s := ⟨moved, s.dbVerFile⟩) movedOut
    (replace_outItems holds) movedReference parsed
  rw [replaceOldAideDbWithNewOne_later present]
  exact Prog.andThen_run (moveReferenceDbToOld_run reference file (noOldNames num) numFree recent)
    install

end AIDEDatabasesManager

namespace ScanHistory

open AIDEDatabasesManager

variable {scans : List δ} {s : ServerState δ}

/-- What a complete rotation of `s` with a new database leaves: the new
reference directory, `retired` under the number of the last scan, and every
other entry as it was. -/
structure Rotated (config : ServerConfig) (scans : List δ) (s : ServerState δ) (database : δ)
    (retired : Option (Entry δ)) (next : ServerState δ) : Prop where
  version : next.dbVerFile = some (Str.ofInt scans.length)
  entries : ∀ name, next.aideOldDbDir.lookup name =
    if name = config.aideReferenceDbDirname then some (.dir (referenceItems config database))
    else if name = config.aideOutDbDirname then none
    else if name = config.aideOldDbFname ((scans.length : Int) - 1) then retired
    else s.aideOldDbDir.lookup name

theorem Rotated.unique {database : δ} {retired : Option (Entry δ)} {left right : ServerState δ}
    (leftRotated : Rotated config scans s database retired left)
    (rightRotated : Rotated config scans s database retired right) : left = right := by
  apply ServerState.ext_lookup
  · intro name
    rw [leftRotated.entries, rightRotated.entries]
  · rw [leftRotated.version, rightRotated.version]

/-- The first rotation of a server in order ends. -/
theorem ends_rotation_first (history : ScanHistory config [] s) {items : Directory (Item δ)}
    {database : δ} (holds : HoldsNewDb config database items) :
    ∃ next, Prog.Ends (replaceOldAideDbWithNewOne config) (withNewDb config items s) () next ∧
      Rotated config [] s database none next := by
  refine ⟨_, ⟨?_, rfl⟩, ?_⟩
  · rw [rotation_first history holds]
  · rw [rotation_first history holds]
    refine ⟨rfl, ?_⟩
    intro name
    simp only [Run.final, List.getLastD_cons, List.getLastD_nil]
    rw [lookup_installReference, lookup_withNewDb]
    split
    · rfl
    · split
      · rfl
      · split
        · rename_i isNumber
          rw [isNumber]
          exact history.numberFree fun i below => by simp at below
        · rfl

/-- A later rotation of a server in order ends. -/
theorem ends_rotation_later (history : ScanHistory config scans s) {last : δ}
    {referenceDir : Directory (Item δ)} (reference : IsReference config last s referenceDir)
    {items : Directory (Item δ)} {database : δ} (holds : HoldsNewDb config database items) :
    ∃ next, Prog.Ends (replaceOldAideDbWithNewOne config) (withNewDb config items s) () next ∧
      Rotated config scans s database
        (some (.dir (retiredItems config ((scans.length : Int) - 1) last referenceDir)))
        next := by
  refine ⟨_, ⟨?_, rfl⟩, ?_⟩
  · rw [rotation_later history.parsed history.lastNumberFree reference holds]
  · rw [rotation_later history.parsed history.lastNumberFree reference holds]
    refine ⟨?_, ?_⟩
    · simp only [Run.final, List.getLastD_cons, List.getLastD_nil, sub_add_cancel]
    intro name
    simp only [Run.final, List.getLastD_cons, List.getLastD_nil]
    rw [lookup_installReference, lookup_retireReference, lookup_withNewDb]
    split
    · rfl
    · rename_i notReference
      split
      · rfl
      · rename_i notOut
        rfl

/-- The history behind a rotation. -/
private theorem of_rotated (history : ScanHistory config scans s) {database : δ}
    {next : ServerState δ} {retired : Option (Entry δ)}
    (rotated : Rotated config scans s database retired next)
    (retiredScan : ∀ entry, retired = some entry →
      IsOldScan config (scans ++ [database])
        (config.aideOldDbFname ((scans.length : Int) - 1)) entry) :
    ScanHistory config (scans ++ [database]) next where
  version := by
    rw [rotated.version, List.length_append, List.length_singleton]
    congr 2
    omega
  noOut := by rw [rotated.entries, if_neg config.dirsDiffer.symm, if_pos rfl]
  noReference := by simp
  reference := by
    intro last isLast
    rw [List.getLast?_concat, Option.some.injEq] at isLast
    refine ⟨referenceItems config database, ?_, ?_, ?_⟩
    · rw [rotated.entries, if_pos rfl]
    · rw [lookup_referenceItems, if_pos rfl, isLast]
    · intro num
      rw [lookup_referenceItems, if_neg (config.referenceFname_ne_old num).symm]
  old := by
    intro name entry found notReference
    rw [rotated.entries, if_neg notReference] at found
    split at found
    · cases found
    · split at found
      · rename_i same
        rw [same]
        exact retiredScan entry found
      · obtain ⟨num, value, items, below, isValue, rest⟩ :=
          history.old name entry found notReference
        refine ⟨num, value, items, ?_, ?_, rest⟩
        · rw [List.length_append, List.length_singleton]
          omega
        · rw [List.getElem?_append_left (by omega), isValue]

/-- The old reference database, behind the rotation. -/
private theorem retired_isOldScan {last database : δ} (isLast : scans.getLast? = some last)
    (items : Directory (Item δ)) :
    IsOldScan config (scans ++ [database]) (config.aideOldDbFname ((scans.length : Int) - 1))
      (.dir (retiredItems config ((scans.length : Int) - 1) last items)) := by
  have nonempty : scans ≠ [] := by
    rintro rfl
    cases isLast
  have positive : 0 < scans.length := List.length_pos_iff.mpr nonempty
  have number : ((scans.length : Int) - 1) = ((scans.length - 1 : Nat) : Int) := by omega
  rw [number]
  refine ⟨scans.length - 1, last, _, ?_, ?_, rfl, rfl, Finmap.lookup_insert _⟩
  · rw [List.length_append, List.length_singleton]
    omega
  · rw [List.getElem?_append_left (by omega), ← List.getLast?_eq_getElem?, isLast]

/-- A successful scan extends the history by its database. -/
theorem scan (history : ScanHistory config scans s) {database : δ} {fresh next : ServerState δ}
    (created : Scanner.createNewDb config database s = .ok fresh)
    (rotated : Prog.Ends (replaceOldAideDbWithNewOne config) fresh () next) :
    ScanHistory config (scans ++ [database]) next := by
  rw [history.createNewDb database, Except.ok.injEq] at created
  subst created
  have holds := holdsNewDb_fresh config database
  cases isLast : scans.getLast? with
  | none =>
      obtain rfl := List.getLast?_eq_none_iff.mp isLast
      obtain ⟨next', ends, result⟩ := ends_rotation_first history holds
      obtain rfl : next = next' := (rotated.unique ends).2
      exact of_rotated history result (by simp)
  | some last =>
      obtain ⟨referenceDir, reference⟩ := history.reference last isLast
      obtain ⟨next', ends, result⟩ := ends_rotation_later history reference holds
      obtain rfl : next = next' := (rotated.unique ends).2
      refine of_rotated history result ?_
      intro entry same
      rw [← Option.some.inj same]
      exact retired_isOldScan isLast referenceDir

/-! ## Copies, deletions and whole runs -/

theorem copiedFilesDirname_ne_old (num : Int) :
    config.aideOldDbFname num ≠ Scanner.copiedFilesDirname := by
  intro same
  have dot : '.' ∈ Scanner.copiedFilesDirname := by
    rw [← same]
    simp [ServerConfig.aideOldDbFname, oldDbFname]
  revert dot
  decide

/-- Copying tracked files into the reference directory keeps the history. -/
theorem copy (history : ScanHistory config scans s) {names : List Str} {next : ServerState δ}
    (copied : Scanner.copySelectedTrackedDirs config names s = .ok next) :
    ScanHistory config scans next := by
  unfold Scanner.copySelectedTrackedDirs at copied
  split at copied
  · rename_i items found
    split at copied
    · rename_i noCopies
      cases copied
      constructor
      · exact history.version
      · dsimp only
        rw [Finmap.lookup_insert_of_ne _ config.dirsDiffer.symm, history.noOut]
      · intro empty
        rw [history.noReference empty] at found
        cases found
      · intro database isLast
        obtain ⟨items', found', file, noOldNames⟩ := history.reference database isLast
        rw [found] at found'
        cases found'
        refine ⟨_, Finmap.lookup_insert _, ?_, ?_⟩
        · rw [Finmap.lookup_insert_of_ne, file]
          rintro same
          rw [← same, file] at noCopies
          cases noCopies
        · intro num
          rw [Finmap.lookup_insert_of_ne _ (copiedFilesDirname_ne_old num), noOldNames]
      · intro name entry foundEntry notReference
        dsimp only at foundEntry
        rw [Finmap.lookup_insert_of_ne _ notReference] at foundEntry
        exact history.old name entry foundEntry notReference
    · cases copied
  · cases copied

/-- Deleting an old database keeps the history. -/
theorem delete (history : ScanHistory config scans s) (num : Int) :
    ScanHistory config scans
      { s with aideOldDbDir := s.aideOldDbDir.erase (config.aideOldDbFname num) } where
  version := history.version
  noOut := by
    rw [Finmap.lookup_erase_ne (config.outDirname_ne_old num), history.noOut]
  noReference := by
    intro empty
    rw [Finmap.lookup_erase_ne (config.referenceDirname_ne_old num), history.noReference empty]
  reference := by
    intro database isLast
    obtain ⟨items, found, rest⟩ := history.reference database isLast
    refine ⟨items, ?_, rest⟩
    rw [Finmap.lookup_erase_ne (config.referenceDirname_ne_old num), found]
  old := by
    intro name entry found notReference
    by_cases deleted : name = config.aideOldDbFname num
    · rw [deleted, Finmap.lookup_erase] at found
      cases found
    · rw [Finmap.lookup_erase_ne deleted] at found
      exact history.old name entry found notReference

theorem start : ScanHistory config ([] : List δ) ⟨∅, some (Str.ofInt dbVerStartingValue)⟩ where
  version := rfl
  noOut := Finmap.lookup_empty _
  noReference _ := Finmap.lookup_empty _
  reference := by
    intro database isLast
    cases isLast
  old := by
    intro name entry found
    rw [Finmap.lookup_empty] at found
    cases found

end ScanHistory

theorem ScanReachable.history {scans : List δ} {s : ServerState δ}
    (reached : ScanReachable config scans s) : ScanHistory config scans s := by
  induction reached with
  | start => exact .start
  | scan database _ created rotated inductionHypothesis =>
      exact inductionHypothesis.scan created rotated
  | copy names _ copied inductionHypothesis => exact inductionHypothesis.copy copied
  | delete num _ inductionHypothesis => exact inductionHypothesis.delete num

/-! ## What the history says -/

private theorem databaseIn_of_lookup {s : ServerState δ} {dir name : Str}
    {items : Directory (Item δ)} {database : δ}
    (found : s.aideOldDbDir.lookup dir = some (.dir items))
    (file : items.lookup name = some (.file database)) :
    s.databaseIn dir name = some database := by
  simp [ServerState.databaseIn, found, file]

/-- An image can only be formed from an earlier scan to the last one. -/
theorem ScanHistory.init_cases {scans : List δ} {s : ServerState δ}
    (history : ScanHistory config scans s) {genImg : Int} {ids : Int × Int}
    (formed : SystemImageGenerator.init config genImg s = .ok ids) :
    ids = (genImg, (scans.length : Int) - 1) ∧ 0 ≤ genImg ∧
      genImg < (scans.length : Int) - 1 := by
  simp only [SystemImageGenerator.init, history.recent, SystemImageGenerator.getClientDbPath]
    at formed
  by_cases negative : genImg < 0
  · rw [if_pos negative] at formed
    cases formed
  · rw [if_neg negative] at formed
    by_cases isfile : s.isfileIn (config.aideOldDbFname genImg) (config.aideOldDbFname genImg) = true
    · rw [if_pos isfile] at formed
      cases formed
      have notFree : s.aideOldDbDir.lookup (config.aideOldDbFname genImg) ≠ none := by
        intro free
        simp [ServerState.isfileIn, free] at isfile
      obtain ⟨entry, found⟩ := Option.ne_none_iff_exists'.mp notFree
      obtain ⟨num, _, _, below, _, same, _⟩ :=
        history.old _ entry found (config.referenceDirname_ne_old genImg).symm
      have number := ServerConfig.aideOldDbFname_injective same
      refine ⟨rfl, by omega, by omega⟩
    · rw [if_neg isfile] at formed
      cases formed

/-- The scan history invariant, for every sequence of scans, copies and
deletions: the version file counts the scans; the reference database is that
of the last scan; every other directory is an earlier scan under its own
number; an image leads from an earlier scan to the last one. -/
theorem scanHistory_of_scanReachable {scans : List δ} {s : ServerState δ}
    (reached : ScanReachable config scans s) :
    s.dbVerFile = some (Str.ofInt ((scans.length : Int) - 1)) ∧
      (scans ≠ [] →
        s.databaseIn config.aideReferenceDbDirname config.aideReferenceDbFname =
          scans[scans.length - 1]?) ∧
      (∀ name entry, s.aideOldDbDir.lookup name = some entry →
        name = config.aideReferenceDbDirname ∨
          ∃ num : Nat, num + 1 < scans.length ∧ name = config.aideOldDbFname num ∧
            s.databaseIn name name = scans[num]?) ∧
      (∀ genImg fname, SystemImageGenerator.imgFname config genImg s = .ok fname →
        ∃ toDbId : Int, fname = SystemImageGenerator.myscmImgFileName genImg toDbId ∧
          toDbId = (scans.length : Int) - 1 ∧ 0 ≤ genImg ∧ genImg < toDbId) := by
  have history := reached.history
  refine ⟨history.version, ?_, ?_, ?_⟩
  · intro nonempty
    obtain ⟨last, isLast⟩ := Option.ne_none_iff_exists'.mp
      (fun none => nonempty (List.getLast?_eq_none_iff.mp none))
    obtain ⟨items, found, file, _⟩ := history.reference last isLast
    rw [databaseIn_of_lookup found file, ← List.getLast?_eq_getElem?, isLast]
  · intro name entry found
    by_cases isReference : name = config.aideReferenceDbDirname
    · exact .inl isReference
    · right
      obtain ⟨num, database, items, below, isDatabase, same, isDir, file⟩ :=
        history.old name entry found isReference
      rw [isDir] at found
      rw [← same] at file
      exact ⟨num, below, same, by rw [databaseIn_of_lookup found file, isDatabase]⟩
  · intro genImg fname formed
    simp only [SystemImageGenerator.imgFname] at formed
    cases result : SystemImageGenerator.init config genImg s with
    | error failure =>
        rw [result] at formed
        cases formed
    | ok ids =>
        rw [result] at formed
        cases formed
        obtain ⟨rfl, notNegative, below⟩ := history.init_cases result
        exact ⟨_, rfl, rfl, notNegative, below⟩

/-- A server without any database, as the first scan finds it. -/
def emptyServer : ServerState Nat := ⟨∅, some (Str.ofInt dbVerStartingValue)⟩

/-- One scan with the default configuration. -/
def scanOnce (database : Nat) (s : ServerState Nat) : ServerState Nat :=
  let fresh := AIDEDatabasesManager.withNewDb ServerConfig.default
    ((∅ : Directory (Item Nat)).insert ServerConfig.default.aideOutDbFname (.file database)) s
  (AIDEDatabasesManager.replaceOldAideDbWithNewOne ServerConfig.default fresh).final fresh

theorem scanReachable_scanOnce {scans : List Nat} {s : ServerState Nat} (database : Nat)
    (reached : ScanReachable ServerConfig.default scans s) :
    ScanReachable ServerConfig.default (scans ++ [database]) (scanOnce database s) := by
  have history := reached.history
  have holds := AIDEDatabasesManager.holdsNewDb_fresh ServerConfig.default database
  cases isLast : scans.getLast? with
  | none =>
      obtain rfl := List.getLast?_eq_none_iff.mp isLast
      obtain ⟨next, ends, _⟩ := ScanHistory.ends_rotation_first history holds
      rw [scanOnce, ends.2]
      exact .scan database reached (history.createNewDb database) ends
  | some last =>
      obtain ⟨referenceDir, reference⟩ := history.reference last isLast
      obtain ⟨next, ends, _⟩ := ScanHistory.ends_rotation_later history reference holds
      rw [scanOnce, ends.2]
      exact .scan database reached (history.createNewDb database) ends

/-- Three scans and the deletion of the second database; the image from the
first scan can still be formed. -/
theorem scanHistory_three_scans :
    let config := ServerConfig.default
    let s := scanOnce 30 (scanOnce 20 (scanOnce 10 emptyServer))
    let deleted : ServerState Nat :=
      { s with aideOldDbDir := s.aideOldDbDir.erase (config.aideOldDbFname 1) }
    deleted.databaseIn config.aideReferenceDbDirname config.aideReferenceDbFname = some 30 ∧
      SystemImageGenerator.imgFname config 0 deleted =
        .ok (SystemImageGenerator.myscmImgFileName 0 2) ∧
      ∃ toDbId : Int,
        SystemImageGenerator.myscmImgFileName 0 2 =
          SystemImageGenerator.myscmImgFileName 0 toDbId ∧
        toDbId = 2 ∧ (0 : Int) ≤ 0 ∧ 0 < toDbId := by
  intro config s deleted
  have reached : ScanReachable config [10, 20, 30] deleted :=
    .delete 1 (scanReachable_scanOnce 30 (scanReachable_scanOnce 20
      (scanReachable_scanOnce 10 .start)))
  have formed : SystemImageGenerator.imgFname config 0 deleted =
      .ok (SystemImageGenerator.myscmImgFileName 0 2) := by rfl
  obtain ⟨_, reference, _, images⟩ := scanHistory_of_scanReachable reached
  exact ⟨reference (by simp), formed, images 0 _ formed⟩

end Myscm.Server
