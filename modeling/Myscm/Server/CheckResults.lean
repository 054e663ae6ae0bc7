import Myscm.Server.CheckReport
import Myscm.Server.DatabaseLookups

/-!
Owns what becomes of a `--check` report and the two databases its paths are looked
up in: which results are read completely, and which end in an error that the
reader raises for them.

Owns: the previous properties of changed entries; the four look-ups of
`read_all_entries`; the exact condition under which the results are read completely
or refused.

Does not own: what one database gives.
-/

namespace Myscm.Server

open Myscm.Library

/-! ## Previous properties -/

namespace AIDECheckParser

open AIDEDatabaseFileParser

/-- Setting previous properties ends with them, or at a row whose values do not convert. -/
theorem setPrevValues_cases (changedEntries : Dict Str ReadEntry) (rows : List (Str × RowValues))
    (known : ∀ row ∈ rows, row.1 ∈ changedEntries.keys) :
    (∃ dict, setPrevValues changedEntries rows = .ok dict ∧ (∀ row ∈ rows, Converts row.2) ∧
        dict.keys = changedEntries.keys ∧
        ∀ path entry, dict.get? path = some entry →
          (entry.prevProperties ≠ none ↔ path ∈ rows.map Prod.fst ∨
            ∃ before, changedEntries.get? path = some before ∧ before.prevProperties ≠ none)) ∨
      ∃ failure, setPrevValues changedEntries rows = .error failure ∧ failure.Stray ∧
        ∃ row ∈ rows, ¬ Converts row.2 := by
  induction rows generalizing changedEntries with
  | nil =>
      refine .inl ⟨changedEntries, rfl, by simp, by simp, fun path entry found => ?_⟩
      simp [found]
  | cons row rest inductionHypothesis =>
      obtain ⟨path, values⟩ := row
      obtain ⟨entry, isEntry⟩ := Option.isSome_iff_exists.mp
        (Dict.mem_keys_iff.mp (known (path, values) List.mem_cons_self))
      rw [setPrevValues, isEntry]
      dsimp only
      cases converted : AIDEProperties.ofRow values with
      | error failure =>
          refine .inr ⟨failure, rfl, ofRow_error failure converted ▸ stray_valueError,
            (path, values), List.mem_cons_self, ?_⟩
          rintro ⟨properties, isOk⟩
          rw [converted] at isOk
          cases isOk
      | ok properties =>
          have sameKeys : (changedEntries.set path
              { entry with prevProperties := some properties }).keys = changedEntries.keys := by
            rw [Dict.keys_set, if_pos (known (path, values) List.mem_cons_self)]
          rcases inductionHypothesis (changedEntries.set path
              { entry with prevProperties := some properties })
              (fun row member => sameKeys ▸ known row (List.mem_cons_of_mem _ member)) with
            ⟨dict, set, converts, keys, prev⟩ | ⟨failure, failed, stray, row, member, fails⟩
          · refine .inl ⟨dict, set, ?_, keys.trans sameKeys, ?_⟩
            · rintro row member
              rcases List.mem_cons.mp member with rfl | later
              · exact ⟨properties, converted⟩
              · exact converts row later
            · intro other found isFound
              rw [prev other found isFound, Dict.get?_set, List.map_cons, List.mem_cons]
              by_cases same : other = path <;> simp [same]
          · exact .inr ⟨failure, failed, stray, row, List.mem_cons_of_mem _ member, fails⟩

/-- The previous properties are set in one of four ways. The third leaves one out. -/
theorem setChangedPropertiesPrevValues_cases {client : AIDEDatabaseFileParser}
    {listed : Dict Str AIDESimpleEntry} (keyed : Keyed listed)
    (valid : ∀ simpleEntry ∈ listed.values, ValidInfo simpleEntry.aideInfoStr)
    {changedEntries : Dict Str ReadEntry}
    (sameKeys : changedEntries.keys = listed.keys)
    (noPrev : ∀ path entry, changedEntries.get? path = some entry → entry.prevProperties = none) :
    (∃ failure, setChangedPropertiesPrevValues client changedEntries = .error failure ∧
        failure.Refusal ∧ client.Stops listed.keys) ∨
      (∃ failure, setChangedPropertiesPrevValues client changedEntries = .error failure ∧
        failure.Stray ∧ ¬ client.Stops listed.keys ∧ ¬ client.Provides listed) ∨
      (∃ dict, setChangedPropertiesPrevValues client changedEntries = .ok dict ∧
        ¬ client.Stops listed.keys ∧ ¬ client.Provides listed ∧
          ∃ path entry, dict.get? path = some entry ∧ entry.prevProperties = none) ∨
      ∃ dict, setChangedPropertiesPrevValues client changedEntries = .ok dict ∧
        client.Provides listed ∧ dict.keys = listed.keys ∧
          ∀ path entry, dict.get? path = some entry → entry.prevProperties ≠ none := by
  unfold setChangedPropertiesPrevValues
  rw [sameKeys]
  rcases @getFilesProperties_cases client listed.keys with
    ⟨failure, failed, refusal, stops⟩ | ⟨failed, goesOn, unserved⟩ | ⟨properties, read, serves, found⟩
  · rw [failed]
    exact .inl ⟨failure, rfl, refusal, stops⟩
  · rw [failed]
    exact .inr (.inl ⟨_, rfl, stray_indexError, goesOn, fun provides => unserved provides.1⟩)
  · rw [read]
    have row_of_mem : ∀ row ∈ properties.items,
        row.1 ∈ listed.keys ∧ client.row? row.1 = some row.2 := by
      intro row member
      have isRow := Dict.get?_eq_some_iff.mpr member
      rw [found] at isRow
      split at isRow
      · rename_i isKey
        exact ⟨isKey, isRow⟩
      · cases isRow
    dsimp only [bind, Except.bind]
    rcases setPrevValues_cases changedEntries properties.items
      (fun row member => sameKeys ▸ (row_of_mem row member).1) with
      ⟨dict, set, converts, keys, prev⟩ | ⟨failure, failed, stray, row, member, fails⟩
    · have hasPrev : ∀ path entry, dict.get? path = some entry →
          (entry.prevProperties ≠ none ↔ path ∈ properties.keys) := by
        intro path entry isEntry
        rw [prev path entry isEntry, Dict.keys]
        constructor
        · rintro (isRow | ⟨before, isBefore, some'⟩)
          · exact isRow
          · exact absurd (noPrev path before isBefore) some'
        · exact .inl
      by_cases complete : ∀ path ∈ listed.keys, path ∈ properties.keys
      · refine .inr (.inr (.inr ⟨dict, set, ⟨serves, ?_⟩, keys.trans sameKeys, ?_⟩))
        · intro simpleEntry member
          have isPath : simpleEntry.filePath ∈ listed.keys := by
            rw [← map_filePath keyed]
            exact List.mem_map_of_mem member
          obtain ⟨row, isRow, samePath⟩ := List.mem_map.mp (complete _ isPath)
          refine ⟨⟨row.2, ?_, converts row isRow⟩, valid simpleEntry member⟩
          rw [← samePath]
          exact (row_of_mem row isRow).2
        · intro path entry isEntry
          rw [hasPrev path entry isEntry]
          apply complete
          rw [← sameKeys, ← keys, Dict.mem_keys_iff, isEntry]
          rfl
      · simp only [not_forall, exists_prop] at complete
        obtain ⟨path, isPath, missing⟩ := complete
        obtain ⟨entry, isEntry⟩ := Option.isSome_iff_exists.mp
          (Dict.mem_keys_iff.mp (keys.trans sameKeys ▸ isPath))
        refine .inr (.inr (.inl ⟨dict, set, not_stops_of_serves serves, ?_, path, entry, isEntry, ?_⟩))
        · rintro ⟨_, ready⟩
          rw [← map_filePath keyed] at isPath
          obtain ⟨simpleEntry, member, rfl⟩ := List.mem_map.mp isPath
          obtain ⟨⟨values, isRow, _⟩, _⟩ := ready simpleEntry member
          apply missing
          rw [Dict.mem_keys_iff, found, if_pos (map_filePath keyed ▸ isPath), isRow]
          rfl
        · by_contra some'
          exact missing ((hasPrev path entry isEntry).mp some')
    · rw [failed]
      refine .inr (.inl ⟨failure, rfl, stray, not_stops_of_serves serves, ?_⟩)
      rintro ⟨_, ready⟩
      obtain ⟨isPath, isRow⟩ := row_of_mem row member
      rw [← map_filePath keyed] at isPath
      obtain ⟨simpleEntry, isListed, samePath⟩ := List.mem_map.mp isPath
      obtain ⟨⟨values, isValues, converts⟩, _⟩ := ready simpleEntry isListed
      rw [samePath, isRow, Option.some.injEq] at isValues
      exact fails (isValues ▸ converts)

/-! ## Listed entries -/

theorem keyed_set {d : Dict Str AIDESimpleEntry} (keyed : Keyed d) (entry : AIDESimpleEntry) :
    Keyed (d.set entry.filePath entry) := by
  intro path simpleEntry found
  rw [Dict.get?_set] at found
  split at found
  · rename_i same
    rw [← Option.some.inj found, same]
  · exact keyed path simpleEntry found

theorem keyed_empty : Keyed .empty := by
  intro path simpleEntry found
  cases found

theorem keyed_of_readUntilEmptyLine {d dict : Dict Str AIDESimpleEntry} {lines rest : List Str}
    (keyed : Keyed d) (read : readUntilEmptyLine d lines = .ok (dict, rest)) : Keyed dict := by
  induction lines generalizing d with
  | nil =>
      rw [readUntilEmptyLine, Except.ok.injEq, Prod.mk.injEq] at read
      exact read.1 ▸ keyed
  | cons line lines inductionHypothesis =>
      rw [readUntilEmptyLine] at read
      split at read
      · obtain ⟨entry, _, later⟩ := bind_ok read
        exact inductionHypothesis (keyed_set keyed entry) later
      · rw [Except.ok.injEq, Prod.mk.injEq] at read
        exact read.1 ▸ keyed

theorem keyed_of_createSimpleEntries {dict : Dict Str AIDESimpleEntry} {lines rest : List Str}
    (created : createSimpleEntriesFromLinesUpToNewLine lines = .ok (dict, rest)) : Keyed dict := by
  induction lines with
  | nil =>
      rw [createSimpleEntriesFromLinesUpToNewLine, Except.ok.injEq, Prod.mk.injEq] at created
      exact created.1 ▸ keyed_empty
  | cons line lines inductionHypothesis =>
      rw [createSimpleEntriesFromLinesUpToNewLine] at created
      split at created
      · obtain ⟨entry, _, later⟩ := bind_ok created
        exact keyed_of_readUntilEmptyLine (keyed_set keyed_empty entry) later
      · exact inductionHypothesis created

theorem keyed_of_setEntriesTurns {turns : Nat} {expected : Dict Str EntryType}
    {entries simple : AIDEEntries AIDESimpleEntry} {lines : List Str}
    (keyed : ∀ type, Keyed (entries.of type))
    (read : setEntriesTurns turns expected entries lines = .ok simple) (type : EntryType) :
    Keyed (simple.of type) := by
  induction turns generalizing expected entries lines with
  | zero =>
      rw [setEntriesTurns, Except.ok.injEq] at read
      exact read ▸ keyed type
  | succ turns inductionHypothesis =>
      rw [setEntriesTurns] at read
      split at read
      · cases read
      · cases read
      · split at read
        · rename_i found _
          obtain ⟨rest, _, afterLines⟩ := bind_ok read
          obtain ⟨⟨dict, rest'⟩, created, later⟩ := bind_ok afterLines
          refine inductionHypothesis (fun other => ?_) later
          rw [AIDEEntries.of_setOf]
          split
          · exact keyed_of_createSimpleEntries created
          · exact keyed other
        · split at read
          · rw [Except.ok.injEq] at read
            exact read ▸ keyed type
          · cases read

theorem keyed_of_sections {lines : List Str} {simple : AIDEEntries AIDESimpleEntry}
    (read : setAddedRemovedChangedEntries lines = .ok simple) (type : EntryType) :
    Keyed (simple.of type) :=
  keyed_of_setEntriesTurns (fun other => by rw [AIDEEntries.of_empty]; exact keyed_empty) read type

/-! ## All or nothing -/

/-- The look-ups for the entries of a report, in the order in which they are made. -/
def lookups (server client : AIDEDatabaseFileParser) (simple : AIDEEntries AIDESimpleEntry) :
    List (AIDEDatabaseFileParser × Dict Str AIDESimpleEntry) :=
  [(server, simple.addedEntries), (client, simple.removedEntries),
    (server, simple.changedEntries), (client, simple.changedEntries)]

/-- The first look-up whose database does not provide all that it asks for is one whose
database is refused. -/
def Attended : List (AIDEDatabaseFileParser × Dict Str AIDESimpleEntry) → Prop
  | [] => True
  | (parser, listed) :: later =>
      parser.Stops listed.keys ∨ parser.Provides listed ∧ Attended later

/-- The entries are all that the report lists, and each changed one has its previous
properties. -/
def Complete (simple : AIDEEntries AIDESimpleEntry) (entries : AIDEEntries ReadEntry) : Prop :=
  (∀ type, ∀ path ∈ (simple.of type).keys, path ∈ (entries.of type).keys) ∧
    ∀ path entry, entries.changedEntries.get? path = some entry → entry.prevProperties ≠ none

/-- The results are refused with an error of the reader, or read completely, and where a
listed path is missing in a database it is looked up in they are refused. -/
def AllOrNothing (server client : AIDEDatabaseFileParser) (lines : List Str) : Prop :=
  ((∃ failure, readAllEntries server client lines = .error failure ∧ failure.Guarded) ∨
      ∃ simple entries, setAddedRemovedChangedEntries lines = .ok simple ∧
        readAllEntries server client lines = .ok entries ∧ Complete simple entries) ∧
    ∀ simple, setAddedRemovedChangedEntries lines = .ok simple →
      ∀ lookup ∈ lookups server client simple, ∀ path ∈ lookup.2.keys,
        lookup.1.row? path = none →
          ∃ failure, readAllEntries server client lines = .error failure ∧ failure.Guarded

theorem attended_cons_iff {parser : AIDEDatabaseFileParser} {listed : Dict Str AIDESimpleEntry}
    {later : List (AIDEDatabaseFileParser × Dict Str AIDESimpleEntry)}
    (provides : parser.Provides listed) : Attended ((parser, listed) :: later) ↔ Attended later := by
  rw [Attended]
  exact ⟨fun attended => attended.elim (fun stops => absurd stops (not_stops_of_serves provides.1))
    And.right, fun attended => .inr ⟨provides, attended⟩⟩

theorem not_attended_cons {parser : AIDEDatabaseFileParser} {listed : Dict Str AIDESimpleEntry}
    {later : List (AIDEDatabaseFileParser × Dict Str AIDESimpleEntry)}
    (goesOn : ¬ parser.Stops listed.keys) (lacks : ¬ parser.Provides listed) :
    ¬ Attended ((parser, listed) :: later) := by
  rintro (stops | ⟨provides, _⟩)
  · exact goesOn stops
  · exact lacks provides

/-- The entries that a report lists are read in one of four ways. -/
theorem readAllEntriesUnguarded_cases {server client : AIDEDatabaseFileParser} {lines : List Str}
    {simple : AIDEEntries AIDESimpleEntry}
    (read : setAddedRemovedChangedEntries lines = .ok simple) :
    (∃ failure, readAllEntriesUnguarded server client lines = .error failure ∧ failure.Refusal ∧
        Attended (lookups server client simple)) ∨
      (∃ failure, readAllEntriesUnguarded server client lines = .error failure ∧ failure.Stray ∧
        ¬ Attended (lookups server client simple)) ∨
      (∃ entries, readAllEntriesUnguarded server client lines = .ok entries ∧
        ¬ Complete simple entries ∧ ¬ Attended (lookups server client simple)) ∨
      ∃ entries, readAllEntriesUnguarded server client lines = .ok entries ∧
        Complete simple entries ∧ Attended (lookups server client simple) ∧
          ∀ lookup ∈ lookups server client simple, lookup.1.Provides lookup.2 := by
  have keyed := keyed_of_sections read
  unfold readAllEntriesUnguarded lookups
  rw [read]
  dsimp only [bind, Except.bind]
  rcases @getFilesEntries_cases server _ (keyed .added) .added with
    ⟨failure, failed, refusal, stops⟩ | ⟨failure, failed, stray, goesOn, lacks⟩ |
      ⟨added, readAdded, providesAdded, addedKeys, _⟩
  · exact .inl ⟨failure, by rw [AIDEEntries.of] at failed; rw [failed], refusal, .inl stops⟩
  · exact .inr (.inl ⟨failure, by rw [AIDEEntries.of] at failed; rw [failed], stray,
      not_attended_cons goesOn lacks⟩)
  rw [AIDEEntries.of] at readAdded providesAdded
  rw [readAdded, attended_cons_iff providesAdded]
  dsimp only
  rcases @getFilesEntries_cases client _ (keyed .removed) .removed with
    ⟨failure, failed, refusal, stops⟩ | ⟨failure, failed, stray, goesOn, lacks⟩ |
      ⟨removed, readRemoved, providesRemoved, removedKeys, _⟩
  · exact .inl ⟨failure, by rw [AIDEEntries.of] at failed; rw [failed], refusal, .inl stops⟩
  · exact .inr (.inl ⟨failure, by rw [AIDEEntries.of] at failed; rw [failed], stray,
      not_attended_cons goesOn lacks⟩)
  rw [AIDEEntries.of] at readRemoved providesRemoved
  rw [readRemoved, attended_cons_iff providesRemoved]
  dsimp only
  rcases @getFilesEntries_cases server _ (keyed .changed) .changed with
    ⟨failure, failed, refusal, stops⟩ | ⟨failure, failed, stray, goesOn, lacks⟩ |
      ⟨changed, readChanged, providesChanged, changedKeys, noPrev⟩
  · exact .inl ⟨failure, by rw [AIDEEntries.of] at failed; rw [failed], refusal, .inl stops⟩
  · exact .inr (.inl ⟨failure, by rw [AIDEEntries.of] at failed; rw [failed], stray,
      not_attended_cons goesOn lacks⟩)
  rw [AIDEEntries.of] at readChanged providesChanged
  rw [readChanged, attended_cons_iff providesChanged]
  dsimp only
  rcases setChangedPropertiesPrevValues_cases (keyed .changed)
      (fun simpleEntry member => (providesChanged.2 simpleEntry member).2) changedKeys noPrev with
    ⟨failure, failed, refusal, stops⟩ | ⟨failure, failed, stray, goesOn, lacks⟩ |
      ⟨dict, set, goesOn, lacks, path, entry, isEntry, missing⟩ |
      ⟨dict, set, providesPrev, dictKeys, prev⟩
  · exact .inl ⟨failure, by rw [failed], refusal, .inl stops⟩
  · exact .inr (.inl ⟨failure, by rw [failed], stray, not_attended_cons goesOn lacks⟩)
  · refine .inr (.inr (.inl ⟨⟨added, removed, dict⟩, by rw [set]; rfl, fun complete => ?_,
      not_attended_cons goesOn lacks⟩))
    exact complete.2 path entry isEntry missing
  · refine .inr (.inr (.inr ⟨⟨added, removed, dict⟩, by rw [set]; rfl, ⟨fun type path member => ?_,
      prev⟩, .inr ⟨providesPrev, trivial⟩, ?_⟩))
    · cases type with
      | added => exact addedKeys ▸ member
      | removed => exact removedKeys ▸ member
      | changed => exact dictKeys ▸ member
    · simp only [List.mem_cons, List.not_mem_nil, or_false]
      rintro lookup (rfl | rfl | rfl | rfl)
      · exact providesAdded
      · exact providesRemoved
      · exact providesChanged
      · exact providesPrev

theorem getSimpleAideEntry_error {line : Str} {failure : ReadError}
    (failed : getSimpleAideEntry line = .error failure) : failure.Refusal := by
  unfold getSimpleAideEntry at failed
  split at failed
  · cases failed
  · rw [← Except.error.inj failed]
    exact .inl trivial

private theorem bind_refusal {α β : Type} {x : Except ReadError α} {f : α → Except ReadError β}
    (first : ∀ failure, x = .error failure → failure.Refusal)
    (second : ∀ value failure, f value = .error failure → failure.Refusal) :
    ∀ failure, (x >>= f) = .error failure → failure.Refusal := by
  intro failure failed
  cases x with
  | error earlier => exact first failure (by rw [Except.error.inj failed])
  | ok value => exact second value failure failed

private theorem readUntilEmptyLine_error (lines : List Str) (d : Dict Str AIDESimpleEntry) :
    ∀ failure, readUntilEmptyLine d lines = .error failure → failure.Refusal := by
  induction lines generalizing d with
  | nil =>
      intro failure failed
      cases failed
  | cons line lines inductionHypothesis =>
      rw [readUntilEmptyLine]
      split
      · exact bind_refusal (fun _ => getSimpleAideEntry_error) fun _ => inductionHypothesis _
      · intro failure failed
        cases failed

private theorem createSimpleEntries_error (lines : List Str) :
    ∀ failure, createSimpleEntriesFromLinesUpToNewLine lines = .error failure →
      failure.Refusal := by
  induction lines with
  | nil =>
      intro failure failed
      cases failed
  | cons line lines inductionHypothesis =>
      rw [createSimpleEntriesFromLinesUpToNewLine]
      split
      · exact bind_refusal (fun _ => getSimpleAideEntry_error)
          fun _ => readUntilEmptyLine_error lines _
      · exact inductionHypothesis

private theorem readAssertNextLines_error (expectedLines lines : List Str) :
    ∀ failure, readAssertNextLines expectedLines lines = .error failure → failure.Refusal := by
  induction expectedLines generalizing lines with
  | nil =>
      intro failure failed
      cases failed
  | cons expectedLine laterLines inductionHypothesis =>
      intro failure failed
      cases lines with
      | nil =>
          rw [← Except.error.inj failed]
          exact .inr rfl
      | cons line rest =>
          rw [readAssertNextLines] at failed
          split at failed
          · rw [← Except.error.inj failed]
            exact .inl trivial
          · exact inductionHypothesis rest failure failed

private theorem setEntriesTurns_error (turns : Nat) (expected : Dict Str EntryType)
    (entries : AIDEEntries AIDESimpleEntry) (lines : List Str) :
    ∀ failure, setEntriesTurns turns expected entries lines = .error failure →
      failure.Refusal := by
  induction turns generalizing expected entries lines with
  | zero =>
      intro failure failed
      cases failed
  | succ turns inductionHypothesis =>
      intro failure failed
      rw [setEntriesTurns] at failed
      split at failed
      · rw [← Except.error.inj failed]
        exact .inl trivial
      · rw [← Except.error.inj failed]
        exact .inr rfl
      · split at failed
        · exact bind_refusal (readAssertNextLines_error _ _)
            (fun _ => bind_refusal (createSimpleEntries_error _)
              fun _ => inductionHypothesis _ _ _) failure failed
        · split at failed
          · cases failed
          · rw [← Except.error.inj failed]
            exact .inl trivial

/-- A report whose sections cannot be read is refused. -/
theorem sections_error {lines : List Str} {failure : ReadError}
    (failed : setAddedRemovedChangedEntries lines = .error failure) : failure.Refusal :=
  setEntriesTurns_error _ _ _ _ failure failed

theorem readAllEntries_of_refusal {server client : AIDEDatabaseFileParser} {lines : List Str}
    {failure : ReadError} (failed : readAllEntriesUnguarded server client lines = .error failure)
    (refusal : failure.Refusal) :
    ∃ failure, readAllEntries server client lines = .error failure ∧ failure.Guarded := by
  unfold readAllEntries
  rw [failed]
  rcases refusal with guarded | rfl
  · cases failure <;> first | exact ⟨_, rfl, trivial⟩ | exact guarded.elim
  · exact ⟨_, rfl, trivial⟩

theorem readAllEntries_of_not_refusal {server client : AIDEDatabaseFileParser} {lines : List Str}
    (goesOn : ∀ failure, readAllEntriesUnguarded server client lines = .error failure →
      failure.Stray) :
    readAllEntries server client lines = readAllEntriesUnguarded server client lines := by
  unfold readAllEntries
  split
  · rename_i failed
    exact absurd (.inr rfl) (goesOn _ failed)
  · rfl

/-- The results of AIDE are read all or nothing just where the first look-up whose database
does not have all that is asked for is one whose database is refused. -/
theorem allOrNothing_iff (server client : AIDEDatabaseFileParser) (lines : List Str) :
    AllOrNothing server client lines ↔
      ∀ simple, setAddedRemovedChangedEntries lines = .ok simple →
        Attended (lookups server client simple) := by
  cases read : setAddedRemovedChangedEntries lines with
  | error failure =>
      have refused := @readAllEntries_of_refusal server client lines failure
        (by unfold readAllEntriesUnguarded; rw [read]; rfl) (sections_error read)
      constructor
      · intro _ simple isOk
        cases isOk
      · intro _
        refine ⟨.inl refused, fun simple isOk => ?_⟩
        rw [read] at isOk
        cases isOk
  | ok simple =>
      have onlySimple : (∀ simple', (Except.ok simple : Except ReadError _) = .ok simple' →
          Attended (lookups server client simple')) ↔ Attended (lookups server client simple) := by
        refine ⟨fun all => all simple rfl, fun attended simple' same => ?_⟩
        cases same
        exact attended
      rw [onlySimple]
      rcases @readAllEntriesUnguarded_cases server client lines simple read with
        ⟨failure, failed, refusal, attended⟩ | ⟨failure, failed, stray, unattended⟩ |
          ⟨entries, isOk, incomplete, unattended⟩ | ⟨entries, isOk, complete, attended, provides⟩
      · have refused := readAllEntries_of_refusal failed refusal
        exact ⟨fun _ => attended, fun _ => ⟨.inl refused, fun _ _ _ _ _ _ _ => refused⟩⟩
      · have outcome := @readAllEntries_of_not_refusal server client lines fun failure' failed' => by
          rw [failed, Except.error.injEq] at failed'
          exact failed' ▸ stray
        rw [failed] at outcome
        refine ⟨fun ⟨ends, _⟩ => ?_, fun attended => absurd attended unattended⟩
        rcases ends with ⟨failure', isError, guarded⟩ | ⟨_, _, _, isOk, _⟩
        · rw [outcome, Except.error.injEq] at isError
          exact absurd (.inl (isError ▸ guarded)) stray
        · rw [outcome] at isOk
          cases isOk
      · have outcome := @readAllEntries_of_not_refusal server client lines fun failure failed => by
          rw [isOk] at failed
          cases failed
        rw [isOk] at outcome
        refine ⟨fun ⟨ends, _⟩ => ?_, fun attended => absurd attended unattended⟩
        rcases ends with ⟨failure, isError, _⟩ | ⟨simple', entries', isSimple, isOk', complete⟩
        · rw [outcome] at isError
          cases isError
        · rw [read, Except.ok.injEq] at isSimple
          rw [outcome, Except.ok.injEq] at isOk'
          exact absurd (isSimple ▸ isOk' ▸ complete) incomplete
      · have outcome := @readAllEntries_of_not_refusal server client lines fun failure failed => by
          rw [isOk] at failed
          cases failed
        rw [isOk] at outcome
        refine ⟨fun _ => attended, fun _ => ⟨.inr ⟨simple, entries, read, outcome, complete⟩, ?_⟩⟩
        intro simple' isSimple lookup member path isListed missing
        rw [read, Except.ok.injEq] at isSimple
        subst isSimple
        have keyed : Keyed lookup.2 := by
          simp only [lookups, List.mem_cons, List.not_mem_nil, or_false] at member
          rcases member with rfl | rfl | rfl | rfl
          · exact keyed_of_sections read .added
          · exact keyed_of_sections read .removed
          · exact keyed_of_sections read .changed
          · exact keyed_of_sections read .changed
        rw [← map_filePath keyed] at isListed
        obtain ⟨simpleEntry, inValues, rfl⟩ := List.mem_map.mp isListed
        obtain ⟨⟨values, isRow, _⟩, _⟩ := (provides lookup member).2 simpleEntry inValues
        rw [missing] at isRow
        cases isRow

/-- A database with the given rows. -/
def databaseOf (rows : List Str) : AIDEDatabaseFileParser where
  aideDbPath := "/var/aide.db".toList
  dbFile := some ([aideDbFileOpening,
    "@@db_spec name lname attr perm inode bcount uid gid size mtime ctime lcount md5 sha1 \n".toList] ++
      rows ++ [aideDbFileClosing])

/-- A report of one changed directory. -/
def changedLines : List Str :=
  [aideSeparator, title .changed, aideSeparator, ['\n'],
    summaryLine "d =.... mc.. .. .".toList rootPath.text, ['\n'], aideSeparator, detailedInfo]

theorem not_allOrNothing_changedLines :
    ¬ AllOrNothing (databaseOf ["/ 0 0 40755 2 8 0 0 4096 MTQ= MTQ= 19 0 0 \n".toList]) (databaseOf [])
      changedLines := by
  have noPrev : (readAllEntries
      (databaseOf ["/ 0 0 40755 2 8 0 0 4096 MTQ= MTQ= 19 0 0 \n".toList]) (databaseOf [])
        changedLines).toOption.map (fun entries =>
          (entries.changedEntries.get? rootPath.text).map fun entry =>
            entry.prevProperties.isNone) = some (some true) := by
    decide
  rintro ⟨⟨failure, isError, _⟩ | ⟨simple, entries, _, isOk, complete⟩, _⟩
  · rw [isError] at noPrev
    cases noPrev
  · rw [isOk] at noPrev
    obtain ⟨entry, isEntry, missing⟩ :=
      Option.map_eq_some_iff.mp (Option.some.inj noPrev)
    exact complete.2 _ entry isEntry (Option.isNone_iff_eq_none.mp missing)

end AIDECheckParser

end Myscm.Server
