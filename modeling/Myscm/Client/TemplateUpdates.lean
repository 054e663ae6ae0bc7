import Myscm.Client.Acceptance
import Myscm.Client.ApplyReadiness
import Myscm.Client.ReportRoundTrip
import Myscm.Client.SysImgExtractor
import Myscm.Server.ImageFiles

/-!
Owns what becomes of a template that the client already holds as the file made of it,
when the server changes the template.

Owns: what an applied template leaves; the image generated for the changed template;
that validation refuses the image.

Does not own: templates that come with added files.
-/

namespace Myscm.Client

open Myscm.Library Myscm.Server SystemImageGenerator SysImgExtractor

/-! ## The line of a changed template -/

/-- A path as changed.txt holds it: absolute, without line ends, and read as it stands. -/
structure ListedPath (path : Str) : Prop where
  slash : path.head? = some '/'
  solid : ∀ c ∈ path.getLast?, Str.isSpace c = false
  plain : PlainText path

/-- The line of a changed entry starts with its name, which a zero character or the end
of the line closes. -/
theorem changedLine_named {path : Str} (listed : ListedPath path) (properties : List Str) :
    ∃ tail, changedLine (path :: properties) = path ++ tail ∧ ∀ c ∈ tail.head?, c = '\x00' := by
  obtain ⟨more, columns⟩ : ∃ more, changedColumns (path :: properties) = path ++ '\x00' :: more :=
    ⟨_, cells_cons _ _ _ _⟩
  have zero : Str.isSpace '\x00' = false := by decide
  have notBlank : ¬ Str.Blank ('\x00' :: more) := fun blank => by
    rw [blank '\x00' List.mem_cons_self] at zero
    cases zero
  have front : Str.lstrip (path ++ '\x00' :: more) = path ++ '\x00' :: more := by
    apply Str.lstrip_eq_self
    intro c first
    rw [List.head?_append, listed.slash] at first
    obtain rfl := Option.some.inj first
    decide
  have stripped : Str.strip (changedColumns (path :: properties)) =
      path ++ '\x00' :: Str.rstrip more := by
    rw [columns, Str.strip, front, Str.rstrip_append_of_not_blank notBlank, Str.rstrip_cons zero]
  have last : ∀ c ∈ path.getLast?, c ∉ ['\x00'] := by
    intro c isLast isZero
    exact listed.plain.not_mem (c := '\x00') rfl
      (List.mem_singleton.mp isZero ▸ List.mem_of_getLast? isLast)
  refine ⟨Str.rstripChars ['\x00'] ('\x00' :: Str.rstrip more), ?_, ?_⟩
  · rw [changedLine, stripped, Str.rstripChars_append last]
  · intro c first
    obtain ⟨dropped, whole⟩ := List.rdropWhile_prefix (['\x00'].contains ·)
      ('\x00' :: Str.rstrip more)
    have kept : c ∈ ('\x00' :: Str.rstrip more).head? := by
      rw [← whole, List.head?_append]
      rw [Str.rstripChars] at first
      rw [first]
      rfl
    exact (Option.some.inj kept).symm

/-- The first line of what is written for a changed entry means the values of its path, or
raises. -/
theorem meaning_changedLine (host : Host) {path : Str} (listed : ListedPath path)
    (properties : List Str) {passed : Option (List Str)}
    (read : lineMeaning host propertiesCount
      ((changedLine (path :: properties)).takeWhile (· ≠ '\n')) = some passed) :
    ∃ values, passed = some values ∧ values.getD 0 [] = path := by
  obtain ⟨tail, line, closed⟩ := changedLine_named listed properties
  have noEnd : ∀ c ∈ path, (c ≠ '\n' : Bool) = true := by
    intro c member
    simpa using fun here : c = '\n' => listed.plain.not_mem (c := '\n') rfl (here ▸ member)
  rw [line, List.takeWhile_append_of_pos noEnd, lineMeaning_of_slash (by
    rw [List.head?_append, listed.slash]; rfl)] at read
  split at read
  · obtain rfl := Option.some.inj read
    refine ⟨_, rfl, ?_⟩
    have trimmed : Str.strip path = path := Str.strip_eq_self ⟨by
      intro c first
      rw [listed.slash] at first
      obtain rfl := Option.some.inj first
      decide, listed.solid⟩
    have noZero : '\x00' ∉ path := listed.plain.not_mem rfl
    cases tail with
    | nil =>
        rw [List.takeWhile_nil, List.append_nil, lineParts_single noZero, trimmed]
        rfl
    | cons c rest =>
        obtain rfl := closed c rfl
        rw [List.takeWhile_cons_of_pos (by decide), lineParts_cons noZero, trimmed]
        rfl
  · cases read

/-! ## The image of a changed template -/

/-- The bytes made of a template, none where its text does not decode. -/
def instantiation (vars : TemplateVars) (template : List UInt8) : Option (List UInt8) :=
  (Utf8.decode template).map fun text =>
    Utf8.encode ((TemplateFile.linesWithEnds (Str.universalNewlines text)).map
      (TemplateFile.replaceLine vars)).flatten

/-- The image is accepted without force, and an application of it leaves at `path` what the
template makes. -/
def TemplateArrives (env : ClientEnv) (options : ClientOptions) (imgName : Str) (archive : Archive)
    (fs : Fs) (path : Str) (template : List UInt8) : Prop :=
  (∃ counts, Prog.Ends (SysImgValidator.assertSysImgValid false imgName env.toValidatorEnv archive)
    fs counts fs) ∧
    ∀ dir finish, Prog.Ends (validateExtractApply env
      { options with forceApply := false } imgName archive) fs dir finish →
      finish.readFile path = instantiation env.vars template

/-- The archive holds the files. -/
def HoldsMembers (archive : Archive) (members : List (Str × List UInt8)) : Prop :=
  ∀ member ∈ members, archive.extractfile member.1 = some member.2

theorem listedPath_template (path : EntryPath) : ListedPath (path.text ++ templatePathExt) where
  slash := by rw [List.head?_append, path.absolute]; rfl
  solid := by
    intro c last
    rw [List.getLast?_append] at last
    obtain rfl := Option.some.inj last
    decide
  plain := by
    intro c member
    have ext : PlainText templatePathExt := by decide
    rcases List.mem_append.mp member with front | back
    · exact path.plain c front
    · exact ext c back

/-- Validation refuses an image with a line for a template that the client does not have. -/
theorem not_accepted_template {makePatch : Str → Str → Str} {files : ServerFiles}
    {header : ReportHeader} {packageName : Str → Except GeneratorError Str}
    {entries : List AIDEEntry} {members : List (Str × List UInt8)} {entry : AIDEEntry}
    {path : EntryPath} {imgName : Str} {env : ValidatorEnv} {archive : Archive} {fs finish : Fs}
    {counts : ReportCounts}
    (generated : addToImgFileChangedEntries makePatch files header packageName entries =
      .ok members)
    (listed : entry ∈ entries) (isTemplate : entry.getFullPath = path.text ++ templatePathExt)
    (changed : entry.reported = true) (holds : HoldsMembers archive members)
    (missing : fs.pathExists (path.text ++ templatePathExt) = false) :
    ¬ Prog.Ends (SysImgValidator.assertSysImgValid false imgName env archive) fs counts finish := by
  intro ends
  have ext : Str.endsWith entry.getFullPath templatePathExt = true := by
    rw [isTemplate, Str.endsWith, List.isSuffixOf_iff_suffix]
    exact List.suffix_append _ _
  obtain ⟨lines, properties, isMember, computed, isLine⟩ :=
    changedLine_of_template makePatch files generated listed ext
  obtain ⟨front, sum, pkg, _, shape⟩ := AIDEEntry.getAideChangedProperties_ok computed
  have isPath : entry.properties.name = path.text ++ templatePathExt := isTemplate
  rw [changed, if_pos rfl, isPath, List.cons_append] at shape
  have listedPath := listedPath_template path
  obtain ⟨_, accepted⟩ := SysImgValidator.accepted_of_ends ends
  obtain ⟨completes, allAccepted⟩ := accepted.changed.of_encode (holds _ isMember)
  obtain ⟨passed, read, isPassed⟩ := mem_meaning (mem_splitLines_unlines isLine) completes
  rw [shape] at read
  obtain ⟨values, rfl, atPath⟩ := meaning_changedLine env.host listedPath _ read
  have checked := allAccepted values (isPassed values rfl)
  unfold SysImgValidator.assertChangedLineValid at checked
  obtain ⟨_, exists_, _⟩ := bind_ok checked
  rw [atPath, SysImgValidator.assertChangedFileExistsOnLocalFilesystem, missing] at exists_
  cases exists_

/-- A changed template never arrives on a client that holds only the file made of it. -/
theorem not_templateArrives {makePatch : Str → Str → Str} {files : ServerFiles}
    {header : ReportHeader} {packageName : Str → Except GeneratorError Str}
    {entries : List AIDEEntry} {members : List (Str × List UInt8)} {entry : AIDEEntry}
    (path : EntryPath) (env : ClientEnv) (options : ClientOptions) (imgName : Str)
    {archive : Archive} {fs : Fs}
    (generated : addToImgFileChangedEntries makePatch files header packageName entries =
      .ok members)
    (listed : entry ∈ entries) (isTemplate : entry.getFullPath = path.text ++ templatePathExt)
    (changed : entry.reported = true) (holds : HoldsMembers archive members)
    (missing : fs.pathExists (path.text ++ templatePathExt) = false) :
    ¬ TemplateArrives env options imgName archive fs path.text (files.bytes entry.getFullPath) := by
  rintro ⟨⟨counts, ends⟩, _⟩
  exact not_accepted_template generated listed isTemplate changed holds missing ends

/-! ## A template whose text changed -/

def motd : EntryPath := ⟨"/motd".toList, rfl, by decide⟩

/-- The entry of the template. -/
def motdEntry : AIDEEntry where
  properties := ⟨"/motd.myscm-template".toList, none, 7, 100644, 11, 8, 0, 0, 3, 5, 6, 1,
    some "02".toList, some "12".toList⟩
  prevProperties := ⟨"/motd.myscm-template".toList, none, 7, 100644, 11, 8, 0, 0, 2, 3, 4, 1,
    some "01".toList, some "11".toList⟩
  infoStr := "f.>.....mc..C....".toList
  ftype := .regularFile
  infoStr_length := by decide
  ftype_value := by decide

/-- A server with both files; no old version was copied. -/
def motdServer : ServerFiles where
  isfile path := path ∈ ["/motd".toList, "/motd.myscm-template".toList]
  bytes _ := Utf8.encode "new".toList
  oldBytes _ := none

/-- The files the server adds for the changed template. -/
def motdMembers : List (Str × List UInt8) :=
  ((addToImgFileChangedEntries (fun _ _ => []) motdServer (headerFixture "/var/lib/aide".toList)
    unknownPackage [motdEntry]).toOption).getD []

/-- The image: the two other reports list nothing. -/
def motdImage : Archive :=
  ((addedFilesFname, []) :: motdMembers ++ [(removedFilesFname, [])]).map
    fun (member : Str × List UInt8) => ⟨member.1, .reg member.2, 0o644, 0, 0⟩

/-- A client with the file made of the old template. -/
def motdClient : Fs :=
  Fs.ofNodes [(["motd".toList], ⟨.regular (Utf8.encode "old".toList), 0o644, 0, 0, 1⟩)]

theorem motd_generated :
    addToImgFileChangedEntries (fun _ _ => []) motdServer (headerFixture "/var/lib/aide".toList)
      unknownPackage [motdEntry] = .ok motdMembers := by
  have isOk : (addToImgFileChangedEntries (fun _ _ => []) motdServer
      (headerFixture "/var/lib/aide".toList) unknownPackage [motdEntry]).isOk = true := by
    decide
  unfold motdMembers
  cases result : addToImgFileChangedEntries (fun _ _ => []) motdServer
      (headerFixture "/var/lib/aide".toList) unknownPackage [motdEntry] with
  | error failure =>
      rw [result] at isOk
      cases isOk
  | ok members => rfl

theorem motd_holds : HoldsMembers motdImage motdMembers := by
  obtain ⟨bytes, lines, members⟩ : ∃ bytes lines, motdMembers =
      [("CHANGED/motd.myscm-template".toList, bytes), (changedFilesFname, lines)] := ⟨_, _, rfl⟩
  have content : motdImage.extractfile "CHANGED/motd.myscm-template".toList = some bytes := by
    rw [motdImage, members]
    rfl
  have report : motdImage.extractfile changedFilesFname = some lines := by
    rw [motdImage, members]
    rfl
  rw [HoldsMembers, members, List.forall_mem_cons, List.forall_mem_singleton]
  exact ⟨content, report⟩

/-- The file made of the old template is there, and the new text never comes. -/
theorem not_templateArrives_motd :
    motdClient.readFile "/motd".toList = instantiation directoryEnv.vars (Utf8.encode "old".toList) ∧
      motdClient.pathExists "/motd.myscm-template".toList = false ∧
        ¬ TemplateArrives directoryEnv directoryOptions "/i/new.tar.gz".toList motdImage motdClient
          "/motd".toList (motdServer.bytes "/motd.myscm-template".toList) := by
  have missing : motdClient.pathExists "/motd.myscm-template".toList = false := by decide
  have held : motdClient.readFile "/motd".toList = some (Utf8.encode "old".toList) := by
    decide
  have made : instantiation directoryEnv.vars (Utf8.encode "old".toList) =
      some (Utf8.encode "old".toList) := by
    rw [instantiation, Utf8.decode_encode, Option.map_some]
    exact congrArg (some ∘ Utf8.encode) (by decide)
  refine ⟨held.trans made.symm, missing, ?_⟩
  rintro ⟨⟨counts, ends⟩, _⟩
  exact @not_accepted_template _ _ _ _ _ _ _ motd _ _ _ _ _ _ motd_generated List.mem_cons_self rfl (by decide)
    motd_holds missing ends

theorem not_templateArrives_new_text :
    ¬ TemplateArrives directoryEnv directoryOptions "/i/new.tar.gz".toList motdImage motdClient
      "/motd".toList (motdServer.bytes motdEntry.getFullPath) :=
  not_templateArrives motd directoryEnv directoryOptions "/i/new.tar.gz".toList motd_generated
    List.mem_cons_self rfl (by decide) motd_holds (by decide)

end Myscm.Client
