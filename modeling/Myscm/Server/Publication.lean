import Myscm.Library.FileEffects
import Myscm.Server.GenerateImg

/-!
Owns what stands in the output directory behind each way in which `generate_img` can
end.

Owns: the pair of the image file and its signature; what each step leaves of it; when
it is left as it was or new as a whole.

Does not own: what a client makes of the pair.
-/

namespace Myscm.Server

open Myscm.Library

namespace SystemImageGenerator

/-! ## The pair of files -/

section Pair

variable {κ : Type} (env : PublicationEnv κ) (options : PublicationOptions)

/-- What can be read at the path of the image and at that of its signature. -/
def published (fs : Fs) : Option (List UInt8) × Option (List UInt8) :=
  (fs.readFile (getImgFileFullPath env options), fs.readFile (imgSigPath env options))

/-- A call of `generate_img` gets as far as to open the image file for the entries. -/
def OpensImage (entries : AIDEReportEntries) (start opened : Fs) : Prop :=
  (∃ output, env.checkOutput start = .ok output ∧ isReferenceAideDbOutdated output = false) ∧
    env.readEntries start = .ok entries ∧
      ∃ emptied, start.openTruncating 0o644 (getImgFileFullPath env options) = some emptied ∧
        emptied.setContent env.format.opened (getImgFileFullPath env options) = some opened

/-- Every step on the open archive succeeds, and these are the members of the image. -/
def NewImage (start : Fs) (members : Members) : Prop :=
  ∃ entries opened, OpensImage env options entries start opened ∧
    Prog.Ends (openArchive env entries opened) [] () members

/-- The pair is as it was, or the new image with a signature made from it, or the new image
without a signature. -/
def Atomic (start finish : Fs) : Prop :=
  published env options finish = published env options start ∨
    ∃ members, NewImage env options start members ∧
      (published env options finish).1 = some (env.format.complete members) ∧
        ((published env options finish).2 = none ∨
          ∃ privKey, ∃ signature ∈ env.sign privKey (env.format.complete members),
            (published env options finish).2 = some signature)

/-- A signature is made from the image, and its file can be opened. -/
def SignatureOpens (closed : Fs) : Prop :=
  (∃ signature, SignatureManager.signature env (getImgFileFullPath env options)
    options.sslCertPrivKeyPath closed = .ok (some signature)) ∧
    Fs.TakesContent (imgSigPath env options) closed

/-- Behind the image file, a signature is written as a whole, or none is opened and none is
there from before. -/
def SignatureSettled (start closed : Fs) : Prop :=
  (SignatureOpens env options closed ∧ env.signatureWriteFails = false) ∨
    (¬ SignatureOpens env options closed ∧ start.readFile (imgSigPath env options) = none)

/-- Once the image file is open, all goes well: the image and its signature are two files, the
archive comes to its end, and the signature is settled. -/
def Uninterrupted (start : Fs) : Prop :=
  ∀ entries opened, OpensImage env options entries start opened →
    start.locate true (imgSigPath env options) ≠
      start.locate true (getImgFileFullPath env options) ∧
    ∃ members closed, Prog.Ends (openArchive env entries opened) [] () members ∧
      opened.setContent (env.format.complete members) (getImgFileFullPath env options) =
        some closed ∧
      SignatureSettled env options start closed

/-- What stands in the output directory does not come from this call, and no signature is empty
or the image itself. -/
structure FromBefore (start : Fs) : Prop where
  notEmpty : start.readFile (getImgFileFullPath env options) ≠ some []
  notLeft : ∀ members,
    start.readFile (getImgFileFullPath env options) ≠ some (env.format.left members)
  notComplete : ∀ members,
    start.readFile (getImgFileFullPath env options) ≠ some (env.format.complete members)
  signature : ∀ privKey members, ∀ signature ∈ env.sign privKey (env.format.complete members),
    start.readFile (getImgFileFullPath env options) ≠ some signature ∧
      start.readFile (imgSigPath env options) ≠ some signature ∧
      signature ≠ [] ∧ signature ≠ env.format.complete members

end Pair

/-! ## What a call leaves -/

section Effects

variable {κ : Type} {env : PublicationEnv κ} {options : PublicationOptions}
  {entries : AIDEReportEntries} {start opened : Fs}

theorem sys_of_none {call : Fs → Option Fs} {fs : Fs} {failure : PublicationError}
    (fails : call fs = none) : sys failure call fs = ⟨[], .error failure⟩ :=
  Prog.step_error (by rw [fails]; rfl)

theorem sys_of_some {call : Fs → Option Fs} {fs next : Fs} {failure : PublicationError}
    (succeeds : call fs = some next) : sys failure call fs = ⟨[next], .ok ()⟩ :=
  Prog.step_ok (by rw [succeeds]; rfl)

/-- The open image file was written to. -/
theorem wrote_of_opensImage (opens : OpensImage env options entries start opened) :
    Fs.Wrote (getImgFileFullPath env options) env.format.opened start opened := by
  obtain ⟨_, _, emptied, ofOpen, ofWrite⟩ := opens
  exact (Fs.wrote_of_openTruncating ofOpen).trans (Fs.wrote_of_setContent ofWrite)

/-- A call for a database that is up to date leaves what the making of the image leaves. -/
theorem final_generateImg {output : Str} (printed : env.checkOutput start = .ok output)
    (current : isReferenceAideDbOutdated output = false)
    (read : env.readEntries start = .ok entries) :
    (generateImg env options start).final start =
      (generateImgFromAideEntries env options entries start).final start := by
  rw [generateImg, Prog.tryReads_andThen printed, if_neg (by rw [current]; exact Bool.false_ne_true),
    Prog.final_andThen_of_quiet fun _ => Prog.quiet_reads _]
  refine (Prog.final_handle_raise _ (fun _ => _) _).trans ?_
  rw [Prog.tryReads_andThen read]

/-- A call that does not get as far as to open the image file leaves all as it is. -/
theorem final_of_not_opensImage
    (never : ∀ entries opened, ¬ OpensImage env options entries start opened) :
    (generateImg env options start).final start = start := by
  cases printed : env.checkOutput start with
  | error failure => simp only [generateImg, Prog.andThen, Prog.tryReads, printed, Prog.final_nil]
  | ok output =>
      cases outdated : isReferenceAideDbOutdated output with
      | true =>
          rw [generateImg, Prog.tryReads_andThen printed, if_pos outdated]
          rfl
      | false =>
          cases read : env.readEntries start with
          | error failure =>
              rw [generateImg, Prog.tryReads_andThen printed,
                if_neg (by rw [outdated]; exact Bool.false_ne_true),
                Prog.final_andThen_of_quiet fun _ => Prog.quiet_reads _]
              refine (Prog.final_handle_raise _ (fun _ => _) _).trans ?_
              simp only [Prog.andThen, Prog.tryReads, read, Prog.final_nil]
          | ok entries =>
              rw [final_generateImg printed outdated read, generateImgFromAideEntries, writeImgFile]
              cases ofOpen : start.openTruncating 0o644 (getImgFileFullPath env options) with
              | none =>
                  rw [Prog.andThen_error (Prog.andThen_error (sys_of_none ofOpen))]
                  rfl
              | some emptied =>
                  obtain ⟨opened, ofWrite, _⟩ :=
                    (Fs.wrote_of_openTruncating ofOpen).exists_setContent env.format.opened
                  exact absurd ⟨⟨output, printed, outdated⟩, read, emptied, ofOpen, ofWrite⟩
                    (never entries opened)

/-- Where a step on the open archive fails, the image file has what was written so far. -/
theorem wrote_of_archive_error (opens : OpensImage env options entries start opened)
    {failure : GeneratorError} (failed : (openArchive env entries opened []).ending = .error failure) :
    ∃ members, Fs.Wrote (getImgFileFullPath env options) (env.format.left members) start
      ((generateImg env options start).final start) := by
  have wrote := wrote_of_opensImage opens
  obtain ⟨⟨output, printed, current⟩, read, emptied, ofOpen, ofWrite⟩ := opens
  obtain ⟨finish, ofLeft, wroteLeft⟩ :=
    wrote.exists_setContent (env.format.left ((openArchive env entries opened []).final []))
  have last : Prog.andThen (sys .os (Fs.setContent
      (env.format.left ((openArchive env entries opened []).final [])) (getImgFileFullPath env options)))
      (fun _ => (Prog.raise (.generator failure) : Prog Fs PublicationError Unit)) opened =
        ⟨[finish], .error (.generator failure)⟩ :=
    Prog.andThen_run (sys_of_some ofLeft) rfl
  have ran : writeImgFile env options entries start =
      ⟨[emptied, opened, finish], .error (.generator failure)⟩ := by
    rw [writeImgFile]
    refine Prog.andThen_run (sys_of_some ofOpen) (Prog.andThen_run (sys_of_some ofWrite) ?_)
    rw [Prog.reads_andThen]
    simp only [List.getLastD_cons, List.getLastD_nil, failed]
    exact last
  refine ⟨(openArchive env entries opened []).final [], ?_⟩
  rw [final_generateImg printed current read, generateImgFromAideEntries, Prog.andThen_error ran]
  exact wroteLeft

/-- Where the archive comes to its end, what follows is the signature. -/
theorem final_of_archive_end (opens : OpensImage env options entries start opened)
    {members : Members} (ended : Prog.Ends (openArchive env entries opened) [] () members) {closed : Fs}
    (ofComplete : opened.setContent (env.format.complete members) (getImgFileFullPath env options) =
      some closed) :
    Fs.Wrote (getImgFileFullPath env options) (env.format.complete members) start closed ∧
      (generateImg env options start).final start =
        (createImgSignature env options closed).final closed := by
  have wrote := wrote_of_opensImage opens
  obtain ⟨⟨output, printed, current⟩, read, emptied, ofOpen, ofWrite⟩ := opens
  have ran : writeImgFile env options entries start = ⟨[emptied, opened, closed], .ok ()⟩ := by
    rw [writeImgFile]
    refine Prog.andThen_run (sys_of_some ofOpen) (Prog.andThen_run (sys_of_some ofWrite) ?_)
    rw [Prog.reads_andThen]
    simp only [List.getLastD_cons, List.getLastD_nil, ended.1, ended.2]
    exact sys_of_some ofComplete
  have ends : Prog.Ends (writeImgFile env options entries) start () closed := by
    rw [Prog.Ends, ran]
    exact ⟨rfl, rfl⟩
  refine ⟨wrote.trans (Fs.wrote_of_setContent ofComplete), ?_⟩
  rw [final_generateImg printed current read, generateImgFromAideEntries, Prog.final_andThen ends,
    Prog.final_andThen_of_quiet fun _ => Prog.quiet_ret _]

theorem final_createImgSignature (closed : Fs) :
    (createImgSignature env options closed).final closed =
      (SignatureManager.sslSign env (getImgFileFullPath env options) (imgSigPath env options)
        options.sslCertPrivKeyPath closed).final closed := by
  rw [createImgSignature]
  refine (Prog.final_handle_raise _ _ _).trans ?_
  rw [Prog.final_andThen_of_quiet fun _ => Prog.quiet_ret _]

/-- Where no signature is made, or its file cannot be opened, none is touched. -/
theorem final_of_not_signatureOpens {closed : Fs} (never : ¬ SignatureOpens env options closed) :
    (createImgSignature env options closed).final closed = closed := by
  rw [final_createImgSignature, SignatureManager.sslSign]
  cases made : SignatureManager.signature env (getImgFileFullPath env options)
      options.sslCertPrivKeyPath closed with
  | error failure => simp only [Prog.andThen, Prog.tryReads, made, Prog.final_nil]
  | ok result =>
      rw [Prog.tryReads_andThen made]
      cases result with
      | none => rfl
      | some signature =>
          cases ofOpen : closed.openTruncating 0o644 (imgSigPath env options) with
          | none =>
              dsimp only
              rw [Prog.andThen_error (sys_of_none ofOpen)]
              rfl
          | some emptied =>
              have takes := (Fs.openTruncating_isSome_iff 0o644 _ closed).mp (by rw [ofOpen]; rfl)
              exact absurd ⟨⟨signature, made⟩, takes⟩ never

/-- A signature is made from what is read at the path of the image. -/
theorem signature_of_ok {inputPath privKeyPath : Str} {closed : Fs} {signature : List UInt8}
    (made : SignatureManager.signature env inputPath privKeyPath closed = .ok (some signature)) :
    ∃ bytes privKey, closed.readFile inputPath = some bytes ∧ signature ∈ env.sign privKey bytes := by
  rw [SignatureManager.signature] at made
  obtain ⟨pemCertStr, _, made⟩ := bind_ok made
  obtain ⟨asked, _, made⟩ := bind_ok made
  cases asked with
  | none => cases made
  | some privKey =>
      dsimp only at made
      cases read : closed.readFile inputPath with
      | none =>
          rw [read] at made
          cases made
      | some bytes =>
          rw [read] at made
          dsimp only at made
          cases signed : env.sign privKey bytes with
          | none =>
              rw [signed] at made
              cases made
          | some result =>
              rw [signed] at made
              obtain rfl := Option.some.inj (Except.ok.inj made)
              exact ⟨bytes, privKey, rfl, signed⟩

theorem signature_eq_ok {inputPath privKeyPath pemCertStr : Str} {closed : Fs} {privKey : κ}
    {bytes signature : List UInt8}
    (pem : SignatureManager.getPrivKeyStr privKeyPath closed = .ok pemCertStr)
    (asked : SignatureManager.askPrivKey env pemCertStr env.passwords = .ok (some privKey))
    (read : closed.readFile inputPath = some bytes) (signed : env.sign privKey bytes = some signature) :
    SignatureManager.signature env inputPath privKeyPath closed = .ok (some signature) := by
  simp only [SignatureManager.signature, pem, bind, Except.bind, asked, read, signed, pure, Except.pure]

/-- Where the signature file is opened, it has a signature of the image or, where writing
fails, nothing. -/
theorem wrote_of_signatureOpens {closed : Fs} (opens : SignatureOpens env options closed) :
    ∃ bytes privKey, closed.readFile (getImgFileFullPath env options) = some bytes ∧
      ∃ signature ∈ env.sign privKey bytes,
        Fs.Wrote (imgSigPath env options) (if env.signatureWriteFails then [] else signature) closed
          ((createImgSignature env options closed).final closed) := by
  obtain ⟨⟨signature, made⟩, takes⟩ := opens
  obtain ⟨bytes, privKey, read, signed⟩ := signature_of_ok made
  refine ⟨bytes, privKey, read, signature, signed, ?_⟩
  obtain ⟨emptied, ofOpen⟩ := Option.isSome_iff_exists.mp
    ((Fs.openTruncating_isSome_iff 0o644 _ closed).mpr takes)
  have wrote := Fs.wrote_of_openTruncating ofOpen
  rw [final_createImgSignature, SignatureManager.sslSign, Prog.tryReads_andThen made]
  dsimp only
  rw [Prog.final_andThen ((Fs.ends_sys_iff _ _ _ _).mpr ofOpen)]
  cases fails : env.signatureWriteFails with
  | true => exact wrote
  | false =>
      obtain ⟨finish, ofWrite, wroteSignature⟩ := wrote.exists_setContent signature
      rw [if_neg Bool.false_ne_true, if_neg Bool.false_ne_true,
        Prog.final_andThen ((Fs.ends_sys_iff _ _ _ _).mpr ofWrite)]
      exact wroteSignature

/-- A call opens the image file in one way. -/
theorem OpensImage.unique {entries' : AIDEReportEntries} {opened' : Fs}
    (first : OpensImage env options entries start opened)
    (second : OpensImage env options entries' start opened') : entries = entries' ∧ opened = opened' := by
  obtain ⟨_, read, emptied, ofOpen, ofWrite⟩ := first
  obtain ⟨_, read', emptied', ofOpen', ofWrite'⟩ := second
  rw [read] at read'
  rw [ofOpen] at ofOpen'
  obtain rfl := Option.some.inj ofOpen'
  rw [ofWrite] at ofWrite'
  exact ⟨Except.ok.inj read', Option.some.inj ofWrite'⟩

/-- The members of the new image are those of the run on the open archive. -/
theorem ends_of_newImage (opens : OpensImage env options entries start opened) {members : Members}
    (isNew : NewImage env options start members) :
    Prog.Ends (openArchive env entries opened) [] () members := by
  obtain ⟨entries', opened', opens', ended⟩ := isNew
  obtain ⟨rfl, rfl⟩ := opens.unique opens'
  exact ended

end Effects

/-! ## When the pair is whole -/

section Whole

variable {κ : Type} {env : PublicationEnv κ} {options : PublicationOptions} {start : Fs}

theorem atomic_of_uninterrupted (uninterrupted : Uninterrupted env options start) :
    Atomic env options start ((generateImg env options start).final start) := by
  by_cases reached : ∃ entries opened, OpensImage env options entries start opened
  · obtain ⟨entries, opened, opens⟩ := reached
    obtain ⟨apart, members, closed, ended, ofComplete, settled⟩ := uninterrupted entries opened opens
    obtain ⟨wrote, final⟩ := final_of_archive_end opens ended ofComplete
    refine .inr ⟨members, ⟨entries, opened, opens, ended⟩, ?_⟩
    rw [final]
    rcases settled with ⟨sigOpens, succeeds⟩ | ⟨never, noneBefore⟩
    · obtain ⟨bytes, privKey, read, signature, signed, wroteSig⟩ := wrote_of_signatureOpens sigOpens
      obtain rfl := Option.some.inj (wrote.here.symm.trans read)
      rw [succeeds, if_neg Bool.false_ne_true] at wroteSig
      have apartClosed : closed.locate true (getImgFileFullPath env options) ≠
          closed.locate true (imgSigPath env options) := by
        rw [← Fs.locate_congr wrote.shape, ← Fs.locate_congr wrote.shape]
        exact Ne.symm apart
      exact ⟨(wroteSig.others _ apartClosed).trans wrote.here,
        .inr ⟨privKey, signature, signed, wroteSig.here⟩⟩
    · rw [final_of_not_signatureOpens never]
      exact ⟨wrote.here, .inl ((wrote.others _ apart).trans noneBefore)⟩
  · rw [final_of_not_opensImage fun entries opened opens => reached ⟨entries, opened, opens⟩]
    exact .inl rfl

/-- Behind a failed step on the archive, the image file is neither as it was nor new. -/
theorem not_atomic_of_archive_error (before : FromBefore env options start)
    {entries : AIDEReportEntries} {opened : Fs} (opens : OpensImage env options entries start opened)
    {failure : GeneratorError} (failed : (openArchive env entries opened []).ending = .error failure) :
    ¬ Atomic env options start ((generateImg env options start).final start) := by
  obtain ⟨members, wrote⟩ := wrote_of_archive_error opens failed
  rintro (same | ⟨members', isNew, _⟩)
  · exact before.notLeft members ((congrArg Prod.fst same).symm.trans wrote.here)
  · have ended := (ends_of_newImage opens isNew).1
    rw [failed] at ended
    cases ended

/-- Behind a whole archive, a pair that is whole has the new image and either no signature or
one that is made from it. -/
theorem signature_of_atomic (before : FromBefore env options start)
    {entries : AIDEReportEntries} {opened finish : Fs} {members : Members}
    (opens : OpensImage env options entries start opened)
    (ended : Prog.Ends (openArchive env entries opened) [] () members)
    (atomic : Atomic env options start finish)
    (image : finish.readFile (getImgFileFullPath env options) = some (env.format.complete members)) :
    finish.readFile (imgSigPath env options) = none ∨
      ∃ privKey, ∃ signature ∈ env.sign privKey (env.format.complete members),
        finish.readFile (imgSigPath env options) = some signature := by
  rcases atomic with same | ⟨members', isNew, _, whole⟩
  · exact absurd ((congrArg Prod.fst same).symm.trans image) (before.notComplete members)
  · obtain ⟨_, rfl⟩ := (ends_of_newImage opens isNew).unique ended
    exact whole

/-- Writing the signature to the image file leaves neither the old nor the new image. -/
theorem not_atomic_of_one_file (before : FromBefore env options start)
    {entries : AIDEReportEntries} {opened finish : Fs} {members : Members}
    (opens : OpensImage env options entries start opened)
    (ended : Prog.Ends (openArchive env entries opened) [] () members) {privKey : κ}
    {signature : List UInt8} (signed : signature ∈ env.sign privKey (env.format.complete members))
    (overwritten : finish.readFile (getImgFileFullPath env options) =
      some (if env.signatureWriteFails then [] else signature)) :
    ¬ Atomic env options start finish := by
  have fresh := before.signature privKey members signature signed
  rintro (same | ⟨members', isNew, image, _⟩)
  · have unchanged := (congrArg Prod.fst same).symm.trans overwritten
    cases fails : env.signatureWriteFails with
    | true =>
        rw [fails, if_pos rfl] at unchanged
        exact before.notEmpty unchanged
    | false =>
        rw [fails, if_neg Bool.false_ne_true] at unchanged
        exact fresh.1 unchanged
  · obtain ⟨_, rfl⟩ := (ends_of_newImage opens isNew).unique ended
    have complete := Option.some.inj (image.symm.trans overwritten)
    cases fails : env.signatureWriteFails with
    | true =>
        rw [fails, if_pos rfl] at complete
        exact env.format.complete_ne_nil _ complete
    | false =>
        rw [fails, if_neg Bool.false_ne_true] at complete
        exact fresh.2.2.2 complete.symm

theorem uninterrupted_of_atomic (before : FromBefore env options start)
    (atomic : Atomic env options start ((generateImg env options start).final start)) :
    Uninterrupted env options start := by
  intro entries opened opens
  cases ending : (openArchive env entries opened []).ending with
  | error failure => exact absurd atomic (not_atomic_of_archive_error before opens ending)
  | ok _ =>
      have ended : Prog.Ends (openArchive env entries opened) [] ()
          ((openArchive env entries opened []).final []) := ⟨ending, rfl⟩
      generalize (openArchive env entries opened []).final [] = members at ended
      obtain ⟨closed, ofComplete, _⟩ :=
        (wrote_of_opensImage opens).exists_setContent (env.format.complete members)
      obtain ⟨wrote, final⟩ := final_of_archive_end opens ended ofComplete
      have located (s : Str) : closed.locate true s = start.locate true s :=
        (Fs.locate_congr wrote.shape true s).symm
      rw [final] at atomic
      have ofImage := signature_of_atomic before opens ended atomic
      by_cases sigOpens : SignatureOpens env options closed
      · obtain ⟨bytes, privKey, read, signature, signed, wroteSig⟩ := wrote_of_signatureOpens sigOpens
        obtain rfl := Option.some.inj (wrote.here.symm.trans read)
        have apart : start.locate true (imgSigPath env options) ≠
            start.locate true (getImgFileFullPath env options) := by
          intro same
          refine not_atomic_of_one_file before opens ended signed (wroteSig.same ?_) atomic
          rw [located, located, same]
        have image := (wroteSig.others (getImgFileFullPath env options) (by
          rw [located, located]
          exact Ne.symm apart)).trans wrote.here
        refine ⟨apart, members, closed, ended, ofComplete, .inl ⟨sigOpens, ?_⟩⟩
        cases fails : env.signatureWriteFails with
        | false => rfl
        | true =>
            have emptied := wroteSig.here
            rw [fails, if_pos rfl] at emptied
            rcases ofImage image with none | ⟨privKey', signature', signed', isSignature⟩
            · rw [emptied] at none
              cases none
            · rw [emptied] at isSignature
              exact absurd (Option.some.inj isSignature).symm
                (before.signature privKey' members signature' signed').2.2.1
      · rw [final_of_not_signatureOpens sigOpens] at ofImage
        have settled := ofImage wrote.here
        have apart : start.locate true (imgSigPath env options) ≠
            start.locate true (getImgFileFullPath env options) := by
          intro same
          rw [wrote.same same] at settled
          rcases settled with none | ⟨privKey, signature, signed, isSignature⟩
          · cases none
          · exact (before.signature privKey members signature signed).2.2.2
              (Option.some.inj isSignature).symm
        rw [wrote.others _ apart] at settled
        refine ⟨apart, members, closed, ended, ofComplete, .inr ⟨sigOpens, ?_⟩⟩
        rcases settled with none | ⟨privKey, signature, signed, isSignature⟩
        · exact none
        · exact absurd isSignature (before.signature privKey members signature signed).2.1

/-- A call that goes on to its end once the image file is open leaves the pair whole, and where
the files that were there are from before, no other call does. -/
theorem atomic_iff (start : Fs) :
    (Uninterrupted env options start →
      Atomic env options start ((generateImg env options start).final start)) ∧
    (FromBefore env options start →
      (Atomic env options start ((generateImg env options start).final start) ↔
        Uninterrupted env options start)) :=
  ⟨atomic_of_uninterrupted, fun before =>
    ⟨uninterrupted_of_atomic before, atomic_of_uninterrupted⟩⟩

end Whole

/-- A server with an image and its signature in the output directory, and a key. -/
def publisher : Fs :=
  Fs.ofNodes
    [(["k".toList], ⟨.regular [107], 0o600, 0, 0, 1⟩),
      (["o".toList], ⟨.directory, 0o755, 0, 0, 2⟩),
      (["o".toList, "myscm-img.1.2.tar.gz".toList], ⟨.regular [1], 0o644, 0, 0, 1⟩),
      (["o".toList, "myscm-img.1.2.tar.gz.sig".toList], ⟨.regular [2], 0o644, 0, 0, 1⟩)]

def publisherOptions : PublicationOptions := ⟨"/o".toList, "/k".toList⟩

/-- Names of members between the marks of a format. -/
def namesFormat : ArchiveFormat where
  opened := [31, 139]
  left members := [31, 139] ++ members.flatMap fun member => Utf8.encode member.1
  complete members := [31, 139] ++ (members.flatMap fun member => Utf8.encode member.1) ++ [0, 0]
  complete_ne_nil _ := by simp

/-- A call for the entries, where the user types the given passwords. -/
def publishing (packageName : Str → Except GeneratorError Str) (entries : AIDEReportEntries)
    (passwords : List PasswordInput) : PublicationEnv Unit where
  checkOutput _ := .ok uptodateMsg
  readEntries _ := .ok entries
  format := namesFormat
  writeFails := neverFails
  packageName := packageName
  makePatch _ new := new
  header := shortHeader
  loadPrivatekey _ passwd := if passwd = ['p'] then some () else none
  sign _ bytes := some [UInt8.ofNat bytes.length, 3]
  passwords := passwords
  signatureWriteFails := false

theorem imgPath_publishing (packageName : Str → Except GeneratorError Str)
    (entries : AIDEReportEntries) (passwords : List PasswordInput) :
    getImgFileFullPath (publishing packageName entries passwords) publisherOptions =
      "/o/myscm-img.1.2.tar.gz".toList := by
  show Str.joinPath "/o".toList (myscmImgFileName 1 2) = _
  decide

theorem sigPath_publishing (packageName : Str → Except GeneratorError Str)
    (entries : AIDEReportEntries) (passwords : List PasswordInput) :
    imgSigPath (publishing packageName entries passwords) publisherOptions =
      "/o/myscm-img.1.2.tar.gz.sig".toList := by
  rw [imgSigPath, imgPath_publishing]
  decide

theorem fromBefore_publisher (packageName : Str → Except GeneratorError Str)
    (entries : AIDEReportEntries) (passwords : List PasswordInput) :
    FromBefore (publishing packageName entries passwords) publisherOptions publisher := by
  have image : publisher.readFile "/o/myscm-img.1.2.tar.gz".toList = some [1] := by decide
  have signature : publisher.readFile "/o/myscm-img.1.2.tar.gz.sig".toList = some [2] := by
    decide
  have imgPath := imgPath_publishing packageName entries passwords
  have sigPath := sigPath_publishing packageName entries passwords
  constructor
  · rw [imgPath, image]
    simp
  · intro members
    rw [imgPath, image]
    simp [publishing, namesFormat]
  · intro members
    rw [imgPath, image]
    simp [publishing, namesFormat]
  · intro privKey members made signed
    obtain rfl := Option.some.inj signed
    rw [imgPath, sigPath, image, signature]
    refine ⟨by simp, by simp, by simp, fun same => ?_⟩
    have lengths := congrArg List.length same
    simp [publishing, namesFormat] at lengths



theorem opensImage_publisher (packageName : Str → Except GeneratorError Str)
    (entries : AIDEReportEntries) (passwords : List PasswordInput) :
    ∃ opened, OpensImage (publishing packageName entries passwords) publisherOptions entries publisher opened := by
  have opens : (publisher.openTruncating 0o644 "/o/myscm-img.1.2.tar.gz".toList).isSome = true := by
    decide
  obtain ⟨emptied, ofOpen⟩ := Option.isSome_iff_exists.mp opens
  obtain ⟨opened, ofWrite, _⟩ :=
    (Fs.wrote_of_openTruncating ofOpen).exists_setContent namesFormat.opened
  refine ⟨opened, ⟨uptodateMsg, rfl, by decide⟩, rfl, emptied, ?_, ?_⟩
  · rw [imgPath_publishing]
    exact ofOpen
  · rw [imgPath_publishing]
    exact ofWrite

/-- Without entries, the archive comes to its end with the three reports. -/
theorem ends_openArchive_empty (passwords : List PasswordInput) (fs : Fs) :
    ∃ members, Prog.Ends (openArchive (publishing noPackage ⟨[], [], []⟩ passwords) ⟨[], [], []⟩ fs)
      [] () members := by
  have added : ∃ members, Prog.Ends (writeAddedEntries neverFails fs noPackage shortHeader []) []
      () members := ⟨_, (ends_writeAddedEntries [] _).mpr rfl⟩
  have removed (archive : Members) : ∃ members, Prog.Ends
      (writeRemovedEntries neverFails noPackage shortHeader []) archive () members := by
    rw [writeRemovedEntries]
    simp only [Prog.ends_andThen_iff]
    exact ⟨_, _, _, (Prog.ends_tryReads_iff _ _ _ _).mpr ⟨rfl, rfl⟩,
      (ends_addMember_iff _ _ _).mpr rfl⟩
  have changed (archive : Members) : ∃ members, Prog.Ends (writeChangedEntries neverFails fs noPackage
      shortHeader (fun _ new => new) []) archive () members := by
    rw [writeChangedEntries]
    simp only [Prog.ends_andThen_iff]
    exact ⟨_, _, _, (Prog.ends_ret_iff _ _ _ _).mpr ⟨rfl, rfl⟩, (ends_addMember_iff _ _ _).mpr rfl⟩
  obtain ⟨first, added⟩ := added
  obtain ⟨second, removed⟩ := removed first
  obtain ⟨third, changed⟩ := changed second
  refine ⟨third, ?_⟩
  rw [openArchive, writeArchive]
  simp only [Prog.ends_andThen_iff]
  exact ⟨(), first, added, (), second, removed, (), third, changed,
    (Prog.ends_tryReads_iff _ _ _ _).mpr ⟨rfl, rfl⟩⟩

/-- The second password opens the key. -/
def signedCall : PublicationEnv Unit :=
  publishing noPackage ⟨[], [], []⟩ [.entered ['q'], .entered ['p']]

theorem atomic_publisher : Atomic signedCall publisherOptions publisher
    ((generateImg signedCall publisherOptions publisher).final publisher) := by
  refine ((atomic_iff publisher).2 (fromBefore_publisher _ _ _)).mpr ?_
  intro entries opened opens
  obtain rfl : (⟨[], [], []⟩ : AIDEReportEntries) = entries := Except.ok.inj opens.2.1
  obtain ⟨members, ended⟩ := ends_openArchive_empty [.entered ['q'], .entered ['p']] opened
  obtain ⟨closed, ofComplete, wrote⟩ :=
    (wrote_of_opensImage opens).exists_setContent (namesFormat.complete members)
  rw [imgPath_publishing] at ofComplete wrote
  have apart : publisher.locate true "/o/myscm-img.1.2.tar.gz.sig".toList ≠
      publisher.locate true "/o/myscm-img.1.2.tar.gz".toList := by decide
  rw [imgPath_publishing, sigPath_publishing]
  refine ⟨apart, members, closed, ended, ofComplete, .inl ⟨⟨⟨[UInt8.ofNat
    (namesFormat.complete members).length, 3], ?_⟩, ?_⟩, rfl⟩⟩
  · have key : closed.readFile "/k".toList = some [107] := by
      rw [wrote.others "/k".toList (by decide)]
      decide
    have pem : SignatureManager.getPrivKeyStr "/k".toList closed = .ok ['k'] := by
      rw [SignatureManager.getPrivKeyStr, key]
      rfl
    have asked : SignatureManager.askPrivKey (publishing noPackage ⟨[], [], []⟩
        [.entered ['q'], .entered ['p']]) ['k'] [.entered ['q'], .entered ['p']] = .ok (some ()) := rfl
    rw [imgPath_publishing]
    exact signature_eq_ok pem asked wrote.here rfl
  · rw [sigPath_publishing]
    have there : closed.readFile "/o/myscm-img.1.2.tar.gz.sig".toList = some [2] := by
      rw [wrote.others _ apart]
      decide
    obtain ⟨node, found, isContent⟩ := Option.bind_eq_some_iff.mp there
    obtain ⟨path, located, here⟩ := Option.bind_eq_some_iff.mp found
    refine ⟨path, located, fun other isOther => ?_⟩
    obtain rfl := Option.some.inj (here.symm.trans isOther)
    rw [Node.isRegular, isContent]
    rfl

/-- The package manager fails for a removed path. -/
def unfinishedCall : PublicationEnv Unit :=
  publishing (fun _ => .error .packageManager) ⟨[], [⟨["r".toList], by decide⟩], []⟩
    [.entered ['p']]

/-- The user skips the signature. -/
def skippedCall : PublicationEnv Unit :=
  publishing noPackage ⟨[], [], []⟩ []

/-- A failed look-up leaves the archive unfinished, and a signature that is skipped leaves the
old one beside the new image. -/
theorem not_atomic_publisher :
    ¬ Atomic unfinishedCall publisherOptions publisher
        ((generateImg unfinishedCall publisherOptions publisher).final publisher) ∧
      ¬ Atomic skippedCall publisherOptions publisher
        ((generateImg skippedCall publisherOptions publisher).final publisher) := by
  constructor
  · intro atomic
    obtain ⟨opened, opens⟩ := opensImage_publisher _ _ _
    obtain ⟨_, members, _, ended, _⟩ :=
      uninterrupted_of_atomic (fromBefore_publisher _ _ _) atomic _ opened opens
    rw [openArchive, writeArchive] at ended
    simp only [Prog.ends_andThen_iff] at ended
    obtain ⟨_, middle, _, _, _, removed, _⟩ := ended
    rw [writeRemovedEntries, Prog.ends_andThen_iff] at removed
    obtain ⟨lines, _, listed, _⟩ := removed
    obtain ⟨_, computed, _⟩ := bind_ok ((Prog.ends_tryReads_iff _ _ _ _).mp listed).1
    obtain ⟨line, _, ofLine⟩ := exists_mem_of_mapM_ok computed
      (x := ⟨["r".toList], by decide⟩) (by decide)
    cases ofLine
  · intro atomic
    obtain ⟨opened, opens⟩ := opensImage_publisher _ _ _
    obtain ⟨_, members, closed, _, _, settled⟩ :=
      uninterrupted_of_atomic (fromBefore_publisher _ _ _) atomic _ opened opens
    rcases settled with ⟨⟨⟨signature, made⟩, _⟩, _⟩ | ⟨_, noneBefore⟩
    · obtain ⟨pemCertStr, _, made⟩ := bind_ok made
      obtain ⟨asked, isNone, made⟩ := bind_ok made
      obtain rfl : none = asked := Except.ok.inj isNone
      cases made
    · rw [sigPath_publishing] at noneBefore
      revert noneBefore
      decide

end SystemImageGenerator

end Myscm.Server
