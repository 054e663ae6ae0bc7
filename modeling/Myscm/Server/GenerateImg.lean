import Myscm.Server.ImageArchive

/-!
Owns the call that makes an image file and its signature.

Owns: `generate_img` from the check of the reference database on; the writing of the
image file around the open archive; `ssl_sign` with the prompts for its key.

Does not own: AIDE, whose results are given; the bytes of an archive and of a
signature, which are given functions.
-/


namespace Myscm.Server

open Myscm.Library

/-- Where the making of an image can end. -/
inductive PublicationError where
  | generator (failure : GeneratorError)
  | commandLine
  | aideCheckParser
  | signatureManager (message : Str)
  | sysImgGenerator (message : Str)
  | unicodeDecode
  | unicodeEncode
  | attributeError
  | endOfInput
  | openssl
  | os
  deriving DecidableEq

/-- What the user does at a prompt. `echoed` is a warning of `getpass`, which leaves no
password. -/
inductive PasswordInput where
  | entered (passwd : Str)
  | echoed
  | endOfInput
  deriving DecidableEq

/-- The bytes of an archive that is opened at the time of the call. `left` is what an archive
that is not closed leaves. -/
structure ArchiveFormat where
  opened : List UInt8
  left : Members → List UInt8
  complete : Members → List UInt8
  complete_ne_nil : ∀ members, complete members ≠ []

/-- `options`, as far as the making of an image reads them. -/
structure PublicationOptions where
  systemImgOutDir : Str
  sslCertPrivKeyPath : Str

/-- What the code is given. `checkOutput` is what `aide --check` prints, and `readEntries` what
is read off its comparison with the database of the client. -/
structure PublicationEnv (κ : Type) where
  checkOutput : Fs → Except PublicationError Str
  readEntries : Fs → Except PublicationError SystemImageGenerator.AIDEReportEntries
  format : ArchiveFormat
  writeFails : Members → Bool
  packageName : Str → Except GeneratorError Str
  makePatch : Str → Str → Str
  header : ReportHeader
  loadPrivatekey : Str → Str → Option κ
  sign : κ → List UInt8 → Option (List UInt8)
  passwords : List PasswordInput
  signatureWriteFails : Bool

/-- The message for which `is_reference_aide_db_outdated` looks. -/
def uptodateMsg : Str :=
  "AIDE found NO differences between database and filesystem. Looks okay!!".toList

/-- `is_reference_aide_db_outdated`, by what AIDE prints. -/
def isReferenceAideDbOutdated (output : Str) : Bool :=
  decide ¬ uptodateMsg <:+: output

namespace SignatureManager

/-- `SIGNATURE_EXT`. -/
def signatureExt : Str := ".sig".toList

section Signing

variable {κ : Type} (env : PublicationEnv κ)

/-- `_get_priv_key_str`. -/
def getPrivKeyStr (privKeyPath : Str) (fs : Fs) : Except PublicationError Str :=
  match fs.readFile privKeyPath with
  | none =>
      .error (.signatureManager ("Unable to open '".toList ++ privKeyPath ++
        "' SSL private key for certificate for signing system image".toList))
  | some bytes =>
      match Utf8.decode bytes with
      | none => .error .unicodeDecode
      | some text => .ok (Str.universalNewlines text)

/-- `_get_cert_priv_key`. None is a key that cannot be loaded. -/
def getCertPrivKey (pemCertStr passwd : Str) : Except PublicationError (Option κ) :=
  if passwd.all fun c => decide (c.toNat < 128) then
    .ok (env.loadPrivatekey pemCertStr passwd)
  else
    .error .unicodeEncode

/-- The loop of `_create_priv_key_openssl_obj` over what the user does. The end of it is the
keyboard interrupt that skips the signature. -/
def askPrivKey (pemCertStr : Str) : List PasswordInput → Except PublicationError (Option κ)
  | [] => .ok none
  | .echoed :: _ => .error .attributeError
  | .endOfInput :: _ => .error .endOfInput
  | .entered passwd :: later => do
      match ← getCertPrivKey env pemCertStr passwd with
      | some privKey => return some privKey
      | none => askPrivKey pemCertStr later

/-- The first half of `ssl_sign`: the signature to be written, or none where the user skips
it. -/
def signature (inputPath privKeyPath : Str) (fs : Fs) :
    Except PublicationError (Option (List UInt8)) := do
  let pemCertStr ← getPrivKeyStr privKeyPath fs
  match ← askPrivKey env pemCertStr env.passwords with
  | none => return none
  | some privKey =>
      match fs.readFile inputPath with
      | none => .error .os
      | some bytesToSign =>
          match env.sign privKey bytesToSign with
          | none => .error .openssl
          | some signature => return some signature

/-- `ssl_sign`. -/
def sslSign (inputPath outputPath privKeyPath : Str) : Prog Fs PublicationError (Option Str) :=
  Prog.andThen (Prog.tryReads (signature env inputPath privKeyPath)) fun made =>
    match made with
    | none => Prog.ret none
    | some signature =>
        Prog.andThen (sys .os (Fs.openTruncating 0o644 outputPath)) fun _ =>
          if env.signatureWriteFails then
            Prog.raise .os
          else
            Prog.andThen (sys .os (Fs.setContent signature outputPath)) fun _ =>
              Prog.ret (some outputPath)

end Signing

end SignatureManager

namespace SystemImageGenerator

section Publishing

variable {κ : Type} (env : PublicationEnv κ) (options : PublicationOptions)

/-- `_get_img_file_full_path`. -/
def getImgFileFullPath : Str :=
  Str.joinPath options.systemImgOutDir
    (myscmImgFileName env.header.fromDbId env.header.toDbId)

/-- `img_sig_path`. -/
def imgSigPath : Str :=
  getImgFileFullPath env options ++ SignatureManager.signatureExt

/-- What is done with the open archive, on the files as they are when it is open. -/
def openArchive (entries : AIDEReportEntries) (fs : Fs) : Prog Members GeneratorError Unit :=
  writeArchive env.writeFails fs env.packageName env.header env.makePatch entries

/-- `with tarfile.open(img_path, "w:gz")`, and what is done in it. -/
def writeImgFile (entries : AIDEReportEntries) : Prog Fs PublicationError Unit :=
  let imgPath := getImgFileFullPath env options
  Prog.andThen (sys .os (Fs.openTruncating 0o644 imgPath)) fun _ =>
    Prog.andThen (sys .os (Fs.setContent env.format.opened imgPath)) fun _ =>
      Prog.andThen (Prog.reads fun fs => openArchive env entries fs []) fun run =>
        match run.ending with
        | .ok _ => sys .os (Fs.setContent (env.format.complete (run.final [])) imgPath)
        | .error failure =>
            Prog.andThen (sys .os (Fs.setContent (env.format.left (run.final [])) imgPath))
              fun _ => Prog.raise (.generator failure)

/-- What `_create_img_signature` raises for an error of the signature manager. -/
def signatureError (imgPath : Str) : PublicationError → PublicationError
  | .signatureManager _ =>
      .sysImgGenerator ("Failed to create digital signature for '".toList ++ imgPath ++ ['\''])
  | other => other

/-- `_create_img_signature`. -/
def createImgSignature : Prog Fs PublicationError Unit :=
  Prog.handle
    (Prog.andThen (SignatureManager.sslSign env (getImgFileFullPath env options)
      (imgSigPath env options) options.sslCertPrivKeyPath) fun _ => Prog.ret ()) fun failure =>
        Prog.raise (signatureError (getImgFileFullPath env options) failure)

/-- `_generate_img_from_aide_entries`. -/
def generateImgFromAideEntries (entries : AIDEReportEntries) : Prog Fs PublicationError Str :=
  Prog.andThen (writeImgFile env options entries) fun _ =>
    Prog.andThen (createImgSignature env options) fun _ =>
      Prog.ret (getImgFileFullPath env options)

/-- The message of `generate_img` where anything is raised. -/
def generatorErrorMessage : Str :=
  "Reference system image generator error. Failed to generate ".toList ++
    "system image based on the output of comparison server's ".toList ++
    "current configuration's state '".toList ++ env.header.aideReferenceDbPath ++
    "' and client's '".toList ++ env.header.clientDbPath ++ "' AIDE database".toList

/-- `generate_img`. It ends with the real path of the image, or with none where the reference
database is outdated. -/
def generateImg : Prog Fs PublicationError (Option Path) :=
  Prog.andThen (Prog.tryReads env.checkOutput) fun output =>
    if isReferenceAideDbOutdated output then
      Prog.ret none
    else
      Prog.andThen
        (Prog.handle
          (Prog.andThen (Prog.tryReads env.readEntries) (generateImgFromAideEntries env options))
          fun _ => Prog.raise (.sysImgGenerator (generatorErrorMessage env))) fun imgPath =>
            Prog.reads fun fs => some (fs.realpath (Str.joinPath (Path.text fs.cwd) imgPath))

end Publishing

end SystemImageGenerator

end Myscm.Server
