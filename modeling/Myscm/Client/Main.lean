import Myscm.Client.SysImgExtractor

/-!
Owns the routes of `myscm-cli` that apply an image, and the verification of an
image's signature.

Owns: `_main` for `--apply-img` and `--upgrade`; `SignatureManager.ssl_verify`.

Does not own: the download of `--upgrade`, which is given as a program, and
OpenSSL, which is given as a function.
-/

namespace Myscm.Client

open Myscm.Library Myscm.Server

namespace SignatureManager

/-- `SIGNATURE_EXT`. -/
def signatureExt : Str := ".sig".toList

/-- `ssl_verify`. `openssl` checks a signature of data against a key in PEM
format, and is none where the key cannot be loaded. -/
def sslVerify (openssl : Str → List UInt8 → List UInt8 → Option Bool)
    (pathToVerify signaturePath sslPubKeyPath : Str) (fs : Fs) : Except ClientError Bool :=
  match fs.readFile pathToVerify, fs.readFile signaturePath with
  | some signedFileData, some signature => do
      let pemPkey ← readText sslPubKeyPath fs
      match openssl pemPkey signature signedFileData with
      | some valid => .ok valid
      | none =>
          .error (.signatureManager
            ("Loading PEM formatted SSL '".toList ++ sslPubKeyPath ++
              "' certificate's public key failed".toList))
  | _, _ => .error .os

end SignatureManager

/-- The options of the command line that apply an image. -/
inductive Command where
  | applyImg (sysImgVer : Int)
  | upgradeSysImg (sysImgVer : Option Int)

section Main

variable (env : ClientEnv) (options : ClientOptions) (update : Prog Fs ClientError (Option Str))

/-- The version `--upgrade` applies, given the downloaded image. -/
def upgradeVersion (requested : Option Int) (sysImgPath : Str) : Except ClientError Int :=
  match requested with
  | none => SysImgManager.getTargetSysImgVerFromFname (Str.basename sysImgPath)
  | some ver => .ok ver

/-- `_main` for the commands that apply an image. `update` is `SysImgUpdater.update`. -/
def main : Command → Prog Fs ClientError Unit
  | .applyImg ver => SysImgExtractor.applySysImg env { options with applyImg := ver }
  | .upgradeSysImg requested => do
      match ← update with
      | none => Prog.ret ()
      | some sysImgPath => do
          let ver ← Prog.tryReads fun _ => upgradeVersion requested sysImgPath
          SysImgExtractor.applySysImg env { options with applyImg := ver }

end Main

end Myscm.Client
