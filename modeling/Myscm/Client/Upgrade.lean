import Myscm.Client.SFTPDownloader
import Myscm.Client.VersionRuns

/-!
Owns `--upgrade` as a whole: the update from the peers, and the version that the run records.

Owns: the program of an update; which peers it asks and what they deliver; what an upgrade that
returns leaves in the version file.

Does not own: the connections, the draws and the copies, which are given.
-/

namespace Myscm.Client

open Myscm.Library Myscm.Common Myscm.Server SysImgExtractor

/-- What `SysImgUpdater.update` draws on: the answers of the peers, the draws, the options that it
reads, the copies that its tries leave, the last one under the path that is returned, and how its
errors are raised. -/
structure PeerUpdate where
  connect : HostConnectionDetails → Except SftpFailure (List Str)
  random : RandomSource
  options : UpdateOptions
  updateSysImg : RawValue
  copies : Option Str → Prog Fs ClientError Unit
  raised : UpdaterError → ClientError

namespace PeerUpdate

variable (peers : PeerUpdate)

/-- The result for a client that is in a version. -/
def outcome (currentId : Int) (downloadDir : Str) : Except UpdaterError (Option Str) :=
  SysImgUpdater.update (SFTPSysImgDownloader.download peers.connect currentId downloadDir)
    peers.random peers.options peers.updateSysImg

/-- `SysImgUpdater.update` on the machine of the client. -/
def update (options : ClientOptions) : Prog Fs ClientError (Option Str) := do
  let currentId ← Prog.tryReads (MySCMImgVersionFile.readVersion options.recentSysImgVerPath)
  let outcome := peers.outcome currentId options.sysImgDownloadDir
  peers.copies (outcome.toOption.bind id)
  match outcome with
  | .error failure => Prog.raise (peers.raised failure)
  | .ok imgLocalPath => Prog.ret imgLocalPath

/-- A peer that the update may ask. -/
def Asked (details : HostConnectionDetails) : Prop :=
  match peers.updateSysImg with
  | .bool _ => ∃ host, SysImgUpdater.PeerOf peers.options host details
  | .str host => peers.options.peersList.get? host = some details
  | .int _ => False

/-- A peer lists the image that leads from a version to the target, and it is the newest one from
there that reads as an image. -/
def Delivers (currentId : Int) (details : HostConnectionDetails) (target : Nat) : Prop :=
  ∃ listing, peers.connect details = .ok listing ∧
    SFTPSysImgDownloader.maxTargetId currentId listing = target ∧
      SystemImageGenerator.myscmImgFileName currentId target ∈ listing

variable {peers} {currentId : Int} {downloadDir path : Str} {details : HostConnectionDetails}

/-! ## The download -/

theorem download_eq_ok_iff :
    SFTPSysImgDownloader.download peers.connect currentId downloadDir details = .ok path ↔
      ∃ target, peers.Delivers currentId details target ∧
        path = Str.joinPath downloadDir
          (SystemImageGenerator.myscmImgFileName currentId target) := by
  unfold SFTPSysImgDownloader.download Delivers
  cases answer : peers.connect details with
  | error failure => simp
  | ok listing =>
      rcases SFTPSysImgDownloader.maxTargetId_cases currentId listing with
        none | ⟨_, _, target, isMax, _⟩
      · obtain ⟨message, refused⟩ := SFTPSysImgDownloader.getNewest_of_none none
        simp [refused, none, bind, Except.bind]
      · have chosen := SFTPSysImgDownloader.getNewest_of_nat isMax
        have onlyTarget {other : Nat} (isOther :
            SFTPSysImgDownloader.maxTargetId currentId listing = other) : other = target := by
          omega
        simp only [chosen, bind, Except.bind, pure, Except.pure, Except.ok.injEq]
        constructor
        · intro downloads
          split at downloads
          · rename_i listed
            exact ⟨target, ⟨listing, rfl, isMax, listed⟩, (Except.ok.inj downloads).symm⟩
          · cases downloads
        · rintro ⟨other, ⟨_, rfl, isOther, listed⟩, rfl⟩
          obtain rfl := onlyTarget isOther
          rw [if_pos listed]

/-- Nothing that is listed leads further than what is delivered. -/
theorem Delivers.newest {target : Nat} (delivers : peers.Delivers currentId details target)
    {listing : List Str} (answers : peers.connect details = .ok listing) {other : Nat}
    (listed : SystemImageGenerator.myscmImgFileName currentId other ∈ listing) :
    other ≤ target := by
  obtain ⟨_, answered, isMax, _⟩ := delivers
  obtain rfl := Except.ok.inj (answered.symm.trans answers)
  have bound := SFTPSysImgDownloader.listed_le_maxTargetId listed
  omega

/-! ## The search -/

/-- A search among random peers that ends without an error had one to ask. -/
theorem exists_peerOf_of_ok {download : HostConnectionDetails → Except DownloadFailure Str}
    {random : RandomSource} {options : UpdateOptions} {last : PeerSearch}
    (ended : SysImgUpdater.downloadFromRandomHost download random options = .ok last) :
    ∃ host details, SysImgUpdater.PeerOf options host details := by
  obtain ⟨hosts, filtered, _⟩ := bind_ok ended
  unfold SysImgUpdater.getFilteredHosts at filtered
  dsimp only at filtered
  split at filtered
  · cases filtered
  · rename_i nonempty
    obtain ⟨⟨host, details⟩, member⟩ := List.exists_mem_of_length_pos (Nat.pos_of_ne_zero nonempty)
    have found := Dict.get?_eq_some_iff.mpr member
    rw [Dict.get?_filter_eq_some, decide_eq_true_iff] at found
    exact ⟨host, details, found⟩

/-- An update that ends without an image has asked every peer that it may ask, in vain. -/
theorem outcome_none (ended : peers.outcome currentId downloadDir = .ok none)
    (asked : peers.Asked details) (target : Nat) : ¬ peers.Delivers currentId details target := by
  intro delivers
  have downloads := (@download_eq_ok_iff peers currentId downloadDir _ details).mpr
    ⟨target, delivers, rfl⟩
  unfold outcome SysImgUpdater.update at ended
  unfold Asked at asked
  cases mode : peers.updateSysImg with
  | int _ => simp [mode] at asked
  | bool _ =>
      rw [mode] at asked ended
      obtain ⟨host, isPeer⟩ := asked
      obtain ⟨last, searched, invariant, isEnd⟩ :=
        @SysImgUpdater.downloadFromRandomHost_ends
          (SFTPSysImgDownloader.download peers.connect currentId downloadDir) peers.random
          peers.options ⟨host, details, isPeer⟩
      have found := (SysImgUpdater.imgLocalPath_isSome_iff invariant isEnd).mpr
        ⟨host, details, _, isPeer, downloads⟩
      dsimp only at ended
      rw [searched] at ended
      rw [Except.ok.inj ended] at found
      cases found
  | str host =>
      rw [mode] at asked ended
      dsimp only at asked ended
      rw [SysImgUpdater.downloadFromSelectedHost, asked] at ended
      obtain ⟨download, isDownload, ended⟩ := bind_ok ended
      unfold SysImgUpdater.getDownloader at isDownload
      split at isDownload
      · obtain rfl := Except.ok.inj isDownload
        rw [downloads] at ended
        cases ended
      · cases isDownload

/-- An update that ends with an image has it from a peer that it may ask. -/
theorem outcome_some (ended : peers.outcome currentId downloadDir = .ok (some path)) :
    ∃ details target, peers.Asked details ∧ peers.Delivers currentId details target ∧
      path = Str.joinPath downloadDir
        (SystemImageGenerator.myscmImgFileName currentId target) := by
  unfold outcome SysImgUpdater.update at ended
  unfold Asked
  cases mode : peers.updateSysImg with
  | int _ =>
      rw [mode] at ended
      cases ended
  | bool _ =>
      rw [mode] at ended
      obtain ⟨last, searched, returned⟩ := bind_ok ended
      obtain ⟨same, run, invariant, _⟩ := @SysImgUpdater.downloadFromRandomHost_ends
        (SFTPSysImgDownloader.download peers.connect currentId downloadDir) peers.random
        peers.options (exists_peerOf_of_ok searched)
      obtain rfl := Except.ok.inj (searched.symm.trans run)
      have isPath : last.imgLocalPath = some path := Except.ok.inj returned
      cases done : last.downloaded with
      | false =>
          rw [(invariant.missed done).1] at isPath
          cases isPath
      | true =>
          obtain ⟨_, host, details, _, _, isPeer, downloads, isDownload⟩ := invariant.found done
          obtain rfl := Option.some.inj (isDownload.symm.trans isPath)
          obtain ⟨target, delivers, isImage⟩ := download_eq_ok_iff.mp downloads
          exact ⟨details, target, ⟨host, isPeer⟩, delivers, isImage⟩
  | str host =>
      rw [mode] at ended
      dsimp only at ended ⊢
      unfold SysImgUpdater.downloadFromSelectedHost at ended
      split at ended
      · cases ended
      · rename_i details isDetails
        obtain ⟨download, isDownload, ended⟩ := bind_ok ended
        unfold SysImgUpdater.getDownloader at isDownload
        split at isDownload
        · obtain rfl := Except.ok.inj isDownload
          split at ended
          · rename_i downloads
            obtain rfl := Option.some.inj (Except.ok.inj ended)
            obtain ⟨target, delivers, isImage⟩ := download_eq_ok_iff.mp downloads
            exact ⟨details, target, isDetails, delivers, isImage⟩
          · cases ended
          · cases ended
        · cases isDownload

theorem ends_update_iff {options : ClientOptions} {start finish : Fs} {result : Option Str} :
    Prog.Ends (peers.update options) start result finish ↔
      ∃ currentId,
        MySCMImgVersionFile.readVersion options.recentSysImgVerPath start = .ok currentId ∧
          peers.outcome currentId options.sysImgDownloadDir = .ok result ∧
            Prog.Ends (peers.copies result) start () finish := by
  unfold update
  rw [Prog.bind_eq, Prog.ends_andThen_iff]
  constructor
  · rintro ⟨currentId, middle, read, rest⟩
    obtain ⟨isRead, rfl⟩ := (Prog.ends_tryReads_iff _ _ _ _).mp read
    refine ⟨currentId, isRead, ?_⟩
    obtain ⟨_, behind, copied, returned⟩ := (Prog.ends_andThen_iff _ _ _ _ _).mp rest
    cases ended : peers.outcome currentId options.sysImgDownloadDir with
    | error failure =>
        rw [ended] at returned
        exact absurd returned (Prog.not_ends_raise _ _ _ _)
    | ok imgLocalPath =>
        rw [ended] at copied returned
        obtain ⟨rfl, rfl⟩ := (Prog.ends_ret_iff _ _ _ _).mp returned
        exact ⟨rfl, copied⟩
  · rintro ⟨currentId, isRead, ended, copied⟩
    refine ⟨currentId, start, (Prog.ends_tryReads_iff _ _ _ _).mpr ⟨isRead, rfl⟩, ?_⟩
    rw [ended]
    exact (Prog.ends_andThen_iff _ _ _ _ _).mpr
      ⟨(), finish, copied, (Prog.ends_ret_iff _ _ _ _).mpr ⟨rfl, rfl⟩⟩

end PeerUpdate

/-! ## The version of a path -/

theorem basename_basename (s : Str) : Str.basename (Str.basename s) = Str.basename s := by
  have noSlash : '/' ∉ Str.basename s := by
    unfold Str.basename
    rcases List.eq_nil_or_concat (s.splitOn '/') with none | ⟨front, last, some⟩
    · simp [none]
    · rw [List.concat_eq_append] at some
      rw [some, List.getLastD_concat]
      exact Fs.not_mem_of_mem_splitOn (some ▸ List.mem_append_right _ List.mem_cons_self)
  have single := List.splitOn_eq_singleton noSlash
  rw [Str.basename, single]
  rfl

/-- An upgrade to no version in particular reads it from the name of the image. -/
theorem upgradeVersion_imagePath (downloadDir : Str) (x y : Nat) :
    upgradeVersion none
        (Str.joinPath downloadDir (SystemImageGenerator.myscmImgFileName x y)) =
      .ok (y : Int) := by
  rw [← SysImgManager.getTargetSysImgVerFromFname_myscmImgFileName downloadDir x y]
  unfold upgradeVersion SysImgManager.getTargetSysImgVerFromFname
  dsimp only
  rw [basename_basename]

/-! ## What is recorded -/

namespace Invocation

variable {run : Invocation} {start middle finish : Fs} {v : Int}

/-- Where the rest of a run behind the application returns, the version of the image is in the
file, unless the run is dry. -/
theorem version_of_record {ver : Int} {dir : Str} (spares : run.SparesVersion start)
    (applied : Prog.Ends run.unrecorded start (some (ver, dir)) middle)
    (held : run.version middle = .ok v) (allowed : 0 ≤ ver)
    (ends : Prog.Ends (run.record (some (ver, dir))) middle () finish) :
    run.version finish = .ok (if run.options.dryRun then v else ver) := by
  obtain ⟨_, recorded, records, cleans⟩ := (Prog.ends_andThen_iff _ _ _ _ _).mp ends
  have cleaned : run.version finish = run.version recorded := by
    have behind := version_behind_cleaning (spares.cleaning _ _ _ _ applied records)
    rwa [cleans.2] at behind
  rw [cleaned]
  cases dry : run.options.dryRun with
  | true =>
      rw [unlessDryRun, if_pos dry] at records
      obtain ⟨_, rfl⟩ := (Prog.ends_ret_iff _ _ _ _).mp records
      exact held
  | false =>
      have stored : Prog.Ends (MySCMImgVersionFile.setValue run.env.umask
          run.options.recentSysImgVerPath ver) middle () recorded := by
        simpa [unlessDryRun, dry, SysImgManager.updateCurrentSystemStateVersion,
          Prog.ends_handle_iff] using records
      exact MySCMImgVersionFile.readVersion_of_setValue run.env.umask allowed stored

end Invocation

/-! ## An upgrade from a selected peer -/

/-- A client in version 0 without an image. -/
def upgradingClient : Fs :=
  Fs.ofNodes
    [(["v".toList], ⟨.regular (Utf8.encode ['0']), 0o644, 0, 0, 1⟩),
      (["d".toList], ⟨.directory, 0o755, 0, 0, 2⟩)]

theorem sftp_supported : "SFTP".toList ∈ supportedProtocols := by
  decide

/-- The one peer, which lists one image. -/
def selectedPeer : PeerUpdate where
  connect _ := .ok [SystemImageGenerator.myscmImgFileName 0 1]
  random := ⟨fun _ _ => 0, fun _ _ some => some⟩
  options :=
    ⟨.ofPairs [("a".toList, ⟨"a".toList, "SFTP".toList, 22, "user".toList, none, none, none,
      "images".toList⟩)], "SFTP".toList, sftp_supported⟩
  updateSysImg := .str "a".toList
  copies
    | none => Prog.ret ()
    | some path => Prog.step fun fs =>
        match (Fs.openTruncating 0o644 path fs).bind (Fs.setContent [1] path) with
        | some next => .ok next
        | none => .error .os
  raised _ := .os

def upgradingRun : Invocation where
  env := unsignedEnv
  options := unsignedOptions
  update := selectedPeer.update unsignedOptions
  command := some (.upgradeSysImg none)

/-- The state in front of the recording, the one behind it, and the last one. -/
def upgradingMiddle : Fs := (upgradingRun.unrecorded upgradingClient).final upgradingClient

def upgradingRecorded : Fs :=
  (SysImgManager.updateCurrentSystemStateVersion unsignedEnv.umask unsignedOptions 1
    upgradingMiddle).final upgradingMiddle

def upgradingFinish : Fs := (upgradingRun.program upgradingClient).final upgradingClient

/-- The run applies the image, records its version, and spares the version file. -/
theorem upgrading_states :
    (upgradingRun.unrecorded upgradingClient).ending =
        .ok (some (1, "/d/myscm-img.0.1".toList)) ∧
      (SysImgManager.updateCurrentSystemStateVersion unsignedEnv.umask unsignedOptions 1
        upgradingMiddle).ending = .ok () ∧
        (∀ state ∈ (upgradingRun.unrecorded upgradingClient).states,
          upgradingRun.version state = upgradingRun.version upgradingClient) ∧
          (∀ state ∈ (rmtreeIgnoringErrors ClientError.os "/d/myscm-img.0.1".toList
              upgradingRecorded).states,
            upgradingRun.version state = upgradingRun.version upgradingRecorded) ∧
            upgradingRun.version upgradingClient = .ok 0 := by
  decide +kernel

theorem upgrading_ends :
    Prog.Ends upgradingRun.unrecorded upgradingClient (some (1, "/d/myscm-img.0.1".toList))
      upgradingMiddle :=
  ⟨upgrading_states.1, rfl⟩

theorem upgrading_records :
    Prog.Ends (unlessDryRun upgradingRun.options
      (SysImgManager.updateCurrentSystemStateVersion upgradingRun.env.umask upgradingRun.options 1))
      upgradingMiddle () upgradingRecorded := by
  have wet : upgradingRun.options.dryRun = false := rfl
  rw [unlessDryRun, wet, if_neg Bool.false_ne_true]
  exact ⟨upgrading_states.2.1, rfl⟩

theorem upgradingRun_spares : upgradingRun.SparesVersion upgradingClient where
  applying := upgrading_states.2.2.1
  cleaning := by
    intro ver dir middle recorded ends records
    obtain ⟨same, isMiddle⟩ := ends.unique upgrading_ends
    obtain ⟨isVer, isDir⟩ := Prod.mk.inj (Option.some.inj same)
    rw [isVer, isMiddle] at records
    obtain ⟨_, isRecorded⟩ := records.unique upgrading_records
    rw [isDir, isRecorded]
    exact upgrading_states.2.2.2.1

theorem upgradingRun_record :
    upgradingRun.record (some (1, "/d/myscm-img.0.1".toList)) =
      Prog.andThen (unlessDryRun upgradingRun.options
        (SysImgManager.updateCurrentSystemStateVersion upgradingRun.env.umask upgradingRun.options
          1)) fun _ => rmtreeIgnoringErrors .os "/d/myscm-img.0.1".toList := rfl

theorem upgrading_returns :
    Prog.Ends upgradingRun.program upgradingClient () upgradingFinish := by
  rw [upgradingFinish, Invocation.program_eq, Prog.final_andThen upgrading_ends,
    Prog.ends_andThen_iff]
  refine ⟨_, upgradingMiddle, upgrading_ends, ?_⟩
  rw [upgradingRun_record, Prog.final_andThen upgrading_records, Prog.ends_andThen_iff]
  exact ⟨(), upgradingRecorded, upgrading_records, Invocation.ends_rmtreeIgnoringErrors _ _⟩

namespace Invocation

end Invocation

end Myscm.Client
