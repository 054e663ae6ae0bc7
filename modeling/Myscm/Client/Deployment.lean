import Mathlib.Logic.Relation
import Myscm.Client.Upgrade
import Myscm.Library.TarAdd
import Myscm.Server.ScanHistory

/-!
Owns a deployment: a server that scans and publishes, and any number of clients that fetch
images and apply them, all of them at any time.

Owns: the moves of the server; the runs of a client among peers that serve published images; the
invariant of the deployments that are reached; that no client is ahead of the server, and that an
upgrade among current peers leads to the last scan.

Does not own: what an image does beside the version file and the downloads; the steps of two runs
on one machine at the same time.
-/

namespace Myscm.Client

open Myscm.Library Myscm.Common Myscm.Server SysImgExtractor

/-- Where a client records its version, and where its downloads are. -/
structure ClientPlaces where
  recentSysImgVerPath : Str
  sysImgDownloadDir : Str

/-- A server with its scans, the versions of the images that it has published, and the machines of
the clients. -/
structure Deployment (ι δ : Type) where
  scans : List δ
  server : ServerState δ
  published : List (Int × Int)
  machine : ι → Fs

/-- The image is among the downloads. -/
def HasImage (places : ClientPlaces) (v w : Int) (fs : Fs) : Prop :=
  fs.isfile (Str.joinPath places.sysImgDownloadDir
    (SystemImageGenerator.myscmImgFileName v w)) = true

/-- Some peer lists the image. -/
def PeerUpdate.Lists (peers : PeerUpdate) (v w : Int) : Prop :=
  ∃ details listing, peers.connect details = .ok listing ∧
    SystemImageGenerator.myscmImgFileName v w ∈ listing

/-- A peer lists the image from a version to the last scan, and what reads as an image from that
version is one. -/
def PeerUpdate.Current (peers : PeerUpdate) (v : Int) (last : Nat)
    (details : HostConnectionDetails) : Prop :=
  ∃ listing, peers.connect details = .ok listing ∧
    SystemImageGenerator.myscmImgFileName v last ∈ listing ∧
      ∀ fname ∈ listing, ∀ target, SFTPSysImgDownloader.ReadsAsImage v fname target →
        fname = SystemImageGenerator.myscmImgFileName v target

/-- A run among peers that serve published images. Nothing but the recording touches the version
file, and images come to the downloads from the peers alone. -/
structure Orderly (places : ClientPlaces) (published : List (Int × Int)) (peers : PeerUpdate)
    (run : Invocation) (start : Fs) : Prop where
  versionPath : run.options.recentSysImgVerPath = places.recentSysImgVerPath
  downloadDir : run.options.sysImgDownloadDir = places.sysImgDownloadDir
  update : run.update = peers.update run.options
  serve : ∀ v w, peers.Lists v w → (v, w) ∈ published
  spares : run.SparesVersion start
  images : ∀ state ∈ (run.program start).states, ∀ v w, HasImage places v w state →
    HasImage places v w start ∨ peers.Lists v w

/-! ## The steps -/

section Steps

variable {δ : Type} (config : ServerConfig)

/-- What the server does to its databases: a scan, the copy of tracked files, the deletion of an
old database. -/
inductive ServerMove (scans : List δ) (s : ServerState δ) : List δ → ServerState δ → Prop where
  | scan {fresh next : ServerState δ} (database : δ)
      (created : Scanner.createNewDb config database s = .ok fresh)
      (rotated : Prog.Ends (AIDEDatabasesManager.replaceOldAideDbWithNewOne config) fresh ()
        next) :
      ServerMove scans s (scans ++ [database]) next
  | copy {next : ServerState δ} (names : List Str)
      (copied : Scanner.copySelectedTrackedDirs config names s = .ok next) :
      ServerMove scans s scans next
  | delete (num : Int) :
      ServerMove scans s scans
        { s with aideOldDbDir := s.aideOldDbDir.erase (config.aideOldDbFname num) }

theorem ServerMove.reached {scans more : List δ} {s next : ServerState δ}
    (moves : ServerMove config scans s more next) (reached : ScanReachable config scans s) :
    ScanReachable config more next := by
  cases moves with
  | scan database created rotated => exact .scan database reached created rotated
  | copy names copied => exact .copy names reached copied
  | delete num => exact .delete num reached

theorem ServerMove.length_le {scans more : List δ} {s next : ServerState δ}
    (moves : ServerMove config scans s more next) : scans.length ≤ more.length := by
  cases moves with
  | scan database _ _ => simp
  | copy names _ => exact Nat.le_refl _
  | delete num => exact Nat.le_refl _

namespace Deployment

variable {ι : Type} (places : ι → ClientPlaces)

/-- One step of a party: a move of the server, the publication of an image, a run of a client that
returns, raises or is cut off. -/
inductive Step [DecidableEq ι] : Deployment ι δ → Deployment ι δ → Prop where
  | server {s : Deployment ι δ} {scans : List δ} {server : ServerState δ}
      (moves : ServerMove config s.scans s.server scans server) :
      Step s { s with scans := scans, server := server }
  | publish {s : Deployment ι δ} {genImg : Int} {ids : Int × Int}
      (formed : SystemImageGenerator.init config genImg s.server = .ok ids) :
      Step s { s with published := ids :: s.published }
  | run {s : Deployment ι δ} (i : ι) {peers : PeerUpdate} {run : Invocation} {finish : Fs}
      (orderly : Orderly (places i) s.published peers run (s.machine i))
      (leaves : run.Leaves (s.machine i) finish) :
      Step s { s with machine := Function.update s.machine i finish }

/-- A new server, and clients that record a version and have no image. -/
structure Begins (first : ι → Int) (s : Deployment ι δ) : Prop where
  scans : s.scans = []
  server : s.server = ⟨∅, some (Str.ofInt dbVerStartingValue)⟩
  published : s.published = []
  version : ∀ i,
    MySCMImgVersionFile.readVersion (places i).recentSysImgVerPath (s.machine i) = .ok (first i)
  images : ∀ i v w, ¬ HasImage (places i) v w (s.machine i)

/-- A published image leads from one version to the other. -/
def Leads (s : Deployment ι δ) (v w : Int) : Prop :=
  (v, w) ∈ s.published

structure Invariant (first : ι → Int) (s : Deployment ι δ) : Prop where
  server : ScanReachable config s.scans s.server
  published : ∀ v w, s.Leads v w → 0 ≤ v ∧ v < w ∧ w < s.scans.length
  images : ∀ i v w, HasImage (places i) v w (s.machine i) → s.Leads v w
  version : ∀ i, ∃ v,
    MySCMImgVersionFile.readVersion (places i).recentSysImgVerPath (s.machine i) = .ok v ∧
      Relation.ReflTransGen s.Leads (first i) v

end Deployment

end Steps

/-! ## The image of an application -/

section Images

variable {run : Invocation} {start : Fs} {v w : Int}

theorem mem_program_of_unrecorded {state : Fs}
    (member : state ∈ start :: (run.unrecorded start).states) :
    state ∈ start :: (run.program start).states := by
  rw [Invocation.program_eq]
  rcases List.mem_cons.mp member with rfl | later
  · exact List.mem_cons_self
  · exact List.mem_cons_of_mem _ (Prog.mem_states_andThen_left later)

theorem mem_program_of_leaves {finish : Fs} (leaves : run.Leaves start finish) :
    finish ∈ start :: (run.program start).states := by
  cases leaves with
  | whole => exact Prog.final_mem _ _
  | cutOff reached => exact mem_program_of_unrecorded reached

/-- An application starts in a state of its run. -/
theorem mem_unrecorded_of_applicationStart {command : Command} {s : Fs} {applied : ClientOptions}
    (isCommand : run.command = some command)
    (starts : applicationStart run.options run.update start command = some (s, applied)) :
    s ∈ start :: (run.unrecorded start).states ∧
      applied.recentSysImgVerPath = run.options.recentSysImgVerPath := by
  unfold Invocation.unrecorded
  rw [isCommand]
  cases command with
  | applyImg ver =>
      obtain ⟨rfl, rfl⟩ := Prod.mk.inj (Option.some.inj starts)
      exact ⟨List.mem_cons_self, rfl⟩
  | upgradeSysImg requested =>
      unfold applicationStart at starts
      dsimp only at starts
      split at starts
      · obtain ⟨ver, _, same⟩ := Option.map_eq_some_iff.mp starts
        obtain ⟨rfl, rfl⟩ := Prod.mk.inj same
        refine ⟨?_, rfl⟩
        rcases List.mem_cons.mp (Prog.final_mem (run.update start) start) with here | later
        · rw [here]
          exact List.mem_cons_self
        · exact List.mem_cons_of_mem _ (Prog.mem_states_andThen_left later)
      · cases starts

/-- The image that a run applies is there in one of its states. -/
theorem image_of_applies {places : ClientPlaces}
    (downloadDir : run.options.sysImgDownloadDir = places.sysImgDownloadDir)
    (spares : run.SparesVersion start) (held : run.version start = .ok v)
    (applies : run.Applies start v w) :
    ∃ state ∈ start :: (run.program start).states, HasImage places v w state := by
  obtain ⟨command, s, applied, chosen, isCommand, starts, rfl, ends⟩ := applies
  obtain ⟨member, samePath⟩ := mem_unrecorded_of_applicationStart isCommand starts
  have heldThere : run.version s = .ok v := (spares.reached member).trans held
  have isfile : s.isfile applied.recentSysImgVerPath = true := by
    rw [samePath, Fs.isfile_iff_readFile]
    unfold Invocation.version MySCMImgVersionFile.readVersion at heldThere
    cases read : s.readFile run.options.recentSysImgVerPath with
    | some bytes => exact ⟨bytes, rfl⟩
    | none =>
        rw [read] at heldThere
        cases heldThere
  refine ⟨s, mem_program_of_unrecorded member, ?_⟩
  rw [HasImage, ← downloadDir]
  exact (SysImgManager.getSysImgPath_of_isfile _ _ isfile).2 _ ends.1

end Images

/-! ## Every deployment that is reached -/

namespace Deployment

section Run

variable {ι δ : Type} {config : ServerConfig} {places : ι → ClientPlaces} {first : ι → Int}
  {start s next : Deployment ι δ}

theorem invariant_of_begins (begins : Begins places first s) : Invariant config places first s where
  server := by
    rw [begins.scans, begins.server]
    exact .start
  published := by
    intro v w leads
    rw [Leads, begins.published] at leads
    cases leads
  images i v w image := absurd image (begins.images i v w)
  version i := ⟨first i, begins.version i, .refl⟩

/-- Whatever image there is on a machine while an orderly run goes on is published. -/
theorem leads_of_image (invariant : Invariant config places first s) {i : ι} {peers : PeerUpdate}
    {run : Invocation} (orderly : Orderly (places i) s.published peers run (s.machine i))
    {state : Fs} (member : state ∈ s.machine i :: (run.program (s.machine i)).states) {v w : Int}
    (image : HasImage (places i) v w state) : s.Leads v w := by
  rcases List.mem_cons.mp member with rfl | later
  · exact invariant.images i v w image
  · rcases orderly.images state later v w image with before | lists
    · exact invariant.images i v w before
    · exact orderly.serve v w lists

/-- The version goes on along a published image, or stays. -/
theorem version_of_run (invariant : Invariant config places first s) {i : ι} {peers : PeerUpdate}
    {run : Invocation} (orderly : Orderly (places i) s.published peers run (s.machine i))
    {finish : Fs} (leaves : run.Leaves (s.machine i) finish) :
    ∃ v, MySCMImgVersionFile.readVersion (places i).recentSysImgVerPath finish = .ok v ∧
      Relation.ReflTransGen s.Leads (first i) v := by
  obtain ⟨v, held, chain⟩ := invariant.version i
  rw [← orderly.versionPath] at held ⊢
  obtain ⟨before, behind, isBefore, isBehind, _, changes⟩ :=
    Invocation.disciplined_of_leaves orderly.spares held leaves
  obtain rfl : v = before := Except.ok.inj (held.symm.trans isBefore)
  refine ⟨behind, isBehind, ?_⟩
  by_cases same : v = behind
  · exact same ▸ chain
  · obtain ⟨_, _, applies⟩ := changes same
    obtain ⟨state, member, image⟩ :=
      image_of_applies orderly.downloadDir orderly.spares held applies
    exact chain.tail (leads_of_image invariant orderly member image)

theorem invariant_step [DecidableEq ι] (invariant : Invariant config places first s)
    (step : Step config places s next) : Invariant config places first next := by
  cases step with
  | server moves =>
      refine ⟨moves.reached _ invariant.server, ?_, invariant.images, invariant.version⟩
      intro v w leads
      obtain ⟨nonneg, newer, bounded⟩ := invariant.published v w leads
      have longer := moves.length_le
      exact ⟨nonneg, newer, by dsimp only; omega⟩
  | @publish _ ids formed =>
      have more (v w : Int) (leads : s.Leads v w) :
          Leads { s with published := ids :: s.published } v w :=
        List.mem_cons_of_mem _ leads
      refine ⟨invariant.server, ?_, fun i v w image => more v w (invariant.images i v w image), ?_⟩
      · intro v w leads
        rcases List.mem_cons.mp leads with rfl | before
        · obtain ⟨same, nonneg, newer⟩ := invariant.server.history.init_cases formed
          obtain ⟨rfl, rfl⟩ := Prod.mk.inj same
          exact ⟨nonneg, newer, by dsimp only; omega⟩
        · exact invariant.published v w before
      · intro i
        obtain ⟨v, held, chain⟩ := invariant.version i
        exact ⟨v, held, Relation.ReflTransGen.mono more _ _ chain⟩
  | run i orderly leaves =>
      refine ⟨invariant.server, invariant.published, ?_, ?_⟩
      · intro j v w image
        dsimp only at image
        by_cases same : j = i
        · subst same
          rw [Function.update_self] at image
          exact leads_of_image invariant orderly (mem_program_of_leaves leaves) image
        · rw [Function.update_of_ne same] at image
          exact invariant.images j v w image
      · intro j
        dsimp only
        by_cases same : j = i
        · subst same
          rw [Function.update_self]
          exact version_of_run invariant orderly leaves
        · rw [Function.update_of_ne same]
          exact invariant.version j

theorem invariant_of_reached [DecidableEq ι] (begins : Begins places first start)
    (reached : Relation.ReflTransGen (Step config places) start s) :
    Invariant config places first s := by
  induction reached with
  | refl => exact invariant_of_begins begins
  | tail _ step inductionHypothesis => exact invariant_step inductionHypothesis step

/-- Along published images, a version is the first one or that of a scan. -/
theorem version_cases (invariant : Invariant config places first s) {u v : Int}
    (chain : Relation.ReflTransGen s.Leads u v) : v = u ∨ v < s.scans.length := by
  rcases Relation.ReflTransGen.cases_tail chain with rfl | ⟨_, _, leads⟩
  · exact .inl rfl
  · exact .inr (invariant.published _ _ leads).2.2

/-- What is published leads from one scan to a later one, what is downloaded is published, and
each client has come to its version along published images, so none is ahead of the server. -/
structure Sound (places : ι → ClientPlaces) (first : ι → Int) (s : Deployment ι δ) : Prop where
  published : ∀ v w, s.Leads v w → 0 ≤ v ∧ v < w ∧ w < s.scans.length
  images : ∀ i v w, HasImage (places i) v w (s.machine i) → s.Leads v w
  version : ∀ i, ∃ v,
    MySCMImgVersionFile.readVersion (places i).recentSysImgVerPath (s.machine i) = .ok v ∧
      Relation.ReflTransGen s.Leads (first i) v ∧ (v = first i ∨ v < s.scans.length)

/-- A current peer delivers the image to the last scan. -/
theorem delivers_of_current {peers : PeerUpdate} {v : Int} {last : Nat}
    {details : HostConnectionDetails} (current : peers.Current v last details) :
    ∃ target, peers.Delivers v details target := by
  obtain ⟨listing, answers, listed, named⟩ := current
  rcases SFTPSysImgDownloader.maxTargetId_cases v listing with
    none | ⟨fname, member, target, isMax, reads⟩
  · have bound := SFTPSysImgDownloader.listed_le_maxTargetId listed
    omega
  · exact ⟨target, listing, answers, isMax, named fname member target reads ▸ member⟩

end Run

end Deployment

/-! ## The names of the downloads -/

/-- The name of an image stands for both versions. -/
theorem versions_of_myscmImgFileName {v w x y : Int}
    (same : SystemImageGenerator.myscmImgFileName v w =
      SystemImageGenerator.myscmImgFileName x y) : v = x ∧ w = y := by
  have noDot (i : Int) : '.' ∉ Str.ofInt i := by
    intro member
    rcases Str.mem_ofInt member with isSign | isDigit
    · exact absurd isSign (by decide)
    · exact absurd isDigit (by decide)
  unfold SystemImageGenerator.myscmImgFileName at same
  have front := List.append_cancel_right same
  rw [List.append_assoc, List.append_assoc] at front
  obtain ⟨first, _, second⟩ := (List.append_cons_inj_of_notMem (noDot v) (noDot w)).mp
    (List.append_cancel_left front)
  exact ⟨Str.ofInt_injective first, Str.ofInt_injective second⟩

theorem isName_myscmImgFileName (v w : Int) :
    IsName (SystemImageGenerator.myscmImgFileName v w) := by
  have noSlash (i : Int) : '/' ∉ Str.ofInt i := by
    intro member
    rcases Str.mem_ofInt member with isSign | isDigit
    · exact absurd isSign (by decide)
    · exact absurd isDigit (by decide)
  have shape : SystemImageGenerator.myscmImgFileName v w =
      'm' :: ("yscm-img.".toList ++ Str.ofInt v ++ '.' :: Str.ofInt w ++
        SystemImageGenerator.myscmImgExt) := rfl
  refine ⟨by simp [shape], by simp [shape], by simp [shape], ?_⟩
  rw [shape]
  simp only [List.mem_cons, List.mem_append, not_or]
  exact ⟨by decide, ⟨⟨by decide, noSlash v⟩, by decide, noSlash w⟩, by decide⟩

/-- An image among the downloads is an entry of their directory. -/
theorem mem_entries_of_hasImage {places : ClientPlaces} {top : Path} {v w : Int} {fs : Fs}
    (isTop : places.sysImgDownloadDir = top.text) (proper : top.Proper)
    (isDir : fs.isRealDir top = true) (image : HasImage places v w fs) :
    SystemImageGenerator.myscmImgFileName v w ∈ fs.entries top := by
  have named := isName_myscmImgFileName v w
  rw [Fs.mem_entries proper]
  refine ⟨isDir, named, ?_⟩
  have joined := joinPath_text [] proper named
  rw [List.nil_append, List.nil_append] at joined
  unfold HasImage Fs.isfile Fs.stat at image
  rw [isTop, joined] at image
  rw [Option.any_eq_true] at image
  obtain ⟨node, found, _⟩ := image
  obtain ⟨target, located, here⟩ := Option.bind_eq_some_iff.mp found
  obtain ⟨other, locatedThere, present⟩ := Fs.locate_nofollow located (by rw [here]; rfl)
  rw [Fs.lstat, locatedThere]
  exact present

/-! ## One client, two scans -/

def onePlace : Unit → ClientPlaces := fun _ => ⟨"/v".toList, "/d".toList⟩

def newDeployment : Deployment Unit Nat := ⟨[], emptyServer, [], fun _ => upgradingClient⟩

/-- The server has scanned twice, and published the image that leads from one scan to the other. -/
def servedDeployment : Deployment Unit Nat :=
  ⟨[10, 20], scanOnce 20 (scanOnce 10 emptyServer), [(0, 1)], fun _ => upgradingClient⟩

def upgradedDeployment : Deployment Unit Nat :=
  { servedDeployment with machine := Function.update servedDeployment.machine () upgradingFinish }

theorem proper_downloads : Path.Proper ["d".toList] := by
  simp [Path.Proper, Idle]

/-- The only image among the entries of the downloads is the one from 0 to 1. -/
def OneImage (fs : Fs) : Prop :=
  fs.isRealDir ["d".toList] = true ∧
    ∀ name ∈ fs.entries ["d".toList], SystemImageGenerator.myscmImgExt <:+ name →
      name = SystemImageGenerator.myscmImgFileName 0 1

instance (fs : Fs) : Decidable (OneImage fs) :=
  inferInstanceAs (Decidable (_ ∧ _))

theorem upgrading_images :
    (∀ state ∈ (upgradingRun.unrecorded upgradingClient).states, OneImage state) ∧
      (∀ state ∈ (unlessDryRun upgradingRun.options
        (SysImgManager.updateCurrentSystemStateVersion upgradingRun.env.umask upgradingRun.options 1)
        upgradingMiddle).states, OneImage state) ∧
        (∀ state ∈ (rmtreeIgnoringErrors ClientError.os "/d/myscm-img.0.1".toList
          upgradingRecorded).states, OneImage state) ∧
          upgradingClient.isRealDir ["d".toList] = true ∧
            upgradingClient.entries ["d".toList] = [] := by
  decide +kernel

theorem upgradingRun_orderly :
    Orderly (onePlace ()) [(0, 1)] selectedPeer upgradingRun upgradingClient where
  versionPath := rfl
  downloadDir := rfl
  update := by simp only [upgradingRun]
  serve := by
    rintro v w ⟨details, listing, answers, listed⟩
    obtain rfl := Except.ok.inj answers
    obtain ⟨rfl, rfl⟩ := versions_of_myscmImgFileName (List.mem_singleton.mp listed)
    exact List.mem_singleton_self _
  spares := upgradingRun_spares
  images := by
    intro state member v w image
    obtain ⟨applying, recording, cleaning, _⟩ := upgrading_images
    have one : OneImage state := by
      rw [Invocation.program_eq] at member
      rcases Prog.mem_states_andThen_cases member with before | ⟨done, middle, ends, behind⟩
      · exact applying state before
      · obtain ⟨isDone, isMiddle⟩ := ends.unique upgrading_ends
        rw [isDone, isMiddle, upgradingRun_record] at behind
        rcases Prog.mem_states_andThen_cases behind with records | ⟨_, recorded, ends, cleans⟩
        · exact recording state records
        · obtain ⟨_, isRecorded⟩ := ends.unique upgrading_records
          rw [isRecorded] at cleans
          exact cleaning state cleans
    right
    have listed := mem_entries_of_hasImage rfl proper_downloads one.1 image
    have isImage := one.2 _ listed (List.suffix_append _ _)
    exact ⟨⟨[], [], 0, [], none, none, none, []⟩, _, rfl, List.mem_singleton.mpr isImage⟩

namespace Deployment

theorem newDeployment_begins : Begins onePlace (fun _ => 0) newDeployment where
  scans := rfl
  server := rfl
  published := rfl
  version _ := upgrading_states.2.2.2.2
  images := by
    intro i v w image
    obtain ⟨_, _, _, isDir, none⟩ := upgrading_images
    have listed := mem_entries_of_hasImage rfl proper_downloads isDir image
    rw [none] at listed
    cases listed

theorem reached_served :
    Relation.ReflTransGen (Step ServerConfig.default onePlace) newDeployment servedDeployment := by
  have first : Step ServerConfig.default onePlace newDeployment
      ⟨[10], scanOnce 10 emptyServer, [], fun _ => upgradingClient⟩ :=
    .server (.scan 10 rfl ⟨rfl, rfl⟩)
  have second : Step ServerConfig.default onePlace
      ⟨[10], scanOnce 10 emptyServer, [], fun _ => upgradingClient⟩
      ⟨[10, 20], scanOnce 20 (scanOnce 10 emptyServer), [], fun _ => upgradingClient⟩ :=
    .server (.scan 20 rfl ⟨rfl, rfl⟩)
  have published : Step ServerConfig.default onePlace
      ⟨[10, 20], scanOnce 20 (scanOnce 10 emptyServer), [], fun _ => upgradingClient⟩
      servedDeployment :=
    .publish (show SystemImageGenerator.init ServerConfig.default 0 _ = .ok (0, 1) from rfl)
  exact ((Relation.ReflTransGen.single first).tail second).tail published

end Deployment

end Myscm.Client
