import Mathlib.Data.List.Perm.Subperm
import Myscm.Client.Parser

/-!
Owns the client's `SysImgUpdater`: the search for a peer that has an image.

Owns: the filtering of the peers by protocol, the loop that draws a peer until one has an
image, the download from a named host.

Does not own: the transfer itself, whose outcome at each peer is given; log messages.
-/

namespace Myscm.Client

open Myscm.Library Myscm.Common

/-- The errors of a downloader that the updater handles. -/
inductive DownloadFailure where
  | noImageFound (message : Str)
  | sftpSysImgDownloader (message : Str)
  deriving DecidableEq

/-- What an update can end with. -/
inductive UpdaterError where
  | sysImgUpdater (message : Str)
  | sftpSysImgDownloader (message : Str)
  | keyError
  deriving DecidableEq

/-- The module `random`: the number of each draw below a bound. -/
structure RandomSource where
  randbelow : Nat → Nat → Nat
  below : ∀ draw bound, 0 < bound → randbelow draw bound < bound

/-- `random.choice`. -/
def RandomSource.choice {α : Type} (random : RandomSource) (draw : Nat) (seq : List α)
    (nonempty : seq ≠ []) : α :=
  seq.get ⟨random.randbelow draw seq.length,
    random.below draw seq.length (List.length_pos_iff.mpr nonempty)⟩

theorem RandomSource.choice_mem {α : Type} (random : RandomSource) (draw : Nat) (seq : List α)
    (nonempty : seq ≠ []) : random.choice draw seq nonempty ∈ seq :=
  List.get_mem seq _

/-- The options of `myscm-cli` that an update reads. Their validators only take a protocol
that is supported. -/
structure UpdateOptions where
  peersList : Dict Str HostConnectionDetails
  sysImgUpdateProtocol : Str
  supported : sysImgUpdateProtocol ∈ supportedProtocols

/-- The state of the loop of `_download_from_random_host`. `tried` has the hosts of the
tries in order, which the code names in its log. -/
structure PeerSearch where
  options : UpdateOptions
  filteredHosts : Dict Str HostConnectionDetails
  tries : Nat
  tried : List Str
  downloaded : Bool
  imgLocalPath : Option Str

namespace SysImgUpdater

/-- `_get_filtered_hosts`. -/
def getFilteredHosts (options : UpdateOptions) (protocol : Str) :
    Except UpdaterError (Dict Str HostConnectionDetails) :=
  let selectedPeersList := options.peersList.filter fun details => details.protocol = protocol
  if selectedPeersList.items.length = 0 then
    .error (.sysImgUpdater ("No peers were defined with '".toList ++ protocol ++
      "' protocol support".toList))
  else
    .ok selectedPeersList

section

variable (download : HostConnectionDetails → Except DownloadFailure Str)

/-- `_get_downloader`: the `download` method of the one supported protocol. -/
def getDownloader (protocol : Str) :
    Except UpdaterError (HostConnectionDetails → Except DownloadFailure Str) :=
  if protocol ∈ supportedProtocols then
    .ok download
  else
    .error (.sysImgUpdater ("Protocol '".toList ++ protocol ++
      "' selected in configuration file is not supported (allowed protocols: '".toList ++
      List.intercalate "', '".toList supportedProtocols ++ "')".toList))

/-- The loop body of `_download_from_random_host` for the host drawn. -/
def tryHost (search : PeerSearch) (host : Str) : Except UpdaterError PeerSearch :=
  match search.options.peersList.get? host with
  | none => .error .keyError
  | some hostDetails =>
      let drawn :=
        { search with
          tries := search.tries + 1
          tried := search.tried ++ [host]
          filteredHosts := search.filteredHosts.erase host }
      match download hostDetails with
      | .ok imgLocalPath =>
          .ok { drawn with downloaded := true, imgLocalPath := some imgLocalPath }
      | .error (.noImageFound _) => .ok drawn
      | .error (.sftpSysImgDownloader _) => .ok drawn

theorem filteredHosts_of_tryHost {search next : PeerSearch} {host : Str}
    (tried : tryHost download search host = .ok next) :
    next.filteredHosts = search.filteredHosts.erase host := by
  unfold tryHost at tried
  split at tried
  · cases tried
  · dsimp only at tried
    split at tried <;> cases tried <;> rfl

/-- The loop of `_download_from_random_host`. -/
def tryHosts (random : RandomSource) (search : PeerSearch) : Except UpdaterError PeerSearch :=
  if candidates : search.filteredHosts.keys ≠ [] ∧ search.downloaded = false then
    let host := random.choice search.tries search.filteredHosts.keys candidates.1
    match _tried : tryHost download search host with
    | .error failure => .error failure
    | .ok next => tryHosts random next
  else
    .ok search
termination_by search.filteredHosts.keys.length
decreasing_by
  rw [filteredHosts_of_tryHost download _tried]
  exact Dict.length_keys_erase_lt (random.choice_mem _ _ _)

/-- `_download_from_random_host`, with the state its loop ends in. It returns
`imgLocalPath`. -/
def downloadFromRandomHost (random : RandomSource) (options : UpdateOptions) :
    Except UpdaterError PeerSearch := do
  let protocol := options.sysImgUpdateProtocol
  let filteredHosts ← getFilteredHosts options protocol
  let download ← getDownloader download protocol
  tryHosts download random ⟨options, filteredHosts, 0, [], false, none⟩

/-- `_download_from_selected_host`. -/
def downloadFromSelectedHost (options : UpdateOptions) (host : Str) :
    Except UpdaterError (Option Str) :=
  match options.peersList.get? host with
  | none => .error .keyError
  | some hostDetails => do
      let download ← getDownloader download hostDetails.protocol
      match download hostDetails with
      | .ok imgLocalPath => return some imgLocalPath
      | .error (.noImageFound _) => return none
      | .error (.sftpSysImgDownloader message) => .error (.sftpSysImgDownloader message)

/-- `update`, for the value of `options.update_sys_img`. -/
def update (random : RandomSource) (options : UpdateOptions) (updateSysImg : RawValue) :
    Except UpdaterError (Option Str) :=
  match updateSysImg with
  | .bool _ => do
      let search ← downloadFromRandomHost download random options
      return search.imgLocalPath
  | .str host => downloadFromSelectedHost download options host
  | .int _ => .error .keyError

end

/-! ## One try -/

/-- A peer of the selected protocol. -/
def PeerOf (options : UpdateOptions) (host : Str) (details : HostConnectionDetails) : Prop :=
  options.peersList.get? host = some details ∧ details.protocol = options.sysImgUpdateProtocol

section

variable {download : HostConnectionDetails → Except DownloadFailure Str} {random : RandomSource}
  {options : UpdateOptions}

/-- What holds of the search before each turn of its loop. -/
structure SearchInvariant (download : HostConnectionDetails → Except DownloadFailure Str)
    (options : UpdateOptions) (search : PeerSearch) : Prop where
  untouched : search.options = options
  counted : search.tries = search.tried.length
  nodup : search.tried.Nodup
  peers : ∀ host ∈ search.tried, ∃ details, PeerOf options host details
  candidates : ∀ host details, search.filteredHosts.get? host = some details ↔
    PeerOf options host details ∧ host ∉ search.tried
  found : search.downloaded = true →
    ∃ front host details path, search.tried = front ++ [host] ∧ PeerOf options host details ∧
      download details = .ok path ∧ search.imgLocalPath = some path
  missed : search.downloaded = false →
    search.imgLocalPath = none ∧
      ∀ host ∈ search.tried, ∀ details, PeerOf options host details →
        ∀ path, download details ≠ .ok path

theorem invariant_of_tryHost {search : PeerSearch} {host : Str}
    (invariant : SearchInvariant download options search) (notDone : search.downloaded = false)
    (isCandidate : host ∈ search.filteredHosts.keys) :
    ∃ next, tryHost download search host = .ok next ∧ SearchInvariant download options next := by
  obtain ⟨details, isDetails⟩ := Option.isSome_iff_exists.mp (Dict.mem_keys_iff.mp isCandidate)
  obtain ⟨isPeer, fresh⟩ := (invariant.candidates host details).mp isDetails
  have drawnCounted : search.tries + 1 = (search.tried ++ [host]).length := by
    rw [List.length_append, invariant.counted, List.length_singleton]
  have drawnNodup : (search.tried ++ [host]).Nodup := by
    rw [← List.concat_eq_append, List.nodup_concat]
    exact ⟨fresh, invariant.nodup⟩
  have drawnPeers : ∀ other ∈ search.tried ++ [host], ∃ details, PeerOf options other details := by
    intro other member
    rcases List.mem_append.mp member with before | last
    · exact invariant.peers other before
    · obtain rfl := List.mem_singleton.mp last
      exact ⟨details, isPeer⟩
  have drawnCandidates : ∀ other otherDetails,
      (search.filteredHosts.erase host).get? other = some otherDetails ↔
        PeerOf options other otherDetails ∧ other ∉ search.tried ++ [host] := by
    intro other otherDetails
    rw [Dict.get?_erase]
    by_cases same : other = host
    · simp [same]
    · simp [same, invariant.candidates]
  have known : search.options.peersList.get? host = some details := by
    rw [invariant.untouched]
    exact isPeer.1
  obtain ⟨noPath, failed⟩ := invariant.missed notDone
  have stillMissed : (∀ path, download details ≠ .ok path) →
      ∀ other ∈ search.tried ++ [host], ∀ otherDetails, PeerOf options other otherDetails →
        ∀ path, download otherDetails ≠ .ok path := by
    intro none other member otherDetails otherPeer
    rcases List.mem_append.mp member with before | last
    · exact failed other before otherDetails otherPeer
    · obtain rfl := List.mem_singleton.mp last
      obtain rfl := Option.some.inj (otherPeer.1.symm.trans isPeer.1)
      exact none
  unfold tryHost
  rw [known]
  dsimp only
  split
  · rename_i path downloads
    exact ⟨_, rfl, invariant.untouched, drawnCounted, drawnNodup, drawnPeers, drawnCandidates,
      fun _ => ⟨search.tried, host, details, path, rfl, isPeer, downloads, rfl⟩,
      fun isOpen => by cases isOpen⟩
  · rename_i message downloads
    exact ⟨_, rfl, invariant.untouched, drawnCounted, drawnNodup, drawnPeers, drawnCandidates,
      fun isDone => absurd (notDone.symm.trans isDone) (by decide),
      fun _ => ⟨noPath, stillMissed fun path isOk => by rw [downloads] at isOk; cases isOk⟩⟩
  · rename_i message downloads
    exact ⟨_, rfl, invariant.untouched, drawnCounted, drawnNodup, drawnPeers, drawnCandidates,
      fun isDone => absurd (notDone.symm.trans isDone) (by decide),
      fun _ => ⟨noPath, stillMissed fun path isOk => by rw [downloads] at isOk; cases isOk⟩⟩

/-! ## The whole search -/

/-- The loop ends without an error, with an image or without candidates. -/
theorem tryHosts_ends (search : PeerSearch)
    (invariant : SearchInvariant download options search) :
    ∃ last, tryHosts download random search = .ok last ∧
      SearchInvariant download options last ∧
      (last.filteredHosts.keys = [] ∨ last.downloaded = true) := by
  -- The induction is on the candidates that are left.
  induction length : search.filteredHosts.keys.length using Nat.strong_induction_on
    generalizing search with
  | _ candidatesLeft inductionHypothesis =>
    rw [tryHosts]
    split
    · rename_i candidates
      dsimp only
      have drawn := random.choice_mem search.tries search.filteredHosts.keys candidates.1
      obtain ⟨next, tried, nextInvariant⟩ := invariant_of_tryHost invariant candidates.2 drawn
      have fewer : next.filteredHosts.keys.length < candidatesLeft := by
        rw [← length, filteredHosts_of_tryHost download tried]
        exact Dict.length_keys_erase_lt drawn
      split
      · rename_i failure failed
        rw [tried] at failed
        cases failed
      · rename_i other otherTried
        obtain rfl := Except.ok.inj (tried.symm.trans otherTried)
        exact inductionHypothesis _ fewer next nextInvariant rfl
    · rename_i noCandidates
      refine ⟨search, rfl, invariant, ?_⟩
      by_contra neither
      rw [not_or] at neither
      exact noCandidates ⟨neither.1, Bool.eq_false_iff.mpr neither.2⟩

theorem downloadFromRandomHost_ends
    (peer : ∃ host details, PeerOf options host details) :
    ∃ last, downloadFromRandomHost download random options = .ok last ∧
      SearchInvariant download options last ∧
      (last.filteredHosts.keys = [] ∨ last.downloaded = true) := by
  have isCandidate : ∀ host details,
      (options.peersList.filter fun details =>
        details.protocol = options.sysImgUpdateProtocol).get? host = some details ↔
      PeerOf options host details := by
    intro host details
    rw [Dict.get?_filter_eq_some, decide_eq_true_iff]
    rfl
  have some : (options.peersList.filter fun details =>
      details.protocol = options.sysImgUpdateProtocol).items.length ≠ 0 := by
    obtain ⟨host, details, isPeer⟩ := peer
    intro none
    have member := Dict.get?_eq_some_iff.mp ((isCandidate host details).mpr isPeer)
    rw [List.length_eq_zero_iff.mp none] at member
    cases member
  simp only [downloadFromRandomHost, getFilteredHosts, if_neg some, getDownloader, if_pos options.supported]
  refine tryHosts_ends _ ⟨rfl, rfl, List.nodup_nil, ?_, ?_, ?_, ?_⟩
  · intro host member
    cases member
  · intro host details
    rw [isCandidate]
    simp
  · intro done
    cases done
  · exact fun _ => ⟨rfl, fun host member => by cases member⟩

/-- An image is found where some peer of the protocol has one. -/
theorem imgLocalPath_isSome_iff {last : PeerSearch}
    (invariant : SearchInvariant download options last)
    (ended : last.filteredHosts.keys = [] ∨ last.downloaded = true) :
    last.imgLocalPath.isSome ↔
      ∃ host details path, PeerOf options host details ∧ download details = .ok path := by
  constructor
  · intro isSome
    cases done : last.downloaded with
    | false =>
        rw [(invariant.missed done).1] at isSome
        cases isSome
    | true =>
        obtain ⟨_, host, details, path, _, isPeer, downloads, _⟩ := invariant.found done
        exact ⟨host, details, path, isPeer, downloads⟩
  · rintro ⟨host, details, path, isPeer, downloads⟩
    cases done : last.downloaded with
    | false =>
        rw [done, or_iff_left (by decide)] at ended
        have tried : host ∈ last.tried := by
          by_contra fresh
          have candidate := (invariant.candidates host details).mpr ⟨isPeer, fresh⟩
          have isKey := Dict.mem_keys_iff.mpr (Option.isSome_iff_exists.mpr ⟨_, candidate⟩)
          rw [ended] at isKey
          cases isKey
        exact absurd downloads ((invariant.missed done).2 host tried details isPeer path)
    | true =>
        obtain ⟨_, _, _, _, _, _, _, isPath⟩ := invariant.found done
        rw [isPath]
        rfl

/-- Only peers of the protocol are tried, each once, so there are no more tries than such
peers. -/
theorem length_tried_le {last : PeerSearch} (invariant : SearchInvariant download options last) :
    last.tried.length ≤
      options.peersList.values.countP fun details =>
        details.protocol = options.sysImgUpdateProtocol := by
  have within : last.tried ⊆ (options.peersList.filter fun details =>
      details.protocol = options.sysImgUpdateProtocol).keys := by
    intro host member
    obtain ⟨details, isPeer⟩ := invariant.peers host member
    refine Dict.mem_keys_iff.mpr (Option.isSome_iff_exists.mpr ⟨details, ?_⟩)
    rw [Dict.get?_filter_eq_some, decide_eq_true_iff]
    exact isPeer
  have bounded := (List.subperm_of_subset invariant.nodup within).length_le
  rwa [Dict.length_keys_filter] at bounded

/-- The search for a peer is fair, and whether it finds an image does not depend on the
draws. -/
theorem downloadFromRandomHost_fair (random other : RandomSource)
    (peer : ∃ host details, PeerOf options host details) :
    ∃ last otherLast,
      downloadFromRandomHost download random options = .ok last ∧
      downloadFromRandomHost download other options = .ok otherLast ∧
      last.tries = last.tried.length ∧
      last.tries ≤ (options.peersList.values.countP fun details =>
        details.protocol = options.sysImgUpdateProtocol) ∧
      last.tried.Nodup ∧
      (∀ host ∈ last.tried, ∃ details, PeerOf options host details) ∧
      last.options.peersList = options.peersList ∧
      (last.imgLocalPath.isSome ↔
        ∃ host details path, PeerOf options host details ∧ download details = .ok path) ∧
      (∀ path, last.imgLocalPath = some path →
        ∃ host details, last.tried.getLast? = some host ∧ PeerOf options host details ∧
          download details = .ok path) ∧
      last.imgLocalPath.isSome = otherLast.imgLocalPath.isSome := by
  obtain ⟨last, run, invariant, ended⟩ :=
    @downloadFromRandomHost_ends download random options peer
  obtain ⟨otherLast, otherRun, otherInvariant, otherEnded⟩ :=
    @downloadFromRandomHost_ends download other options peer
  have found := imgLocalPath_isSome_iff invariant ended
  have otherFound := imgLocalPath_isSome_iff otherInvariant otherEnded
  refine ⟨last, otherLast, run, otherRun, invariant.counted, ?_, invariant.nodup,
    invariant.peers, congrArg _ invariant.untouched, found, ?_, ?_⟩
  · rw [invariant.counted]
    exact length_tried_le invariant
  · intro path isPath
    cases done : last.downloaded with
    | false =>
        rw [(invariant.missed done).1] at isPath
        cases isPath
    | true =>
        obtain ⟨front, host, details, downloaded, order, isPeer, downloads, returned⟩ :=
          invariant.found done
        obtain rfl := Option.some.inj (returned.symm.trans isPath)
        exact ⟨host, details, by rw [order, List.getLast?_concat], isPeer, downloads⟩
  · exact Bool.eq_iff_iff.mpr (found.trans otherFound.symm)

/-- The draws that always name the first candidate. -/
private def firstDraws : RandomSource := ⟨fun _ _ => 0, fun _ _ some => some⟩

/-- The draws that always name the last candidate. -/
private def lastDraws : RandomSource := ⟨fun _ bound => bound - 1, fun _ _ some => by omega⟩

private def peerDetails (host : Str) : HostConnectionDetails :=
  ⟨host, "SFTP".toList, 22, "user".toList, some "secret".toList, none, none, "images".toList⟩

private def twoPeers : UpdateOptions :=
  ⟨.ofPairs [("a".toList, peerDetails "a".toList), ("b".toList, peerDetails "b".toList)],
    "SFTP".toList, by decide⟩

private def secondHasImage (details : HostConnectionDetails) : Except DownloadFailure Str :=
  if details.host = "b".toList then .ok "b.img".toList else .error (.noImageFound [])

theorem downloadFromRandomHost_fair_twoPeers :
    ∃ last otherLast,
      downloadFromRandomHost secondHasImage firstDraws twoPeers = .ok last ∧
      downloadFromRandomHost secondHasImage lastDraws twoPeers = .ok otherLast ∧
      last.imgLocalPath.isSome = otherLast.imgLocalPath.isSome := by
  obtain ⟨last, otherLast, run, otherRun, _, _, _, _, _, _, _, same⟩ :=
    @downloadFromRandomHost_fair secondHasImage twoPeers firstDraws lastDraws
      ⟨"a".toList, peerDetails "a".toList, by decide, rfl⟩
  exact ⟨last, otherLast, run, otherRun, same⟩

end

end SysImgUpdater

end Myscm.Client
