import Mathlib.Order.MinMax
import Myscm.Client.ImageNames
import Myscm.Client.SysImgUpdater

/-!
Owns the client's `SFTPSysImgDownloader`: which of the names a peer lists is downloaded.

Owns: the newest target among the listed names, the name built from it, the errors of a
transfer; when the choice is the newest image that is listed.

Does not own: the connection, whose answers are given; the local copies; log messages.
-/

namespace Myscm.Client

open Myscm.Library Myscm.Server

/-- The errors of a connection that the downloader handles. -/
inductive SftpFailure where
  | authentication
  | fileNotFound
  | ssh
  deriving DecidableEq

namespace SFTPSysImgDownloader

/-- The expression for the names of the images that lead on from a version. -/
def newestRegex (currentId : Int) : Regex :=
  unescaped (imgFront ++ Str.ofInt currentId ++ ['.'])
    (.seq (.group (.many 1 fun c => (Str.decimalValue c).isSome))
      (unescaped SystemImageGenerator.myscmImgExt .empty))

/-- The number in a name that the expression matches. -/
def targetId (currentId : Int) (fname : Str) : Option Int :=
  match (newestRegex currentId).fullmatch fname with
  | some [group] => Str.parseInt group
  | _ => none

/-- The loop of `_get_newest_myscm_sys_img_fname`. -/
def maxTargetId (currentId : Int) (listing : List Str) : Int :=
  listing.foldl (fun maxTargetId fname =>
    match targetId currentId fname with
    | some targetId => max targetId maxTargetId
    | none => maxTargetId) (-1)

/-- `_get_newest_myscm_sys_img_fname`. -/
def getNewestMyscmSysImgFname (currentId : Int) (listing : List Str) :
    Except DownloadFailure Str :=
  let maxTargetId := maxTargetId currentId listing
  if maxTargetId < 0 then
    .error (.noImageFound
      ("No mySCM system images matching current system ID (which is ".toList ++
        Str.ofInt currentId ++ ") found on the connected peer.".toList))
  else
    .ok (SystemImageGenerator.myscmImgFileName currentId maxTargetId)

/-- `_sftp_download_myscm_img`, with the version the client is at and the names in a peer's
directory. A name that is not listed cannot be fetched. -/
def download (connect : HostConnectionDetails → Except SftpFailure (List Str))
    (currentId : Int) (downloadDir : Str) (hostDetails : HostConnectionDetails) :
    Except DownloadFailure Str :=
  match connect hostDetails with
  | .error failure => .error (failed failure)
  | .ok listing => do
      let imgName ← getNewestMyscmSysImgFname currentId listing
      if imgName ∈ listing then
        return Str.joinPath downloadDir imgName
      else
        .error (failed .fileNotFound)
where
  failed : SftpFailure → DownloadFailure
    | .authentication | .fileNotFound =>
        .sftpSysImgDownloader "Connection to SFTP peer failed".toList
    | .ssh =>
        .sftpSysImgDownloader
          ("Connection to SFTP peer failed. Check if '".toList ++ hostDetails.host ++
            "' is present in SSH known_hosts file. If you are using private key to ".toList ++
            "connect to the server, check if password provided in configuration file is ".toList ++
            "correct".toList)

/-! ## The names that are read -/

/-- A name reads as that of an image that leads on from a version to the target. -/
def ReadsAsImage (currentId : Int) (name : Str) (target : Nat) : Prop :=
  ∃ front digits back, name = front ++ (digits ++ back) ∧
    FitsPattern (imgFront ++ Str.ofInt currentId ++ ['.']) front ∧ Str.Digits digits ∧
    FitsPattern SystemImageGenerator.myscmImgExt back ∧ Str.digitsValue 10 digits = target

theorem mem_ways_newestRegex {currentId : Int} {name : Str} {groups : List Str} :
    (groups, []) ∈ (newestRegex currentId).ways name ↔
      ∃ front digits back, name = front ++ (digits ++ back) ∧
        FitsPattern (imgFront ++ Str.ofInt currentId ++ ['.']) front ∧ Str.Digits digits ∧
        FitsPattern SystemImageGenerator.myscmImgExt back ∧ groups = [digits] := by
  rw [newestRegex, mem_ways_unescaped]
  constructor
  · rintro ⟨front, rest, rfl, isFront, member⟩
    obtain ⟨before, isBefore, next, isNext, same⟩ := Regex.mem_ways_seq.mp member
    obtain ⟨digits, rfl, isDigits, captured⟩ := mem_ways_digits.mp isBefore
    obtain ⟨back, behind, atBack, isBack, ending⟩ := mem_ways_unescaped.mp isNext
    obtain rfl := mem_ways_empty.mp ending
    obtain ⟨rfl, consumed⟩ := Prod.mk.inj same
    obtain rfl : behind = [] := consumed.symm
    refine ⟨front, digits, back, ?_, isFront, isDigits, isBack, ?_⟩
    · rw [atBack, List.append_nil]
    · rw [captured]
      rfl
  · rintro ⟨front, digits, back, rfl, isFront, isDigits, isBack, rfl⟩
    refine ⟨front, digits ++ back, rfl, isFront, Regex.mem_ways_seq.mpr ?_⟩
    refine ⟨([digits], back), mem_ways_digits.mpr ⟨digits, rfl, isDigits, rfl⟩, ([], []), ?_, rfl⟩
    exact mem_ways_unescaped.mpr
      ⟨back, [], (List.append_nil back).symm, isBack, mem_ways_empty.mpr rfl⟩

/-- A name is read in one way at most, as the parts around the digits have fixed lengths. -/
theorem digits_unique {currentId : Int} {front digits back front' digits' back' : Str}
    (same : front ++ (digits ++ back) = front' ++ (digits' ++ back'))
    (isFront : FitsPattern (imgFront ++ Str.ofInt currentId ++ ['.']) front)
    (isFront' : FitsPattern (imgFront ++ Str.ofInt currentId ++ ['.']) front')
    (isBack : FitsPattern SystemImageGenerator.myscmImgExt back)
    (isBack' : FitsPattern SystemImageGenerator.myscmImgExt back') : digits = digits' := by
  obtain ⟨_, behind⟩ := List.append_inj same
    ((fitsPattern_length isFront).trans (fitsPattern_length isFront').symm)
  exact (List.append_inj' behind ((fitsPattern_length isBack).trans (fitsPattern_length isBack').symm)).1

theorem targetId_eq_some_iff {currentId : Int} {name : Str} {target : Int} :
    targetId currentId name = some target ↔
      ∃ t : Nat, target = t ∧ ReadsAsImage currentId name t := by
  constructor
  · intro isTarget
    unfold targetId at isTarget
    split at isTarget
    · rename_i group isMatch
      obtain ⟨front, digits, back, whole, isFront, isDigits, isBack, captured⟩ :=
        mem_ways_newestRegex.mp (Regex.mem_ways_of_fullmatch isMatch)
      obtain rfl := (List.cons.inj captured).1
      rw [Str.parseInt_of_digits isDigits] at isTarget
      exact ⟨_, (Option.some.inj isTarget).symm, front, group, back, whole, isFront, isDigits,
        isBack, rfl⟩
    · cases isTarget
  · rintro ⟨t, rfl, front, digits, back, rfl, isFront, isDigits, isBack, rfl⟩
    have read : ([digits], []) ∈ (newestRegex currentId).ways (front ++ (digits ++ back)) :=
      mem_ways_newestRegex.mpr ⟨front, digits, back, rfl, isFront, isDigits, isBack, rfl⟩
    obtain ⟨groups, isMatch⟩ :=
      Option.isSome_iff_exists.mp (Regex.fullmatch_isSome_iff.mpr ⟨_, read⟩)
    obtain ⟨front', digits', back', whole, isFront', _, isBack', rfl⟩ :=
      mem_ways_newestRegex.mp (Regex.mem_ways_of_fullmatch isMatch)
    rw [targetId, isMatch, ← digits_unique whole isFront isFront' isBack isBack']
    exact Str.parseInt_of_digits isDigits

theorem newline_not_mem_ofInt (i : Int) : '\n' ∉ Str.ofInt i := by
  intro member
  rcases Str.mem_ofInt member with isSign | isDigit
  · exact absurd isSign (by decide)
  · exact absurd isDigit (by decide)

/-- The name of an image reads as one, with its target. -/
theorem targetId_myscmImgFileName (currentId : Int) (t : Nat) :
    targetId currentId (SystemImageGenerator.myscmImgFileName currentId t) = some (t : Int) := by
  have whole : SystemImageGenerator.myscmImgFileName currentId t =
      (imgFront ++ Str.ofInt currentId ++ ['.']) ++
        (Str.ofNat t ++ SystemImageGenerator.myscmImgExt) := by
    unfold SystemImageGenerator.myscmImgFileName imgFront
    rw [Str.ofInt_natCast, List.append_assoc, List.append_assoc, List.append_assoc]
    rfl
  have isFront : FitsPattern (imgFront ++ Str.ofInt currentId ++ ['.'])
      (imgFront ++ Str.ofInt currentId ++ ['.']) := by
    refine fitsPattern_self ?_
    rw [List.mem_append, List.mem_append, not_or, not_or]
    exact ⟨⟨by decide, newline_not_mem_ofInt currentId⟩, by decide⟩
  have isBack : FitsPattern SystemImageGenerator.myscmImgExt SystemImageGenerator.myscmImgExt :=
    fitsPattern_self (by decide)
  rw [whole]
  exact targetId_eq_some_iff.mpr ⟨t, rfl, _, _, _, rfl, isFront, Str.digits_ofNat t, isBack,
    Str.digitsValue_ofNat t⟩

/-! ## The newest target -/

/-- The loop keeps the largest number so far. -/
theorem foldl_targets {currentId : Int} (listing : List Str) (start : Int) :
    let last := listing.foldl (fun maxTargetId fname =>
      match targetId currentId fname with
      | some targetId => max targetId maxTargetId
      | none => maxTargetId) start
    start ≤ last ∧
      (∀ fname ∈ listing, ∀ target, targetId currentId fname = some target → target ≤ last) ∧
      (last = start ∨ ∃ fname ∈ listing, targetId currentId fname = some last) := by
  induction listing generalizing start with
  | nil => simp
  | cons first rest inductionHypothesis =>
      dsimp only at inductionHypothesis ⊢
      rw [List.foldl_cons]
      cases found : targetId currentId first with
      | none =>
          obtain ⟨grows, bounds, reached⟩ := inductionHypothesis start
          dsimp only
          refine ⟨grows, ?_, ?_⟩
          · intro fname member target isTarget
            rcases List.mem_cons.mp member with rfl | later
            · rw [found] at isTarget
              cases isTarget
            · exact bounds fname later target isTarget
          · rcases reached with same | ⟨fname, later, isTarget⟩
            · exact .inl same
            · exact .inr ⟨fname, List.mem_cons_of_mem _ later, isTarget⟩
      | some here =>
          obtain ⟨grows, bounds, reached⟩ := inductionHypothesis (max here start)
          dsimp only
          refine ⟨Int.le_trans (Int.le_max_right here start) grows, ?_, ?_⟩
          · intro fname member target isTarget
            rcases List.mem_cons.mp member with rfl | later
            · obtain rfl := Option.some.inj (found.symm.trans isTarget)
              exact Int.le_trans (Int.le_max_left here start) grows
            · exact bounds fname later target isTarget
          · rcases reached with same | ⟨fname, later, isTarget⟩
            · rw [same]
              rcases max_choice here start with isHere | isStart
              · rw [isHere]
                exact .inr ⟨first, List.mem_cons_self, found⟩
              · exact .inl isStart
            · exact .inr ⟨fname, List.mem_cons_of_mem _ later, isTarget⟩

theorem le_maxTargetId {currentId : Int} {listing : List Str} {fname : Str} {target : Int}
    (member : fname ∈ listing) (isTarget : targetId currentId fname = some target) :
    target ≤ maxTargetId currentId listing :=
  (foldl_targets listing (-1)).2.1 fname member target isTarget

/-- The newest target is that of a listed name, unless there is none. -/
theorem maxTargetId_cases (currentId : Int) (listing : List Str) :
    maxTargetId currentId listing = -1 ∨
      ∃ fname ∈ listing, ∃ t : Nat, maxTargetId currentId listing = t ∧
        ReadsAsImage currentId fname t := by
  rcases (@foldl_targets currentId listing (-1)).2.2 with none | ⟨fname, member, isTarget⟩
  · exact .inl none
  · obtain ⟨t, isNat, reads⟩ := targetId_eq_some_iff.mp isTarget
    exact .inr ⟨fname, member, t, isNat, reads⟩

/-! ## The choice -/

/-- The newest image that is listed is chosen, and none where none is listed. -/
structure ChoosesNewest (currentId : Int) (listing : List Str) : Prop where
  chosen : ∀ fname, getNewestMyscmSysImgFname currentId listing = .ok fname →
    fname ∈ listing ∧ ∃ t : Nat, fname = SystemImageGenerator.myscmImgFileName currentId t ∧
      ∀ other : Nat, SystemImageGenerator.myscmImgFileName currentId other ∈ listing → other ≤ t
  refused : (∃ message, getNewestMyscmSysImgFname currentId listing =
      .error (.noImageFound message)) ↔
    ∀ t : Nat, SystemImageGenerator.myscmImgFileName currentId t ∉ listing

/-- A listed image bounds the number that is found from below. -/
theorem listed_le_maxTargetId {currentId : Int} {listing : List Str} {t : Nat}
    (listed : SystemImageGenerator.myscmImgFileName currentId t ∈ listing) :
    (t : Int) ≤ maxTargetId currentId listing :=
  le_maxTargetId listed (targetId_myscmImgFileName currentId t)

theorem getNewest_of_nat {currentId : Int} {listing : List Str} {t : Nat}
    (isMax : maxTargetId currentId listing = t) :
    getNewestMyscmSysImgFname currentId listing =
      .ok (SystemImageGenerator.myscmImgFileName currentId t) := by
  unfold getNewestMyscmSysImgFname
  dsimp only
  rw [isMax, if_neg (by omega)]

theorem getNewest_of_none {currentId : Int} {listing : List Str}
    (isMax : maxTargetId currentId listing = -1) :
    ∃ message, getNewestMyscmSysImgFname currentId listing = .error (.noImageFound message) := by
  unfold getNewestMyscmSysImgFname
  dsimp only
  rw [isMax, if_pos (by decide)]
  exact ⟨_, rfl⟩

/-- The choice is the newest listed image where no listed name that reads as one has a larger
number than all listed images. -/
theorem choosesNewest_iff (currentId : Int) (listing : List Str) :
    ChoosesNewest currentId listing ↔
      ∀ fname ∈ listing, ∀ target, ReadsAsImage currentId fname target →
        ∃ t, target ≤ t ∧ SystemImageGenerator.myscmImgFileName currentId t ∈ listing := by
  constructor
  · intro newest fname member target reads
    have bound := le_maxTargetId member (targetId_eq_some_iff.mpr ⟨target, rfl, reads⟩)
    rcases maxTargetId_cases currentId listing with none | ⟨_, _, t, isMax, _⟩
    · omega
    · have listed := (newest.chosen _ (getNewest_of_nat isMax)).1
      exact ⟨t, by omega, listed⟩
  · intro covered
    rcases maxTargetId_cases currentId listing with none | ⟨fname, member, t, isMax, reads⟩
    · obtain ⟨message, isError⟩ := getNewest_of_none none
      refine ⟨fun chosen isChosen => ?_, fun _ t listed => ?_, fun _ => ⟨message, isError⟩⟩
      · rw [isError] at isChosen
        cases isChosen
      · have bound := listed_le_maxTargetId listed
        omega
    · have isChosen := getNewest_of_nat isMax
      obtain ⟨newest, above, listed⟩ := covered fname member t reads
      have bound := listed_le_maxTargetId listed
      obtain rfl : newest = t := by omega
      refine ⟨fun chosen same => ?_, ?_, fun none => absurd listed (none newest)⟩
      · obtain rfl := Except.ok.inj (isChosen.symm.trans same)
        refine ⟨listed, newest, rfl, fun other otherListed => ?_⟩
        have otherBound := listed_le_maxTargetId otherListed
        omega
      · rintro ⟨message, isError⟩
        rw [isChosen] at isError
        cases isError

/-- A name with a leading zero is listed, and one without it is chosen. -/
theorem not_choosesNewest_leadingZero :
    ¬ ∀ currentId listing, 0 ≤ currentId → ChoosesNewest currentId listing := by
  intro newest
  have listed := ((newest 0 ["myscm-img.0.01.tar.gz".toList] (by decide)).chosen
    "myscm-img.0.1.tar.gz".toList (by decide)).1
  revert listed
  decide

/-- Where the choice is an image that is listed, the transfer from a peer that answers ends with
its path. -/
theorem download_of_choosesNewest
    {connect : HostConnectionDetails → Except SftpFailure (List Str)} {currentId : Int}
    {downloadDir fname : Str} {hostDetails : HostConnectionDetails} {listing : List Str}
    (answers : connect hostDetails = .ok listing) (newest : ChoosesNewest currentId listing)
    (chosen : getNewestMyscmSysImgFname currentId listing = .ok fname) :
    download connect currentId downloadDir hostDetails = .ok (Str.joinPath downloadDir fname) := by
  unfold download
  rw [answers]
  dsimp only
  rw [chosen]
  exact if_pos (newest.chosen fname chosen).1

end SFTPSysImgDownloader

end Myscm.Client
