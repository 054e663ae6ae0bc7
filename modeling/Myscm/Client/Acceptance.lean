import Myscm.Client.ReportMeaning
import Myscm.Client.SysImgValidator

/-!
Owns what is known of an image that validation accepts.

Owns: the value lists a report of an archive passes; that each of them was checked, in
the state validation left.

Does not own: what the checks say of the files.
-/

namespace Myscm.Client

open Myscm.Library Myscm.Server

/-- What a reading of complete lines passes of one of them. -/
theorem mem_meaning {host : Host} {n : Nat} {lines : List Str} {line : Str}
    (member : line ∈ lines) (completes : (meaning host n lines).2 = true) :
    ∃ passed, lineMeaning host n line = some passed ∧
      ∀ values ∈ passed, values ∈ (meaning host n lines).1 := by
  induction lines with
  | nil => cases member
  | cons first rest inductionHypothesis =>
      rw [meaning] at completes ⊢
      rcases result : lineMeaning host n first with _ | _ | values
      · simp [result] at completes
      · simp only [result] at completes ⊢
        rcases List.mem_cons.mp member with rfl | later
        · exact ⟨none, result, by simp⟩
        · exact inductionHypothesis later completes
      · simp only [result] at completes ⊢
        rcases List.mem_cons.mp member with rfl | later
        · exact ⟨some values, result, by simp⟩
        · obtain ⟨passed, read, inRest⟩ := inductionHypothesis later completes
          exact ⟨passed, read, fun other isPassed => List.mem_cons_of_mem _ (inRest other isPassed)⟩

namespace SysImgValidator

section

variable {forceApply : Bool} {imgName : Str} {env : ValidatorEnv} {archive : Archive}

/-- A report was read to its end, and each value list it passes was accepted. -/
structure Checked (imgName : Str) (env : ValidatorEnv) (archive : Archive) (path : Str)
    (valCount : Nat) (check : List Str → Except ClientError Unit) (entries : Nat) : Prop where
  bytes : ∃ bytes, archive.extractfile path = some bytes ∧
    (∃ lines, (readReport env.host valCount ⟨path, imgName⟩ 0 0 (binaryLines bytes)).2 =
      .ok (lines, entries)) ∧
    ∀ values ∈ (readReport env.host valCount ⟨path, imgName⟩ 0 0 (binaryLines bytes)).1,
      check values = .ok ()

theorem checked_of_ends {path : Str} {valCount : Nat} {fn : Fs → List Str → Except ClientError Unit}
    {fs finish : Fs} {counts : Nat × Nat}
    (ends : Prog.Ends (assertSummaryValid forceApply imgName env archive path valCount fn) fs counts
      finish) :
    finish = fs ∧ Checked imgName env archive path valCount (fn fs) counts.2 := by
  obtain ⟨_, middle, present, rest⟩ := (Prog.ends_andThen_iff _ _ _ _ _).mp ends
  obtain ⟨_, rfl⟩ := (Prog.ends_tryReads_iff _ _ _ _).mp present
  cases found : archive.extractfile path with
  | none =>
      rw [found] at rest
      exact absurd rest (Prog.not_ends_raise _ _ _ _)
  | some bytes =>
      rw [found] at rest
      dsimp only at rest
      rw [runFunForEachReportLine, reportLoop_eq] at rest
      obtain ⟨_, between, checks, last⟩ := (Prog.ends_andThen_iff _ _ _ _ _).mp rest
      obtain ⟨rfl, passed⟩ := (Prog.ends_forEach_tryReads_iff
        (fun call : List Str × Nat => fun fs => fn fs call.1) _ _ _).mp checks
      obtain ⟨ending, rfl⟩ := (Prog.ends_tryReads_iff _ _ _ _).mp last
      refine ⟨rfl, ⟨bytes, found, ⟨counts.1, ending⟩, ?_⟩⟩
      intro values member
      obtain ⟨calls, atCalls⟩ := List.mem_iff_getElem?.mp member
      exact passed (values, calls) (List.mk_mem_zipIdx_iff_getElem?.mpr atCalls)

/-- What an accepted image fulfils on the file system it is applied to. -/
structure Accepted (forceApply : Bool) (imgName : Str) (env : ValidatorEnv) (archive : Archive)
    (fs : Fs) (counts : ReportCounts) : Prop where
  added : Checked imgName env archive SystemImageGenerator.addedFilesFname 2
    (assertAddedLineValid forceApply imgName archive fs) counts.addedEntries
  changed : Checked imgName env archive SystemImageGenerator.changedFilesFname propertiesCount
    (assertChangedLineValid forceApply imgName env archive fs) counts.changedEntries
  removed : Checked imgName env archive SystemImageGenerator.removedFilesFname 2
    (fun _ => .ok ()) counts.removedEntries

theorem accepted_of_ends {fs finish : Fs} {counts : ReportCounts}
    (ends : Prog.Ends (assertSysImgValid forceApply imgName env archive) fs counts finish) :
    finish = fs ∧ Accepted forceApply imgName env archive fs counts := by
  have body := (Prog.ends_handle_raise_iff _ (fun _ => failedToValidate imgName) _ _ _).mp ends
  obtain ⟨added, first, addedEnds, behindAdded⟩ := (Prog.ends_andThen_iff _ _ _ _ _).mp body
  obtain ⟨changed, second, changedEnds, behindChanged⟩ :=
    (Prog.ends_andThen_iff _ _ _ _ _).mp behindAdded
  obtain ⟨removed, third, removedEnds, returned⟩ :=
    (Prog.ends_andThen_iff _ _ _ _ _).mp behindChanged
  obtain ⟨rfl, addedChecked⟩ := checked_of_ends addedEnds
  obtain ⟨rfl, changedChecked⟩ := checked_of_ends changedEnds
  obtain ⟨rfl, removedChecked⟩ := checked_of_ends removedEnds
  obtain ⟨rfl, rfl⟩ := (Prog.ends_ret_iff _ _ _ _).mp returned
  exact ⟨rfl, addedChecked, changedChecked, removedChecked⟩

/-- The lines of a report that was checked are read to the end, and what they mean was
accepted. -/
theorem Checked.of_encode {path : Str} {valCount entries : Nat}
    {check : List Str → Except ClientError Unit}
    (checked : Checked imgName env archive path valCount check entries) {text : Str}
    (holds : archive.extractfile path = some (Utf8.encode text)) :
    (meaning env.host valCount (splitLines '\n' text)).2 = true ∧
      ∀ values ∈ (meaning env.host valCount (splitLines '\n' text)).1, check values = .ok () := by
  obtain ⟨bytes, found, ⟨lines, ending⟩, accepted⟩ := checked.bytes
  rw [holds] at found
  obtain rfl := Option.some.inj found
  obtain ⟨passed, completes⟩ :=
    readReport_eq_meaning env.host valCount ⟨path, imgName⟩ 0 0 (splitLines '\n' text)
  rw [binaryLines, Utf8.splitLines_encode] at ending accepted
  rw [ending] at completes
  rw [passed] at accepted
  exact ⟨completes.symm, accepted⟩

end

end SysImgValidator

end Myscm.Client
