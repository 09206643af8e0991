import FlintZilla.Ftp.Logon

/-!
# The test of the resume capabilities

Before a large file is resumed, `TestResumeCapability` of `engine/ftp/filetransfer.cpp` may transfer
its last byte to find out whether the server can resume files of that size. `SubcommandResult` finds
the capability that was tested by comparing the size once more, in another way.

Main results:

* `outcome_eq_iff`, `resumeTest_writes_tested`: exactly when the capability that is written is the
  one that was tested.
-/

namespace FlintZilla

/-- `resume2GBbug` and `resume4GBbug`. -/
inductive ResumeBug where
  | gb2
  | gb4
deriving DecidableEq

/-- The size from which on the capability matters. -/
def ResumeBug.limit : ResumeBug → UInt64
  | .gb2 => 2147483648
  | .gb4 => 4294967296

def ResumeBug.unsupported : ResumeBug → String
  | .gb2 => "Server does not support resume of files > 2 GB."
  | .gb4 => "Server does not support resume of files > 4 GB."

inductive ResumeState where
  | resumetest
  | waitresumetest
  | transfer
deriving DecidableEq

/-- What `CFtpFileTransferOpData` reads and changes for the test. -/
structure ResumeTest where
  download : Bool
  localFileSize : UInt64
  remoteFileSize : Int64
  /-- `CServerCapabilities` for the server. -/
  capability : ResumeBug → Capabilities
  opState : ResumeState
  resumeOffset : Int64
  errors : List String
  /-- The capability for which the test was started, which the code does not keep. -/
  tested : Option ResumeBug

namespace ResumeTest

/-- The loop of `TestResumeCapability`. -/
def testLoop (o : ResumeTest) : List ResumeBug → Nat × ResumeTest
  | [] => (Reply.continue_, o)
  | bug :: bugs =>
    if o.localFileSize < bug.limit then o.testLoop bugs
    else match o.capability bug with
      | .yes =>
        if o.remoteFileSize.toUInt64 = o.localFileSize then (Reply.ok, o)
        else (Reply.criticalError, { o with errors := o.errors ++ [bug.unsupported] })
      | .unknown =>
        if o.remoteFileSize.toUInt64 < o.localFileSize then o.testLoop bugs
        else if o.remoteFileSize.toUInt64 = o.localFileSize then (Reply.ok, o)
        else (Reply.continue_, { o with
          opState := .waitresumetest, resumeOffset := o.remoteFileSize - 1, tested := some bug })
      | .no => o.testLoop bugs

def testResumeCapability (o : ResumeTest) : Nat × ResumeTest :=
  if !o.download then (Reply.continue_, o) else o.testLoop [.gb4, .gb2]

/-- `SetCapability`, for the size of the file. -/
def setCapability (o : ResumeTest) (cap : Capabilities) : ResumeTest :=
  let bug := if o.localFileSize > 4294967296 then .gb4 else .gb2
  { o with capability := Function.update o.capability bug cap }

/-- `SubcommandResult` after the test transfer; `failed` is `failed_resumetest` as the reason. -/
def subcommandResult (o : ResumeTest) (prevResult : Nat) (failed : Bool) : Nat × ResumeTest :=
  if prevResult ≠ Reply.ok then
    if failed then
      let o := o.setCapability .yes
      (prevResult ||| Reply.criticalError, { o with errors := o.errors ++
        [if o.localFileSize > 4294967296 then "Server does not support resume of files > 4GB."
          else "Server does not support resume of files > 2GB."] })
    else (prevResult, o)
  else (Reply.continue_, { o.setCapability .no with opState := .transfer })

variable {o : ResumeTest} {bug : ResumeBug}

/-- Where a test is started the size is kept, and the 4 GB test comes first. -/
theorem started (hnone : o.tested = none) (h : o.testResumeCapability.2.tested = some bug) :
    o.testResumeCapability.2.localFileSize = o.localFileSize ∧ o.capability bug = .unknown ∧
      (bug = .gb4 → ¬o.localFileSize < ResumeBug.gb4.limit) ∧
      (bug = .gb2 → o.localFileSize < ResumeBug.gb4.limit ∨ o.capability .gb4 = .no) := by
  unfold testResumeCapability testLoop testLoop testLoop at *
  grind

/-- The capabilities when the test transfer for `bug` has ended. -/
def outcome (capability : ResumeBug → Capabilities) (bug : ResumeBug) (prevResult : Nat)
    (failed : Bool) : ResumeBug → Capabilities :=
  if prevResult = Reply.ok then Function.update capability bug .no
  else if failed then Function.update capability bug .yes else capability

/-- The capability that `SubcommandResult` takes the test to have been for. -/
def takenFor (size : UInt64) : ResumeBug := if size > 4294967296 then .gb4 else .gb2

/-- What is written depends on the size that is compared the second time. -/
theorem subcommandResult_capability (o : ResumeTest) (prevResult : Nat) (failed : Bool) :
    (o.subcommandResult prevResult failed).2.capability =
      outcome o.capability (takenFor o.localFileSize) prevResult failed := by
  unfold subcommandResult outcome
  by_cases hok : prevResult = Reply.ok
  · rw [if_neg (not_not.mpr hok), if_pos hok]
    rfl
  · rw [if_pos hok, if_neg hok]
    cases failed <;> rfl

/-- A success tells the two tests apart. -/
theorem outcome_eq_iff {bug' : ResumeBug} :
    (∀ capability prevResult failed,
      outcome capability bug' prevResult failed = outcome capability bug prevResult failed) ↔
      bug' = bug := by
  refine ⟨fun h => ?_, fun h => by simp [h]⟩
  have hok := congrFun (h (fun _ => .unknown) Reply.ok false) bug
  by_contra hne
  simp [outcome, Function.update_of_ne (Ne.symm hne)] at hok

/-- The capability that a test is started for was unknown. That it is the one that is written,
whatever other connections have found out in the meantime, holds exactly unless the file has 4 GB to
the byte and the server was not tested for that, or it is larger and the server is known to resume
such files. -/
theorem resumeTest_writes_tested (hnone : o.tested = none)
    (h : o.testResumeCapability.2.tested = some bug) :
    o.capability bug = .unknown ∧
      ((∀ capability prevResult failed,
        ({ o.testResumeCapability.2 with capability := capability }.subcommandResult prevResult
          failed).2.capability = outcome capability bug prevResult failed) ↔
        ¬(o.localFileSize = 4294967296 ∧ o.capability .gb4 = .unknown) ∧
          ¬(o.localFileSize > 4294967296 ∧ o.capability .gb4 = .no)) := by
  obtain ⟨hsize, hunknown, hgb4, hgb2⟩ := started hnone h
  refine ⟨hunknown, ?_⟩
  simp only [subcommandResult_capability, hsize]
  rw [outcome_eq_iff, takenFor]
  -- the comparison of the loop against that of `SubcommandResult`
  cases bug <;> grind [ResumeBug.limit]

/-- Bytes of a file of 6 GB are there. -/
def partly (size : UInt64) (gb4 : Capabilities) : ResumeTest where
  download := true
  localFileSize := size
  remoteFileSize := 6442450944
  capability := fun bug => if bug = .gb4 then gb4 else .unknown
  opState := .resumetest
  resumeOffset := 0
  errors := []
  tested := none

theorem resumeTest_writes_tested_gb2 :
    ((partly 3221225472 .unknown).testResumeCapability.2.subcommandResult Reply.ok
      false).2.capability = Function.update (partly 3221225472 .unknown).capability .gb2 .no :=
  (resumeTest_writes_tested (o := partly 3221225472 .unknown) rfl rfl).2.mpr (by decide) _ Reply.ok
    false

/-- The 4 GB test of a file with exactly that size counts for the 2 GB one, and the other way round
for a larger file if the 4 GB test has succeeded before. -/
theorem resumeTest_writes_other :
    ((partly 4294967296 .unknown).testResumeCapability.2.tested = some .gb4 ∧
      ((partly 4294967296 .unknown).testResumeCapability.2.subcommandResult Reply.ok
        false).2.capability .gb4 = .unknown) ∧
    (partly 5368709120 .no).testResumeCapability.2.tested = some .gb2 ∧
      ((partly 5368709120 .no).testResumeCapability.2.subcommandResult Reply.ok
        false).2.capability .gb2 = .unknown := by
  decide

end ResumeTest

end FlintZilla
