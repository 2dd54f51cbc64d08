import Mathlib.Logic.Basic

namespace Adlc.Autopilot

/-! ## Run records -/

/-- `STATES` -/
inductive RunState where
  | creating | clarify | shaped | dispatched | quotaPaused | built | attested | pushed | prOpen
  | ciWatch | oidMismatch | blocked | stale | ciRed | done | remotePending | remoteDeleted | orphan
  deriving DecidableEq

/-- Recovery's run-owned actions, `RESUME_ACTIONS`. -/
inductive ResumeAction where
  | resumeShaped | resumeDispatch | resumeAttest | upsertPr | evaluateCi
  deriving DecidableEq

/-- Where `continueRun` enters. -/
inductive ResumeEntry where
  | evidence | rounds | push | ci
  deriving DecidableEq

/-- `RESUME_ENTRY` -/
def ResumeAction.entry : ResumeAction → ResumeEntry
  | .resumeShaped => .evidence
  | .resumeDispatch => .rounds
  | .resumeAttest => .rounds
  | .upsertPr => .push
  | .evaluateCi => .ci

/-- The action recovery returns for a state, where the orchestrator owns it. -/
def RunState.resumeAction : RunState → Option ResumeAction
  | .shaped => some .resumeShaped
  | .dispatched => some .resumeDispatch
  | .quotaPaused => some .resumeDispatch
  | .built => some .resumeAttest
  | .attested => some .upsertPr
  | .pushed => some .upsertPr
  | .ciWatch => some .evaluateCi
  | _ => none

/-- `MAINTENANCE_STATES` -/
def RunState.maintained : RunState → Bool
  | .prOpen => true
  | .ciWatch => true
  | _ => false

/-- The states a run only comes to from an attested round. -/
def RunState.afterAttest : RunState → Bool
  | .attested => true
  | .pushed => true
  | .prOpen => true
  | .ciWatch => true
  | .done => true
  | _ => false

theorem RunState.afterAttest_of_maintained {state : RunState} (h : state.maintained = true) :
    state.afterAttest = true := by
  cases state <;> simp_all [maintained, afterAttest]

end Adlc.Autopilot
