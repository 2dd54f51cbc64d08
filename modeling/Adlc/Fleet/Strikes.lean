import Adlc.Framework.Transition
import Adlc.Fleet.Run

namespace Adlc.Fleet

open Adlc.Framework

/-! ## A run of `advanceTicket` -/

/-- What an awaited effect of `advanceTicket` gives. -/
inductive Settled where
  | preStrike (ok : Bool)
  | dispatch (build : Build)
  | flail (flail : Bool)
  | gate (result : GateResult)
  | prosecute (result : Prosecution)
  | merge (result : MergeResult)
  | threw

/-- The pipeline from an awaited effect to the next. -/
def Policy.after (policy : Policy) (effect : Await) (p : Progress) (settled : Settled)
    (clock : Clock) : Option Next :=
  match effect, settled with
  | .preStrike, .preStrike ok => some (policy.afterPreStrike ok (clock 0) p)
  | .dispatch, .dispatch build => some (policy.afterDispatch build clock p)
  | .flail, .flail flail => some (policy.afterFlail flail clock p)
  | .gate, .gate result => some (policy.afterGate result clock p)
  | .prosecute, .prosecute result => some (policy.afterProsecute result clock p)
  | .merge, .merge result => some (policy.afterMerge result clock p)
  | _, .threw => some (pipelineError p)
  | _, _ => none

/-- An effect settles, at a time that the clock need not tell, and the clock is read after it. -/
structure Settlement where
  settled : Settled
  completedAt : Int
  clock : Clock

/-- An effect that has been called and has settled. -/
structure Call where
  effect : Await
  settled : Settled
  completedAt : Int
  clock : Clock

/-- A run of `advanceTicket`, with the calls that have settled, the newest first. -/
structure Advance where
  next : Next
  calls : List Call

def Advance.start (policy : Policy) (startStrikes : Nat) (now : Int) : Advance :=
  ⟨policy.nextStrike now (.start startStrikes), []⟩

def Advance.step (policy : Policy) (a : Advance) (answer : Settlement) : Option Advance :=
  match a.next with
  | .awaits effect p =>
    (policy.after effect p answer.settled answer.clock).map fun next =>
      ⟨next, ⟨effect, answer.settled, answer.completedAt, answer.clock⟩ :: a.calls⟩
  | .returns _ => none

def Next.strikes : Next → Nat
  | .awaits _ p => p.strikes
  | .returns outcome => outcome.strikes

def Next.effect : Next → Option Await
  | .awaits effect _ => some effect
  | .returns _ => none

/-- The calls of `dispatch`, the one that is awaited among them. -/
def Advance.dispatches (a : Advance) : Nat :=
  (a.next.effect.toList ++ a.calls.map Call.effect).count .dispatch

/-- The prosecution returns one of its three verdicts. -/
def threeVerdicts (_ : Advance) (answer : Settlement) : Prop :=
  ∀ pros, answer.settled = .prosecute pros →
    pros.verdict = js "pass" ∨ pros.verdict = js "block" ∨ pros.verdict = js "unavailable"

instance (a : Advance) (answer : Settlement) : Decidable (threeVerdicts a answer) :=
  match h : answer.settled with
  | .prosecute pros =>
    decidable_of_iff (pros.verdict = js "pass" ∨ pros.verdict = js "block" ∨
        pros.verdict = js "unavailable") (by simp [threeVerdicts, h])
  | .preStrike _ | .dispatch _ | .flail _ | .gate _ | .merge _ | .threw =>
    .isTrue (by simp [threeVerdicts, h])

/-! ## In the run of a ticket -/

/-- The reply of an effect, as `advanceTicket` sees it. -/
def settledBy : Reply → Option Settled
  | .preStrike ok => some (.preStrike ok)
  | .build build => some (.dispatch build)
  | .flail flail => some (.flail flail)
  | .gate result => some (.gate result)
  | .prosecution result => some (.prosecute result)
  | .threw => some .threw
  | _ => none

/-- A ticket of the fleet awaits its effects as `advanceTicket` does. -/
theorem awaitStep_eq (cfg : RunConfig) (id : JsString) (s : Shared) {effect : Await} (p : Progress)
    (answer : EffectAnswer) (h : effect ≠ .merge) :
    awaitStep cfg id s effect p answer =
      ((settledBy answer.reply).bind fun settled =>
        cfg.policy.after effect p settled answer.clock).bind (s.next id) := by
  obtain ⟨reply, clock, saves⟩ := answer
  cases effect with
  | merge => exact absurd rfl h
  | _ => cases reply <;> rfl

/-! ## The strikes -/

variable {policy : Policy} {start n : Nat} {p : Progress} {now : Int} {clock : Clock}

/-- The number of a call of `dispatch`. -/
def Next.dispatching (next : Next) : Nat := if next.effect = some .dispatch then 1 else 0

/-- After `n` calls of `dispatch` every strike so far has been counted once. -/
def Counted (policy : Policy) (start n : Nat) : Next → Prop
  | .awaits .preStrike p => p.strikes = start + n ∧ p.strikes < policy.maxStrikes
  | .awaits _ p => p.strikes = start + n ∧ 0 < n ∧ p.strikes ≤ policy.maxStrikes
  | .returns outcome => start ≤ outcome.strikes ∧ outcome.strikes ≤ max start policy.maxStrikes ∧
      n ≤ policy.maxStrikes - start

/-- A strike is under way. -/
structure InStrike (policy : Policy) (start n : Nat) (p : Progress) : Prop where
  strikes : p.strikes = start + n
  begun : 0 < n
  bound : p.strikes ≤ policy.maxStrikes

theorem counted_nextStrike (hs : p.strikes = start + n) (hn : n ≤ policy.maxStrikes - start) :
    Counted policy start (n + (policy.nextStrike now p).dispatching) (policy.nextStrike now p) := by
  unfold Policy.nextStrike Policy.canRetry
  split_ifs with hretry hexpired hpre
  · have hlt : p.strikes < policy.maxStrikes := of_decide_eq_true hretry
    refine ⟨?_, ?_, hn⟩
    · show start ≤ p.strikes
      omega
    · show p.strikes ≤ _
      omega
  · exact ⟨hs, of_decide_eq_true hretry⟩
  · have hlt : p.strikes < policy.maxStrikes := of_decide_eq_true hretry
    refine ⟨?_, Nat.succ_pos n, hlt⟩
    show p.strikes + 1 = start + (n + 1)
    omega
  · refine ⟨?_, ?_, hn⟩
    · show start ≤ p.strikes
      omega
    · show p.strikes ≤ _
      omega

namespace InStrike

variable (h : InStrike policy start n p)

include h

theorem le : n ≤ policy.maxStrikes - start := by
  have hs := h.strikes
  have hb := h.bound
  omega

theorem counted_returns {outcome : Outcome}
    (ho : outcome.strikes = p.strikes ∨ outcome.strikes = p.strikes - 1) :
    Counted policy start n (.returns outcome) := by
  have hs := h.strikes
  have hpos := h.begun
  have hb := h.bound
  refine ⟨?_, ?_, h.le⟩ <;> omega

theorem counted_awaits {effect : Await} {q : Progress} (hq : q.strikes = p.strikes)
    (hne : effect ≠ .preStrike) : Counted policy start n (.awaits effect q) := by
  have hcounted : q.strikes = start + n ∧ 0 < n ∧ q.strikes ≤ policy.maxStrikes := by
    rw [hq]
    exact ⟨h.strikes, h.begun, h.bound⟩
  cases effect with
  | preStrike => exact absurd rfl hne
  | _ => exact hcounted

end InStrike

theorem counted_afterFailure (h : InStrike policy start n p) :
    Counted policy start (n + (policy.afterFailure now p).dispatching)
      (policy.afterFailure now p) := by
  unfold Policy.afterFailure
  split_ifs
  · exact h.counted_awaits rfl (by simp)
  · exact counted_nextStrike h.strikes h.le

theorem counted_afterPreStrike {ok : Bool} (hs : p.strikes = start + n)
    (hb : p.strikes < policy.maxStrikes) :
    Counted policy start (n + (policy.afterPreStrike ok now p).dispatching)
      (policy.afterPreStrike ok now p) := by
  have hpaused : ∀ code, Counted policy start n (paused p code) := by
    intro code
    refine ⟨?_, ?_, ?_⟩
    · show start ≤ p.strikes
      omega
    · show p.strikes ≤ _
      omega
    · omega
  unfold Policy.afterPreStrike
  split_ifs
  · exact hpaused _
  · refine ⟨?_, Nat.succ_pos n, hb⟩
    show p.strikes + 1 = start + (n + 1)
    omega
  · exact hpaused _

theorem counted_afterDispatch (h : InStrike policy start n p) (build : Build) :
    Counted policy start (n + (policy.afterDispatch build clock p).dispatching)
      (policy.afterDispatch build clock p) := by
  unfold Policy.afterDispatch
  split_ifs
  · exact h.counted_returns (.inr rfl)
  · exact h.counted_returns (.inl rfl)
  · exact h.counted_returns (.inl rfl)
  · exact h.counted_returns (.inr rfl)
  · exact h.counted_returns (.inl rfl)
  · exact h.counted_returns (.inl rfl)
  · exact counted_afterFailure h
  · exact h.counted_returns (.inr rfl)
  · exact h.counted_awaits rfl (by simp)

theorem counted_afterFlail (h : InStrike policy start n p) (flail : Bool) :
    Counted policy start (n + (policy.afterFlail flail clock p).dispatching)
      (policy.afterFlail flail clock p) := by
  unfold Policy.afterFlail
  split_ifs
  · exact h.counted_returns (.inl rfl)
  · exact h.counted_returns (.inl rfl)
  · exact counted_nextStrike h.strikes h.le

theorem counted_afterGate (h : InStrike policy start n p) (gate : GateResult) :
    Counted policy start (n + (policy.afterGate gate clock p).dispatching)
      (policy.afterGate gate clock p) := by
  unfold Policy.afterGate
  dsimp only
  split_ifs
  · exact h.counted_returns (.inr rfl)
  · exact h.counted_awaits rfl (by simp)
  · exact h.counted_returns (.inr rfl)
  · exact h.counted_returns (.inl rfl)
  · exact counted_afterFailure h

theorem counted_afterProsecute (h : InStrike policy start n p) (pros : Prosecution) :
    Counted policy start (n + (policy.afterProsecute pros clock p).dispatching)
      (policy.afterProsecute pros clock p) := by
  unfold Policy.afterProsecute
  dsimp only
  split_ifs
  · exact h.counted_returns (.inr rfl)
  · exact h.counted_returns (.inl rfl)
  · exact counted_nextStrike h.strikes h.le
  · exact h.counted_returns (.inl rfl)
  · exact h.counted_returns (.inr rfl)
  · exact h.counted_awaits rfl (by simp)

theorem counted_afterMerge (h : InStrike policy start n p) (merge : MergeResult) :
    Counted policy start (n + (policy.afterMerge merge clock p).dispatching)
      (policy.afterMerge merge clock p) := by
  unfold Policy.afterMerge
  split_ifs
  · exact h.counted_returns (.inr rfl)
  · exact counted_nextStrike h.strikes h.le
  · exact h.counted_returns (.inl rfl)
  all_goals exact h.counted_returns (.inl rfl)

/-- Whatever an effect gives, the strikes are counted on. -/
theorem counted_after {effect : Await} {settled : Settled} {next : Next}
    (h : Counted policy start n (.awaits effect p))
    (hnext : policy.after effect p settled clock = some next) :
    Counted policy start (n + next.dispatching) next := by
  have hthrew : settled = .threw → Counted policy start (n + next.dispatching) next := by
    rintro rfl
    have he : next = pipelineError p := by cases effect <;> exact (Option.some.inj hnext).symm
    subst he
    cases effect with
    | preStrike =>
      obtain ⟨hs, hb⟩ := h
      refine ⟨?_, ?_, ?_⟩
      · show start ≤ p.strikes
        omega
      · show p.strikes ≤ _
        omega
      · show n ≤ _
        omega
    | _ => exact (InStrike.mk h.1 h.2.1 h.2.2).counted_returns (.inl rfl)
  cases effect with
  | preStrike =>
    cases settled with
    | preStrike ok =>
      cases hnext
      exact counted_afterPreStrike h.1 h.2
    | threw => exact hthrew rfl
    | _ => cases hnext
  | dispatch =>
    cases settled with
    | dispatch build =>
      cases hnext
      exact counted_afterDispatch ⟨h.1, h.2.1, h.2.2⟩ build
    | threw => exact hthrew rfl
    | _ => cases hnext
  | flail =>
    cases settled with
    | flail flail =>
      cases hnext
      exact counted_afterFlail ⟨h.1, h.2.1, h.2.2⟩ flail
    | threw => exact hthrew rfl
    | _ => cases hnext
  | gate =>
    cases settled with
    | gate result =>
      cases hnext
      exact counted_afterGate ⟨h.1, h.2.1, h.2.2⟩ result
    | threw => exact hthrew rfl
    | _ => cases hnext
  | prosecute =>
    cases settled with
    | prosecute pros =>
      cases hnext
      exact counted_afterProsecute ⟨h.1, h.2.1, h.2.2⟩ pros
    | threw => exact hthrew rfl
    | _ => cases hnext
  | merge =>
    cases settled with
    | merge result =>
      cases hnext
      exact counted_afterMerge ⟨h.1, h.2.1, h.2.2⟩ result
    | threw => exact hthrew rfl
    | _ => cases hnext

/-! ## What is behind a merge -/

/-- The phases that nothing may begin past the deadline. -/
def Await.gated (effect : Await) : Prop := effect = .gate ∨ effect = .prosecute ∨ effect = .merge

theorem nextStrike_gated {effect : Await} {q : Progress}
    (h : policy.nextStrike now p = .awaits effect q) : ¬effect.gated := by
  unfold Policy.nextStrike at h
  split_ifs at h
  · cases h
  · cases h
    simp [Await.gated]
  · cases h
    simp [Await.gated]
  · cases h

theorem afterFailure_gated {effect : Await} {q : Progress}
    (h : policy.afterFailure now p = .awaits effect q) : ¬effect.gated := by
  unfold Policy.afterFailure at h
  split_ifs at h
  · cases h
    simp [Await.gated]
  · exact nextStrike_gated h

/-- Whether the first reading after an effect is before the deadline. -/
def Policy.inTime (policy : Policy) (clock : Clock) : Prop := ∃ i, policy.expired (clock i) = false

/-- How a gate, a prosecution or a merge is come to. -/
inductive Leads (policy : Policy) (clock : Clock) : Await → Settled → Await → Prop where
  | gate {build : Build} (now : policy.inTime clock) :
      Leads policy clock .dispatch (.dispatch build) .gate
  | prosecute {result : GateResult} (ok : result.ok = true) (now : policy.inTime clock) :
      Leads policy clock .gate (.gate result) .prosecute
  | merge {pros : Prosecution} (available : pros.verdict ≠ js "unavailable")
      (clear : pros.verdict ≠ js "block") (now : policy.inTime clock) :
      Leads policy clock .prosecute (.prosecute pros) .merge

theorem leads_of_after {effect effect' : Await} {settled : Settled} {q : Progress}
    (h : policy.after effect p settled clock = some (.awaits effect' q)) (hg : effect'.gated) :
    Leads policy clock effect settled effect' := by
  cases effect <;> cases settled <;>
    simp only [Policy.after, Option.some.injEq, reduceCtorEq] at h
  case preStrike.preStrike ok =>
    unfold Policy.afterPreStrike at h
    split_ifs at h <;> cases h
    simp [Await.gated] at hg
  case dispatch.dispatch build =>
    unfold Policy.afterDispatch at h
    split_ifs at h with _ _ _ _ _ _ _ hexpired
    all_goals first
      | exact absurd hg (afterFailure_gated h)
      | cases h
    exact .gate ⟨1, by simpa using hexpired⟩
  case flail.flail flail =>
    unfold Policy.afterFlail at h
    split_ifs at h
    all_goals first
      | exact absurd hg (nextStrike_gated h)
      | cases h
  case gate.gate result =>
    unfold Policy.afterGate at h
    dsimp only at h
    split_ifs at h with hok hexpired
    all_goals first
      | exact absurd hg (afterFailure_gated h)
      | cases h
    exact .prosecute hok ⟨0, by simpa using hexpired⟩
  case prosecute.prosecute pros =>
    unfold Policy.afterProsecute at h
    dsimp only at h
    split_ifs at h with havailable _ hblock _ hexpired
    all_goals first
      | exact absurd hg (nextStrike_gated h)
      | cases h
    exact .merge havailable hblock ⟨0, by simpa using hexpired⟩
  case merge.merge result =>
    unfold Policy.afterMerge at h
    split_ifs at h
    all_goals first
      | exact absurd hg (nextStrike_gated h)
      | cases h
  -- An effect that throws ends the run.
  all_goals cases h

theorem Leads.inTime {effect effect' : Await} {settled : Settled}
    (h : Leads policy clock effect settled effect') : policy.inTime clock := by
  cases h <;> assumption

/-- The calls behind a gate, a prosecution or a merge, all of them in one strike. -/
inductive Behind : Await → List Call → Prop where
  | gate {build : Build} {t : Int} {clock : Clock} {calls : List Call} :
      Behind .gate (⟨.dispatch, .dispatch build, t, clock⟩ :: calls)
  | prosecute {result : GateResult} {t : Int} {clock : Clock} {calls : List Call}
      (ok : result.ok = true) (before : Behind .gate calls) :
      Behind .prosecute (⟨.gate, .gate result, t, clock⟩ :: calls)
  | merge {pros : Prosecution} {t : Int} {clock : Clock} {calls : List Call}
      (pass : pros.verdict = js "pass") (before : Behind .prosecute calls) :
      Behind .merge (⟨.prosecute, .prosecute pros, t, clock⟩ :: calls)

theorem expired_of_le {t : Int} (h : policy.expired now = false) (hle : t ≤ now) :
    policy.expired t = false := by
  unfold Policy.expired at h ⊢
  cases hd : policy.deadline with
  | none => rfl
  | some d =>
    rw [hd] at h
    have hlt : ¬d ≤ now := by simpa using h
    have hlt' : ¬d ≤ t := by omega
    simpa using hlt'

/-- A reading of the clock after a call was before the deadline, and so was the call's end, unless
the clock was put back in between. -/
def Policy.completedInTime (policy : Policy) (call : Call) : Prop :=
  ∃ i, policy.expired (call.clock i) = false ∧
    (call.completedAt ≤ call.clock i → policy.expired call.completedAt = false)

/-- The policy of `advanceTicket`. -/
structure AdvancePolicy (policy : Policy) (startStrikes : Nat) (a : Advance) : Prop where
  merges : a.next.effect = some .merge → ∃ prosecute gate dispatch calls,
    a.calls = prosecute :: gate :: dispatch :: calls ∧ dispatch.effect = .dispatch ∧
    (gate.effect = .gate ∧ ∃ result, gate.settled = .gate result ∧ result.ok = true) ∧
    (prosecute.effect = .prosecute ∧
      ∃ pros, prosecute.settled = .prosecute pros ∧ pros.verdict = js "pass")
  strikes : startStrikes ≤ a.next.strikes ∧ a.next.strikes ≤ max startStrikes policy.maxStrikes
  dispatches : a.dispatches ≤ policy.maxStrikes - startStrikes
  deadline : ∀ effect, a.next.effect = some effect → effect.gated → ∃ call calls,
    a.calls = call :: calls ∧ policy.completedInTime call

/-- What every state of `advanceTicket` keeps. -/
structure Advancing (policy : Policy) (startStrikes : Nat) (a : Advance) : Prop where
  counted : Counted policy startStrikes a.dispatches a.next
  behind : ∀ effect, a.next.effect = some effect → effect.gated → Behind effect a.calls
  deadline : ∀ effect, a.next.effect = some effect → effect.gated → ∃ call calls,
    a.calls = call :: calls ∧ policy.completedInTime call

theorem next_eq_awaits {next : Next} {effect : Await} (h : next.effect = some effect) :
    ∃ p, next = .awaits effect p := by
  cases next with
  | awaits effect' p =>
    cases h
    exact ⟨p, rfl⟩
  | returns => cases h

theorem dispatches_mk (next : Next) (calls : List Call) :
    (Advance.mk next calls).dispatches =
      (calls.map Call.effect).count .dispatch + next.dispatching := by
  unfold Advance.dispatches Next.dispatching
  rw [List.count_append, Nat.add_comm]
  congr 1
  cases he : next.effect with
  | none => rfl
  | some effect => cases effect <;> rfl

theorem advancing_start (policy : Policy) (startStrikes : Nat) (now : Int) :
    Advancing policy startStrikes (.start policy startStrikes now) := by
  have hgated : ∀ effect, (policy.nextStrike now (.start startStrikes)).effect = some effect →
      ¬effect.gated := by
    intro effect he
    obtain ⟨p, hp⟩ := next_eq_awaits he
    exact nextStrike_gated hp
  refine ⟨?_, fun effect he hg => absurd hg (hgated effect he),
    fun effect he hg => absurd hg (hgated effect he)⟩
  rw [Advance.start, dispatches_mk]
  exact counted_nextStrike rfl (Nat.zero_le _)

theorem Advancing.step {startStrikes : Nat} {a a' : Advance} (h : Advancing policy startStrikes a)
    {answer : Settlement} (hverdict : threeVerdicts a answer) (hstep : a.step policy answer = some a') :
    Advancing policy startStrikes a' := by
  obtain ⟨next, calls⟩ := a
  cases next with
  | returns => cases hstep
  | awaits effect p =>
    obtain ⟨next, hafter, rfl⟩ := Option.map_eq_some_iff.1 hstep
    refine ⟨?_, ?_, ?_⟩
    · have hcounted := counted_after h.counted hafter
      rw [dispatches_mk] at hcounted ⊢
      rw [List.map_cons]
      cases effect <;> simpa [Next.dispatching, Next.effect] using hcounted
    · intro effect' he hg
      obtain ⟨q, rfl⟩ := next_eq_awaits he
      have hleads := leads_of_after hafter hg
      have hbefore := h.behind effect rfl
      have hthree : ∀ pros, answer.settled = .prosecute pros →
          pros.verdict = js "pass" ∨ pros.verdict = js "block" ∨
            pros.verdict = js "unavailable" := hverdict
      generalize answer.settled = settled at hleads hthree
      cases hleads with
      | gate => exact .gate
      | prosecute ok => exact .prosecute ok (hbefore (.inl rfl))
      | merge available clear =>
        rcases hthree _ rfl with hpass | hblock | hunavailable
        · exact .merge hpass (hbefore (.inr (.inl rfl)))
        · exact absurd hblock clear
        · exact absurd hunavailable available
    · intro effect' he hg
      obtain ⟨q, rfl⟩ := next_eq_awaits he
      obtain ⟨i, hi⟩ := (leads_of_after hafter hg).inTime
      exact ⟨_, _, rfl, i, hi, expired_of_le hi⟩

theorem Advancing.keepsPolicy {startStrikes : Nat} {a : Advance}
    (h : Advancing policy startStrikes a) : AdvancePolicy policy startStrikes a := by
  refine ⟨?_, ?_, ?_, h.deadline⟩
  · intro he
    have hbehind := h.behind .merge he (.inr (.inr rfl))
    generalize a.calls = calls at hbehind
    cases hbehind with
    | merge pass before =>
      cases before with
      | prosecute ok before =>
        cases before
        exact ⟨_, _, _, _, rfl, rfl, ⟨rfl, _, rfl, ok⟩, rfl, _, rfl, pass⟩
  · have hcounted := h.counted
    cases hnext : a.next with
    | returns outcome =>
      rw [hnext] at hcounted
      exact ⟨hcounted.1, hcounted.2.1⟩
    | awaits effect p =>
      rw [hnext] at hcounted
      have hs : p.strikes = startStrikes + a.dispatches ∧ p.strikes ≤ policy.maxStrikes := by
        cases effect with
        | preStrike => exact ⟨hcounted.1, hcounted.2.le⟩
        | _ => exact ⟨hcounted.1, hcounted.2.2⟩
      show startStrikes ≤ p.strikes ∧ p.strikes ≤ _
      omega
  · have hcounted := h.counted
    cases hnext : a.next with
    | returns outcome =>
      rw [hnext] at hcounted
      exact hcounted.2.2
    | awaits effect p =>
      rw [hnext] at hcounted
      have hs : p.strikes = startStrikes + a.dispatches ∧ p.strikes ≤ policy.maxStrikes := by
        cases effect with
        | preStrike => exact ⟨hcounted.1, hcounted.2.le⟩
        | _ => exact ⟨hcounted.1, hcounted.2.2⟩
      omega

/-- Every run of `advanceTicket` keeps to the policy. -/
theorem advanceTicket_policy {startStrikes : Nat} {a : Advance}
    (h : Reaches (Advance.step policy) threeVerdicts (.start policy startStrikes now) a) :
    AdvancePolicy policy startStrikes a := by
  apply Advancing.keepsPolicy
  apply h.invariant (Advancing policy startStrikes)
  · exact advancing_start policy startStrikes now
  · intro a answer a' ha hverdict hstep
    exact ha.step hverdict hstep

def twoStrikes : Policy := ⟨2, some 10, false⟩

def cleanStrike : List Settlement :=
  [⟨.dispatch ⟨some 0, false, false, false, false, false⟩, 1, fun _ => 2⟩,
    ⟨.gate ⟨true, false⟩, 3, fun _ => 4⟩, ⟨.prosecute ⟨js "pass", false⟩, 5, fun _ => 6⟩]

theorem advanceTicket_policy_merge :
    ∃ a, a.next.effect = some .merge ∧ AdvancePolicy twoStrikes 0 a := by
  have hplay : (play (Advance.step twoStrikes) threeVerdicts (.start twoStrikes 0 0)
      cleanStrike).any (fun a => decide (a.next.effect = some .merge)) = true := by decide +kernel
  obtain ⟨a, hrun, ha⟩ := exists_reaches_of_play hplay
  exact ⟨a, of_decide_eq_true ha, advanceTicket_policy hrun⟩

/-- A ticket that comes with more strikes than there are is past the cap before anything is called. -/
theorem strikes_past_cap : ¬∀ (policy : Policy) (startStrikes : Nat) (now : Int) (a : Advance),
    Reaches (Advance.step policy) threeVerdicts (.start policy startStrikes now) a →
      a.next.strikes ≤ policy.maxStrikes ∧
      (a.dispatches : Int) ≤ (policy.maxStrikes : Int) - (startStrikes : Int) := by
  intro h
  have hstart := h twoStrikes 3 0 _ .start
  exact absurd hstart (by decide)

end Adlc.Fleet
