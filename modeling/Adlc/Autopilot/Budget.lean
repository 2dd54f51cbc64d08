import Adlc.Autopilot.Records
import Adlc.Framework.Transition
import Mathlib.Order.Basic

namespace Adlc.Autopilot

open Adlc.Framework

/-! ## The build budget -/

structure BuildConfig where
  maxRounds : Nat
  wallClockMinutes : Nat

/-- The fields of a run record that the budget is kept in. -/
structure BuildRecord where
  state : RunState
  roundsUsed : Nat
  wallClockUsedMs : Nat
  roundStartedAt : Option Nat

structure RoundBudget where
  strikes : Nat
  wallClockMinutes : Nat
  wallClockMs : Nat

/-- `newRecord(…)` -/
def BuildRecord.fresh : BuildRecord := ⟨.creating, 0, 0, none⟩

/-- The time of a round still marked in flight. -/
def BuildRecord.inFlight (record : BuildRecord) (now : Nat) : Nat :=
  match record.roundStartedAt with
  | some started => now - started
  | none => 0

/-- `remainingBudget(record, config, now)` -/
def remainingBudget (record : BuildRecord) (config : BuildConfig) (now : Nat) : RoundBudget :=
  let wallClockMs := config.wallClockMinutes * 60000 - record.wallClockUsedMs - record.inFlight now
  ⟨config.maxRounds - record.roundsUsed, wallClockMs / 60000, wallClockMs⟩

/-! ## One round -/

/-- Which of its callers a round has: the build loop, the watch of the checks, maintenance. -/
inductive RoundKind where
  | build | ciFix | conflict
  deriving DecidableEq

/-- The record before the dispatch: only a build round is booked, with the time of an abandoned one. -/
def BuildRecord.book (kind : RoundKind) (rec : BuildRecord) (started : Nat) : BuildRecord :=
  match kind with
  | .build => ⟨.dispatched, rec.roundsUsed + 1, rec.wallClockUsedMs + rec.inFlight started, some started⟩
  | _ => { rec with state := .dispatched }

/-- `Math.max(1, Number(strikesConsumed) || 1)` -/
def strikesCharged (reported : Option Nat) : Nat := max 1 (reported.getD 1)

/-- The record after the dispatch, from the copy that was read before it. -/
def BuildRecord.settle (kind : RoundKind) (rec : BuildRecord) (started now : Nat)
    (reported : Option Nat) : BuildRecord :=
  match kind with
  | .build => ⟨.dispatched, rec.roundsUsed + strikesCharged reported,
      rec.wallClockUsedMs + rec.inFlight started + (now - started), none⟩
  | _ => { rec with state := .dispatched, roundStartedAt := none }

/-! ## Runs -/

inductive RoundPhase where
  | idle
  /-- A round has read the record and has not dispatched yet. -/
  | begun (kind : RoundKind) (budget : RoundBudget) (rec : BuildRecord)
  /-- The strikes the dispatch has consumed so far come last. -/
  | dispatching (kind : RoundKind) (budget : RoundBudget) (rec : BuildRecord) (started spent : Nat)
  /-- The dispatch has returned and is charged. -/
  | settled

/-- The clock, the record and the process; then the strikes consumed by the dispatches that charge
`roundsUsed`, and the time taken by the build dispatches. -/
structure BudgetWorld where
  now : Nat
  record : Option BuildRecord
  phase : RoundPhase
  consumed : Nat
  taken : Nat

def BudgetWorld.start (now : Nat) : BudgetWorld := ⟨now, some .fresh, .idle, 0, 0⟩

inductive BudgetEvent where
  | tick (ms : Nat)
  /-- The head of the build loop. -/
  | enters
  /-- `runFixRound(…)` of the watch. -/
  | fixes (strikes wallClockMinutes : Nat)
  /-- `conflictRound(…)` of maintenance. -/
  | resolves (wallClockMinutes : Nat)
  | books
  | strikes
  | returns (reported : Option Nat)
  | writes (state : RunState)
  /-- The process gives the run back, or ends. -/
  | leaves
  | crash
  | vanishes
  | rearms
  deriving DecidableEq

/-- The process is before a round of the build loop: resumed there, or told to retry. -/
def RoundPhase.atLoop (phase : RoundPhase) (state : RunState) : Bool :=
  match phase with
  | .idle => state.resumeAction.any fun a => a.entry == .evidence || a.entry == .rounds
  | .settled => true
  | _ => false

/-- The head of the loop: a spent budget blocks the run. -/
def enterLoop (config : BuildConfig) (w : BudgetWorld) (record : BuildRecord) : BudgetWorld :=
  let budget := remainingBudget record config w.now
  if budget.strikes = 0 ∨ budget.wallClockMinutes = 0 then
    { w with record := some { record with state := .blocked }, phase := .idle }
  else { w with phase := .begun .build budget record }

/-- A state may be written that follows the one there. -/
def writable (phase : RoundPhase) (record : BuildRecord) (state : RunState) : Bool :=
  match phase with
  | .idle => !state.afterAttest || record.state.afterAttest
  | .settled => true
  | _ => false

def BudgetWorld.step (config : BuildConfig) (w : BudgetWorld) : BudgetEvent → Option BudgetWorld
  | .tick ms =>
    let running := match w.phase with
      | .dispatching .build _ _ _ _ => ms
      | _ => 0
    some { w with now := w.now + ms, taken := w.taken + running }
  | .enters => w.record.bind fun record =>
    if w.phase.atLoop record.state then some (enterLoop config w record) else none
  | .fixes strikes wallClockMinutes => match w.phase, w.record with
    | .idle, some record =>
      if record.state = .ciWatch then
        some { w with phase := .begun .ciFix ⟨strikes, wallClockMinutes, wallClockMinutes * 60000⟩ record }
      else none
    | _, _ => none
  | .resolves wallClockMinutes => match w.phase, w.record with
    | .idle, some record =>
      if record.state.maintained ∧ record.roundsUsed < config.maxRounds then
        let charged := { record with roundsUsed := record.roundsUsed + 1 }
        some { w with
          record := some charged
          phase := .begun .conflict ⟨1, wallClockMinutes, wallClockMinutes * 60000⟩ charged }
      else none
    | _, _ => none
  | .books => match w.phase, w.record with
    | .begun kind budget rec, some _ => some { w with
        record := some (rec.book kind w.now)
        phase := .dispatching kind budget rec w.now 0 }
    | .begun _ _ _, none => some { w with phase := .idle }
    | _, _ => none
  | .strikes => match w.phase with
    | .dispatching kind budget rec started spent =>
      if spent < budget.strikes then
        some { w with
          phase := .dispatching kind budget rec started (spent + 1)
          consumed := if kind = .ciFix then w.consumed else w.consumed + 1 }
      else none
    | _ => none
  | .returns reported => match w.phase, w.record with
    | .dispatching kind _ rec started _, some _ => some { w with
        record := some (rec.settle kind started w.now reported)
        phase := .settled }
    | .dispatching _ _ _ _ _, none => some { w with phase := .idle }
    | _, _ => none
  | .writes state => w.record.bind fun record =>
    if writable w.phase record state then
      some { w with record := some { record with state := state } }
    else none
  | .leaves => match w.phase with
    | .begun _ _ _ => some { w with phase := .idle }
    | .settled => some { w with phase := .idle }
    | _ => none
  | .crash => some { w with phase := .idle }
  | .vanishes => some { w with record := none }
  | .rearms => match w.phase, w.record with
    | .idle, some record => some { w with
        record := some { record with state := .prOpen, roundsUsed := 0, wallClockUsedMs := 0 } }
    | _, _ => none

/-! ## The clock -/

/-- What the record holds, from the copy that the round has read. -/
def RoundPhase.Holds (phase : RoundPhase) (now : Nat) (record : BuildRecord) : Prop :=
  match phase with
  | .idle => True
  | .settled => record.roundStartedAt = none
  | .begun kind _ rec => record = rec ∧ (kind ≠ .build → rec.roundStartedAt = none)
  | .dispatching kind _ rec started _ =>
    record = rec.book kind started ∧ started ≤ now ∧ (kind ≠ .build → rec.roundStartedAt = none)

structure Clocked (w : BudgetWorld) : Prop where
  holds : ∀ record, w.record = some record → w.phase.Holds w.now record
  ended : ∀ record, w.record = some record → record.state.afterAttest = true →
    record.roundStartedAt = none
  covered : ∀ record, w.record = some record →
    w.taken ≤ record.wallClockUsedMs + record.inFlight w.now

theorem inFlight_mono (record : BuildRecord) {now later : Nat} (h : now ≤ later) :
    record.inFlight now ≤ record.inFlight later := by
  unfold BuildRecord.inFlight
  cases record.roundStartedAt with
  | none => exact Nat.le_refl 0
  | some started => exact Nat.sub_le_sub_right h started

theorem inFlight_none {record : BuildRecord} (h : record.roundStartedAt = none) (now : Nat) :
    record.inFlight now = 0 := by
  simp [BuildRecord.inFlight, h]

theorem clocked_start (now : Nat) : Clocked (.start now) where
  holds _ _ := trivial
  ended record h _ := by
    cases h
    rfl
  covered record h := Nat.zero_le _

theorem RoundPhase.Holds.later {phase : RoundPhase} {now later : Nat} {record : BuildRecord}
    (h : phase.Holds now record) (hle : now ≤ later) : phase.Holds later record := by
  cases phase with
  | dispatching => exact ⟨h.1, Nat.le_trans h.2.1 hle, h.2.2⟩
  | _ => exact h

/-- A running build dispatch is in flight in the record since it started. -/
theorem book_inFlight_tick (rec : BuildRecord) {started now : Nat} (ms : Nat) (h : started ≤ now) :
    (rec.book .build started).inFlight (now + ms) = (rec.book .build started).inFlight now + ms := by
  simp only [BuildRecord.book, BuildRecord.inFlight]
  omega

theorem clocked_tick {config : BuildConfig} {w v : BudgetWorld} (ms : Nat) (hw : Clocked w)
    (h : w.step config (.tick ms) = some v) : Clocked v := by
  cases h
  refine ⟨fun record hr => (hw.holds record hr).later (Nat.le_add_right _ _),
    fun record hr hs => hw.ended record hr hs, fun record hr => ?_⟩
  have hr' : w.record = some record := hr
  have hcov := hw.covered record hr'
  have hmono := inFlight_mono record (Nat.le_add_right w.now ms)
  have hholds := hw.holds record hr'
  cases hp : w.phase with
  | dispatching kind budget rec started spent =>
    rw [hp] at hholds
    cases kind with
    | build =>
      have hbook : record = rec.book .build started := hholds.1
      subst hbook
      have htick := book_inFlight_tick rec ms hholds.2.1
      simp only
      omega
    | _ =>
      simp only
      omega
  | _ =>
    simp only
    omega

theorem clocked_enters {config : BuildConfig} {w v : BudgetWorld} (hw : Clocked w)
    (h : w.step config .enters = some v) : Clocked v := by
  obtain ⟨record, hr, h⟩ := Option.bind_eq_some_iff.1 h
  split_ifs at h with hloop
  cases h
  dsimp only [enterLoop]
  split_ifs with hspent
  · refine ⟨fun _ _ => trivial, fun rec hrec hs => ?_, fun rec hrec => ?_⟩
    · cases hrec
      cases hs
    · cases hrec
      exact hw.covered record hr
  · refine ⟨fun rec hrec => ?_, hw.ended, hw.covered⟩
    have heq : record = rec := Option.some.inj (hr.symm.trans hrec)
    exact ⟨heq.symm, fun hkind => absurd rfl hkind⟩

theorem clocked_fixes {config : BuildConfig} {w v : BudgetWorld} {strikes minutes : Nat}
    (hw : Clocked w) (h : w.step config (.fixes strikes minutes) = some v) : Clocked v := by
  simp only [BudgetWorld.step] at h
  split at h
  next record hphase hr =>
    split_ifs at h with hstate
    cases h
    refine ⟨fun rec hrec => ?_, hw.ended, hw.covered⟩
    have heq : record = rec := Option.some.inj (hr.symm.trans hrec)
    subst heq
    have hafter : record.state.afterAttest = true := by rw [hstate]; rfl
    exact ⟨rfl, fun _ => hw.ended record hr hafter⟩
  next => cases h

theorem clocked_resolves {config : BuildConfig} {w v : BudgetWorld} {minutes : Nat}
    (hw : Clocked w) (h : w.step config (.resolves minutes) = some v) : Clocked v := by
  simp only [BudgetWorld.step] at h
  split at h
  next record hphase hr =>
    split_ifs at h with hstate
    cases h
    have hnone := hw.ended record hr (RunState.afterAttest_of_maintained hstate.1)
    refine ⟨fun rec hrec => ?_, fun rec hrec _ => ?_, fun rec hrec => ?_⟩
    · cases hrec
      exact ⟨rfl, fun _ => hnone⟩
    · cases hrec
      exact hnone
    · cases hrec
      exact hw.covered record hr
  next => cases h

/-- Booking keeps the recorded time of what was in flight. -/
theorem covered_book (rec : BuildRecord) (kind : RoundKind) (now : Nat) :
    (rec.book kind now).wallClockUsedMs + (rec.book kind now).inFlight now =
      rec.wallClockUsedMs + rec.inFlight now := by
  cases kind with
  | build => simp [BuildRecord.book, BuildRecord.inFlight]
  | _ => rfl

theorem clocked_books {config : BuildConfig} {w v : BudgetWorld} (hw : Clocked w)
    (h : w.step config .books = some v) : Clocked v := by
  simp only [BudgetWorld.step] at h
  split at h
  next kind budget rec record hphase hr =>
    cases h
    have hholds := hw.holds record hr
    rw [hphase] at hholds
    have heq : record = rec := hholds.1
    subst heq
    refine ⟨fun r hrec => ?_, fun r hrec hs => ?_, fun r hrec => ?_⟩
    · cases hrec
      exact ⟨rfl, Nat.le_refl _, hholds.2⟩
    · cases hrec
      cases kind <;> cases hs
    · cases hrec
      have hcov := hw.covered record hr
      have hbook := covered_book record kind w.now
      simp only
      omega
  next hphase hr =>
    cases h
    refine ⟨fun r hrec => ?_, fun r hrec => ?_, fun r hrec => ?_⟩ <;>
    · rw [hr] at hrec
      cases hrec
  next => cases h

theorem clocked_strikes {config : BuildConfig} {w v : BudgetWorld} (hw : Clocked w)
    (h : w.step config .strikes = some v) : Clocked v := by
  simp only [BudgetWorld.step] at h
  split at h
  next kind budget rec started spent hphase =>
    split_ifs at h with hlt <;>
    · cases h
      refine ⟨fun r hrec => ?_, hw.ended, hw.covered⟩
      have hholds := hw.holds r hrec
      rw [hphase] at hholds
      exact hholds
  next => cases h

theorem clocked_returns {config : BuildConfig} {w v : BudgetWorld} {reported : Option Nat}
    (hw : Clocked w) (h : w.step config (.returns reported) = some v) : Clocked v := by
  simp only [BudgetWorld.step] at h
  split at h
  next kind budget rec started spent record hphase hr =>
    cases h
    have hholds := hw.holds record hr
    rw [hphase] at hholds
    have hcov := hw.covered record hr
    refine ⟨fun r hrec => ?_, fun r hrec _ => ?_, fun r hrec => ?_⟩
    · cases hrec
      cases kind <;> rfl
    · cases hrec
      cases kind <;> rfl
    · cases hrec
      cases kind with
      | build =>
        rw [hholds.1] at hcov
        exact hcov
      | ciFix =>
        have hnone : record.roundStartedAt = none := by
          rw [hholds.1]
          exact hholds.2.2 (by decide)
        rw [inFlight_none hnone, hholds.1] at hcov
        exact hcov
      | conflict =>
        have hnone : record.roundStartedAt = none := by
          rw [hholds.1]
          exact hholds.2.2 (by decide)
        rw [inFlight_none hnone, hholds.1] at hcov
        exact hcov
  next hphase hr =>
    cases h
    refine ⟨fun r hrec => ?_, fun r hrec => ?_, fun r hrec => ?_⟩ <;>
    · rw [hr] at hrec
      cases hrec
  next => cases h

theorem clocked_writes {config : BuildConfig} {w v : BudgetWorld} {state : RunState}
    (hw : Clocked w) (h : w.step config (.writes state) = some v) : Clocked v := by
  obtain ⟨record, hr, h⟩ := Option.bind_eq_some_iff.1 h
  split_ifs at h with hwritable
  cases h
  have hholds := hw.holds record hr
  refine ⟨fun r hrec => ?_, fun r hrec hs => ?_, fun r hrec => ?_⟩
  · cases hrec
    cases hp : w.phase with
    | idle => trivial
    | settled =>
      rw [hp] at hholds
      exact hholds
    | _ =>
      rw [hp] at hwritable
      cases hwritable
  · cases hrec
    cases hp : w.phase with
    | idle =>
      have hafter : record.state.afterAttest = true := by
        rw [hp] at hwritable
        simp only at hs
        simpa [writable, hs] using hwritable
      exact hw.ended record hr hafter
    | settled =>
      rw [hp] at hholds
      exact hholds
    | _ =>
      rw [hp] at hwritable
      cases hwritable
  · cases hrec
    exact hw.covered record hr

theorem clocked_idle {w : BudgetWorld} (hw : Clocked w) : Clocked { w with phase := .idle } where
  holds _ _ := trivial
  ended := hw.ended
  covered := hw.covered

/-- A round adds to the record, and never loses the time of one in flight. -/
theorem clocked_step {config : BuildConfig} {w v : BudgetWorld} {e : BudgetEvent} (hw : Clocked w)
    (ok : e ≠ .rearms) (h : w.step config e = some v) : Clocked v := by
  cases e with
  | tick ms => exact clocked_tick ms hw h
  | enters => exact clocked_enters hw h
  | fixes => exact clocked_fixes hw h
  | resolves => exact clocked_resolves hw h
  | books => exact clocked_books hw h
  | strikes => exact clocked_strikes hw h
  | returns => exact clocked_returns hw h
  | writes => exact clocked_writes hw h
  | leaves =>
    simp only [BudgetWorld.step] at h
    split at h <;> cases h <;> exact clocked_idle hw
  | crash =>
    cases h
    exact clocked_idle hw
  | vanishes =>
    cases h
    exact ⟨fun _ hr => (by cases hr), fun _ hr => (by cases hr), fun _ hr => (by cases hr)⟩
  | rearms => exact absurd rfl ok

/-! ## The counters -/

/-- The record is still the run's, and none of its counters has gone down. -/
def Grows (w v : BudgetWorld) : Prop :=
  ∀ later, v.record = some later → ∃ record, w.record = some record ∧
    record.roundsUsed ≤ later.roundsUsed ∧ record.wallClockUsedMs ≤ later.wallClockUsedMs

theorem Grows.refl (w : BudgetWorld) : Grows w w :=
  fun later h => ⟨later, h, Nat.le_refl _, Nat.le_refl _⟩

theorem Grows.trans {w v u : BudgetWorld} (h : Grows w v) (h' : Grows v u) : Grows w u := by
  intro last hlast
  obtain ⟨later, hlater, hrounds, hclock⟩ := h' last hlast
  obtain ⟨record, hr, hrounds', hclock'⟩ := h later hlater
  exact ⟨record, hr, Nat.le_trans hrounds' hrounds, Nat.le_trans hclock' hclock⟩

theorem grows_of_record {w v : BudgetWorld} (h : v.record = w.record) : Grows w v := by
  intro later hlater
  exact ⟨later, h ▸ hlater, Nat.le_refl _, Nat.le_refl _⟩

theorem grows_of_some {w v : BudgetWorld} {record : BuildRecord} {next : BuildRecord}
    (hr : w.record = some record) (hv : v.record = some next)
    (hrounds : record.roundsUsed ≤ next.roundsUsed)
    (hclock : record.wallClockUsedMs ≤ next.wallClockUsedMs) : Grows w v := by
  intro later hlater
  have heq : next = later := Option.some.inj (hv.symm.trans hlater)
  exact ⟨record, hr, heq ▸ hrounds, heq ▸ hclock⟩

theorem grows_none {w v : BudgetWorld} (h : v.record = none) : Grows w v := by
  intro later hlater
  rw [h] at hlater
  cases hlater

theorem le_book (rec : BuildRecord) (kind : RoundKind) (now : Nat) :
    rec.roundsUsed ≤ (rec.book kind now).roundsUsed ∧
      rec.wallClockUsedMs ≤ (rec.book kind now).wallClockUsedMs := by
  cases kind with
  | build => exact ⟨Nat.le_succ _, Nat.le_add_right _ _⟩
  | _ => exact ⟨Nat.le_refl _, Nat.le_refl _⟩

theorem one_le_strikesCharged (reported : Option Nat) : 1 ≤ strikesCharged reported :=
  Nat.le_max_left _ _

/-- The settlement replaces a charge that it is never below. -/
theorem book_le_settle (rec : BuildRecord) (kind : RoundKind) (started now : Nat)
    (reported : Option Nat) :
    (rec.book kind started).roundsUsed ≤ (rec.settle kind started now reported).roundsUsed ∧
      (rec.book kind started).wallClockUsedMs ≤
        (rec.settle kind started now reported).wallClockUsedMs := by
  cases kind with
  | build =>
    have hcharged := one_le_strikesCharged reported
    exact ⟨Nat.add_le_add_left hcharged _, Nat.le_add_right _ _⟩
  | _ => exact ⟨Nat.le_refl _, Nat.le_refl _⟩

theorem grows_step {config : BuildConfig} {w v : BudgetWorld} {e : BudgetEvent} (hw : Clocked w)
    (ok : e ≠ .rearms) (h : w.step config e = some v) : Grows w v := by
  cases e with
  | tick ms =>
    cases h
    exact grows_of_record rfl
  | enters =>
    obtain ⟨record, hr, h⟩ := Option.bind_eq_some_iff.1 h
    split_ifs at h with hloop
    cases h
    dsimp only [enterLoop]
    split_ifs with hspent
    · exact grows_of_some hr rfl (Nat.le_refl _) (Nat.le_refl _)
    · exact grows_of_record rfl
  | fixes =>
    simp only [BudgetWorld.step] at h
    split at h
    next =>
      split_ifs at h
      cases h
      exact grows_of_record rfl
    next => cases h
  | resolves =>
    simp only [BudgetWorld.step] at h
    split at h
    next record _ hr =>
      split_ifs at h
      cases h
      exact grows_of_some hr rfl (Nat.le_succ _) (Nat.le_refl _)
    next => cases h
  | books =>
    simp only [BudgetWorld.step] at h
    split at h
    next kind budget rec record hphase hr =>
      cases h
      have hholds := hw.holds record hr
      rw [hphase] at hholds
      have hbook := le_book rec kind w.now
      rw [← hholds.1] at hbook
      exact grows_of_some hr (by rw [← hholds.1]) hbook.1 hbook.2
    next =>
      cases h
      exact grows_of_record rfl
    next => cases h
  | strikes =>
    simp only [BudgetWorld.step] at h
    split at h
    next =>
      split_ifs at h <;>
      · cases h
        exact grows_of_record rfl
    next => cases h
  | returns reported =>
    simp only [BudgetWorld.step] at h
    split at h
    next kind budget rec started spent record hphase hr =>
      cases h
      have hholds := hw.holds record hr
      rw [hphase] at hholds
      have hsettle := book_le_settle rec kind started w.now reported
      rw [← hholds.1] at hsettle
      exact grows_of_some hr rfl hsettle.1 hsettle.2
    next =>
      cases h
      exact grows_of_record rfl
    next => cases h
  | writes state =>
    obtain ⟨record, hr, h⟩ := Option.bind_eq_some_iff.1 h
    split_ifs at h
    cases h
    exact grows_of_some hr rfl (Nat.le_refl _) (Nat.le_refl _)
  | leaves =>
    simp only [BudgetWorld.step] at h
    split at h <;> cases h <;> exact grows_of_record rfl
  | crash =>
    cases h
    exact grows_of_record rfl
  | vanishes =>
    cases h
    exact grows_none rfl
  | rearms => exact absurd rfl ok

/-- No authorized unlabel re-arms the run. -/
def NoRearm (_ : BudgetWorld) (e : BudgetEvent) : Prop := e ≠ .rearms

theorem clocked_run {config : BuildConfig} {w v : BudgetWorld} (hw : Clocked w)
    (h : Reaches (BudgetWorld.step config) NoRearm w v) : Clocked v :=
  h.invariant Clocked hw fun _ _ _ ht ok fires => clocked_step ht ok fires

theorem grows_run {config : BuildConfig} {w v : BudgetWorld} (hw : Clocked w)
    (h : Reaches (BudgetWorld.step config) NoRearm w v) : Grows w v := by
  induction h with
  | start => exact Grows.refl w
  | step run ok fires ih => exact ih.trans (grows_step (clocked_run hw run) ok fires)

/-! ## The strikes -/

/-- What a round has to be charged for: as many strikes as its dispatch is given, if it counts. -/
def RoundKind.given (kind : RoundKind) (budget : RoundBudget) : Nat :=
  match kind with
  | .ciFix => 0
  | _ => budget.strikes

/-- The strikes of the dispatch that count, so far. -/
def RoundKind.used (kind : RoundKind) (spent : Nat) : Nat :=
  match kind with
  | .ciFix => 0
  | _ => spent

/-- How many strikes are charged before the dispatch, by maintenance. -/
def RoundKind.ahead : RoundKind → Nat
  | .conflict => 1
  | _ => 0

/-- What the strikes consumed so far are covered by. -/
def RoundPhase.Covers (phase : RoundPhase) (config : BuildConfig) (w : BudgetWorld) : Prop :=
  match phase with
  | .begun kind budget rec =>
    w.consumed + kind.ahead ≤ rec.roundsUsed ∧
      w.consumed + kind.given budget ≤ config.maxRounds ∧ (kind = .conflict → budget.strikes = 1)
  | .dispatching kind budget rec _ spent =>
    w.consumed + kind.ahead ≤ rec.roundsUsed + kind.used spent ∧
      w.consumed + kind.given budget ≤ config.maxRounds + kind.used spent ∧ spent ≤ budget.strikes ∧
      (kind = .conflict → budget.strikes = 1)
  | _ => ∀ record, w.record = some record → w.consumed ≤ record.roundsUsed

structure Within (config : BuildConfig) (w : BudgetWorld) : Prop where
  clocked : Clocked w
  bound : w.consumed ≤ config.maxRounds
  covers : w.phase.Covers config w

/-- The strikes of a build dispatch that is not charged for them yet. -/
def RoundPhase.uncharged : RoundPhase → Nat
  | .dispatching .build _ _ _ spent => spent
  | _ => 0

/-- The orchestrator dies in a build dispatch that has consumed one strike at most, and the result of
a build dispatch reports the strikes it has consumed. -/
def Charged (w : BudgetWorld) : BudgetEvent → Prop
  | .rearms => False
  | .crash => w.phase.uncharged ≤ 1
  | .returns reported => w.phase.uncharged ≤ strikesCharged reported
  | _ => True

instance (w : BudgetWorld) (e : BudgetEvent) : Decidable (NoRearm w e) :=
  inferInstanceAs (Decidable (e ≠ .rearms))

instance (w : BudgetWorld) (e : BudgetEvent) : Decidable (Charged w e) :=
  match e with
  | .rearms => inferInstanceAs (Decidable False)
  | .crash => inferInstanceAs (Decidable (w.phase.uncharged ≤ 1))
  | .returns reported => inferInstanceAs (Decidable (w.phase.uncharged ≤ strikesCharged reported))
  | .tick _ | .enters | .fixes _ _ | .resolves _ | .books | .strikes | .writes _ | .leaves
  | .vanishes => inferInstanceAs (Decidable True)

theorem Within.idle {config : BuildConfig} {w v : BudgetWorld} (hw : Within config w)
    (hv : v = { w with phase := .idle })
    (hcovers : ∀ record, w.record = some record → w.consumed ≤ record.roundsUsed) :
    Within config v := by
  subst hv
  exact ⟨clocked_idle hw.clocked, hw.bound, hcovers⟩

/-- At the head of the loop and outside of rounds the record covers the strikes consumed. -/
theorem Within.recorded {config : BuildConfig} {w : BudgetWorld} {record : BuildRecord}
    (hw : Within config w) (hphase : w.phase = .idle ∨ w.phase = .settled)
    (hr : w.record = some record) : w.consumed ≤ record.roundsUsed := by
  have hcovers := hw.covers
  cases hphase with
  | inl hp =>
    rw [hp] at hcovers
    exact hcovers record hr
  | inr hp =>
    rw [hp] at hcovers
    exact hcovers record hr

theorem atLoop_phase {phase : RoundPhase} {state : RunState} (h : phase.atLoop state = true) :
    phase = .idle ∨ phase = .settled := by
  cases phase with
  | idle => exact .inl rfl
  | settled => exact .inr rfl
  | _ => cases h

theorem writable_phase {phase : RoundPhase} {record : BuildRecord} {state : RunState}
    (h : writable phase record state = true) : phase = .idle ∨ phase = .settled := by
  cases phase with
  | idle => exact .inl rfl
  | settled => exact .inr rfl
  | _ => cases h

theorem within_start (config : BuildConfig) (now : Nat) : Within config (.start now) where
  clocked := clocked_start now
  bound := Nat.zero_le _
  covers _ _ := Nat.zero_le _

theorem within_enters {config : BuildConfig} {w : BudgetWorld} {record : BuildRecord}
    (hw : Within config w) (hr : w.record = some record)
    (hphase : w.phase = .idle ∨ w.phase = .settled)
    (hclocked : Clocked (enterLoop config w record)) : Within config (enterLoop config w record) := by
  have hrec := hw.recorded hphase hr
  have hbound := hw.bound
  refine ⟨hclocked, ?_, ?_⟩
  · dsimp only [enterLoop]
    split_ifs <;> exact hbound
  · dsimp only [enterLoop]
    split_ifs with hspent
    · intro later hlater
      cases hlater
      exact hrec
    · have hstrikes : ¬ (remainingBudget record config w.now).strikes = 0 := fun h => hspent (.inl h)
      have hleft : (remainingBudget record config w.now).strikes =
          config.maxRounds - record.roundsUsed := rfl
      refine ⟨hrec, ?_, fun hkind => ?_⟩
      · simp only [RoundKind.given]
        omega
      · cases hkind

theorem within_books {config : BuildConfig} {w v : BudgetWorld} (hw : Within config w)
    (hclocked : Clocked v) (h : w.step config .books = some v) : Within config v := by
  simp only [BudgetWorld.step] at h
  have hcovers := hw.covers
  split at h
  next kind budget rec record hphase hr =>
    cases h
    rw [hphase] at hcovers
    have hused : kind.used 0 = 0 := by cases kind <;> rfl
    refine ⟨hclocked, hw.bound, ?_, ?_, Nat.zero_le _, hcovers.2.2⟩
    · rw [hused]
      exact hcovers.1
    · rw [hused]
      exact hcovers.2.1
  next hphase hr =>
    cases h
    refine hw.idle rfl fun record hrec => ?_
    rw [hr] at hrec
    cases hrec
  next => cases h

theorem within_strikes {config : BuildConfig} {w v : BudgetWorld} (hw : Within config w)
    (hclocked : Clocked v) (h : w.step config .strikes = some v) : Within config v := by
  simp only [BudgetWorld.step] at h
  have hcovers := hw.covers
  have hbound := hw.bound
  split at h
  next kind budget rec started spent hphase =>
    rw [hphase] at hcovers
    obtain ⟨hrec, hgiven, hspent, hone⟩ := hcovers
    split_ifs at h with hlt hkind
    · cases h
      subst hkind
      exact ⟨hclocked, hbound, hrec, hgiven, hlt, hone⟩
    · cases h
      have hused : ∀ n, kind.used n = n := by cases kind <;> simp_all [RoundKind.used]
      have hall : kind.given budget = budget.strikes := by cases kind <;> simp_all [RoundKind.given]
      rw [hused] at hrec hgiven
      rw [hall] at hgiven
      refine ⟨hclocked, ?_, ?_, ?_, hlt, hone⟩
      · simp only
        omega
      · rw [hused]
        simp only
        omega
      · rw [hused, hall]
        simp only
        omega
  next => cases h

/-- What a dispatch leaves in the record covers it, when it is charged for what it consumed. -/
theorem covers_after {config : BuildConfig} {w : BudgetWorld} {kind : RoundKind} {budget : RoundBudget}
    {rec : BuildRecord} {spent roundsUsed : Nat} (started : Nat)
    (hcovers : (RoundPhase.dispatching kind budget rec started spent).Covers config w)
    (hbuild : kind = .build → rec.roundsUsed + spent ≤ roundsUsed) (hle : rec.roundsUsed ≤ roundsUsed) :
    w.consumed ≤ roundsUsed := by
  obtain ⟨hrec, hgiven, hspent, hone⟩ := hcovers
  cases kind with
  | build =>
    have hall := hbuild rfl
    simp only [RoundKind.used, RoundKind.ahead] at hrec
    omega
  | ciFix =>
    simp only [RoundKind.used, RoundKind.ahead] at hrec
    omega
  | conflict =>
    have hstrikes := hone rfl
    simp only [RoundKind.used, RoundKind.ahead] at hrec
    omega

theorem within_returns {config : BuildConfig} {w v : BudgetWorld} {reported : Option Nat}
    (hw : Within config w) (ok : Charged w (.returns reported)) (hclocked : Clocked v)
    (h : w.step config (.returns reported) = some v) : Within config v := by
  simp only [BudgetWorld.step] at h
  have hcovers := hw.covers
  split at h
  next kind budget rec started spent record hphase hr =>
    cases h
    rw [hphase] at hcovers
    refine ⟨hclocked, hw.bound, fun later hlater => ?_⟩
    cases hlater
    refine covers_after started hcovers (fun hkind => ?_) ?_
    · subst hkind
      simp only [Charged, hphase, RoundPhase.uncharged] at ok
      exact Nat.add_le_add_left ok _
    · have hle := (le_book rec kind started).1
      have hsettle := (book_le_settle rec kind started w.now reported).1
      exact Nat.le_trans hle hsettle
  next hphase hr =>
    cases h
    refine hw.idle rfl fun record hrec => ?_
    rw [hr] at hrec
    cases hrec
  next => cases h

/-- A round that has not dispatched leaves the record as it was read. -/
theorem Within.begun {config : BuildConfig} {w : BudgetWorld} {kind : RoundKind} {budget : RoundBudget}
    {rec record : BuildRecord} (hw : Within config w) (hphase : w.phase = .begun kind budget rec)
    (hr : w.record = some record) : w.consumed ≤ record.roundsUsed := by
  have hcovers := hw.covers
  have hholds := hw.clocked.holds record hr
  rw [hphase] at hcovers hholds
  rw [hholds.1]
  exact Nat.le_trans (Nat.le_add_right _ _) hcovers.1

theorem within_crash {config : BuildConfig} {w : BudgetWorld} (hw : Within config w)
    (ok : Charged w .crash) : Within config { w with phase := .idle } := by
  refine hw.idle rfl fun record hr => ?_
  cases hp : w.phase with
  | idle => exact hw.recorded (.inl hp) hr
  | settled => exact hw.recorded (.inr hp) hr
  | begun kind budget rec => exact hw.begun hp hr
  | dispatching kind budget rec started spent =>
    have hcovers := hw.covers
    have hholds := hw.clocked.holds record hr
    rw [hp] at hcovers hholds
    rw [hholds.1]
    refine covers_after started hcovers (fun hkind => ?_) (le_book rec kind started).1
    subst hkind
    simp only [Charged, hp, RoundPhase.uncharged] at ok
    exact Nat.add_le_add_left ok _

theorem Charged.noRearm {w : BudgetWorld} {e : BudgetEvent} (h : Charged w e) : NoRearm w e := by
  intro he
  subst he
  exact h

/-- No dispatch is given more than what is left of the budget. -/
theorem within_step {config : BuildConfig} {w v : BudgetWorld} {e : BudgetEvent}
    (hw : Within config w) (ok : Charged w e) (h : w.step config e = some v) : Within config v := by
  have hclocked : Clocked v := clocked_step hw.clocked ok.noRearm h
  cases e with
  | tick ms =>
    cases h
    exact ⟨hclocked, hw.bound, hw.covers⟩
  | enters =>
    obtain ⟨record, hr, h⟩ := Option.bind_eq_some_iff.1 h
    split_ifs at h with hloop
    cases h
    exact within_enters hw hr (atLoop_phase hloop) hclocked
  | fixes strikes minutes =>
    simp only [BudgetWorld.step] at h
    split at h
    next record hphase hr =>
      split_ifs at h
      cases h
      have hrec := hw.recorded (.inl hphase) hr
      exact ⟨hclocked, hw.bound, hrec, hw.bound, fun hkind => by cases hkind⟩
    next => cases h
  | resolves minutes =>
    simp only [BudgetWorld.step] at h
    split at h
    next record hphase hr =>
      split_ifs at h with hstate
      cases h
      have hrec := hw.recorded (.inl hphase) hr
      refine ⟨hclocked, hw.bound, Nat.add_le_add_right hrec 1, ?_, fun _ => rfl⟩
      exact Nat.le_trans (Nat.add_le_add_right hrec 1) hstate.2
    next => cases h
  | books => exact within_books hw hclocked h
  | strikes => exact within_strikes hw hclocked h
  | returns reported => exact within_returns hw ok hclocked h
  | writes state =>
    obtain ⟨record, hr, h⟩ := Option.bind_eq_some_iff.1 h
    split_ifs at h with hwritable
    cases h
    have hphase := writable_phase hwritable
    have hrec := hw.recorded hphase hr
    refine ⟨hclocked, hw.bound, ?_⟩
    cases hphase with
    | inl hp =>
      rw [hp]
      intro later hlater
      cases hlater
      exact hrec
    | inr hp =>
      rw [hp]
      intro later hlater
      cases hlater
      exact hrec
  | leaves =>
    simp only [BudgetWorld.step] at h
    split at h
    next kind budget rec hphase =>
      cases h
      exact hw.idle rfl fun record hr => hw.begun hphase hr
    next hphase =>
      cases h
      exact hw.idle rfl fun record hr => hw.recorded (.inr hphase) hr
    next => cases h
  | crash =>
    cases h
    exact within_crash hw ok
  | vanishes =>
    cases h
    refine ⟨hclocked, hw.bound, ?_⟩
    have hcovers := hw.covers
    cases hp : w.phase with
    | idle =>
      intro record hr
      cases hr
    | settled =>
      intro record hr
      cases hr
    | begun =>
      rw [hp] at hcovers
      exact hcovers
    | dispatching =>
      rw [hp] at hcovers
      exact hcovers
  | rearms => exact ok.elim

theorem within_run {config : BuildConfig} {w v : BudgetWorld} (hw : Within config w)
    (h : Reaches (BudgetWorld.step config) Charged w v) : Within config v :=
  h.invariant (Within config) hw fun _ _ _ ht ok fires => within_step ht ok fires

/-! ## The budget over runs -/

/-- Over any run from a new record, with retries, pauses, crashes and resumptions and no re-arm: the
recorded time with the one in flight covers the time taken, no counter goes down, and as long as every
dispatch is charged for what it consumed, the strikes stay within the budget. -/
theorem build_budget_global (config : BuildConfig) (now : Nat) (w : BudgetWorld)
    (h : Reaches (BudgetWorld.step config) NoRearm (.start now) w) :
    (∀ record, w.record = some record →
      w.taken ≤ record.wallClockUsedMs + record.inFlight w.now) ∧
    (∀ v, Reaches (BudgetWorld.step config) NoRearm w v → Grows w v) ∧
    (Reaches (BudgetWorld.step config) Charged (.start now) w → w.consumed ≤ config.maxRounds) := by
  have hclocked := clocked_run (clocked_start now) h
  refine ⟨hclocked.covered, fun v hv => grows_run hclocked hv, fun hcharged => ?_⟩
  exact (within_run (within_start config now) hcharged).bound

/-- A process dies in its first dispatch, another resumes the run and has a round of its own. -/
def resumedRun : List BudgetEvent :=
  [.writes .shaped, .enters, .books, .strikes, .tick 7, .crash, .tick 3, .enters, .books, .strikes,
    .tick 2, .returns (some 1), .writes .built, .leaves]

theorem build_budget_global_resumed : ∃ w, (w.consumed = 2 ∧ w.taken = 9) ∧
    (∀ record, w.record = some record →
      w.taken ≤ record.wallClockUsedMs + record.inFlight w.now) ∧
    (∀ v, Reaches (BudgetWorld.step ⟨15, 90⟩) NoRearm w v → Grows w v) ∧ w.consumed ≤ 15 := by
  have hrun : (play (BudgetWorld.step ⟨15, 90⟩) (fun w e => NoRearm w e ∧ Charged w e) (.start 0)
      resumedRun).any (fun w => w.consumed = 2 ∧ w.taken = 9) = true := by decide +kernel
  obtain ⟨w, hw, hends⟩ := exists_reaches_of_play hrun
  have hends : w.consumed = 2 ∧ w.taken = 9 := of_decide_eq_true hends
  have hno := hw.weaken fun _ _ h => h.1
  have hcharged := hw.weaken fun _ _ h => h.2
  obtain ⟨hcovered, hgrows, hbound⟩ := build_budget_global ⟨15, 90⟩ 0 w hno
  exact ⟨w, hends, hcovered, hgrows, hbound hcharged⟩

/-- The first of two dispatches is given both strikes and consumes them; the orchestrator dies, and the
next one gives a strike more. -/
def overspentRun : List BudgetEvent :=
  [.writes .shaped, .enters, .books, .strikes, .strikes, .crash, .enters, .books, .strikes]

theorem crash_refunds_strikes : ¬ ∀ (config : BuildConfig) (now : Nat) (w : BudgetWorld),
    Reaches (BudgetWorld.step config) NoRearm (.start now) w → w.consumed ≤ config.maxRounds := by
  intro hall
  have hrun : (play (BudgetWorld.step ⟨2, 90⟩) NoRearm (.start 0) overspentRun).any
      (fun w => w.consumed = 3) = true := by decide +kernel
  obtain ⟨w, hw, hends⟩ := exists_reaches_of_play hrun
  have hends : w.consumed = 3 := of_decide_eq_true hends
  have hbound : w.consumed ≤ 2 := hall ⟨2, 90⟩ 0 w hw
  omega

end Adlc.Autopilot
