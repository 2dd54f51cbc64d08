import Adlc.Autopilot.Records
import Adlc.Framework.Text
import Adlc.Framework.Transition

namespace Adlc.Autopilot

open Adlc.Framework

/-! ## Check rows -/

/-- A row of `gh pr checks`; a field that is not a string is none. -/
structure CheckRow where
  name : Option JsString
  bucket : Option JsString
  workflow : Option JsString
  deriving DecidableEq

/-- `BLOCKING_PREFIXES` -/
def blockingPrefixes : List JsString :=
  [js "test (18)", js "test (20)", js "test (22)", js "rails-guard", js "mutation-gate",
    js "cross-model-gate", js "ticket-store-platform ("]

inductive RowNorm where
  | pass | red | wait | skipped
  deriving DecidableEq

/-- `normalizeRow(row)` -/
def normalizeRow (row : CheckRow) : RowNorm :=
  match row.bucket with
  | none => .red
  | some bucket =>
    if bucket = js "pass" then .pass
    else if bucket = js "fail" then .red
    else if bucket = js "pending" then .wait
    else if bucket = js "skipping" then .skipped
    else if bucket = js "cancel" then .red
    else .red

/-- `blockingPrefixOf(row, prefixes)`: by the name, or else by the workflow. -/
def blockingPrefixOf (prefixes : List JsString) (row : CheckRow) : Option JsString :=
  (prefixes.find? fun p => p.isPrefixOf (row.name.getD [])).or
    (prefixes.find? fun p => row.workflow.getD [] = p)

/-- A skipped job passes, unless it is one of the tests. -/
def effectiveNorm (job : JsString) : RowNorm → RowNorm
  | .skipped => if (js "test (").isPrefixOf job then .red else .pass
  | norm => norm

inductive ChecksVerdict where
  | pass | red | wait
  deriving DecidableEq

structure NormalizedChecks where
  verdict : ChecksVerdict
  red : List JsString
  waiting : List JsString
  missing : List JsString
  ignored : List JsString

def rowName (row : CheckRow) : JsString := row.name.getD (js "<unnamed>")

/-- The names of the blocking rows that come to a norm. -/
def rowsOf (prefixes : List JsString) (rows : List CheckRow) (norm : RowNorm) : List JsString :=
  (rows.filter fun row => (blockingPrefixOf prefixes row).any fun job =>
    effectiveNorm job (normalizeRow row) = norm).map rowName

/-- The jobs that no row belongs to. -/
def missingJobs (prefixes : List JsString) (rows : List CheckRow) : List JsString :=
  prefixes.filter fun job => !rows.any fun row => blockingPrefixOf prefixes row = some job

/-- Every job has a row, and none of its rows is red, waiting or a skipped test. -/
def AllPassed (prefixes : List JsString) (rows : List CheckRow) : Prop :=
  ∀ job ∈ prefixes, (∃ row ∈ rows, blockingPrefixOf prefixes row = some job) ∧
    ∀ row ∈ rows, blockingPrefixOf prefixes row = some job →
      normalizeRow row ≠ .red ∧ normalizeRow row ≠ .wait ∧
        (normalizeRow row = .skipped → ¬ (js "test (").isPrefixOf job)

theorem rowsOf_eq_nil {prefixes : List JsString} {rows : List CheckRow} {norm : RowNorm}
    (h : rowsOf prefixes rows norm = []) {row : CheckRow} {job : JsString} (hrow : row ∈ rows)
    (hjob : blockingPrefixOf prefixes row = some job) : effectiveNorm job (normalizeRow row) ≠ norm := by
  intro hnorm
  have hnone := List.map_eq_nil_iff.1 h
  have hfilter := List.filter_eq_nil_iff.1 hnone row hrow
  simp [hjob, hnorm] at hfilter

theorem missingJobs_eq_nil {prefixes : List JsString} {rows : List CheckRow}
    (h : missingJobs prefixes rows = []) {job : JsString} (hjob : job ∈ prefixes) :
    ∃ row ∈ rows, blockingPrefixOf prefixes row = some job := by
  have hfilter := List.filter_eq_nil_iff.1 h job hjob
  simpa using hfilter

theorem effectiveNorm_passes {job : JsString} {norm : RowNorm} (hred : effectiveNorm job norm ≠ .red)
    (hwait : effectiveNorm job norm ≠ .wait) :
    norm ≠ .red ∧ norm ≠ .wait ∧ (norm = .skipped → ¬ (js "test (").isPrefixOf job) := by
  cases norm with
  | pass => exact ⟨nofun, nofun, nofun⟩
  | red => exact absurd rfl hred
  | wait => exact absurd rfl hwait
  | skipped =>
    refine ⟨nofun, nofun, fun _ htest => hred ?_⟩
    simp [effectiveNorm, htest]

/-- The verdict from its three lists. -/
def checksVerdict (red waiting missing : List JsString) (clockExpired : Bool) : ChecksVerdict :=
  if !red.isEmpty then .red
  else if !waiting.isEmpty || (!missing.isEmpty && !clockExpired) then .wait
  else .pass

/-- `normalizeChecks(rows, { blockingPrefixes, clockExpired })` -/
def normalizeChecks (prefixes : List JsString) (rows : List CheckRow) (clockExpired : Bool) :
    NormalizedChecks :=
  let missing := missingJobs prefixes rows
  let waiting := rowsOf prefixes rows .wait
  let red := rowsOf prefixes rows .red ++
    if clockExpired then missing.map (js "missing: " ++ ·) else []
  ⟨checksVerdict red waiting missing clockExpired, red, waiting, missing,
    (rows.filter fun row => blockingPrefixOf prefixes row = none).map rowName⟩

theorem checksVerdict_pass {red waiting missing : List JsString} {clockExpired : Bool}
    (h : checksVerdict red waiting missing clockExpired = .pass) :
    red = [] ∧ waiting = [] ∧ (clockExpired = false → missing = []) := by
  unfold checksVerdict at h
  split_ifs at h with hred hwait
  refine ⟨by simpa using hred, ?_, fun hclock => ?_⟩
  · simp only [Bool.or_eq_true, not_or] at hwait
    simpa using hwait.1
  · simp only [Bool.or_eq_true, not_or, hclock] at hwait
    simpa using hwait.2

/-- What the verdict says of the rows, whatever the clock says. -/
theorem allPassed_of_verdict {prefixes : List JsString} {rows : List CheckRow} {clockExpired : Bool}
    (h : (normalizeChecks prefixes rows clockExpired).verdict = .pass) : AllPassed prefixes rows := by
  obtain ⟨hred, hwaiting, hopen⟩ := checksVerdict_pass h
  obtain ⟨hrows, hlate⟩ := List.append_eq_nil_iff.1 hred
  have hmissing : missingJobs prefixes rows = [] := by
    cases clockExpired with
    | true => simpa using hlate
    | false => exact hopen rfl
  intro job hjob
  refine ⟨missingJobs_eq_nil hmissing hjob, fun row hrow hof => ?_⟩
  exact effectiveNorm_passes (rowsOf_eq_nil hrows hrow hof) (rowsOf_eq_nil hwaiting hrow hof)

/-! ## The watch -/

/-- The fields of a run record that the watch reads and writes. -/
structure CiRecord (Oid : Type) where
  state : RunState
  attestedHead : Option Oid
  ciRoundsUsed : Nat
  ciReEvaluations : Nat
  deriving DecidableEq

structure CiConfig where
  budgetMs : Int
  /-- `ciFixRounds` -/
  fixLimit : Nat
  maxReEvaluations : Nat

/-- `ciFixRoundBudget(…)`: strikes and minutes. -/
def ciFixRoundBudget : Nat × Nat := (2, 15)

inductive WatchOutcome (Oid : Type) where
  | recordVanished
  | oidMismatch (expected : Oid) (observed : Option Oid)
  | ciRed (red : List JsString)
  | fixRoundFailed (red : List JsString) (round : Nat)
  | done (head : Oid)
  | ciIncomplete (waiting missing : List JsString)
  | ciWatch (reEvaluations : Nat)
  deriving DecidableEq

/-- `head`, `deadline` and `cur` of the loop. -/
structure Watch (Oid : Type) where
  head : Oid
  deadline : Int
  cur : CiRecord Oid

inductive WatchPhase (Oid : Type) where
  /-- No watch, or one that has returned. -/
  | idle (outcome : Option (WatchOutcome Oid))
  | viewing (watch : Watch Oid)
  /-- The head it has seen is the one it watches. -/
  | checking (watch : Watch Oid)
  | sampling (watch : Watch Oid) (red : List JsString)
  /-- The fix round is charged and collects the logs. -/
  | charged (watch : Watch Oid) (red : List JsString)
  /-- `runFixRound(…)`, with the head it has attested. -/
  | fixing (watch : Watch Oid) (red : List JsString) (attested : Option Oid)

/-- A head that the watch has settled, the head the check results are of, the head attested last,
and the rows. -/
structure Settlement (Oid : Type) where
  head : Oid
  checked : Oid
  attested : Option Oid
  rows : List CheckRow

/-- The pull request, the record and the process; then the head attested last, the fix rounds started
since the last re-arm, and what was settled. -/
structure CiWorld (Oid : Type) where
  prHead : Oid
  record : Option (CiRecord Oid)
  phase : WatchPhase Oid
  attested : Option Oid
  started : Nat
  settled : List (Settlement Oid)

variable {Oid : Type}

def CiWorld.start (prHead : Oid) : CiWorld Oid :=
  ⟨prHead, some ⟨.creating, none, 0, 0⟩, .idle none, none, 0, []⟩

inductive CiEvent (Oid : Type) where
  /-- Another party, or the push of a round, moves the head of the pull request. -/
  | moves (oid : Oid)
  /-- A round attests a head: the record is given it. -/
  | attests (oid : Oid)
  | enters (now : Int)
  /-- `gh pr view`, whose answer may have no head. -/
  | views (readable : Bool)
  /-- `gh pr checks`, whose answer may not be a list; the clock is read after it. -/
  | checks (rows : Option (List CheckRow)) (now : Int)
  /-- The quota's answer; the clock is read around the sleep that follows a refusal. -/
  | samples (ok : Bool) (pausedAt resumedAt : Int)
  | starts
  | fixEnds (ok : Bool) (now : Int)
  | crash
  | vanishes
  | rearms

def CiWorld.returns (w : CiWorld Oid) (outcome : WatchOutcome Oid) : CiWorld Oid :=
  { w with phase := .idle (some outcome) }

/-- `write(…)`: no record comes of a vanished one. -/
def CiWorld.write (w : CiWorld Oid) (patch : CiRecord Oid → CiRecord Oid) : CiWorld Oid :=
  { w with record := w.record.map patch }

/-- `write({ state: 'ci-watch', attestedHead: head })`, and the loop if the record is there. -/
def CiWorld.watches (w : CiWorld Oid) (watch : Watch Oid) : CiWorld Oid :=
  match w.record with
  | none => w.returns .recordVanished
  | some record => { w with
      record := some { record with state := .ciWatch, attestedHead := some watch.head }
      phase := .viewing watch }

def Watch.expired (watch : Watch Oid) (now : Int) : Bool := decide (watch.deadline ≤ now)

/-- What a poll comes to; one that cannot be read is waited on. -/
def Watch.norm (watch : Watch Oid) (rows : Option (List CheckRow)) (now : Int) : NormalizedChecks :=
  match rows with
  | some rows => normalizeChecks blockingPrefixes rows (watch.expired now)
  | none => ⟨.wait, [], [js "<poll failed>"], [], []⟩

def CiWorld.settle (w : CiWorld Oid) (head : Oid) (rows : List CheckRow) : CiWorld Oid :=
  { (w.write fun r => { r with state := .done }).returns (.done head) with
    settled := ⟨head, w.prHead, w.attested, rows⟩ :: w.settled }

/-- What the watch does with the rows of a poll. -/
def CiWorld.polled (config : CiConfig) (w : CiWorld Oid) (watch : Watch Oid)
    (rows : Option (List CheckRow)) (now : Int) : CiWorld Oid :=
  let norm := watch.norm rows now
  match norm.verdict with
  | .red =>
    if config.fixLimit ≤ watch.cur.ciRoundsUsed then w.returns (.ciRed norm.red)
    else { w with phase := .sampling watch norm.red }
  | .pass => w.settle watch.head (rows.getD [])
  | .wait =>
    if watch.expired now then
      let re := watch.cur.ciReEvaluations + 1
      if config.maxReEvaluations ≤ re then w.returns (.ciIncomplete norm.waiting norm.missing)
      else (w.write fun r => { r with state := .ciWatch, ciReEvaluations := re }).returns (.ciWatch re)
    else { w with phase := .viewing watch }

/-- The fix round is charged, if it has an allowance and the record is there. -/
def CiWorld.charge (w : CiWorld Oid) (watch : Watch Oid) (red : List JsString) : CiWorld Oid :=
  if ciFixRoundBudget.1 = 0 ∨ ciFixRoundBudget.2 = 0 then w.returns (.ciRed red)
  else
    match w.record with
    | none => w.returns .recordVanished
    | some record => { w with
        record := some { record with ciRoundsUsed := watch.cur.ciRoundsUsed + 1 }
        phase := .charged watch red }

def CiWorld.step [DecidableEq Oid] (config : CiConfig) (w : CiWorld Oid) :
    CiEvent Oid → Option (CiWorld Oid)
  | .moves oid => some { w with prHead := oid }
  | .attests oid =>
    let told := { (w.write fun r => { r with attestedHead := some oid }) with attested := some oid }
    match w.phase with
    | .idle _ => some told
    | .fixing watch red _ => some { told with phase := .fixing watch red (some oid) }
    | _ => none
  | .enters now => match w.phase, w.record with
    | .idle _, none => some (w.returns .recordVanished)
    | .idle _, some record => record.attestedHead.map fun head =>
        w.watches ⟨head, now + config.budgetMs, record⟩
    | _, _ => none
  | .views readable => match w.phase with
    | .viewing watch =>
      if readable ∧ w.prHead = watch.head then some { w with phase := .checking watch }
      else some ((w.write fun r => { r with state := .oidMismatch }).returns
        (.oidMismatch watch.head (if readable then some w.prHead else none)))
    | _ => none
  | .checks rows now => match w.phase with
    | .checking watch => some (w.polled config watch rows now)
    | _ => none
  | .samples ok pausedAt resumedAt => match w.phase with
    | .sampling watch red =>
      if ok then some (w.charge watch red)
      else some { w with
        phase := .viewing { watch with deadline := watch.deadline + (resumedAt - pausedAt) } }
    | _ => none
  | .starts => match w.phase with
    | .charged watch red => some { w with phase := .fixing watch red none, started := w.started + 1 }
    | _ => none
  | .fixEnds ok now => match w.phase with
    | .fixing watch red attested =>
      match ok, attested with
      | true, some head => some (w.watches ⟨head, now + config.budgetMs, w.record.getD watch.cur⟩)
      | _, _ => some (w.returns (.fixRoundFailed red (watch.cur.ciRoundsUsed + 1)))
    | _ => none
  | .crash => some { w with phase := .idle none }
  | .vanishes => some { w with record := none }
  | .rearms => match w.phase with
    | .idle _ => some { (w.write fun r => { r with state := .prOpen, ciRoundsUsed := 0 }) with
        started := 0 }
    | _ => none

/-! ## What the watch keeps -/

/-- The watch is on the head attested last, with the count of fix rounds that is recorded. -/
def Watch.Follows (watch : Watch Oid) (w : CiWorld Oid) : Prop :=
  w.attested = some watch.head ∧ w.started ≤ watch.cur.ciRoundsUsed ∧
    ∀ record, w.record = some record → record.ciRoundsUsed = watch.cur.ciRoundsUsed

/-- A fix round is charged and is within the limit. -/
def Watch.Charged (config : CiConfig) (watch : Watch Oid) (w : CiWorld Oid) : Prop :=
  watch.cur.ciRoundsUsed < config.fixLimit ∧
    ∀ record, w.record = some record → record.ciRoundsUsed = watch.cur.ciRoundsUsed + 1

def WatchPhase.Holds (config : CiConfig) (w : CiWorld Oid) : WatchPhase Oid → Prop
  | .idle _ => True
  | .viewing watch => watch.Follows w
  | .checking watch => watch.Follows w
  | .sampling watch _ => watch.Follows w ∧ watch.cur.ciRoundsUsed < config.fixLimit
  | .charged watch _ => watch.Charged config w ∧ w.started ≤ watch.cur.ciRoundsUsed
  | .fixing watch _ attested =>
    watch.Charged config w ∧ ∀ head, attested = some head → w.attested = some head

structure Watched (config : CiConfig) (w : CiWorld Oid) : Prop where
  limit : w.started ≤ config.fixLimit
  charged : ∀ record, w.record = some record → w.started ≤ record.ciRoundsUsed
  told : ∀ record, w.record = some record → record.attestedHead = w.attested
  holds : w.phase.Holds config w
  settled : ∀ s ∈ w.settled, AllPassed blockingPrefixes s.rows ∧ s.attested = some s.head
  done : ∀ head, w.phase = .idle (some (.done head)) → ∃ s ∈ w.settled, s.head = head

variable {config : CiConfig} {w v : CiWorld Oid} {watch : Watch Oid}

theorem watched_start (config : CiConfig) (prHead : Oid) : Watched config (.start prHead) where
  limit := Nat.zero_le _
  charged _ _ := Nat.zero_le _
  told record h := by
    cases h
    rfl
  holds := trivial
  settled _ h := by cases h
  done _ h := by cases h

/-- A write to the record that keeps what the watch reads again. -/
theorem Watched.returned (hw : Watched config w) (outcome : Option (WatchOutcome Oid))
    (hdone : ∀ head, outcome ≠ some (.done head)) (patch : CiRecord Oid → CiRecord Oid)
    (hrounds : ∀ r, (patch r).ciRoundsUsed = r.ciRoundsUsed)
    (hhead : ∀ r, (patch r).attestedHead = r.attestedHead) :
    Watched config { w.write patch with phase := .idle outcome } where
  limit := hw.limit
  charged record h := by
    obtain ⟨r, hr, rfl⟩ := Option.map_eq_some_iff.1 h
    rw [hrounds]
    exact hw.charged r hr
  told record h := by
    obtain ⟨r, hr, rfl⟩ := Option.map_eq_some_iff.1 h
    rw [hhead]
    exact hw.told r hr
  holds := trivial
  settled := hw.settled
  done head h := by
    injection h with h
    exact absurd h (hdone head)

theorem Watched.idle (hw : Watched config w) (outcome : Option (WatchOutcome Oid))
    (hdone : ∀ head, outcome ≠ some (.done head)) : Watched config { w with phase := .idle outcome } where
  limit := hw.limit
  charged := hw.charged
  told := hw.told
  holds := trivial
  settled := hw.settled
  done head h := by
    injection h with h
    exact absurd h (hdone head)

theorem Watched.returns (hw : Watched config w) {outcome : WatchOutcome Oid}
    (hdone : ∀ head, outcome ≠ .done head) : Watched config (w.returns outcome) :=
  hw.idle (some outcome) fun head h => hdone head (Option.some.inj h)

/-- The record and the phase go on together. -/
theorem Watched.on (hw : Watched config w) {phase : WatchPhase Oid}
    (hidle : ∀ outcome, phase ≠ .idle outcome) (hholds : phase.Holds config w) :
    Watched config { w with phase := phase } where
  limit := hw.limit
  charged := hw.charged
  told := hw.told
  holds := by
    cases phase <;> exact hholds
  settled := hw.settled
  done head h := absurd h (hidle _)

theorem watched_settle {rows : List CheckRow} (hw : Watched config w) (hfollows : watch.Follows w)
    (hpassed : AllPassed blockingPrefixes rows) : Watched config (w.settle watch.head rows) where
  limit := hw.limit
  charged record h := by
    obtain ⟨r, hr, rfl⟩ := Option.map_eq_some_iff.1 h
    exact hw.charged r hr
  told record h := by
    obtain ⟨r, hr, rfl⟩ := Option.map_eq_some_iff.1 h
    exact hw.told r hr
  holds := trivial
  settled s hs := by
    cases List.mem_cons.1 hs with
    | inl h =>
      subst h
      exact ⟨hpassed, hfollows.1⟩
    | inr h => exact hw.settled s h
  done head h := by
    cases h
    exact ⟨_, List.mem_cons_self, rfl⟩

/-- Only rows that pass are of a poll whose verdict is a pass. -/
theorem Watch.norm_pass {rows : Option (List CheckRow)} {now : Int}
    (h : (watch.norm rows now).verdict = .pass) : AllPassed blockingPrefixes (rows.getD []) := by
  cases rows with
  | none => cases h
  | some rows => exact allPassed_of_verdict h

theorem watched_polled (hw : Watched config w) (hfollows : watch.Follows w)
    (rows : Option (List CheckRow)) (now : Int) : Watched config (w.polled config watch rows now) := by
  dsimp only [CiWorld.polled]
  split
  next =>
    split_ifs with hlimit
    · exact hw.returns nofun
    · exact hw.on nofun ⟨hfollows, Nat.lt_of_not_le hlimit⟩
  next hpass => exact watched_settle hw hfollows (Watch.norm_pass hpass)
  next =>
    split_ifs with hexpired hlast
    · exact hw.returns nofun
    · exact hw.returned _ (fun head h => by cases h) _ (fun _ => rfl) (fun _ => rfl)
    · exact hw.on nofun hfollows

theorem watched_watches (hw : Watched config w) (hattested : w.attested = some watch.head)
    (hcur : ∀ record, w.record = some record → watch.cur.ciRoundsUsed = record.ciRoundsUsed) :
    Watched config (w.watches watch) := by
  unfold CiWorld.watches
  split
  next => exact hw.returns nofun
  next record hr =>
    have hcharged := hw.charged record hr
    refine ⟨hw.limit, fun r h => ?_, fun r h => ?_, ⟨hattested, ?_, fun r h => ?_⟩, hw.settled, nofun⟩
    · cases h
      exact hcharged
    · cases h
      exact hattested.symm
    · rw [hcur record hr]
      exact hcharged
    · cases h
      exact (hcur record hr).symm

theorem watched_charge (hw : Watched config w) (hfollows : watch.Follows w)
    (hlimit : watch.cur.ciRoundsUsed < config.fixLimit) (red : List JsString) :
    Watched config (w.charge watch red) := by
  unfold CiWorld.charge
  split_ifs with hbudget
  · exact hw.returns nofun
  · split
    next => exact hw.returns nofun
    next record hr =>
      have hstarted := hfollows.2.1
      refine ⟨hw.limit, fun r h => ?_, fun r h => ?_, ⟨⟨hlimit, fun r h => ?_⟩, hstarted⟩, hw.settled,
        nofun⟩
      · cases h
        exact Nat.le_succ_of_le hstarted
      · cases h
        exact hw.told record hr
      · cases h
        rfl

theorem watched_step [DecidableEq Oid] {e : CiEvent Oid} (hw : Watched config w)
    (h : w.step config e = some v) : Watched config v := by
  have hholds := hw.holds
  cases e with
  | moves oid =>
    cases h
    refine ⟨hw.limit, hw.charged, hw.told, ?_, hw.settled, hw.done⟩
    cases hp : w.phase <;>
    · rw [hp] at hholds
      exact hholds
  | attests oid =>
    simp only [CiWorld.step] at h
    have hcharged : ∀ r, (w.write fun r => { r with attestedHead := some oid }).record = some r →
        w.started ≤ r.ciRoundsUsed := by
      intro r hr
      obtain ⟨r', hr', rfl⟩ := Option.map_eq_some_iff.1 hr
      exact hw.charged r' hr'
    have htold : ∀ r, (w.write fun r => { r with attestedHead := some oid }).record = some r →
        r.attestedHead = some oid := by
      intro r hr
      obtain ⟨r', hr', rfl⟩ := Option.map_eq_some_iff.1 hr
      rfl
    split at h
    next outcome hp =>
      cases h
      refine ⟨hw.limit, hcharged, htold, ?_, hw.settled, hw.done⟩
      simp only [CiWorld.write, hp]
      trivial
    next watch red attested hp =>
      cases h
      rw [hp] at hholds
      obtain ⟨⟨hlimit, hrounds⟩, -⟩ := hholds
      refine ⟨hw.limit, hcharged, htold, ⟨⟨hlimit, fun r hr => ?_⟩, fun _ h => h⟩, hw.settled, nofun⟩
      obtain ⟨r', hr', rfl⟩ := Option.map_eq_some_iff.1 hr
      exact hrounds r' hr'
    next => cases h
  | enters now =>
    simp only [CiWorld.step] at h
    split at h
    next =>
      cases h
      exact hw.returns nofun
    next outcome record hp hr =>
      obtain ⟨head, hhead, rfl⟩ := Option.map_eq_some_iff.1 h
      have htold := hw.told record hr
      refine watched_watches hw (htold.symm.trans hhead) fun r hr' => ?_
      exact congrArg CiRecord.ciRoundsUsed (Option.some.inj (hr.symm.trans hr'))
    next => cases h
  | views readable =>
    simp only [CiWorld.step] at h
    split at h
    next watch hp =>
      rw [hp] at hholds
      split_ifs at h with hsame
      · cases h
        exact hw.on nofun hholds
      · cases h
        exact hw.returned _ (fun head h => by cases h) _ (fun _ => rfl) (fun _ => rfl)
      · cases h
        exact hw.returned _ (fun head h => by cases h) _ (fun _ => rfl) (fun _ => rfl)
    next => cases h
  | checks rows now =>
    simp only [CiWorld.step] at h
    split at h
    next watch hp =>
      rw [hp] at hholds
      cases h
      exact watched_polled hw hholds rows now
    next => cases h
  | samples ok pausedAt resumedAt =>
    simp only [CiWorld.step] at h
    split at h
    next watch red hp =>
      rw [hp] at hholds
      split_ifs at h
      · cases h
        exact watched_charge hw hholds.1 hholds.2 red
      · cases h
        exact hw.on nofun hholds.1
    next => cases h
  | starts =>
    simp only [CiWorld.step] at h
    split at h
    next watch red hp =>
      rw [hp] at hholds
      obtain ⟨⟨hlimit, hrounds⟩, hstarted⟩ := hholds
      cases h
      refine ⟨Nat.lt_of_le_of_lt hstarted hlimit, fun r hr => ?_, hw.told, ⟨⟨hlimit, hrounds⟩, nofun⟩,
        hw.settled, nofun⟩
      rw [hrounds r hr]
      exact Nat.succ_le_succ hstarted
    next => cases h
  | fixEnds ok now =>
    simp only [CiWorld.step] at h
    split at h
    next watch red attested hp =>
      rw [hp] at hholds
      split at h
      next head =>
        cases h
        refine watched_watches hw (hholds.2 head rfl) fun r hr => ?_
        simp only [hr, Option.getD_some]
      next =>
        cases h
        exact hw.returns nofun
    next => cases h
  | crash =>
    cases h
    exact hw.idle none nofun
  | vanishes =>
    cases h
    refine ⟨hw.limit, nofun, nofun, ?_, hw.settled, hw.done⟩
    cases hp : w.phase with
    | idle => trivial
    | viewing watch =>
      rw [hp] at hholds
      exact ⟨hholds.1, hholds.2.1, nofun⟩
    | checking watch =>
      rw [hp] at hholds
      exact ⟨hholds.1, hholds.2.1, nofun⟩
    | sampling watch red =>
      rw [hp] at hholds
      exact ⟨⟨hholds.1.1, hholds.1.2.1, nofun⟩, hholds.2⟩
    | charged watch red =>
      rw [hp] at hholds
      exact ⟨⟨hholds.1.1, nofun⟩, hholds.2⟩
    | fixing watch red attested =>
      rw [hp] at hholds
      exact ⟨⟨hholds.1.1, nofun⟩, hholds.2⟩
  | rearms =>
    simp only [CiWorld.step] at h
    split at h
    next outcome hp =>
      cases h
      refine ⟨Nat.zero_le _, fun _ _ => Nat.zero_le _, fun r hr => ?_, ?_, hw.settled, ?_⟩
      · obtain ⟨r', hr', rfl⟩ := Option.map_eq_some_iff.1 hr
        exact hw.told r' hr'
      · simp only [CiWorld.write, hp]
        trivial
      · exact hw.done
    next => cases h

theorem watched_run [DecidableEq Oid] {ok : CiWorld Oid → CiEvent Oid → Prop}
    (h : Reaches (CiWorld.step config) ok w v) (hw : Watched config w) : Watched config v :=
  h.invariant (Watched config) hw fun _ _ _ ht _ fires => watched_step ht fires

/-! ## The head of the checks -/

/-- The watch whose poll has seen the head. -/
def WatchPhase.seen : WatchPhase Oid → Option (Watch Oid)
  | .checking watch => some watch
  | _ => none

/-- When the checks of a poll are read and pass, the head of the pull request is still the one that
the poll has seen. -/
def HeadStays (w : CiWorld Oid) : CiEvent Oid → Prop
  | .checks rows now => ∀ watch ∈ w.phase.seen,
      (watch.norm rows now).verdict = .pass → w.prHead = watch.head
  | _ => True

instance [DecidableEq Oid] (w : CiWorld Oid) (e : CiEvent Oid) : Decidable (HeadStays w e) :=
  match e with
  | .checks rows now => inferInstanceAs (Decidable (∀ watch ∈ w.phase.seen,
      (watch.norm rows now).verdict = .pass → w.prHead = watch.head))
  | .moves _ | .attests _ | .enters _ | .views _ | .samples _ _ _ | .starts | .fixEnds _ _ | .crash
  | .vanishes | .rearms => inferInstanceAs (Decidable True)

theorem polled_settled {rows : Option (List CheckRow)} {now : Int} {s : Settlement Oid}
    (hs : s ∈ (w.polled config watch rows now).settled) :
    s ∈ w.settled ∨ (watch.norm rows now).verdict = .pass ∧ s.head = watch.head ∧ s.checked = w.prHead := by
  dsimp only [CiWorld.polled] at hs
  split at hs
  next =>
    split_ifs at hs <;> exact .inl hs
  next hpass =>
    cases List.mem_cons.1 hs with
    | inl h =>
      subst h
      exact .inr ⟨hpass, rfl, rfl⟩
    | inr h => exact .inl h
  next =>
    split_ifs at hs <;> exact .inl hs

theorem watches_settled (w : CiWorld Oid) (watch : Watch Oid) : (w.watches watch).settled = w.settled := by
  unfold CiWorld.watches
  split <;> rfl

theorem charge_settled (w : CiWorld Oid) (watch : Watch Oid) (red : List JsString) :
    (w.charge watch red).settled = w.settled := by
  unfold CiWorld.charge
  split_ifs
  · rfl
  · split <;> rfl

/-- Only a poll settles anything. -/
theorem step_settled [DecidableEq Oid] {e : CiEvent Oid} (h : w.step config e = some v)
    (he : ∀ rows now, e ≠ .checks rows now) : v.settled = w.settled := by
  cases e with
  | checks rows now => exact absurd rfl (he rows now)
  | moves | crash | vanishes =>
    cases h
    rfl
  | attests =>
    simp only [CiWorld.step] at h
    split at h <;> cases h <;> rfl
  | enters now =>
    simp only [CiWorld.step] at h
    split at h
    next =>
      cases h
      rfl
    next =>
      obtain ⟨head, -, rfl⟩ := Option.map_eq_some_iff.1 h
      exact watches_settled _ _
    next => cases h
  | views =>
    simp only [CiWorld.step] at h
    split at h
    next =>
      split_ifs at h <;> cases h <;> rfl
    next => cases h
  | samples =>
    simp only [CiWorld.step] at h
    split at h
    next =>
      split_ifs at h <;> cases h
      · exact charge_settled _ _ _
      · rfl
    next => cases h
  | starts =>
    simp only [CiWorld.step] at h
    split at h <;> cases h
    rfl
  | fixEnds =>
    simp only [CiWorld.step] at h
    split at h
    next =>
      split at h <;> cases h
      · exact watches_settled _ _
      · rfl
    next => cases h
  | rearms =>
    simp only [CiWorld.step] at h
    split at h <;> cases h
    rfl

theorem settles_step [DecidableEq Oid] {e : CiEvent Oid} (ok : HeadStays w e)
    (h : w.step config e = some v) (hw : ∀ s ∈ w.settled, s.checked = s.head) :
    ∀ s ∈ v.settled, s.checked = s.head := by
  by_cases he : ∀ rows now, e ≠ .checks rows now
  · rw [step_settled h he]
    exact hw
  · simp only [not_forall, not_not] at he
    obtain ⟨rows, now, rfl⟩ := he
    simp only [CiWorld.step] at h
    split at h
    next watch hp =>
      cases h
      intro s hs
      cases polled_settled hs with
      | inl hold => exact hw s hold
      | inr hnew =>
        obtain ⟨hpass, hhead, hchecked⟩ := hnew
        have hseen : watch ∈ w.phase.seen := by rw [hp]; rfl
        rw [hchecked, hhead]
        exact ok watch hseen hpass
    next => cases h

theorem settles_run [DecidableEq Oid] (h : Reaches (CiWorld.step config) HeadStays w v)
    (hw : ∀ s ∈ w.settled, s.checked = s.head) : ∀ s ∈ v.settled, s.checked = s.head :=
  h.invariant (fun v => ∀ s ∈ v.settled, s.checked = s.head) hw
    fun _ _ _ ht ok fires => settles_step ok fires ht

/-- Over any run, with polls, quota answers, fix rounds, pushes of others, crashes and re-entries: a
settled head is the one attested last, on rows that pass in every blocking job; each fix round is charged
and their number is within the limit; and as long as the head stays where the poll has seen it when the
checks pass, the rows are those of the head settled. -/
theorem watch_settles_attested [DecidableEq Oid] (config : CiConfig) (prHead : Oid) (w : CiWorld Oid)
    (h : Reaches (CiWorld.step config) (fun _ _ => True) (.start prHead) w) :
    (∀ s ∈ w.settled, AllPassed blockingPrefixes s.rows ∧ s.attested = some s.head) ∧
    (∀ head, w.phase = .idle (some (.done head)) → ∃ s ∈ w.settled, s.head = head) ∧
    (∀ record, w.record = some record → w.started ≤ record.ciRoundsUsed) ∧
    w.started ≤ config.fixLimit ∧
    (Reaches (CiWorld.step config) HeadStays (.start prHead) w → ∀ s ∈ w.settled, s.checked = s.head) := by
  have hw := watched_run h (watched_start config prHead)
  refine ⟨hw.settled, hw.done, hw.charged, hw.limit, fun hstays => settles_run hstays nofun⟩

/-- One row for each blocking job. -/
def jobRows (bucket : JsString) : List CheckRow :=
  blockingPrefixes.map fun job => ⟨some job, some bucket, none⟩

/-- Head 7 is red, a fix round attests and pushes 8, and that passes. -/
def fixedWatch : List (CiEvent Nat) :=
  [.attests 7, .enters 0, .views true, .checks (some (jobRows (js "fail"))) 60000, .samples true 0 0,
    .starts, .attests 8, .moves 8, .fixEnds true 90000, .views true,
    .checks (some (jobRows (js "pass"))) 150000]

def watchConfig : CiConfig := ⟨1800000, 2, 3⟩

theorem watch_settles_attested_fixed : ∃ w : CiWorld Nat,
    (w.phase = .idle (some (.done 8)) ∧ w.started = 1) ∧
    (∀ s ∈ w.settled, AllPassed blockingPrefixes s.rows ∧ s.attested = some s.head) ∧
    (∃ s ∈ w.settled, s.head = 8) ∧
    (∀ record, w.record = some record → w.started ≤ record.ciRoundsUsed) ∧ w.started ≤ 2 ∧
    ∀ s ∈ w.settled, s.checked = s.head := by
  have hrun : (play (CiWorld.step watchConfig) HeadStays (.start 7) fixedWatch).any (fun w =>
      (match w.phase with | .idle outcome => decide (outcome = some (.done 8)) | _ => false) &&
        decide (w.started = 1)) = true := by decide +kernel
  obtain ⟨w, hw, hends⟩ := exists_reaches_of_play hrun
  rw [Bool.and_eq_true, decide_eq_true_eq] at hends
  have hphase : w.phase = .idle (some (.done 8)) := by
    cases hp : w.phase with
    | idle outcome =>
      rw [hp] at hends
      rw [of_decide_eq_true hends.1]
    | _ =>
      rw [hp] at hends
      cases hends.1
  obtain ⟨hsettled, hdone, hcharged, hlimit, hstays⟩ :=
    watch_settles_attested watchConfig 7 w (hw.weaken fun _ _ _ => trivial)
  exact ⟨w, ⟨hphase, hends.2⟩, hsettled, hdone 8 hphase, hcharged, hlimit, hstays hw⟩

/-- Another party pushes head 9 between the two reads of a poll: its checks settle head 7. -/
def overtakenWatch : List (CiEvent Nat) :=
  [.attests 7, .enters 0, .views true, .moves 9, .checks (some (jobRows (js "pass"))) 60000]

theorem watch_settles_other_checks : ¬ ∀ (config : CiConfig) (prHead : Nat) (w : CiWorld Nat),
    Reaches (CiWorld.step config) (fun _ _ => True) (.start prHead) w →
      ∀ s ∈ w.settled, s.checked = s.head := by
  intro hall
  have hrun : (play (CiWorld.step watchConfig) (fun _ _ => True) (.start 7) overtakenWatch).any
      (fun w => w.settled.any fun s => decide (s.checked ≠ s.head)) = true := by decide +kernel
  obtain ⟨w, hw, hends⟩ := exists_reaches_of_play hrun
  obtain ⟨s, hs, hother⟩ := List.any_eq_true.1 hends
  exact of_decide_eq_true hother (hall watchConfig 7 w hw s hs)

end Adlc.Autopilot
