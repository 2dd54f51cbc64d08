import Adlc.BacklogGroom.Licensed

namespace Adlc.BacklogGroom

open Adlc.Framework

/-! ## The tracker -/

/-- The ledger file (`none`: it cannot be read) and the tracker: its issues, how often each was
changed, and its comments. The tool's comments and mutations are listed as they land; `again` are the
mutations of actions that the ledger file recorded as applied. -/
structure Backlog where
  ledger : Option Ledger
  issues : Nat → Option Issue
  revision : Nat → Nat
  comments : Nat → List Comment
  posted : List Action
  performed : List Action
  again : List Action

/-- The issues that carry a comment of the runs. -/
def Backlog.touched (b : Backlog) : List Nat := b.posted.map (·.number)

/-- Every comment was followed by its mutation. -/
def Backlog.Settled (b : Backlog) : Prop := ∀ action ∈ b.posted, action ∈ b.performed

/-- Where a run may stop: no comment lacks its mutation, and the ledger file was not cut short. -/
def Backlog.Undisturbed (b : Backlog) : Prop := b.Settled ∧ b.ledger.isSome = true

/-- What the runs share: the hashes, the times that the tracker gives, the operator and the run. A run
that knows who it is has the operator's identity. -/
structure Sweep where
  hashes : Hashes
  stamp : Nat → JsString
  operator : JsString
  run : ApplyRun
  signed : ∀ key text, hashes.hmac key text ≠ []
  stamped : ∀ n, stamp n ≠ []
  identity : run.self.getD [] ≠ [] → run.self = some operator

/-- `gh issue edit --remove-label … --add-label …`; a close changes nothing that is read here. -/
def Issue.changedBy (action : Action) (issue : Issue) : Issue :=
  match action.action with
  | .close => issue
  | .relabel =>
    { issue with
      labels := issue.labels.filter (fun label => some label ≠ action.fromLabel) ++ action.toLabel.toList }

namespace Sweep

variable (sweep : Sweep)

/-- Every change of an issue advances its `updatedAt`. -/
def touch (b : Backlog) (number : Nat) (change : Issue → Issue) : Backlog :=
  { b with
    issues := Function.update b.issues number ((b.issues number).map fun issue =>
      { change issue with updatedAt := some (sweep.stamp (b.revision number + 1)) })
    revision := Function.update b.revision number (b.revision number + 1) }

def post (b : Backlog) (action : Action) (body : JsString) : Backlog :=
  { sweep.touch b action.number id with
    comments := Function.update b.comments action.number
      (⟨body, some sweep.operator⟩ :: b.comments action.number)
    posted := action :: b.posted }

/-- The ledger records the action as applied. -/
def recorded (ledger : Ledger) (action : Action) : Bool :=
  (ledgerEntryFor sweep.hashes ledger action sweep.run.key).any (·.applied)

def approves (ledger : Ledger) (action : Action) : Bool :=
  ledgerApproves sweep.hashes ledger action sweep.run.key

def mutate (b : Backlog) (action : Action) : Backlog :=
  { sweep.touch b action.number (Issue.changedBy action) with
    performed := action :: b.performed
    again := if b.ledger.any (sweep.recorded · action) then action :: b.again else b.again }

/-- What a call does, also when it raises. -/
def does (b : Backlog) : (call : GroomCall) → Except GroomError call.Answer → Backlog → Prop
  | .fetchIssue number, .ok issue, t => issue = b.issues number ∧ t = b
  | .comments number, .ok existing, t => existing = b.comments number ∧ t = b
  | .comment _ action body, .ok _, t => t = sweep.post b action body
  | .comment _ action body, .error _, t => t = sweep.post b action body ∨ t = b
  | .apply action, .ok _, t => t = sweep.mutate b action
  | .apply action, .error _, t => t = sweep.mutate b action ∨ t = b
  | .persist ledger, .ok _, t => t = { b with ledger := some ledger }
  | .persist ledger, .error _, t =>
    t = { b with ledger := some ledger } ∨ t = { b with ledger := none } ∨ t = b
  | _, _, t => t = b

/-- A call that does not fail; a review may end as it likes. -/
def Succeeds : (call : GroomCall) → Except GroomError call.Answer → Prop
  | .runReview _ _ _, _ => True
  | _, .ok _ => True
  | _, .error _ => False

/-- How the tracker and the file serve the calls, with `clean` without failures. -/
def serves (clean : Prop) : Dialogue.Serves GroomError Backlog GroomCall GroomCall.Answer :=
  fun b call r t => sweep.does b call r t ∧ (clean → Succeeds call r)

/-- The run is started on the ledger file. -/
def starts (b : Backlog) (p : Groom ApplyReport) : Prop :=
  ∃ ledger, b.ledger = some ledger ∧ p = applyRun sweep.hashes sweep.run ledger

/-- Runs of the same set, with nobody else touching the issues. -/
abbrev Reruns (stops : Backlog → Prop) (s b : Backlog) : Prop :=
  Dialogue.History (sweep.serves False) sweep.starts stops (fun _ _ => False) s b

/-! ## What the set asks for -/

/-- The action as it is revalidated on the issue, if it is. -/
def readyOf (b : Backlog) (action : Action) : Option Action :=
  (b.issues action.number).bind fun issue =>
    match revalidate sweep.run.facts sweep.run.profile action issue with
    | .ok check => some (action.withCheck check)
    | .error _ => none

/-- The actions of the set that hold of the issues. -/
def ready (b : Backlog) : List Action := (actionsFromSet sweep.run.set).filterMap (sweep.readyOf b)

def Permitted (action : Action) : Prop :=
  blockedByFloor action.action sweep.run.profile.autonomyFloor = false

/-- The set was groomed before: none of its times is one of a later change. And no comment of the
operator has the marker of one of its actions. -/
structure Fresh (s : Backlog) : Prop where
  groomed : ∀ action ∈ actionsFromSet sweep.run.set, ∀ n, action.updatedAt = some (sweep.stamp n) →
    n ≤ s.revision action.number
  unmarked : ∀ action ∈ actionsFromSet sweep.run.set, ∀ comment ∈ s.comments action.number,
    comment.author = some sweep.operator → ¬marker action <:+: comment.body
  empty : s.posted = [] ∧ s.performed = [] ∧ s.again = []
  readable : s.ledger.isSome = true

/-! ## What the runs keep -/

/-- The invariant of the runs that began at `s`. -/
structure Kept (s b : Backlog) : Prop where
  untouched : ∀ n, n ∉ b.touched → b.issues n = s.issues n ∧ b.comments n = s.comments n
  revision : ∀ n, s.revision n ≤ b.revision n
  touched : ∀ n ∈ b.touched, s.revision n < b.revision n ∧
    ∀ issue, b.issues n = some issue → issue.updatedAt = some (sweep.stamp (b.revision n))
  single : b.touched.Nodup
  evidence : ∀ action ∈ b.posted, ⟨renderComment action, some sweep.operator⟩ ∈ b.comments action.number
  wanted : ∀ action ∈ b.posted, action ∈ sweep.ready s ∧ sweep.Permitted action
  licensed : ∀ ledger, b.ledger = some ledger → ∀ action ∈ b.posted, sweep.approves ledger action = true
  performed : ∀ action ∈ b.performed, action ∈ b.posted
  once : b.performed.Nodup
  again : b.again = []

variable {sweep} {s b t : Backlog} {action : Action} {ledger : Ledger}

theorem readyOf_iff {ready : Action} : sweep.readyOf b action = some ready ↔ ∃ issue check,
    b.issues action.number = some issue ∧
      revalidate sweep.run.facts sweep.run.profile action issue = .ok check ∧
      ready = action.withCheck check := by
  constructor
  · intro h
    obtain ⟨issue, hissue, hready⟩ := Option.bind_eq_some_iff.1 h
    cases hcheck : revalidate sweep.run.facts sweep.run.profile action issue with
    | error stale =>
      rw [hcheck] at hready
      exact absurd hready (by simp)
    | ok check =>
      rw [hcheck] at hready
      cases hready
      exact ⟨issue, check, hissue, hcheck, rfl⟩
  · intro h
    obtain ⟨issue, check, hissue, hcheck, hready⟩ := h
    unfold readyOf
    rw [hissue, Option.bind_some, hcheck, hready]

theorem mem_ready {ready : Action} : ready ∈ sweep.ready b ↔
    ∃ action ∈ actionsFromSet sweep.run.set, sweep.readyOf b action = some ready :=
  List.mem_filterMap

theorem slotted_of_ready (h : action ∈ sweep.ready b) : action.Slotted := by
  obtain ⟨asked, hasked, hready⟩ := mem_ready.1 h
  obtain ⟨issue, check, -, hcheck, haction⟩ := readyOf_iff.1 hready
  rw [haction]
  exact revalidate_slotted (actionsFromSet_field hasked) hcheck

/-- Revalidation does not look at what it gives to an action. -/
theorem revalidate_withCheck (facts : Facts) (profile : Profile) (action : Action) (check : Revalidated)
    (issue : Issue) :
    revalidate facts profile (action.withCheck check) issue = revalidate facts profile action issue := rfl

theorem revalidate_updatedAt {facts : Facts} {profile : Profile} {issue : Issue} {check : Revalidated}
    (h : revalidate facts profile action issue = .ok check) (hsome : issue.updatedAt.getD [] ≠ []) :
    issue.updatedAt = action.updatedAt := by
  by_contra hne
  have hchanged : issue.updatedAt.getD [] ≠ [] ∧ issue.updatedAt ≠ action.updatedAt := ⟨hsome, hne⟩
  dsimp only [revalidate] at h
  rw [if_pos hchanged] at h
  repeat' split at h
  all_goals exact absurd h (by simp)

/-- An action that still holds is on an issue that the runs have not touched. -/
theorem Kept.untouched_of_ready (h : sweep.Kept s b) (hfresh : sweep.Fresh s) {asked : Action}
    (hasked : asked ∈ actionsFromSet sweep.run.set) (hready : sweep.readyOf b asked = some action) :
    asked.number ∉ b.touched := by
  intro htouched
  obtain ⟨issue, check, hissue, hcheck, -⟩ := readyOf_iff.1 hready
  obtain ⟨hless, htime⟩ := h.touched _ htouched
  have htime := htime issue hissue
  have hsome : issue.updatedAt.getD [] ≠ [] := by
    rw [htime]
    exact sweep.stamped _
  have hsame := revalidate_updatedAt hcheck hsome
  have hold := hfresh.groomed asked hasked _ (hsame.symm.trans htime)
  omega

theorem Kept.ready_start (h : sweep.Kept s b) (hfresh : sweep.Fresh s) {asked : Action}
    (hasked : asked ∈ actionsFromSet sweep.run.set) (hready : sweep.readyOf b asked = some action) :
    sweep.readyOf s asked = some action := by
  have hissues := (h.untouched _ (h.untouched_of_ready hfresh hasked hready)).1
  unfold readyOf at hready ⊢
  rw [← hissues]
  exact hready

theorem Kept.ready_now (h : sweep.Kept s b) {asked : Action} (hready : sweep.readyOf s asked = some action)
    (huntouched : asked.number ∉ b.touched) : sweep.readyOf b asked = some action := by
  unfold readyOf at hready ⊢
  rw [(h.untouched _ huntouched).1]
  exact hready

theorem Kept.revision_touch (h : sweep.Kept s b) {number : Nat} (change : Issue → Issue) (n : Nat) :
    s.revision n ≤ (sweep.touch b number change).revision n := by
  show s.revision n ≤ Function.update b.revision number _ n
  have hold := h.revision n
  by_cases hn : n = number
  · subst hn
    rw [Function.update_self]
    omega
  · rw [Function.update_of_ne hn]
    exact hold

/-- A change of an issue gives it the time of a later revision. -/
theorem Kept.touched_touch (h : sweep.Kept s b) {number : Nat} (change : Issue → Issue) (n : Nat)
    (hn : n = number ∨ n ∈ b.touched) : s.revision n < (sweep.touch b number change).revision n ∧
      ∀ issue, (sweep.touch b number change).issues n = some issue →
        issue.updatedAt = some (sweep.stamp ((sweep.touch b number change).revision n)) := by
  show s.revision n < Function.update b.revision number _ n ∧
    ∀ issue, Function.update b.issues number _ n = some issue →
      issue.updatedAt = some (sweep.stamp (Function.update b.revision number _ n))
  by_cases hsame : n = number
  · subst hsame
    rw [Function.update_self, Function.update_self]
    have hold := h.revision n
    refine ⟨by omega, fun issue hissue => ?_⟩
    obtain ⟨before, -, hbefore⟩ := Option.map_eq_some_iff.1 hissue
    rw [← hbefore]
  · rw [Function.update_of_ne hsame, Function.update_of_ne hsame]
    exact h.touched n (hn.resolve_left hsame)

theorem Kept.post (h : sweep.Kept s b) (hready : action ∈ sweep.ready s) (hpermitted : sweep.Permitted action)
    (huntouched : action.number ∉ b.touched)
    (hlicence : ∀ ledger, b.ledger = some ledger → sweep.approves ledger action = true) :
    sweep.Kept s (sweep.post b action (renderComment action)) := by
  have hmem : ∀ n, n ∈ (sweep.post b action (renderComment action)).touched ↔
      n = action.number ∨ n ∈ b.touched := fun n => List.mem_cons
  constructor
  · intro n hn
    obtain ⟨hne, hn⟩ := not_or.1 (mt (hmem n).2 hn)
    obtain ⟨hissues, hcomments⟩ := h.untouched n hn
    constructor
    · show Function.update b.issues action.number _ n = s.issues n
      rw [Function.update_of_ne hne, hissues]
    · show Function.update b.comments action.number _ n = s.comments n
      rw [Function.update_of_ne hne, hcomments]
  · exact h.revision_touch id
  · exact fun n hn => h.touched_touch id n ((hmem n).1 hn)
  · exact List.nodup_cons.2 ⟨huntouched, h.single⟩
  · intro other hother
    show _ ∈ Function.update b.comments action.number _ other.number
    rcases List.mem_cons.1 hother with hother | hother
    · rw [hother, Function.update_self]
      exact List.mem_cons_self
    · have hne : other.number ≠ action.number := by
        intro hsame
        exact huntouched (hsame ▸ List.mem_map_of_mem hother)
      rw [Function.update_of_ne hne]
      exact h.evidence other hother
  · intro other hother
    rcases List.mem_cons.1 hother with hother | hother
    · rw [hother]
      exact ⟨hready, hpermitted⟩
    · exact h.wanted other hother
  · intro ledger hledger other hother
    rcases List.mem_cons.1 hother with hother | hother
    · rw [hother]
      exact hlicence ledger hledger
    · exact h.licensed ledger hledger other hother
  · exact fun other hother => List.mem_cons_of_mem action (h.performed other hother)
  · exact h.once
  · exact h.again

theorem Kept.mutate (h : sweep.Kept s b) (hposted : action ∈ b.posted) (hnew : action ∉ b.performed)
    (hunrecorded : b.ledger.any (sweep.recorded · action) = false) :
    sweep.Kept s (sweep.mutate b action) := by
  have hnumber : action.number ∈ b.touched := List.mem_map_of_mem hposted
  constructor
  · intro n hn
    have hne : n ≠ action.number := fun hsame => hn (hsame ▸ hnumber)
    obtain ⟨hissues, hcomments⟩ := h.untouched n hn
    refine ⟨?_, hcomments⟩
    show Function.update b.issues action.number _ n = s.issues n
    rw [Function.update_of_ne hne, hissues]
  · exact h.revision_touch (Issue.changedBy action)
  · exact fun n hn => h.touched_touch (Issue.changedBy action) n (Or.inr hn)
  · exact h.single
  · exact h.evidence
  · exact h.wanted
  · exact h.licensed
  · intro other hother
    rcases List.mem_cons.1 hother with hother | hother
    · rw [hother]
      exact hposted
    · exact h.performed other hother
  · exact List.nodup_cons.2 ⟨hnew, h.once⟩
  · show (if b.ledger.any (sweep.recorded · action) then action :: b.again else b.again) = []
    rw [hunrecorded]
    exact h.again

theorem Kept.file (h : sweep.Kept s b) {file : Option Ledger}
    (hlicensed : ∀ ledger, file = some ledger → ∀ action ∈ b.posted, sweep.approves ledger action = true) :
    sweep.Kept s { b with ledger := file } where
  untouched := h.untouched
  revision := h.revision
  touched := h.touched
  single := h.single
  evidence := h.evidence
  wanted := h.wanted
  licensed := hlicensed
  performed := h.performed
  once := h.once
  again := h.again

/-! ## Licences -/

/-- The signed entry about the action in its slot. -/
theorem entryFor_iff {content : EntryContent} :
    ledgerEntryFor sweep.hashes ledger action sweep.run.key = some content ↔
      ∃ sig, ledger (gateKey action) = some (.entry ⟨content, sig⟩) ∧
        verifyLedgerEntry sweep.hashes sweep.run.key (some (.entry ⟨content, sig⟩)) = true ∧
        entryBindsAction sweep.hashes content action = true := by
  unfold ledgerEntryFor
  constructor
  · intro h
    split at h
    · rename_i entry hentry
      split_ifs at h with hboth
      cases h
      exact ⟨entry.sig, hentry, hboth.1, hboth.2⟩
    · exact absurd h (by simp)
  · intro h
    obtain ⟨sig, hslot, hsig, hbinds⟩ := h
    rw [hslot]
    exact if_pos ⟨hsig, hbinds⟩

theorem approves_iff : sweep.approves ledger action = true ↔ ∃ content,
    ledgerEntryFor sweep.hashes ledger action sweep.run.key = some content ∧ content.verdict = .approve := by
  unfold approves ledgerApproves
  rw [Option.any_eq_true]
  simp

theorem recorded_iff : sweep.recorded ledger action = true ↔ ∃ content,
    ledgerEntryFor sweep.hashes ledger action sweep.run.key = some content ∧ content.applied = true := by
  unfold recorded
  rw [Option.any_eq_true]

/-- What a ledger says of an action is in the action's slot. -/
theorem entryFor_set_other {place : JsString} {value : LedgerValue} (hother : gateKey action ≠ place) :
    ledgerEntryFor sweep.hashes (ledger.set place value) action sweep.run.key =
      ledgerEntryFor sweep.hashes ledger action sweep.run.key := by
  unfold ledgerEntryFor
  rw [Ledger.set, Function.update_of_ne hother]

/-- What the mark of a performed action leaves as it was. -/
structure Grows (old new : Ledger) : Prop where
  approves : ∀ action, sweep.approves new action = sweep.approves old action
  recorded : ∀ action, sweep.recorded old action = true → sweep.recorded new action = true

theorem Grows.refl : sweep.Grows ledger ledger := ⟨fun _ => rfl, fun _ h => h⟩

theorem Grows.trans {old mid new : Ledger} (h : sweep.Grows old mid) (h' : sweep.Grows mid new) :
    sweep.Grows old new :=
  ⟨fun action => (h'.approves action).trans (h.approves action),
    fun action hold => h'.recorded action (h.recorded action hold)⟩

/-- A signed entry in the slot of an action tells of it when it is about it. -/
theorem entryFor_of_slot {entry : LedgerEntry} (hslot : ledger (gateKey action) = some (.entry entry))
    (hsig : verifyLedgerEntry sweep.hashes sweep.run.key (some (.entry entry)) = true) :
    ledgerEntryFor sweep.hashes ledger action sweep.run.key =
      if entryBindsAction sweep.hashes entry.content action then some entry.content else none := by
  unfold ledgerEntryFor
  rw [hslot]
  simp only [hsig, true_and]

theorem markApplied_eq (h : sweep.approves ledger action = true) : ∃ old new : LedgerEntry,
    ledger (gateKey action) = some (.entry old) ∧
      verifyLedgerEntry sweep.hashes sweep.run.key (some (.entry old)) = true ∧
      entryBindsAction sweep.hashes old.content action = true ∧
      markApplied sweep.hashes sweep.run.key action ledger = ledger.set (gateKey action) (.entry new) ∧
      verifyLedgerEntry sweep.hashes sweep.run.key (some (.entry new)) = true ∧
      new.content = { old.content with applied := true } := by
  obtain ⟨content, hentry, -⟩ := approves_iff.1 h
  obtain ⟨sig, hslot, hsig, hbinds⟩ := entryFor_iff.1 hentry
  cases hkey : sweep.run.key with
  | none =>
    rw [hkey] at hsig
    exact absurd hsig (by simp [verifyLedgerEntry])
  | some key =>
    rw [hkey] at hsig
    have hne : key ≠ [] := by
      intro hnil
      rw [hnil] at hsig
      exact absurd hsig (by simp [verifyLedgerEntry])
    have hfull := sweep.signed key (ledgerEntryBytes { content with applied := true })
    refine ⟨_, sealLedgerEntry sweep.hashes key { content with applied := true }, hslot, hsig, hbinds,
      ?_, ?_, rfl⟩
    · unfold markApplied
      rw [hslot]
    · simp [verifyLedgerEntry, sealLedgerEntry, signLedgerEntry, hne, hfull]

theorem markApplied_grows (h : sweep.approves ledger action = true) :
    sweep.Grows ledger (markApplied sweep.hashes sweep.run.key action ledger) ∧
      sweep.recorded (markApplied sweep.hashes sweep.run.key action ledger) action = true := by
  obtain ⟨old, new, hslot, hold, hbinds, hmark, hnew, hcontent⟩ := markApplied_eq h
  rw [hmark]
  have hplace : ∀ other, gateKey other = gateKey action →
      (ledger.set (gateKey action) (.entry new)) (gateKey other) = some (.entry new) := by
    intro other hother
    rw [hother, Ledger.set, Function.update_self]
  -- an action of the same slot is bound by the new entry exactly when it was by the old
  have hbound : ∀ other, entryBindsAction sweep.hashes new.content other =
      entryBindsAction sweep.hashes old.content other := by
    intro other
    rw [hcontent]
    rfl
  refine ⟨⟨fun other => ?_, fun other hrecorded => ?_⟩, ?_⟩
  · by_cases hother : gateKey other = gateKey action
    · have hslot' : ledger (gateKey other) = some (.entry old) := by rw [hother, hslot]
      unfold approves ledgerApproves
      rw [entryFor_of_slot (hplace other hother) hnew, entryFor_of_slot hslot' hold, hbound other, hcontent]
      split_ifs <;> rfl
    · unfold approves ledgerApproves
      rw [entryFor_set_other hother]
  · by_cases hother : gateKey other = gateKey action
    · have hslot' : ledger (gateKey other) = some (.entry old) := by rw [hother, hslot]
      unfold recorded at hrecorded ⊢
      rw [entryFor_of_slot hslot' hold] at hrecorded
      rw [entryFor_of_slot (hplace other hother) hnew, hbound other, hcontent]
      split_ifs at hrecorded ⊢
      · rfl
      · exact hrecorded
    · unfold recorded
      rw [entryFor_set_other hother]
      exact hrecorded
  · unfold recorded
    rw [entryFor_of_slot (hplace action rfl) hnew, hbound action, hbinds, hcontent]
    rfl

/-! ## The calls -/

variable {clean : Prop} {α : Type}

theorem serves_fetch {number : Nat} {r : Except GroomError (Option Issue)}
    (h : sweep.serves clean b (.fetchIssue number) r t) :
    t = b ∧ (r = .ok (b.issues number) ∨ (∃ e, r = .error e) ∧ ¬clean) := by
  obtain ⟨hdoes, hclean⟩ := h
  cases r with
  | ok issue => exact ⟨hdoes.2, Or.inl (congrArg Except.ok hdoes.1)⟩
  | error e => exact ⟨hdoes, Or.inr ⟨⟨e, rfl⟩, hclean⟩⟩

theorem serves_comments {number : Nat} {r : Except GroomError (List Comment)}
    (h : sweep.serves clean b (.comments number) r t) :
    t = b ∧ (r = .ok (b.comments number) ∨ (∃ e, r = .error e) ∧ ¬clean) := by
  obtain ⟨hdoes, hclean⟩ := h
  cases r with
  | ok existing => exact ⟨hdoes.2, Or.inl (congrArg Except.ok hdoes.1)⟩
  | error e => exact ⟨hdoes, Or.inr ⟨⟨e, rfl⟩, hclean⟩⟩

theorem Kept.persists (h : sweep.Kept s b) {r : Except GroomError Unit}
    (hlicensed : ∀ action ∈ b.posted, sweep.approves ledger action = true)
    (hserves : sweep.serves clean b (.persist ledger) r t) :
    sweep.Kept s t ∧ (r = .ok () ∧ t = { b with ledger := some ledger } ∨ (∃ e, r = .error e) ∧ ¬clean) := by
  have hwritten : sweep.Kept s { b with ledger := some ledger } := by
    refine h.file fun new hnew => ?_
    cases hnew
    exact hlicensed
  obtain ⟨hdoes, hclean⟩ := hserves
  cases r with
  | ok _ =>
    have ht : t = { b with ledger := some ledger } := hdoes
    rw [ht]
    exact ⟨hwritten, Or.inl ⟨rfl, rfl⟩⟩
  | error e =>
    refine ⟨?_, Or.inr ⟨⟨e, rfl⟩, hclean⟩⟩
    rcases hdoes with ht | ht | ht
    · rw [ht]
      exact hwritten
    · rw [ht]
      exact h.file fun new hnew => nomatch hnew
    · rw [ht]
      exact h

/-! ## Execution -/

variable (sweep clean) in
/-- What an execution that began at `b` has come to. -/
structure Executed (s b : Backlog) (old new : Ledger) (t : Backlog) : Prop where
  kept : sweep.Kept s t
  file : t.ledger = some new
  grows : sweep.Grows old new
  touched : ∀ n ∈ b.touched, n ∈ t.touched
  settled : clean → b.Settled → t.Settled

theorem Executed.refl (h : sweep.Kept s b) (hfile : b.ledger = some ledger) :
    sweep.Executed clean s b ledger ledger b :=
  ⟨h, hfile, .refl, fun _ hn => hn, fun _ hsettled => hsettled⟩

theorem Executed.trans {u : Backlog} {mid new : Ledger} (h : sweep.Executed clean s b ledger mid t)
    (h' : sweep.Executed clean s t mid new u) : sweep.Executed clean s b ledger new u :=
  ⟨h'.kept, h'.file, h.grows.trans h'.grows, fun n hn => h'.touched n (h.touched n hn),
    fun hclean hsettled => h'.settled hclean (h.settled hclean hsettled)⟩

variable (sweep clean) in
/-- A part of the execution that comes, without failures, to a goal. -/
def Executes (s b : Backlog) (old : Ledger) (goal : Ledger → Backlog → Prop) (p : Groom (α × Ledger))
    (c : Backlog) : Prop :=
  p.Safe (sweep.serves clean) (sweep.Kept s) (fun result t => match result with
    | .ok (_, new) => sweep.Executed clean s b old new t ∧ (clean → goal new t)
    | .error _ => ¬clean) c

/-- The mutation of an action whose comment has landed since `b`. -/
theorem perform_executes {c : Backlog} (h : sweep.Kept s c) (hfile : c.ledger = some ledger)
    (happroves : sweep.approves ledger action = true) (hunrecorded : sweep.recorded ledger action = false)
    (hposted : action ∈ c.posted) (hnew : action ∉ c.performed) (htouched : ∀ n ∈ b.touched, n ∈ c.touched)
    (hsettled : b.Settled → ∀ other ∈ c.posted, other = action ∨ other ∈ c.performed) (resumed : Bool) :
    sweep.Executes clean s b ledger (fun _ t => action.number ∈ t.touched)
      (perform sweep.hashes sweep.run action resumed ledger) c := by
  have hnumber : action.number ∈ c.touched := List.mem_map_of_mem hposted
  have hmutated : sweep.Kept s (sweep.mutate c action) := by
    apply h.mutate hposted hnew
    rw [hfile]
    exact hunrecorded
  intro r t hserves
  obtain ⟨hdoes, hclean⟩ := hserves
  cases r with
  | error e =>
    have hkept : sweep.Kept s t ∧ t.ledger = some ledger ∧ ∀ n ∈ c.touched, n ∈ t.touched := by
      rcases hdoes with ht | ht
      · rw [ht]
        exact ⟨hmutated, hfile, fun n hn => hn⟩
      · rw [ht]
        exact ⟨h, hfile, fun n hn => hn⟩
    refine ⟨hkept.1, ⟨hkept.1, hkept.2.1, .refl, ?_, fun hc => absurd (hclean hc) id⟩, fun hc => absurd (hclean hc) id⟩
    exact fun n hn => hkept.2.2 n (htouched n hn)
  | ok _ =>
    have ht : t = sweep.mutate c action := hdoes
    subst ht
    refine ⟨hmutated, ?_⟩
    obtain ⟨hgrows, -⟩ := markApplied_grows happroves
    intro r u hserves
    have hlicensed : ∀ other ∈ (sweep.mutate c action).posted,
        sweep.approves (markApplied sweep.hashes sweep.run.key action ledger) other = true := by
      intro other hother
      rw [hgrows.approves]
      exact h.licensed ledger hfile other hother
    obtain ⟨hkept, ⟨hr, hu⟩ | ⟨⟨e, hr⟩, hfailed⟩⟩ := hmutated.persists hlicensed hserves
    · subst hr
      refine ⟨hkept, ?_⟩
      subst hu
      refine ⟨⟨hkept, rfl, hgrows, htouched, fun _ hb other hother => ?_⟩, fun _ => hnumber⟩
      rcases hsettled hb other hother with hother | hother
      · rw [hother]
        exact List.mem_cons_self
      · exact List.mem_cons_of_mem action hother
    · subst hr
      exact ⟨hkept, hfailed⟩

/-- No comment on an untouched issue is taken for that of the action. -/
theorem Kept.notCommented (h : sweep.Kept s b) (hfresh : sweep.Fresh s) (hready : action ∈ sweep.ready s)
    (huntouched : action.number ∉ b.touched) :
    alreadyCommented sweep.run.self action (b.comments action.number) = false := by
  obtain ⟨asked, hasked, haction⟩ := mem_ready.1 hready
  obtain ⟨issue, check, -, -, haction⟩ := readyOf_iff.1 haction
  rw [(h.untouched _ huntouched).2, ← Bool.not_eq_true]
  intro hcommented
  obtain ⟨comment, hcomment, hown⟩ := List.any_eq_true.1 hcommented
  obtain ⟨⟨hmarker, hself⟩, hauthor⟩ : (marker action <:+: comment.body ∧ sweep.run.self.getD [] ≠ []) ∧
      comment.author = sweep.run.self := by
    simpa using hown
  rw [sweep.identity hself] at hauthor
  rw [haction] at hcomment hmarker
  exact hfresh.unmarked asked hasked comment hcomment hauthor hmarker

theorem commentAndPerform_executes (h : sweep.Kept s b) (hfresh : sweep.Fresh s)
    (hfile : b.ledger = some ledger) (hready : action ∈ sweep.ready s) (hpermitted : sweep.Permitted action)
    (huntouched : action.number ∉ b.touched) (happroves : sweep.approves ledger action = true)
    (hunrecorded : sweep.recorded ledger action = false) :
    sweep.Executes clean s b ledger (fun _ t => action.number ∈ t.touched)
      (commentAndPerform sweep.hashes sweep.run action ledger) b := by
  have hlicence : ∀ new, b.ledger = some new → sweep.approves new action = true := by
    intro new hnew
    rw [hfile] at hnew
    cases hnew
    exact happroves
  have hposted := h.post hready hpermitted huntouched hlicence
  have hunposted : action ∉ b.posted := fun hmem => huntouched (List.mem_map_of_mem hmem)
  intro r t hserves
  obtain ⟨ht, hr | ⟨⟨e, hr⟩, hfailed⟩⟩ := serves_comments hserves
  · subst t hr
    refine ⟨h, ?_⟩
    dsimp only
    rw [h.notCommented hfresh hready huntouched]
    intro r t hserves
    obtain ⟨hdoes, hclean⟩ := hserves
    cases r with
    | error e =>
      have hkept : sweep.Kept s t ∧ t.ledger = some ledger ∧ ∀ n ∈ b.touched, n ∈ t.touched := by
        rcases hdoes with ht | ht
        · rw [ht]
          exact ⟨hposted, hfile, fun n hn => List.mem_cons_of_mem _ hn⟩
        · rw [ht]
          exact ⟨h, hfile, fun n hn => hn⟩
      exact ⟨hkept.1, ⟨hkept.1, hkept.2.1, .refl, hkept.2.2, fun hc => absurd (hclean hc) id⟩,
        fun hc => absurd (hclean hc) id⟩
    | ok _ =>
      have ht : t = sweep.post b action (renderComment action) := hdoes
      subst ht
      refine ⟨hposted, ?_⟩
      refine perform_executes hposted hfile happroves hunrecorded List.mem_cons_self ?_ ?_ ?_ false
      · exact fun hperformed => hunposted (h.performed action hperformed)
      · exact fun n hn => List.mem_cons_of_mem _ hn
      · intro hb other hother
        rcases List.mem_cons.1 hother with hother | hother
        · exact Or.inl hother
        · exact Or.inr (hb other hother)
  · subst t hr
    exact ⟨h, Executed.refl h hfile, fun hc => absurd hc hfailed⟩

/-- After its turn a licensed action that is permitted is recorded, or its issue has a comment. -/
theorem executeAction_executes (h : sweep.Kept s b) (hfresh : sweep.Fresh s)
    (hfile : b.ledger = some ledger) (hready : action ∈ sweep.ready s) :
    sweep.Executes clean s b ledger (fun new t => sweep.approves ledger action = true →
        sweep.Permitted action → action.number ∈ t.touched ∨ sweep.recorded new action = true)
      (executeAction sweep.hashes sweep.run action ledger) b := by
  have stays : ∀ outcome, (sweep.approves ledger action = true → sweep.Permitted action →
        action.number ∈ b.touched ∨ sweep.recorded ledger action = true) →
      sweep.Executes clean s b ledger (fun new t => sweep.approves ledger action = true →
        sweep.Permitted action → action.number ∈ t.touched ∨ sweep.recorded new action = true)
      (pure (outcome, ledger) : Groom (Outcome × Ledger)) b :=
    fun outcome hgoal => ⟨Executed.refl h hfile, fun _ => hgoal⟩
  unfold executeAction
  split_ifs with hrecorded hblocked hlicence
  · exact stays _ fun _ _ => Or.inr hrecorded
  · refine stays _ fun _ hpermitted => ?_
    unfold Permitted at hpermitted
    rw [hblocked] at hpermitted
    exact absurd hpermitted (by simp)
  · refine stays _ fun happroves _ => ?_
    unfold approves at happroves
    rw [happroves] at hlicence
    exact absurd hlicence (by simp)
  · have happroves : sweep.approves ledger action = true := by simpa [approves] using hlicence
    have hunrecorded : sweep.recorded ledger action = false := by simpa [recorded] using hrecorded
    have hpermitted : sweep.Permitted action := by simpa [Permitted] using hblocked
    obtain ⟨asked, hasked, haction⟩ := mem_ready.1 hready
    obtain ⟨before, given, hbefore, hgiven, haction⟩ := readyOf_iff.1 haction
    intro r t hserves
    obtain ⟨ht, hr⟩ := serves_fetch hserves
    subst t
    refine ⟨h, ?_⟩
    -- a refusal, where nothing has failed, is that of an issue which was touched
    have refused : ∀ stale, (clean → action.number ∈ b.touched) →
        sweep.Executes clean s b ledger (fun new t => sweep.approves ledger action = true →
          sweep.Permitted action → action.number ∈ t.touched ∨ sweep.recorded new action = true)
        (pure (.changed stale, ledger) : Groom (Outcome × Ledger)) b :=
      fun stale htouched => ⟨Executed.refl h hfile, fun hc _ _ => Or.inl (htouched hc)⟩
    have hnumber : action.number = asked.number := by rw [haction]; rfl
    rcases hr with hr | ⟨⟨e, hr⟩, hfailed⟩
    · subst hr
      have touched_of_none : sweep.readyOf b asked = none → action.number ∈ b.touched := by
        intro hnone
        by_contra huntouched
        rw [hnumber] at huntouched
        have hsome := h.ready_now (readyOf_iff.2 ⟨before, given, hbefore, hgiven, haction⟩) huntouched
        rw [hnone] at hsome
        exact absurd hsome (by simp)
      have hissues : b.issues action.number = b.issues asked.number := by rw [hnumber]
      rw [hissues]
      cases hissue : b.issues asked.number with
      | none =>
        refine refused .unread fun _ => touched_of_none ?_
        unfold readyOf
        rw [hissue]
        rfl
      | some issue =>
        have hsame : revalidate sweep.run.facts sweep.run.profile action issue =
            revalidate sweep.run.facts sweep.run.profile asked issue := by
          rw [haction]
          exact revalidate_withCheck ..
        show sweep.Executes clean s b ledger _ (Dialogue.bind
          (pure (revalidate sweep.run.facts sweep.run.profile action issue)) _) b
        rw [hsame]
        cases hcheck : revalidate sweep.run.facts sweep.run.profile asked issue with
        | error stale =>
          refine refused stale fun _ => touched_of_none ?_
          unfold readyOf
          rw [hissue, Option.bind_some, hcheck]
        | ok check =>
          have huntouched : asked.number ∉ b.touched :=
            h.untouched_of_ready hfresh hasked (readyOf_iff.2 ⟨issue, check, hissue, hcheck, rfl⟩)
          rw [← hnumber] at huntouched
          refine Dialogue.Safe.mono (commentAndPerform_executes h hfresh hfile hready hpermitted huntouched
            happroves hunrecorded) fun result u hu => ?_
          cases result with
          | error e => exact hu
          | ok pair => exact ⟨hu.1, fun hc _ _ => Or.inl (hu.2 hc)⟩
    · subst hr
      exact refused .unread fun hc => absurd hc hfailed

theorem executeActions_executes (hfresh : sweep.Fresh s) {actions : List Action} (h : sweep.Kept s b)
    (hfile : b.ledger = some ledger) (hready : ∀ action ∈ actions, action ∈ sweep.ready s) :
    sweep.Executes clean s b ledger (fun new t => ∀ action ∈ actions, sweep.approves new action = true →
        sweep.Permitted action → action.number ∈ t.touched ∨ sweep.recorded new action = true)
      (executeActions sweep.hashes sweep.run actions ledger) b := by
  induction actions generalizing b ledger with
  | nil => exact ⟨Executed.refl h hfile, fun _ action haction => nomatch haction⟩
  | cons action rest ih =>
    apply Dialogue.Safe.bind
    refine Dialogue.Safe.mono (executeAction_executes h hfresh hfile (hready action List.mem_cons_self)) ?_
    intro result t ht
    cases result with
    | error e => exact ht
    | ok pair =>
      obtain ⟨outcome, mid⟩ := pair
      obtain ⟨hfirst, hgoal⟩ := ht
      apply Dialogue.Safe.bind
      refine Dialogue.Safe.mono (ih hfirst.kept hfirst.file
        fun a ha => hready a (List.mem_cons_of_mem action ha)) ?_
      intro result u hu
      cases result with
      | error e => exact hu
      | ok pair =>
        obtain ⟨outcomes, new⟩ := pair
        obtain ⟨hrest, hgoals⟩ := hu
        refine ⟨hfirst.trans hrest, fun hc a ha happroves hpermitted => ?_⟩
        rcases List.mem_cons.1 ha with ha | ha
        · subst ha
          have hold : sweep.approves ledger a = true := by
            rw [← (hfirst.grows.trans hrest.grows).approves]
            exact happroves
          rcases hgoal hc hold hpermitted with htouched | hrecorded
          · exact Or.inl (hrest.touched _ htouched)
          · exact Or.inr (hrest.grows.recorded a hrecorded)
        · exact hgoals hc a ha happroves hpermitted

/-! ## Gating -/

/-- A review is recorded in a slot that licensed no other action. -/
theorem approves_record {pair : JsString × JsString} {key : JsString} {verdict : Verdict}
    {reason : Option JsString} {other : Action} (hother : other.Slotted) (hslotted : action.Slotted)
    (hfresh : ∀ content, Holds sweep.hashes key ledger (gateKey action) content →
      entryBindsSlot content action = false) (hkey : sweep.run.key = some key)
    (h : sweep.approves ledger other = true) :
    sweep.approves (ledger.set (gateKey action) (.entry (sealLedgerEntry sweep.hashes key
      (recordContent sweep.hashes action pair verdict reason)))) other = true := by
  obtain ⟨content, hentry, happrove⟩ := approves_iff.1 h
  have hne : gateKey other ≠ gateKey action := by
    intro hslot
    obtain ⟨sig, hplace, hsig, hbinds⟩ := entryFor_iff.1 hentry
    rw [hkey] at hsig
    rw [hslot] at hplace
    have hbound : entryBindsSlot content other = true := by
      simp only [entryBindsAction, Bool.decide_and, Bool.decide_eq_true, Bool.and_eq_true] at hbinds
      exact hbinds.1
    have hspent := binds_slot_of_combination (hother.combination_eq hslotted hslot) hbound
    rw [hfresh content ⟨sig, hplace, hsig⟩] at hspent
    exact absurd hspent (by simp)
  unfold approves ledgerApproves at h ⊢
  rw [entryFor_set_other hne]
  exact h

variable (sweep clean) in
/-- A part of the gating: the tracker is not touched, and licences stay. -/
def Gates (s b : Backlog) (old : Ledger) (file : Ledger → Option Ledger) (p : Groom (α × Ledger)) : Prop :=
  p.Safe (sweep.serves clean) (sweep.Kept s) (fun result t => match result with
    | .ok (_, new) => t = { b with ledger := file new } ∧
      ∀ action, action.Slotted → sweep.approves old action = true → sweep.approves new action = true
    | .error _ => ¬clean) b

theorem gateAction_gates (h : sweep.Kept s b) (hslotted : action.Slotted) :
    sweep.Gates clean s b ledger (fun _ => b.ledger)
      (gateAction sweep.hashes sweep.run.profile.providers sweep.run.key action ledger) := by
  rcases gateAction_cases sweep.hashes sweep.run.profile.providers sweep.run.key action ledger with
    hdemoted | ⟨pair, key, -, hkey, -, hfresh, hreview⟩
  · rw [hdemoted]
    exact ⟨rfl, fun _ _ happroves => happroves⟩
  · rw [hreview]
    intro r t hserves
    have ht : t = b := by
      obtain ⟨hdoes, -⟩ := hserves
      cases r <;> exact hdoes
    subst ht
    exact ⟨h, rfl, fun other hother happroves => approves_record hother hslotted hfresh hkey happroves⟩

theorem gateAll_gates {actions : List Action} (h : sweep.Kept s b)
    (hlicensed : ∀ action ∈ b.posted, sweep.approves ledger action = true)
    (hslotted : ∀ action ∈ actions, action.Slotted) (hfile : b.ledger = some ledger) :
    sweep.Gates clean s b ledger some (gateAll sweep.hashes sweep.run actions ledger) := by
  induction actions generalizing b ledger with
  | nil =>
    refine ⟨?_, fun _ _ happroves => happroves⟩
    rw [← hfile]
  | cons action rest ih =>
    apply Dialogue.Safe.bind
    refine Dialogue.Safe.mono (gateAction_gates h (hslotted action List.mem_cons_self)) ?_
    intro result t ht
    cases result with
    | error e => exact ht
    | ok pair =>
      obtain ⟨verdict, mid⟩ := pair
      obtain ⟨ht, hmid⟩ := ht
      have ht : t = b := ht
      subst t
      have hposted : ∀ other ∈ b.posted, sweep.approves mid other = true := fun other hother =>
        hmid other (slotted_of_ready (h.wanted other hother).1) (hlicensed other hother)
      intro r u hserves
      obtain ⟨hkept, ⟨hr, hu⟩ | ⟨⟨e, hr⟩, hfailed⟩⟩ := h.persists hposted hserves
      · subst hr
        subst u
        refine ⟨hkept, ?_⟩
        refine Dialogue.Safe.bind (p := gateAll sweep.hashes sweep.run rest mid) ?_
        refine Dialogue.Safe.mono (ih hkept hposted (fun a ha => hslotted a (List.mem_cons_of_mem action ha))
          rfl) ?_
        intro result v hv
        cases result with
        | error e => exact hv
        | ok pair =>
          obtain ⟨gated, new⟩ := pair
          obtain ⟨hv, hnew⟩ := hv
          exact ⟨hv, fun other hother happroves => hnew other hother (hmid other hother happroves)⟩
      · subst hr
        exact ⟨hkept, hfailed⟩

/-! ## The first loop -/

variable (sweep clean) in
/-- The actions that hold of the issues as they are are found, and without failures all of them. -/
def Checks (s b : Backlog) (actions : List Action) (p : Groom (List Action × List (Action × Stale))) : Prop :=
  p.Safe (sweep.serves clean) (sweep.Kept s) (fun result t => match result with
    | .ok (valid, _) => t = b ∧ (∀ action ∈ valid, action ∈ actions.filterMap (sweep.readyOf b)) ∧
      (clean → valid = actions.filterMap (sweep.readyOf b))
    | .error _ => False) b

theorem revalidateAll_checks (h : sweep.Kept s b) (actions : List Action) :
    sweep.Checks clean s b actions (revalidateAll sweep.run actions) := by
  induction actions with
  | nil => exact ⟨rfl, fun _ haction => haction, fun _ => rfl⟩
  | cons action rest ih =>
    -- the rest is checked, and what was found of the action is put before it
    have after : ∀ check : Except Stale Revalidated,
        (∀ given, check = .ok given → sweep.readyOf b action = some (action.withCheck given)) →
        (clean → ∀ stale, check = .error stale → sweep.readyOf b action = none) →
        sweep.Checks clean s b (action :: rest)
          (revalidateAll sweep.run rest >>= putChecked action check) := by
      intro check hfound hnone
      apply Dialogue.Safe.bind
      refine Dialogue.Safe.mono ih fun result t ht => ?_
      cases result with
      | error e => exact ht
      | ok pair =>
        obtain ⟨valid, stale⟩ := pair
        obtain ⟨ht, hvalid, hall⟩ := ht
        cases check with
        | error reason =>
          refine ⟨ht, fun other hother => ?_, fun hc => ?_⟩
          · obtain ⟨asked, hasked, hready⟩ := List.mem_filterMap.1 (hvalid other hother)
            exact List.mem_filterMap.2 ⟨asked, List.mem_cons_of_mem action hasked, hready⟩
          · rw [List.filterMap_cons_none (hnone hc reason rfl)]
            exact hall hc
        | ok given =>
          rw [List.filterMap_cons_some (hfound given rfl)]
          refine ⟨ht, fun other hother => ?_, fun hc => ?_⟩
          · rcases List.mem_cons.1 hother with hother | hother
            · rw [hother]
              exact List.mem_cons_self
            · exact List.mem_cons_of_mem _ (hvalid other hother)
          · exact congrArg _ (hall hc)
    intro r t hserves
    obtain ⟨ht, hr⟩ := serves_fetch hserves
    subst t
    refine ⟨h, ?_⟩
    rcases hr with hr | ⟨⟨e, hr⟩, hfailed⟩
    · subst hr
      cases hissue : b.issues action.number with
      | none =>
        refine after (.error .unread) (fun given hgiven => nomatch hgiven) fun _ stale _ => ?_
        unfold readyOf
        rw [hissue]
        rfl
      | some issue =>
        refine after (revalidate sweep.run.facts sweep.run.profile action issue) ?_ ?_
        · intro given hgiven
          exact readyOf_iff.2 ⟨issue, given, hissue, hgiven, rfl⟩
        · intro _ stale hstale
          unfold readyOf
          rw [hissue, Option.bind_some, hstale]
    · subst hr
      exact after (.error .unread) (fun given hgiven => nomatch hgiven) fun hc => absurd hc hfailed

/-! ## The whole run -/

/-- What a run comes to without failures: a licensed action that is permitted is recorded as applied, or
its issue has a comment. -/
structure Swept (s b t : Backlog) : Prop where
  kept : sweep.Kept s t
  settled : b.Settled → t.Settled
  executed : ∃ ledger, t.ledger = some ledger ∧ ∀ action ∈ sweep.ready s,
    sweep.approves ledger action = true → sweep.Permitted action →
      action.number ∈ t.touched ∨ sweep.recorded ledger action = true

theorem applyRun_safe (hfresh : sweep.Fresh s) (h : sweep.Kept s b) (hfile : b.ledger = some ledger) :
    (applyRun sweep.hashes sweep.run ledger).Safe (sweep.serves clean) (sweep.Kept s)
      (fun result t => clean → sweep.run.refusal = none → (∃ report, result = .ok report) ∧
        sweep.Swept s b t) b := by
  unfold applyRun
  split
  · rename_i refusal hrefusal
    intro _ hnone
    rw [hrefusal] at hnone
    exact absurd hnone (by simp)
  · apply Dialogue.Safe.bind
    refine Dialogue.Safe.mono (revalidateAll_checks h _) ?_
    intro result t ht
    cases result with
    | error e => exact absurd ht id
    | ok pair =>
      obtain ⟨valid, stale⟩ := pair
      obtain ⟨ht, hvalid, hall⟩ := ht
      subst t
      have hready : ∀ action ∈ valid, action ∈ sweep.ready s := by
        intro action haction
        obtain ⟨asked, hasked, hnow⟩ := List.mem_filterMap.1 (hvalid action haction)
        exact mem_ready.2 ⟨asked, hasked, h.ready_start hfresh hasked hnow⟩
      apply Dialogue.Safe.bind
      refine Dialogue.Safe.mono (gateAll_gates h (h.licensed ledger hfile)
        (fun action haction => slotted_of_ready (hready action haction)) hfile) ?_
      intro result u hu
      cases result with
      | error e => exact fun hc => absurd hc hu
      | ok pair =>
        obtain ⟨gated, mid⟩ := pair
        obtain ⟨hu, hmid⟩ := hu
        have hkept : sweep.Kept s u := by
          rw [hu]
          refine h.file fun new hnew action haction => ?_
          cases hnew
          exact hmid action (slotted_of_ready (h.wanted action haction).1) (h.licensed ledger hfile action haction)
        have hmidfile : u.ledger = some mid := by rw [hu]
        apply Dialogue.Safe.bind
        refine Dialogue.Safe.mono (executeActions_executes hfresh hkept hmidfile hready) ?_
        intro result v hv
        cases result with
        | error e => exact fun hc => absurd hc hv
        | ok pair =>
          obtain ⟨outcomes, new⟩ := pair
          obtain ⟨hexecuted, hgoal⟩ := hv
          intro hc _
          refine ⟨⟨_, rfl⟩, hexecuted.kept, fun hb => ?_, new, hexecuted.file, ?_⟩
          · apply hexecuted.settled hc
            rw [hu]
            exact hb
          · intro action haction happroves hpermitted
            obtain ⟨asked, hasked, hstart⟩ := mem_ready.1 haction
            by_cases htouched : asked.number ∈ b.touched
            · left
              obtain ⟨issue, check, -, -, hnumber⟩ := readyOf_iff.1 hstart
              rw [hnumber]
              apply hexecuted.touched
              rw [hu]
              exact htouched
            · have hmem : action ∈ valid := by
                rw [hall hc]
                exact List.mem_filterMap.2 ⟨asked, hasked, h.ready_now hstart htouched⟩
              exact hgoal hc action hmem happroves hpermitted

/-! ## Histories -/

theorem Kept.start (hfresh : sweep.Fresh s) : sweep.Kept s s := by
  obtain ⟨hposted, hperformed, hagain⟩ := hfresh.empty
  have hnone : ∀ n, n ∉ s.touched := by
    intro n hn
    unfold Backlog.touched at hn
    rw [hposted] at hn
    exact absurd hn (by simp)
  have hunposted : ∀ action, action ∉ s.posted := by
    intro action haction
    rw [hposted] at haction
    exact absurd haction (by simp)
  constructor
  · exact fun n _ => ⟨rfl, rfl⟩
  · exact fun n => le_rfl
  · exact fun n hn => absurd hn (hnone n)
  · unfold Backlog.touched
    rw [hposted]
    exact List.nodup_nil
  · exact fun action haction => absurd haction (hunposted action)
  · exact fun action haction => absurd haction (hunposted action)
  · exact fun _ _ action haction => absurd haction (hunposted action)
  · intro action haction
    rw [hperformed] at haction
    exact absurd haction (by simp)
  · rw [hperformed]
    exact List.nodup_nil
  · exact hagain

theorem kept_of_reruns {stops : Backlog → Prop} (hfresh : sweep.Fresh s) (h : sweep.Reruns stops s b) :
    sweep.Kept s b := by
  have hruns : ∀ t p, sweep.Kept s t → sweep.starts t p →
      p.Safe (sweep.serves False) (sweep.Kept s) (fun _ _ => True) t := by
    intro t p ht hstart
    obtain ⟨ledger, hledger, hp⟩ := hstart
    rw [hp]
    exact Dialogue.Safe.mono (applyRun_safe hfresh ht hledger) fun _ _ _ => trivial
  exact Dialogue.History.invariant (sweep.Kept s) h (.start hfresh) (fun t ht => ht) hruns
    (fun t ht _ => ht) (fun t u _ hother => absurd hother id)

theorem undisturbed_of_reruns (hfresh : sweep.Fresh s) (h : sweep.Reruns Backlog.Undisturbed s b) :
    b.Undisturbed := by
  cases h with
  | start =>
    refine ⟨fun action haction => ?_, hfresh.readable⟩
    rw [hfresh.empty.1] at haction
    exact absurd haction (by simp)
  | run before first calls stop => exact stop
  | other before step => exact absurd step id

variable (sweep) in
/-- Every licensed action that the floor permits was performed, or is recorded as applied. -/
def AllExecuted (s t : Backlog) : Prop :=
  ∀ ledger, t.ledger = some ledger → ∀ action ∈ sweep.ready s, sweep.approves ledger action = true →
    sweep.Permitted action → action ∈ t.performed ∨ sweep.recorded ledger action = true

variable (sweep) in
/-- Of the actions of one issue, one at most is licensed and permitted. -/
def OneAnIssue (s t : Backlog) : Prop :=
  ∀ ledger, t.ledger = some ledger → ∀ action ∈ sweep.ready s, ∀ other ∈ sweep.ready s,
    action.number = other.number → sweep.approves ledger action = true → sweep.Permitted action →
      sweep.approves ledger other = true → sweep.Permitted other → action = other

/-- Runs without failures, to their end. -/
abbrev Clean (sweep : Sweep) (ledger : Ledger) (b : Backlog) (result : Except GroomError ApplyReport)
    (t : Backlog) : Prop :=
  Dialogue.Runs (sweep.serves True) (applyRun sweep.hashes sweep.run ledger) b (.done result) t

theorem serves_clean (b : Backlog) (call : GroomCall) : ∃ r t, sweep.serves True b call r t := by
  cases call with
  | fetchIssue number => exact ⟨.ok (b.issues number), b, ⟨rfl, rfl⟩, fun _ => trivial⟩
  | runReview action decider reviewer => exact ⟨.ok reviewApprove, b, rfl, fun _ => trivial⟩
  | persist ledger => exact ⟨.ok (), _, rfl, fun _ => trivial⟩
  | comments number => exact ⟨.ok (b.comments number), b, ⟨rfl, rfl⟩, fun _ => trivial⟩
  | comment number action body => exact ⟨.ok (), _, rfl, fun _ => trivial⟩
  | apply action => exact ⟨.ok (), _, rfl, fun _ => trivial⟩

/-- A run without failures sweeps the set. -/
theorem swept_of_clean {result : Except GroomError ApplyReport} (hfresh : sweep.Fresh s)
    (h : sweep.Kept s b) (hfile : b.ledger = some ledger) (hrefusal : sweep.run.refusal = none)
    (hclean : Clean sweep ledger b result t) : (∃ report, result = .ok report) ∧ sweep.Swept s b t := by
  have hsafe := (applyRun_safe hfresh h hfile).runs h hclean
  exact hsafe.2 trivial hrefusal

theorem Swept.allExecuted (h : sweep.Swept s b t) (hsettled : b.Settled) (hone : sweep.OneAnIssue s t) :
    sweep.AllExecuted s t := by
  intro ledger hledger action haction happroves hpermitted
  obtain ⟨new, hnew, hexecuted⟩ := h.executed
  rw [hledger] at hnew
  cases hnew
  rcases hexecuted action haction happroves hpermitted with htouched | hrecorded
  · obtain ⟨other, hother, hnumber⟩ := List.mem_map.1 htouched
    obtain ⟨hwanted, hother'⟩ := h.kept.wanted other hother
    have hlicence := h.kept.licensed ledger hledger other hother
    have hsame := hone ledger hledger action haction other hwanted hnumber.symm happroves hpermitted
      hlicence hother'
    rw [hsame]
    exact Or.inl (h.settled hsettled other hother)
  · exact Or.inr hrecorded

end Sweep

def sampleSweep : Sweep where
  hashes := ⟨fun key text => 49 :: (key ++ text), id⟩
  stamp := fun n => js "t1" ++ List.replicate n 49
  operator := js "bot"
  run := sampleRun
  signed := fun _ _ => List.cons_ne_nil _ _
  stamped := by
    intro n h
    exact absurd (List.append_eq_nil_iff.1 h).1 (by decide)
  identity := fun _ => rfl

def sampleBacklog : Backlog where
  ledger := some fun _ => none
  issues := fun n => if n = 7 then some sampleIssue else none
  revision := fun _ => 0
  comments := fun _ => []
  posted := []
  performed := []
  again := []

theorem fresh_sample : sampleSweep.Fresh sampleBacklog where
  groomed := by
    intro action haction n htime
    have hset : actionsFromSet sampleRun.set = [(actionsFromSet sampleRun.set).head (by decide)] := by decide
    have haction : action ∈ actionsFromSet sampleRun.set := haction
    rw [hset] at haction
    rw [List.mem_singleton.1 haction] at htime
    have hlength := congrArg (Option.map List.length) htime
    have hn : n = 0 := by simpa [sampleSweep, actionsFromSet, sampleRun, closeOf] using hlength
    exact hn.le
  unmarked := fun _ _ comment hcomment => absurd hcomment (by simp [sampleBacklog])
  empty := ⟨rfl, rfl, rfl⟩
  readable := rfl

/-- A tracker that fails at no call but, if it is told so, at mutations. -/
def sampleTracker (fails : Bool) (b : Backlog) :
    (call : GroomCall) → Except GroomError call.Answer × Backlog
  | .fetchIssue number => (.ok (b.issues number), b)
  | .runReview _ _ _ => (.ok reviewApprove, b)
  | .persist ledger => (.ok (), { b with ledger := some ledger })
  | .comments number => (.ok (b.comments number), b)
  | .comment _ action body => (.ok (), sampleSweep.post b action body)
  | .apply action => if fails then (.error (.failed []), b) else (.ok (), sampleSweep.mutate b action)

theorem serves_sample {clean : Prop} {fails : Bool} (hfails : clean → fails = false) (b : Backlog)
    (call : GroomCall) :
    sampleSweep.serves clean b call (sampleTracker fails b call).1 (sampleTracker fails b call).2 := by
  cases call with
  | fetchIssue number => exact ⟨⟨rfl, rfl⟩, fun _ => trivial⟩
  | runReview action decider reviewer => exact ⟨rfl, fun _ => trivial⟩
  | persist ledger => exact ⟨rfl, fun _ => trivial⟩
  | comments number => exact ⟨⟨rfl, rfl⟩, fun _ => trivial⟩
  | comment number action body => exact ⟨rfl, fun _ => trivial⟩
  | apply action =>
    cases fails with
    | false => exact ⟨rfl, fun _ => trivial⟩
    | true => exact ⟨Or.inr rfl, fun hc => absurd (hfails hc) (by simp)⟩

def sampleDrive (fails : Bool) (b : Backlog) : Groom ApplyReport × Backlog :=
  Dialogue.drive (sampleTracker fails) 20
    (applyRun sampleSweep.hashes sampleSweep.run (b.ledger.getD fun _ => none)) b

theorem sampleDrive_runs (clean : Prop) (fails : Bool) (hfails : clean → fails = false) (b : Backlog)
    {ledger : Ledger} (hledger : b.ledger = some ledger) :
    Dialogue.Runs (sampleSweep.serves clean) (applyRun sampleSweep.hashes sampleSweep.run ledger) b
      (sampleDrive fails b).1 (sampleDrive fails b).2 := by
  have hruns := Dialogue.runs_drive (serves_sample hfails) 20
    (applyRun sampleSweep.hashes sampleSweep.run (b.ledger.getD fun _ => none)) b
  rw [hledger] at hruns
  unfold sampleDrive
  rw [hledger]
  exact hruns

theorem ready_sample : ∀ action ∈ sampleSweep.ready sampleBacklog,
    ∀ other ∈ sampleSweep.ready sampleBacklog, action = other := by
  have hone : (sampleSweep.ready sampleBacklog).length = 1 := by decide +kernel
  obtain ⟨only, honly⟩ := List.length_eq_one_iff.1 hone
  intro action haction other hother
  rw [honly] at haction hother
  rw [List.mem_singleton.1 haction, List.mem_singleton.1 hother]

end Adlc.BacklogGroom
