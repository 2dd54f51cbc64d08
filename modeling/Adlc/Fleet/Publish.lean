import Adlc.Fleet.Dispatch

namespace Adlc.Fleet

open Adlc.Framework Adlc.Tickets

/-! ## The merges on the integration branch -/

/-- The merge of a ticket that has not passed the post-merge gate. -/
def Commit.ungated (c : Commit) : Bool := c.ticket.isSome && !c.gated

/-- The merge a ticket has made and not yet seen through the gate or off the branch. -/
def TaskPoint.inHand : TaskPoint → Option Nat
  | .inMerge (.postGate mergeSha) _ => some mergeSha
  | .inMerge (.reverting mergeSha _) _ => some mergeSha
  | _ => none

def TaskNext.inHand : TaskNext → Option Nat
  | .goes point => point.inHand
  | .finished _ => none

/-- No commit is taken for another. -/
structure Shared.Fresh (s : Shared) : Prop where
  below : ∀ c ∈ s.branch, c.sha < s.nextSha
  nodup : (s.branch.map Commit.sha).Nodup

variable {cfg : RunConfig} {id : JsString} {s t t' : Shared} {p : Progress}
  {before after : Option Nat}

theorem Shared.Fresh.congr (h : s.Fresh) (hbranch : t.branch = s.branch)
    (hsha : t.nextSha = s.nextSha) : t.Fresh := by
  constructor
  · rw [hbranch, hsha]
    exact h.below
  · rw [hbranch]
    exact h.nodup

theorem Shared.Fresh.sublist (h : s.Fresh) {branch : List Commit} (hb : branch.Sublist s.branch) :
    { s with branch := branch }.Fresh :=
  ⟨fun c hc => h.below c (hb.subset hc), h.nodup.sublist (hb.map _)⟩

theorem Shared.Fresh.commit (h : s.Fresh) (ticket : Option JsString) : (s.commit ticket).Fresh := by
  constructor
  · intro c hc
    rcases List.mem_append.1 hc with hc | hc
    · exact (h.below c hc).trans (Nat.lt_succ_self _)
    · rw [List.mem_singleton.1 hc]
      exact Nat.lt_succ_self _
  · show ((s.branch ++ [_]).map Commit.sha).Nodup
    rw [List.map_append, List.nodup_append]
    refine ⟨h.nodup, List.nodup_singleton _, ?_⟩
    intro a ha b hb
    obtain ⟨c, hc, rfl⟩ := List.mem_map.1 ha
    rw [List.mem_singleton.1 hb]
    exact (h.below c hc).ne

theorem sha_gatePassed (s : Shared) (mergeSha : Nat) :
    (s.gatePassed mergeSha).branch.map Commit.sha = s.branch.map Commit.sha := by
  unfold Shared.gatePassed
  rw [List.map_map]
  apply List.map_congr_left
  intro c _
  rw [Function.comp_apply]
  split_ifs <;> rfl

theorem Shared.Fresh.gatePassed (h : s.Fresh) (mergeSha : Nat) : (s.gatePassed mergeSha).Fresh := by
  constructor
  · intro c hc
    have hsha : c.sha ∈ s.branch.map Commit.sha :=
      sha_gatePassed s mergeSha ▸ List.mem_map_of_mem hc
    obtain ⟨d, hd, he⟩ := List.mem_map.1 hsha
    rw [← he]
    exact h.below d hd
  · rw [sha_gatePassed]
    exact h.nodup

/-! ## What a step of a ticket leaves on the branch -/

/-- After a step every ungated merge is the one in hand, or was there and was not in hand, unless
the run is quarantined. -/
structure Clean (s : Shared) (before : Option Nat) (t : Shared) (after : Option Nat) : Prop where
  fresh : s.Fresh → t.Fresh
  contaminated : s.contaminated = true → t.contaminated = true
  ungated : s.Fresh → t.contaminated = true ∨ ∀ c ∈ t.branch, c.ungated = true →
    after = some c.sha ∨ c ∈ s.branch ∧ before ≠ some c.sha

theorem Clean.congr (h : Clean s before t after) (hbranch : t'.branch = t.branch)
    (hsha : t'.nextSha = t.nextSha) (hcontaminated : t'.contaminated = t.contaminated) :
    Clean s before t' after := by
  refine ⟨fun hs => (h.fresh hs).congr hbranch hsha, ?_, ?_⟩
  · rw [hcontaminated]
    exact h.contaminated
  · rw [hbranch, hcontaminated]
    exact h.ungated

theorem clean_refl (s : Shared) (before : Option Nat) : Clean s before s before := by
  refine ⟨fun hs => hs, fun hc => hc, ?_⟩
  intro _
  right
  intro c hc _
  by_cases h : before = some c.sha
  · exact .inl h
  · exact .inr ⟨hc, h⟩

/-- With no merge in hand, what leaves the branch alone is clean. -/
theorem clean_of_branch (hbranch : t.branch = s.branch) (hsha : t.nextSha = s.nextSha)
    (hcontaminated : t.contaminated = s.contaminated) : Clean s none t none :=
  (clean_refl s none).congr hbranch hsha hcontaminated

theorem Clean.holds (h : Clean s before t none) (after : Option Nat) : Clean s before t after := by
  refine ⟨h.fresh, h.contaminated, ?_⟩
  intro hs
  rcases h.ungated hs with hc | hu
  · exact .inl hc
  · right
    intro c hc hungated
    rcases hu c hc hungated with hnone | hold
    · cases hnone
    · exact .inr hold

theorem clean_commit (s : Shared) : Clean s none (s.commit none) none := by
  refine ⟨fun hs => hs.commit none, fun hc => hc, ?_⟩
  intro _
  right
  intro c hc hungated
  rcases List.mem_append.1 hc with hc | hc
  · exact .inr ⟨hc, by simp⟩
  · rw [List.mem_singleton.1 hc] at hungated
    cases hungated

theorem clean_merge (s : Shared) (id : JsString) :
    Clean s none (s.commit (some id)) (some s.nextSha) := by
  refine ⟨fun hs => hs.commit _, fun hc => hc, ?_⟩
  intro _
  right
  intro c hc _
  rcases List.mem_append.1 hc with hc | hc
  · exact .inr ⟨hc, by simp⟩
  · rw [List.mem_singleton.1 hc]
    exact .inl rfl

theorem clean_gatePassed (s : Shared) (mergeSha : Nat) :
    Clean s (some mergeSha) (s.gatePassed mergeSha) none := by
  refine ⟨fun hs => hs.gatePassed mergeSha, fun hc => hc, ?_⟩
  intro _
  right
  intro c hc hungated
  obtain ⟨d, hd, he⟩ := List.mem_map.1 hc
  split_ifs at he with hsha
  · subst he
    simp [Commit.ungated] at hungated
  · subst he
    exact .inr ⟨hd, fun e => hsha (Option.some.inj e).symm⟩

theorem clean_filter (s : Shared) (keep : Commit → Bool) :
    Clean s none { s with branch := s.branch.filter keep } none := by
  refine ⟨fun hs => hs.sublist List.filter_sublist, fun hc => hc, ?_⟩
  intro _
  right
  intro c hc _
  exact .inr ⟨(List.mem_filter.1 hc).1, by simp⟩

/-- The merge at the head of the branch is dropped, and no other commit has its sha. -/
theorem clean_dropLast {mergeSha : Nat} (hhead : s.headIs mergeSha = true) :
    Clean s (some mergeSha) { s with branch := s.branch.dropLast } none := by
  refine ⟨fun hs => hs.sublist (List.dropLast_sublist _), fun hc => hc, ?_⟩
  intro hs
  right
  intro c hc _
  right
  refine ⟨(List.dropLast_sublist _).subset hc, ?_⟩
  rintro ⟨⟩
  obtain ⟨head, hlast, hsha⟩ := (Option.any_eq_true ..).1 hhead
  have hsplit : s.branch = s.branch.dropLast ++ [head] := (List.dropLast_append_getLast? head hlast).symm
  have hnodup := hs.nodup
  rw [hsplit, List.map_append, List.nodup_append] at hnodup
  exact hnodup.2.2 c.sha (List.mem_map_of_mem hc) head.sha (by simp) (of_decide_eq_true hsha).symm

/-- Every way the step can go is clean. -/
def CleanSteps (s : Shared) (before : Option Nat) (o : Outcomes) : Prop :=
  ∀ t next, o = some (t, next) → Clean s before t next.inHand

theorem cleanSteps_goes {point : TaskPoint} (h : Clean s before t point.inHand) :
    CleanSteps s before (t.goes point) := by
  intro t' next e
  cases e
  exact h

theorem cleanSteps_none : CleanSteps s before none := by
  intro t next e
  cases e

theorem cleanSteps_leaveMerge {result : Option MergeResult} (h : Clean s before t none) :
    CleanSteps s before (t.leaveMerge id result p) :=
  cleanSteps_goes (h.congr rfl rfl rfl)

theorem cleanSteps_next (n : Next) (h : Clean s before t none) :
    CleanSteps s before (t.next id n) := by
  cases n with
  | awaits effect p => cases effect <;> exact cleanSteps_goes (h.congr rfl rfl rfl)
  | returns outcome => exact cleanSteps_goes h

/-- A quarantined run is clean, whether or not the quarantine can be saved. -/
theorem cleanSteps_quarantine {saves : Bool} {thrown : Option MergeResult}
    (h : s.Fresh → t.Fresh) : CleanSteps s before (t.quarantine id saves thrown p) := by
  cases saves <;>
    exact cleanSteps_leaveMerge ⟨fun hs => (h hs).congr rfl rfl, fun _ => rfl, fun _ => .inl rfl⟩

theorem cleanSteps_withdraw {completionSha : Nat} {late saves : Bool}
    (h : Clean s before t none) :
    CleanSteps s before (t.withdraw cfg id completionSha late saves p) := by
  unfold Shared.withdraw
  split_ifs
  · exact cleanSteps_goes h
  · exact cleanSteps_quarantine h.fresh

theorem cleanSteps_complete {clock : Clock} (h : Clean s before t none) :
    CleanSteps s before (t.complete cfg id clock p) := by
  unfold Shared.complete
  split_ifs
  · exact cleanSteps_leaveMerge h
  · exact cleanSteps_leaveMerge h
  · exact cleanSteps_goes h
  · exact cleanSteps_leaveMerge h

theorem cleanSteps_saveThen {saves : Bool} {next : TaskNext} (h : Clean s before t none)
    (hnext : next.inHand = none) : CleanSteps s before (t.saveThen saves next) := by
  intro t' next' e
  cases saves <;> cases e
  · exact h.congr rfl rfl rfl
  · rw [hnext]
    exact h.congr rfl rfl rfl

/-! ## The steps of the merge effect -/

/-- `revertMerge` throws and the merge is still on the branch. -/
def GitAnswer.leavesMerge (atHead : Bool) : GitAnswer → Bool
  | .headUnreadable => true
  | .resetFails done => atHead && !done
  | .works | .revertFails => false

/-- An effect throws and leaves a merge on the branch that has passed no gate. -/
def leavesMerge (s : Shared) (point : TaskPoint) (reply : Reply) : Bool :=
  match point, reply with
  | .inMerge .merging _, .threwAfterMerge => true
  | .inMerge (.reverting mergeSha _) _, .git git => git.leavesMerge (s.headIs mergeSha)
  | _, _ => false

theorem fresh_revertMerge (mergeSha : Nat) (git : GitAnswer) (h : s.Fresh) :
    (s.revertMerge mergeSha git).1.Fresh := by
  have hdrop : { s with branch := s.branch.dropLast }.Fresh := h.sublist (List.dropLast_sublist _)
  unfold Shared.revertMerge
  dsimp only
  split_ifs with hhead
  · cases git with
    | works | revertFails => exact hdrop
    | headUnreadable => exact h
    | resetFails done =>
      cases done with
      | true => exact hdrop
      | false => exact h
  · cases git with
    | works | resetFails => exact h.commit none
    | headUnreadable | revertFails => exact h

/-- Where the withdrawal is not refused, the merge is off the branch. -/
theorem clean_revertMerge {mergeSha : Nat} {git : GitAnswer} {ok : Option Bool}
    (hok : git.leavesMerge (s.headIs mergeSha) = false)
    (h : s.revertMerge mergeSha git = (t, ok)) (hrefused : ok ≠ some false) :
    Clean s (some mergeSha) t none := by
  unfold Shared.revertMerge at h
  dsimp only at h
  split_ifs at h with hhead
  · cases git with
    | works | revertFails =>
      cases h
      exact clean_dropLast hhead
    | headUnreadable => cases hok
    | resetFails done =>
      cases done with
      | true =>
        cases h
        exact clean_dropLast hhead
      | false => simp [GitAnswer.leavesMerge, hhead] at hok
  · cases git with
    | works | resetFails | revertFails =>
      cases h
      exact absurd rfl hrefused
    | headUnreadable => cases hok

theorem cleanSteps_mergeStep {point : MergePoint} {answer : EffectAnswer}
    (hok : leavesMerge s (.inMerge point p) answer.reply = false) :
    CleanSteps s (TaskPoint.inMerge point p).inHand (mergeStep cfg id s point p answer) := by
  have hrefl := clean_refl s none
  unfold mergeStep
  split
  -- The mutex, the wall clock and the quarantine.
  · split_ifs
    · exact cleanSteps_none
    · exact cleanSteps_leaveMerge hrefl
    · exact cleanSteps_leaveMerge hrefl
    · exact cleanSteps_goes hrefl
  -- The merge.
  · exact cleanSteps_goes (clean_merge s id)
  · exact cleanSteps_leaveMerge hrefl
  · rename_i hreply
    rw [hreply] at hok
    cases hok
  -- The gate over it.
  · split_ifs
    · exact cleanSteps_complete (clean_gatePassed s _)
    · exact cleanSteps_goes (clean_refl s _)
  · exact cleanSteps_goes (clean_refl s _)
  -- The withdrawal of the merge.
  · rename_i mergeSha why git hreply
    rw [hreply] at hok
    have hfresh : s.Fresh → (s.revertMerge mergeSha git).1.Fresh := fresh_revertMerge mergeSha git
    split
    all_goals
      rename_i hrevert
      rw [hrevert] at hfresh
    · exact cleanSteps_leaveMerge (clean_revertMerge hok hrevert (by simp))
    · exact cleanSteps_quarantine hfresh
    · have hclean := clean_revertMerge hok hrevert (by simp)
      split <;> exact cleanSteps_leaveMerge hclean
  -- The completion, its gate and its withdrawal.
  · dsimp only
    split_ifs
    · exact cleanSteps_withdraw (clean_commit s)
    · exact cleanSteps_goes (clean_commit s)
  · exact cleanSteps_leaveMerge hrefl
  · split_ifs
    · exact cleanSteps_quarantine fun hs => hs
    · exact cleanSteps_leaveMerge hrefl
  · split_ifs
    · exact cleanSteps_leaveMerge hrefl
    · exact cleanSteps_leaveMerge hrefl
    · exact cleanSteps_withdraw hrefl
  · exact cleanSteps_withdraw hrefl
  · exact cleanSteps_leaveMerge (clean_filter s _)
  · exact cleanSteps_quarantine fun hs => hs
  · exact cleanSteps_none

theorem cleanSteps_awaitStep (effect : Await) (answer : EffectAnswer) :
    CleanSteps s none (awaitStep cfg id s effect p answer) := by
  unfold awaitStep
  split
  all_goals first
    | exact cleanSteps_next _ (clean_refl s none)
    | exact cleanSteps_none

theorem cleanSteps_taskStep {task : Task} {answer : EffectAnswer}
    (hok : leavesMerge s task.point answer.reply = false) :
    CleanSteps s task.point.inHand (taskStep cfg id s task answer) := by
  have hrefl := clean_refl s none
  obtain ⟨startStrikes, point⟩ := task
  unfold taskStep
  dsimp only at hok ⊢
  split
  · exact cleanSteps_saveThen (hrefl.congr rfl rfl rfl) rfl
  · exact cleanSteps_saveThen (hrefl.congr rfl rfl rfl) rfl
  · exact cleanSteps_next _ hrefl
  · exact cleanSteps_saveThen (hrefl.congr rfl rfl rfl) rfl
  · exact cleanSteps_awaitStep _ _
  · exact cleanSteps_mergeStep hok
  · exact cleanSteps_next _ hrefl
  · exact cleanSteps_next _ hrefl
  · exact cleanSteps_saveThen (hrefl.congr rfl rfl rfl) rfl
  · intro t next e
    cases e
    exact hrefl
  · intro t next e
    cases e
    exact hrefl
  · exact cleanSteps_saveThen hrefl rfl
  · exact cleanSteps_saveThen hrefl rfl
  · exact cleanSteps_none

/-! ## What a run publishes -/

variable {ν : Type} {all : List (Json ν)} {r r' : FleetRun}

/-- `openPR` is called on a branch whose ticket merges have all passed the gate, and a merge that
has not is in hand or quarantines the run. -/
structure PublishesGated (r : FleetRun) : Prop where
  published : r.loop = .openingPR → ∀ c ∈ r.shared.branch, c.ticket.isSome = true → c.gated = true
  withdrawn : ∀ c ∈ r.shared.branch, c.ungated = true → r.shared.contaminated = true ∨
    ∃ id task, r.inFlight.lookup id = some task ∧ task.point.inHand = some c.sha
  quarantined : r.shared.contaminated = true → r.loop ≠ .openingPR

/-- No effect throws over a merge that has passed no gate, and no run is resumed on one unless the
recorded status quarantines the branch. -/
def seenThrough (r : FleetRun) : Event → Bool
  | .task id answer =>
    !(r.inFlight.lookup id).any fun task => leavesMerge r.shared task.point answer.reply
  | .resume _ _ =>
    r.shared.saved.any (fun saved => saved.2) || r.shared.branch.all fun c => !c.ungated
  | _ => true

/-- What a run keeps, so that it publishes what is gated only. -/
structure Guarded (r : FleetRun) : Prop where
  active : Active r
  fresh : r.shared.Fresh
  inHand : ∀ c ∈ r.shared.branch, c.ungated = true → r.shared.contaminated = true ∨
    ∃ id task, r.inFlight.lookup id = some task ∧ task.point.inHand = some c.sha
  closing : r.loop = .openingPR → r.inFlight.keys = [] ∧ r.shared.contaminated = false

theorem spent_of_inHand {point : TaskPoint} {mergeSha : Nat} (h : point.inHand = some mergeSha) :
    point.spent = false := by
  cases point with
  | inMerge => rfl
  | _ => cases h

theorem Guarded.round (h : Guarded r) {clock : Clock} (hr : r.round cfg all clock = some r') :
    Guarded r' := by
  have hactive := h.active.round hr
  obtain ⟨-, ts, hts, rfl⟩ := round_cases hr
  obtain ⟨loop, hend, hcases⟩ := roundEnd_cases cfg (ts.foldl FleetRun.startTicket (r.turn cfg clock))
  obtain ⟨records, hshared⟩ : ∃ records, (ts.foldl FleetRun.startTicket (r.turn cfg clock)).shared =
      { (r.turn cfg clock).shared with records := records } := shared_foldl_startTicket ts
  rw [hend] at hactive ⊢
  refine ⟨hactive, ?_, ?_, ?_⟩
  · rw [hshared]
    exact h.fresh.congr rfl rfl
  · rw [hshared]
    intro c hc hu
    rcases h.inHand c hc hu with hcontaminated | ⟨id, task, hl, hhand⟩
    · exact .inl hcontaminated
    · right
      refine ⟨id, task, ?_, hhand⟩
      rw [← hl]
      apply lookup_foldl_startTicket
      rcases hts with rfl | ⟨-, rfl⟩
      · intro t ht
        cases ht
      -- The ticket is building, and so it is not admitted.
      · rintro t ht rfl
        have hbuilding := h.active _ task hl (spent_of_inHand hhand)
        obtain ⟨-, hcandidate, -, -⟩ := mem_computeReady (mem_readyTickets_of_toAdmit ht)
        rcases stateIn_of_candidate hcandidate with hnone | hpending
        · rw [hnone] at hbuilding
          cases hbuilding
        · rw [hpending] at hbuilding
          cases hbuilding
  · intro hopening
    rcases hcases with ⟨hloop, -⟩ | ⟨hkeys, hloop | ⟨-, hcontaminated⟩⟩
    · exact absurd (hopening.symm.trans hloop) (by simp)
    · exact absurd (hopening.symm.trans hloop) (by simp)
    · exact ⟨hkeys, hcontaminated⟩

theorem keys_ne_nil {task : Task} (h : r.inFlight.lookup id = some task) : r.inFlight.keys ≠ [] := by
  have hmem : id ∈ r.inFlight := AList.lookup_isSome.1 (by rw [h]; rfl)
  exact List.ne_nil_of_mem (AList.mem_keys.1 hmem)

theorem Guarded.taskEvent (h : Guarded r) {answer : EffectAnswer}
    (hok : seenThrough r (.task id answer) = true)
    (hr : r.taskEvent cfg id answer = some r') : Guarded r' := by
  have hactive := h.active.taskEvent hr
  obtain ⟨task, s', next, htask, hstep, hnext⟩ := taskEvent_cases hr
  have hleaves : leavesMerge r.shared task.point answer.reply = false := by
    simpa [seenThrough, htask] using hok
  have hclean := cleanSteps_taskStep hleaves s' next hstep
  have hopen : r.loop ≠ .openingPR := fun e => keys_ne_nil htask (h.closing e).1
  -- An ungated merge is in the ticket's hand, or in another's.
  have hungated : ∀ c ∈ s'.branch, c.ungated = true → s'.contaminated = true ∨
      next.inHand = some c.sha ∨ ∃ id' task', id' ≠ id ∧ r.inFlight.lookup id' = some task' ∧
        task'.point.inHand = some c.sha := by
    intro c hc hu
    rcases hclean.ungated h.fresh with hcontaminated | hold
    · exact .inl hcontaminated
    · rcases hold c hc hu with hafter | ⟨hbranch, hbefore⟩
      · exact .inr (.inl hafter)
      · rcases h.inHand c hbranch hu with hcontaminated | ⟨id', task', hl, hhand⟩
        · exact .inl (hclean.contaminated hcontaminated)
        · right
          right
          refine ⟨id', task', ?_, hl, hhand⟩
          rintro rfl
          rw [htask] at hl
          cases hl
          exact hbefore hhand
  rcases hnext with ⟨point, rfl, rfl⟩ | ⟨rejected, rfl, rfl⟩
  · refine ⟨hactive, hclean.fresh h.fresh, ?_, fun e => absurd e hopen⟩
    intro c hc hu
    rcases hungated c hc hu with hcontaminated | hhand | ⟨id', task', hne, hl, hhand⟩
    · exact .inl hcontaminated
    · exact .inr ⟨id, _, AList.lookup_insert _, hhand⟩
    · exact .inr ⟨id', task', (AList.lookup_insert_ne hne).trans hl, hhand⟩
  · refine ⟨hactive, hclean.fresh h.fresh, ?_, ?_⟩
    · intro c hc hu
      rcases hungated c hc hu with hcontaminated | hnone | ⟨id', task', hne, hl, hhand⟩
      · exact .inl hcontaminated
      · cases hnone
      · exact .inr ⟨id', task', (AList.lookup_erase_ne hne).trans hl, hhand⟩
    · intro e
      have hloop : (if r.loop = .waiting then (if rejected then Loop.threw else .planning)
          else r.loop) = .openingPR := e
      by_cases hwaiting : r.loop = .waiting
      · rw [if_pos hwaiting] at hloop
        cases rejected <;> cases hloop
      · rw [if_neg hwaiting] at hloop
        exact absurd hloop hopen

theorem guarded_begin {records : TicketRecords} {contaminated : Bool} {branch : List Commit}
    {nextSha : Nat} {saved : Option (TicketRecords × Bool)} {saves : Bool}
    (hbelow : ∀ c ∈ branch, c.sha < nextSha) (hnodup : (branch.map Commit.sha).Nodup)
    (hgated : contaminated = true ∨ ∀ c ∈ branch, c.ungated = false) :
    Guarded (begin cfg all records contaminated branch nextSha saved saves) := by
  have hactive : Active (begin cfg all records contaminated branch nextSha saved saves) :=
    active_begin
  obtain ⟨s, loop, h, -, hopening, -, -, hbranch, hsha, hcontaminated, -⟩ :=
    begin_cases cfg all records contaminated branch nextSha saved saves
  rw [h] at hactive ⊢
  subst hbranch hsha hcontaminated
  refine ⟨hactive, ⟨hbelow, hnodup⟩, ?_, fun e => absurd e hopening⟩
  intro c hc hu
  rcases hgated with hcontaminated | hall
  · exact .inl hcontaminated
  · rw [hall c hc] at hu
    cases hu

theorem Guarded.step (h : Guarded r) {e : Event} (hok : seenThrough r e = true)
    (hr : FleetRun.step cfg all r e = some r') : Guarded r' := by
  cases e with
  | round clock => exact h.round hr
  | task id answer => exact h.taskEvent hok hr
  | prDone =>
    unfold FleetRun.step at hr
    split_ifs at hr
    cases hr
    exact ⟨h.active, h.fresh, h.inHand, fun e => by cases e⟩
  | foreignCommit =>
    cases hr
    refine ⟨h.active, h.fresh.commit none, ?_, h.closing⟩
    intro c hc hu
    rcases List.mem_append.1 hc with hc | hc
    · exact h.inHand c hc hu
    · rw [List.mem_singleton.1 hc] at hu
      cases hu
  | resume isAncestor saves =>
    obtain ⟨saved, hsaved, rfl⟩ := Option.map_eq_some_iff.1 hr
    apply guarded_begin h.fresh.below h.fresh.nodup
    rw [seenThrough, hsaved, Bool.or_eq_true, List.all_eq_true] at hok
    rcases hok with hcontaminated | hall
    · exact .inl hcontaminated
    · right
      intro c hc
      simpa using hall c hc

theorem Guarded.publishes (h : Guarded r) : PublishesGated r := by
  refine ⟨?_, h.inHand, ?_⟩
  · intro hopening c hc hticket
    obtain ⟨hkeys, hcontaminated⟩ := h.closing hopening
    by_contra hgated
    have hu : c.ungated = true := by simpa [Commit.ungated, hticket] using hgated
    rcases h.inHand c hc hu with hquarantine | ⟨id, task, hl, -⟩
    · rw [hcontaminated] at hquarantine
      cases hquarantine
    · exact keys_ne_nil hl hkeys
  · intro hcontaminated hopening
    rw [(h.closing hopening).2] at hcontaminated
    cases hcontaminated

/-- As long as every merge is seen through, what is published has passed the gate. -/
theorem publishes_only_gated {saves : Bool}
    (h : Reaches (FleetRun.step cfg all) (fun r e => seenThrough r e = true)
      (begin cfg all ∅ false [] 0 none saves) r) : PublishesGated r := by
  apply Guarded.publishes
  apply h.invariant Guarded
  · exact guarded_begin (by simp) List.nodup_nil (.inr (by simp))
  · intro r e r' hr hok hstep
    exact hr.step hok hstep

/-- Two tickets that have nothing to do with each other. -/
def twoTickets : List (Json Int) := [sampleTicket "A" [] [], sampleTicket "B" [] []]

/-- Whether the events lead to a PR of a branch with a merge that has passed no gate. -/
def publishesUngated (events : List Event) : Bool :=
  (play (FleetRun.step sampleRun twoTickets) (fun _ _ => True)
    (begin sampleRun twoTickets ∅ false [] 0 none true) events).any fun r =>
      decide (r.loop = .openingPR) && r.shared.branch.any Commit.ungated

def redGate : Reply := .gate ⟨false, false⟩

/-- The merge of `A` is withdrawn after a red gate, and the PR has the merge of `B` only. -/
theorem publishes_only_gated_withdrawn : ∃ r : FleetRun,
    r.loop = .openingPR ∧ r.shared.branch = [⟨1, some (js "B"), true⟩] ∧ PublishesGated r := by
  let blocked : Build := { goodBuild with blocked := true }
  let events := plans :: mergesUpToGate "A" ++
    [redGate, .git .works, .ok, .build blocked, .ok, .ok].map (replies "A") ++ merges "B" ++ [plans]
  have hplay : (play (FleetRun.step sampleRun twoTickets) (fun r e => seenThrough r e = true)
      (begin sampleRun twoTickets ∅ false [] 0 none true) events).any (fun r =>
        decide (r.loop = .openingPR ∧ r.shared.branch = [⟨1, some (js "B"), true⟩])) = true := by
    decide +kernel
  obtain ⟨r, hr, hP⟩ := exists_reaches_of_play hplay
  obtain ⟨hopening, hbranch⟩ := of_decide_eq_true hP
  exact ⟨r, hopening, hbranch, publishes_only_gated hr⟩

/-- The gate is red for `A`, and its merge is not withdrawn as the head of the branch cannot be
read. `B` merges, and the PR has both. -/
theorem ungated_merge_published : ¬∀ r,
    Reaches (FleetRun.step sampleRun twoTickets) (fun _ _ => True)
      (begin sampleRun twoTickets ∅ false [] 0 none true) r → PublishesGated r := by
  intro hall
  let events := plans :: mergesUpToGate "A" ++
    [redGate, .git .headUnreadable, .ok, .ok, .ok].map (replies "A") ++ merges "B" ++ [plans]
  have hplay : publishesUngated events = true := by decide +kernel
  obtain ⟨r, hr, hP⟩ := exists_reaches_of_play hplay
  rw [Bool.and_eq_true, decide_eq_true_eq, List.any_eq_true] at hP
  obtain ⟨hopening, c, hc, hungated⟩ := hP
  rw [Commit.ungated, Bool.and_eq_true] at hungated
  have hgated := (hall r hr).published hopening c hc hungated.1
  rw [hgated] at hungated
  cases hungated.2

/-- The merge effect throws after the merge of `A` is made. -/
example : publishesUngated (plans :: (mergesUpToGate "A").dropLast ++
    [.threwAfterMerge, .ok, .ok, .ok].map (replies "A") ++ merges "B" ++ [plans]) = true := by
  decide +kernel

/-- The run is killed before the gate over the merge of `A`, which the resumed run takes for
merged. -/
example : publishesUngated (plans :: mergesUpToGate "A" ++
    [.resume (fun id => decide (id = js "A")) true, plans] ++ merges "B" ++ [plans]) = true := by
  decide +kernel

end Adlc.Fleet
