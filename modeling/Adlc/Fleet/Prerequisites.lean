import Adlc.Fleet.Dispatch

namespace Adlc.Fleet

open Adlc.Framework Adlc.Tickets Adlc.Core

variable {ν : Type} {cfg : RunConfig} {all : List (Json ν)} {r r' : FleetRun}

/-! ## The prerequisites of a ticket in flight -/

/-- Every ticket with an edge to the id is completed or merged. -/
def Satisfied (all : List (Json ν)) (records : TicketRecords) (id : JsString) : Prop :=
  ∀ p ∈ all, id ∈ targets p → isCompleted p = true ∨ stateIn records (idOf p) = some .merged

/-- A worktree is being created for the ticket, or a worker is at work on it. -/
def TaskPoint.dispatches : TaskPoint → Bool
  | .createWorktree => true
  | .awaiting .dispatch _ => true
  | _ => false

/-- What is dispatched has its prerequisites behind it. -/
def PrerequisitesMet (all : List (Json ν)) (r : FleetRun) : Prop :=
  ∀ id task, r.inFlight.lookup id = some task → task.point.dispatches = true →
    Satisfied all r.shared.records id

/-- A round that may still dispatch finds no ticket ready that depends on a refused one. -/
def NoRefusedPrerequisite (cfg : RunConfig) (all : List (Json ν)) (r : FleetRun) : Event → Prop
  | .round clock => cfg.policy.expired (clock 1) = true ∨ ∀ p ∈ all, idOf p ∈ r.shared.refused →
      ∀ t ∈ readyTickets cfg all r, idOf t ∉ targets p
  | _ => True

instance (cfg : RunConfig) (all : List (Json ν)) (r : FleetRun) (e : Event) :
    Decidable (NoRefusedPrerequisite cfg all r e) :=
  match e with
  | .round clock => inferInstanceAs (Decidable (cfg.policy.expired (clock 1) = true ∨ _))
  | .task .. | .prDone | .foreignCommit | .resume .. => .isTrue trivial

def AllSatisfied (all : List (Json ν)) (r : FleetRun) : Prop :=
  ∀ id ∈ r.inFlight, Satisfied all r.shared.records id

variable {records records' : TicketRecords} {id : JsString}

theorem Satisfied.mono (h : Satisfied all records id)
    (hmerged : ∀ q, stateIn records q = some .merged → stateIn records' q = some .merged) :
    Satisfied all records' id := by
  intro p hp hedge
  rcases h p hp hedge with hdone | hstate
  · exact .inl hdone
  · exact .inr (hmerged _ hstate)

theorem stateIn_of_stateOf {state : TicketState} (h : stateOf records id = some state) :
    stateIn records id = some state := by
  unfold stateOf at h
  split_ifs at h
  exact h

/-- What is ready has its prerequisites behind it, if none of them was refused. -/
theorem satisfied_of_ready (hids : (all.map idOf).Nodup) {t : Json ν}
    (ht : t ∈ readyTickets cfg all r)
    (hrefused : ∀ p ∈ all, idOf p ∈ r.shared.refused → idOf t ∉ targets p) :
    Satisfied all r.shared.records (idOf t) := by
  obtain ⟨-, -, hpreds, -⟩ := mem_computeReady ht
  intro p hp hedge
  have hplanned : p ∈ plannedFor all r.shared := by
    apply List.mem_filter.2
    refine ⟨hp, ?_⟩
    rw [Bool.not_eq_true', List.contains_eq_mem, decide_eq_false_iff_not]
    exact fun hm => hrefused p hp hm hedge
  have hpred : idOf p ∈ predecessorsOf (idOf t) (plannedFor all r.shared) :=
    List.mem_map_of_mem (List.mem_filter.2 ⟨hplanned, by simpa using hedge⟩)
  have hdone := hpreds _ hpred
  rw [mergedOrCompleted, Bool.or_eq_true, List.any_eq_true, decide_eq_true_eq] at hdone
  rcases hdone with ⟨u, hu, hcompleted⟩ | hmerged
  · rw [Bool.and_eq_true, decide_eq_true_eq] at hcompleted
    have hup : u = p := List.inj_on_of_nodup_map hids (List.mem_filter.1 hu).1 hp hcompleted.2
    exact .inl (hup ▸ hcompleted.1)
  · exact .inr (stateIn_of_stateOf hmerged)

/-- A round overwrites no record that says merged. -/
theorem merged_foldl_startTicket {ts : List (Json ν)} (hids : (ts.map idOf).Nodup)
    (hok : ∀ t ∈ ts, Admissible all r t) (q : JsString)
    (hq : stateIn r.shared.records q = some .merged) :
    stateIn (ts.foldl FleetRun.startTicket r).shared.records q = some .merged := by
  apply foldl_startTicket_induction all (P := fun r => stateIn r.shared.records q = some .merged) hids
    hok hq
  intro r t ht hq
  show stateIn (r.startTicket t).shared.records q = some .merged
  rw [stateIn_startTicket_ne]
  · exact hq
  · rintro rfl
    exact ht.unmerged hq

theorem AllSatisfied.round (h : AllSatisfied all r) (hk : Kept all r)
    (hids : (all.map idOf).Nodup) {clock : Clock}
    (hok : NoRefusedPrerequisite cfg all r (.round clock))
    (hr : r.round cfg all clock = some r') : AllSatisfied all r' := by
  obtain ⟨-, ts, hts, rfl⟩ := round_cases hr
  obtain ⟨loop, hend, -⟩ := roundEnd_cases cfg (ts.foldl FleetRun.startTicket (r.turn cfg clock))
  rw [hend]
  rcases hts with rfl | ⟨hnow, rfl⟩
  · exact h
  have hmerged : ∀ q, stateIn r.shared.records q = some .merged →
      stateIn ((toAdmit cfg all r).foldl FleetRun.startTicket (r.turn cfg clock)).shared.records q =
        some .merged :=
    merged_foldl_startTicket (nodup_toAdmit hids) (hk.admissible_turn clock)
  intro id hm
  rcases (mem_foldl_startTicket _).1 hm with hm | ⟨t, ht, rfl⟩
  · exact (h id hm).mono hmerged
  · have hready := mem_readyTickets_of_toAdmit ht
    rcases hok with hexpired | hrefused
    · rw [hnow] at hexpired
      cases hexpired
    · have hsatisfied := satisfied_of_ready hids hready fun p hp hm => hrefused p hp hm t hready
      exact hsatisfied.mono hmerged

theorem AllSatisfied.taskEvent (h : AllSatisfied all r) (hk : Kept all r) {answer : EffectAnswer}
    (hr : r.taskEvent cfg id answer = some r') : AllSatisfied all r' := by
  intro id' hm
  have hbefore := h id' (mem_of_taskEvent hr hm)
  obtain ⟨task, s', next, htask, hstep, hnext⟩ := taskEvent_cases hr
  have hmerged : ∀ q, stateIn r.shared.records q = some .merged →
      stateIn s'.records q = some .merged :=
    fun q => (taskStep_effect hstep).merged (hk.building _ task htask)
  rcases hnext with ⟨point, -, rfl⟩ | ⟨rejected, -, rfl⟩
  · exact hbefore.mono hmerged
  · exact hbefore.mono hmerged

theorem allSatisfied_begin {contaminated : Bool} {branch : List Commit} {nextSha : Nat}
    {saved : Option (TicketRecords × Bool)} {saves : Bool} :
    AllSatisfied all (begin cfg all records contaminated branch nextSha saved saves) := by
  obtain ⟨s, loop, h, -⟩ := begin_cases cfg all records contaminated branch nextSha saved saves
  rw [h]
  intro id hm
  exact absurd hm (AList.notMem_empty id)

theorem AllSatisfied.step (h : AllSatisfied all r) (hk : Kept all r) (hids : (all.map idOf).Nodup)
    {e : Event} (hok : NoRefusedPrerequisite cfg all r e)
    (hr : FleetRun.step cfg all r e = some r') : AllSatisfied all r' := by
  cases e with
  | round clock => exact h.round hk hids hok hr
  | task id answer => exact h.taskEvent hk hr
  | prDone =>
    unfold FleetRun.step at hr
    split_ifs at hr
    cases hr
    exact h
  | foreignCommit =>
    cases hr
    exact h
  | resume isAncestor saves =>
    obtain ⟨saved, -, rfl⟩ := Option.map_eq_some_iff.1 hr
    exact allSatisfied_begin

/-- As long as no round finds a ticket ready that depends on a refused one, every worktree is
created, and every worker dispatched, for a ticket whose prerequisites are completed or merged. -/
theorem dispatch_respects_prerequisites [JsNumber ν] (hv : ValidTickets all)
    {contaminated : Bool} {branch : List Commit} {nextSha : Nat}
    {saved : Option (TicketRecords × Bool)} {saves : Bool}
    (h : Reaches (FleetRun.step cfg all) (NoRefusedPrerequisite cfg all)
      (begin cfg all records contaminated branch nextSha saved saves) r) :
    PrerequisitesMet all r := by
  have hids := nodup_idOf hv
  have hboth : Kept all r ∧ AllSatisfied all r := by
    apply h.invariant fun r => Kept all r ∧ AllSatisfied all r
    · exact ⟨kept_begin, allSatisfied_begin⟩
    · intro r e r' hr hok hstep
      exact ⟨hr.1.step hids hstep, hr.2.step hr.1 hids hok hstep⟩
  intro id task hl _
  apply hboth.2 id
  exact AList.lookup_isSome.1 (by rw [hl]; rfl)

/-- `T` waits for `P`. -/
def waitingPair : List (Json Int) := [sampleTicket "P" [] ["T"], sampleTicket "T" [] []]

theorem waitingPair_valid : ValidTickets waitingPair := by
  apply validTickets_of_leadsForward
  all_goals decide +kernel

/-- Without a refusal the second ticket is dispatched after the first one has merged. -/
theorem dispatch_respects_prerequisites_merged : ∃ r : FleetRun,
    (r.inFlight.lookup (js "T")).any (fun task => task.point.dispatches) = true ∧
      PrerequisitesMet waitingPair r := by
  let events := plans :: merges "P" ++ [plans]
  have hplay : (play (FleetRun.step sampleRun waitingPair)
      (NoRefusedPrerequisite sampleRun waitingPair)
      (begin sampleRun waitingPair ∅ false [] 0 none true) events).any (fun r =>
        (r.inFlight.lookup (js "T")).any fun task => task.point.dispatches) = true := by
    decide +kernel
  obtain ⟨r, hr, hdispatches⟩ := exists_reaches_of_play hplay
  exact ⟨r, hdispatches, dispatch_respects_prerequisites waitingPair_valid hr⟩

/-- The worktree of `P` cannot be created, and `T` is dispatched. -/
theorem dependent_of_refused_dispatched : ¬∀ r,
    Reaches (FleetRun.step sampleRun waitingPair) (fun _ _ => True)
      (begin sampleRun waitingPair ∅ false [] 0 none true) r → PrerequisitesMet waitingPair r := by
  intro hall
  let events := [plans, replies "P" .threw, plans]
  have hplay : (play (FleetRun.step sampleRun waitingPair) (fun _ _ => True)
      (begin sampleRun waitingPair ∅ false [] 0 none true) events).any (fun r =>
        (r.inFlight.lookup (js "T")).any (fun task => task.point.dispatches) &&
          decide (stateIn r.shared.records (js "P") = some .pending)) = true := by
    decide +kernel
  obtain ⟨r, hr, hP⟩ := exists_reaches_of_play hplay
  rw [Bool.and_eq_true, Option.any_eq_true, decide_eq_true_eq] at hP
  obtain ⟨⟨task, hl, hdispatches⟩, hpending⟩ := hP
  have hedge : js "T" ∈ targets (sampleTicket "P" [] ["T"]) := by decide +kernel
  rcases hall r hr _ task hl hdispatches _ List.mem_cons_self hedge with hdone | hmerged
  · revert hdone
    decide +kernel
  · have hid : idOf (sampleTicket "P" [] ["T"]) = js "P" := by decide +kernel
    rw [hid, hpending] at hmerged
    cases hmerged

end Adlc.Fleet
