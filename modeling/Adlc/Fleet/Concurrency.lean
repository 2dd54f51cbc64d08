import Adlc.Fleet.Dispatch

namespace Adlc.Fleet

open Adlc.Framework Adlc.Tickets Adlc.Core

variable {ν : Type} {cfg : RunConfig} {all : List (Json ν)} {r r' : FleetRun} {id : JsString}

/-! ## The tickets in flight -/

/-- The tickets in flight do not overlap. -/
def Separate (all : List (Json ν)) (r : FleetRun) : Prop :=
  ∀ a ∈ all, ∀ b ∈ all, idOf a ∈ r.inFlight → idOf b ∈ r.inFlight → idOf a ≠ idOf b →
    scopesOverlap a b = false

/-- What holds of the loop in every state it reaches. -/
structure LoopInvariant (cfg : RunConfig) (all : List (Json ν)) (r : FleetRun) : Prop where
  cap : r.inFlight.keys.length ≤ cfg.cap
  separate : Separate all r
  once : r.admitted.Nodup
  completions : r.completions ≤ all.length
  rounds : r.rounds ≤ r.completions + 1
  waiting : r.loop = .waiting → r.inFlight.keys ≠ []

/-- A round that may still dispatch has no refused ticket in flight, or it finds none ready. -/
def NoRefusedInFlight (cfg : RunConfig) (all : List (Json ν)) (r : FleetRun) : Event → Prop
  | .round clock => cfg.policy.expired (clock 1) = true ∨
      (∀ id ∈ r.shared.refused, id ∉ r.inFlight) ∨ readyTickets cfg all r = []
  | _ => True

instance (cfg : RunConfig) (all : List (Json ν)) (r : FleetRun) (e : Event) [DecidableEq ν] :
    Decidable (NoRefusedInFlight cfg all r e) := by
  cases e <;> unfold NoRefusedInFlight <;> infer_instance

variable [JsNumber ν]

theorem id?_eq (hv : ValidTickets all) {t : Json ν} (ht : t ∈ all) : id? t = some (idOf t) := by
  obtain ⟨id, hid, -⟩ := id?_of_valid (hv.valid t ht)
  rw [idOf, hid]
  rfl

theorem byIdGet_planned (hv : ValidTickets all) {s : Shared} {t : Json ν} (ht : t ∈ all)
    (hnot : idOf t ∉ s.refused) : byIdGet (plannedFor all s) (idOf t) = some t := by
  apply byIdGet_eq
  · exact hv.ids.sublist (List.filter_sublist.map id?)
  · apply List.mem_filter.2
    refine ⟨ht, ?_⟩
    rwa [Bool.not_eq_true', List.contains_eq_mem, decide_eq_false_iff_not]
  · exact id?_eq hv ht

omit [JsNumber ν] in
theorem idOf_of_byIdGet {tickets : List (Json ν)} {t : Json ν} (h : byIdGet tickets id = some t) :
    t ∈ tickets ∧ idOf t = id := by
  obtain ⟨hm, hid⟩ := byIdGet_some h
  refine ⟨hm, ?_⟩
  rw [idOf, hid]
  rfl

omit [JsNumber ν] in
theorem apart_ticketsOf (h : Separate all r) :
    Apart (ticketsOf (plannedFor all r.shared) r.inFlight.keys) := by
  rw [Apart, ticketsOf, List.pairwise_filterMap]
  apply List.Pairwise.imp_of_mem _ (AList.keys_nodup r.inFlight)
  intro ida idb ha hb hne a hga b hgb
  obtain ⟨hma, rfl⟩ := idOf_of_byIdGet hga
  obtain ⟨hmb, rfl⟩ := idOf_of_byIdGet hgb
  apply h a (List.mem_filter.1 hma).1 b (List.mem_filter.1 hmb).1 _ _ hne
  · exact AList.mem_keys.2 ha
  · exact AList.mem_keys.2 hb

/-- With no refused ticket in flight, the planner sees all of them. -/
theorem length_ticketsOf (hv : ValidTickets all) (hk : Kept all r)
    (hrefused : ∀ id ∈ r.shared.refused, id ∉ r.inFlight) :
    (ticketsOf (plannedFor all r.shared) r.inFlight.keys).length = r.inFlight.keys.length := by
  apply List.filterMap_length_eq_length.2
  intro id hm
  have hflight : id ∈ r.inFlight := AList.mem_keys.2 hm
  obtain ⟨t, ht, rfl⟩ := hk.known id (hk.inFlight id hflight)
  rw [byIdGet_planned hv ht fun hm => hrefused _ hm hflight]
  rfl

/-- The tickets in flight are no more than the cap, and do not overlap. -/
structure Capped (cfg : RunConfig) (all : List (Json ν)) (r : FleetRun) : Prop where
  cap : r.inFlight.keys.length ≤ cfg.cap
  separate : Separate all r

theorem Capped.admits (h : Capped cfg all r) (hv : ValidTickets all) (hk : Kept all r)
    (hrefused : ∀ id ∈ r.shared.refused, id ∉ r.inFlight) (clock : Clock) :
    Capped cfg all ((toAdmit cfg all r).foldl FleetRun.startTicket (r.turn cfg clock)) := by
  have hids := nodup_idOf hv
  have hafter : Kept all ((toAdmit cfg all r).foldl FleetRun.startTicket (r.turn cfg clock)) :=
    hk.admits hids clock
  constructor
  · have hslots : (toAdmit cfg all r).length ≤ cfg.cap - r.inFlight.keys.length := by
      rw [← length_ticketsOf hv hk hrefused]
      exact selectFrom_length _ _ _
    have hcount := hafter.count
    rw [completions_foldl_startTicket, admitted_foldl_startTicket, List.length_append, List.length_map] at hcount
    have hbefore : r.completions + r.inFlight.keys.length = r.admitted.length := hk.count
    have hcap := h.cap
    change r.completions + _ = r.admitted.length + _ at hcount
    omega
  · intro a ha b hb hfa hfb hne
    have hmem : ∀ t ∈ all,
        idOf t ∈ ((toAdmit cfg all r).foldl FleetRun.startTicket (r.turn cfg clock)).inFlight →
        t ∈ ticketsOf (plannedFor all r.shared) r.inFlight.keys ++ toAdmit cfg all r := by
      intro t ht hm
      apply List.mem_append.2
      rcases (mem_foldl_startTicket _).1 hm with hm | ⟨u, hu, he⟩
      · left
        have hnot : idOf t ∉ r.shared.refused := fun hr => hrefused _ hr hm
        exact List.mem_filterMap.2 ⟨idOf t, AList.mem_keys.1 hm, byIdGet_planned hv ht hnot⟩
      · right
        have hut : u = t := List.inj_on_of_nodup_map hids (toAdmit_sublist.subset hu) ht he
        exact hut ▸ hu
    have hapart : Apart (ticketsOf (plannedFor all r.shared) r.inFlight.keys ++ toAdmit cfg all r) :=
      selectFrom_apart _ (apart_ticketsOf h.separate)
    exact hapart.forall (hmem a ha hfa) (hmem b hb hfb) fun e => hne (e ▸ rfl)

theorem Capped.round (h : Capped cfg all r) (hv : ValidTickets all) (hk : Kept all r)
    {clock : Clock} (hok : NoRefusedInFlight cfg all r (.round clock))
    (hr : r.round cfg all clock = some r') : Capped cfg all r' := by
  obtain ⟨-, ts, hts, rfl⟩ := round_cases hr
  obtain ⟨loop, hend, -⟩ := roundEnd_cases cfg (ts.foldl FleetRun.startTicket (r.turn cfg clock))
  rw [hend]
  suffices hcapped : Capped cfg all (ts.foldl FleetRun.startTicket (r.turn cfg clock)) from
    ⟨hcapped.cap, hcapped.separate⟩
  rcases hts with rfl | ⟨hnow, rfl⟩
  · exact ⟨h.cap, h.separate⟩
  · rcases hok with hexpired | hrefused | hnone
    · rw [hnow] at hexpired
      cases hexpired
    · exact h.admits hv hk hrefused clock
    · have hempty : toAdmit cfg all r = [] := by
        apply List.eq_nil_iff_forall_not_mem.2
        intro t ht
        have hready := mem_readyTickets_of_toAdmit ht
        rw [hnone] at hready
        cases hready
      rw [hempty]
      exact ⟨h.cap, h.separate⟩

omit [JsNumber ν] in
theorem Capped.taskEvent (h : Capped cfg all r) {answer : EffectAnswer}
    (hr : r.taskEvent cfg id answer = some r') : Capped cfg all r' := by
  refine ⟨?_, ?_⟩
  · exact (length_of_taskEvent hr).trans h.cap
  · intro a ha b hb hfa hfb hne
    exact h.separate a ha b hb (mem_of_taskEvent hr hfa) (mem_of_taskEvent hr hfb) hne

omit [JsNumber ν] in
theorem capped_begin {records : TicketRecords} {contaminated : Bool} {branch : List Commit}
    {nextSha : Nat} {saved : Option (TicketRecords × Bool)} {saves : Bool} :
    Capped cfg all (begin cfg all records contaminated branch nextSha saved saves) := by
  obtain ⟨s, loop, h, -⟩ := begin_cases cfg all records contaminated branch nextSha saved saves
  rw [h]
  refine ⟨Nat.zero_le _, ?_⟩
  intro a ha b hb hm
  exact absurd hm (AList.notMem_empty _)

theorem Capped.step (h : Capped cfg all r) (hv : ValidTickets all) (hk : Kept all r) {e : Event}
    (hok : NoRefusedInFlight cfg all r e) (hr : FleetRun.step cfg all r e = some r') :
    Capped cfg all r' := by
  cases e with
  | round clock => exact h.round hv hk hok hr
  | task id answer => exact h.taskEvent hr
  | prDone =>
    unfold FleetRun.step at hr
    split_ifs at hr
    cases hr
    exact ⟨h.cap, h.separate⟩
  | foreignCommit =>
    cases hr
    exact ⟨h.cap, h.separate⟩
  | resume isAncestor saves =>
    obtain ⟨saved, -, rfl⟩ := Option.map_eq_some_iff.1 hr
    exact capped_begin

omit [JsNumber ν] in
/-- What has been admitted is one ticket each. -/
theorem Kept.admitted_length (h : Kept all r) : r.admitted.length ≤ all.length := by
  have hsub : r.admitted ⊆ all.map idOf := by
    intro id hm
    obtain ⟨t, ht, rfl⟩ := h.known id hm
    exact List.mem_map_of_mem ht
  have hle := (List.subperm_of_subset h.once hsub).length_le
  rwa [List.length_map] at hle

/-- As long as no round finds a ticket ready while a refused one is still in flight, the tickets in
flight are no more than the cap and do not overlap, none is admitted twice, and the loop is over
after at most one completion for each ticket. -/
theorem fleet_concurrency (hv : ValidTickets all) {records : TicketRecords} {contaminated : Bool}
    {branch : List Commit} {nextSha : Nat} {saved : Option (TicketRecords × Bool)} {saves : Bool}
    (h : Reaches (FleetRun.step cfg all) (NoRefusedInFlight cfg all)
      (begin cfg all records contaminated branch nextSha saved saves) r) :
    LoopInvariant cfg all r := by
  have hids := nodup_idOf hv
  have hall : Kept all r ∧ Turning r ∧ Capped cfg all r := by
    apply h.invariant fun r => Kept all r ∧ Turning r ∧ Capped cfg all r
    · exact ⟨kept_begin, turning_begin, capped_begin⟩
    · intro r e r' hr hok hstep
      exact ⟨hr.1.step hids hstep, hr.2.1.step hstep, hr.2.2.step hv hr.1 hok hstep⟩
  obtain ⟨hkept, hturning, hcapped⟩ := hall
  refine ⟨hcapped.cap, hcapped.separate, hkept.once, ?_, ?_, hturning.waiting⟩
  · have hcount := hkept.count
    have hlength := hkept.admitted_length
    omega
  · have hbound := hturning.rounds
    omega

/-- Four tickets that have nothing to do with one another. -/
def fourTickets : List (Json Int) :=
  [sampleTicket "A" [] [], sampleTicket "B" [] [], sampleTicket "C" [] [], sampleTicket "D" [] []]

theorem fourTickets_valid : ValidTickets fourTickets := by
  apply validTickets_of_leadsForward
  all_goals decide +kernel

/-- When the first ticket is over, the third takes its slot. -/
theorem fleet_concurrency_full : ∃ r : FleetRun,
    r.admitted = [js "A", js "B", js "C"] ∧ LoopInvariant sampleRun fourTickets r := by
  let events := [plans, replies "A" .threw, plans]
  have hplay : (play (FleetRun.step sampleRun fourTickets) (NoRefusedInFlight sampleRun fourTickets)
      (begin sampleRun fourTickets ∅ false [] 0 none true) events).any (fun r =>
        decide (r.admitted = [js "A", js "B", js "C"])) = true := by
    decide +kernel
  obtain ⟨r, hr, hadmitted⟩ := exists_reaches_of_play hplay
  exact ⟨r, of_decide_eq_true hadmitted, fleet_concurrency fourTickets_valid hr⟩

/-- The worktree of `A` cannot be set up. While it is still being removed, the one of `B` fails too,
and both other tickets are admitted: three are in flight where two may be. -/
theorem three_in_flight_over_cap : ¬∀ r,
    Reaches (FleetRun.step sampleRun fourTickets) (fun _ _ => True)
      (begin sampleRun fourTickets ∅ false [] 0 none true) r →
    LoopInvariant sampleRun fourTickets r := by
  intro hall
  let events := [plans, replies "A" .ok, replies "A" .threw, replies "B" .threw, plans]
  have hplay : (play (FleetRun.step sampleRun fourTickets) (fun _ _ => True)
      (begin sampleRun fourTickets ∅ false [] 0 none true) events).any (fun r =>
        decide (r.inFlight.keys.length = 3)) = true := by
    decide +kernel
  obtain ⟨r, hr, hthree⟩ := exists_reaches_of_play hplay
  have hcap := (hall r hr).cap
  rw [of_decide_eq_true hthree] at hcap
  revert hcap
  decide

end Adlc.Fleet
