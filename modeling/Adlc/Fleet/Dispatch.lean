import Adlc.Framework.IntNumber
import Adlc.Framework.Transition
import Adlc.Fleet.Run

namespace Adlc.Fleet

open Adlc.Framework Adlc.Tickets Adlc.Core

/-! ## What the steps of a ticket do to the records -/

/-- The outcome of the ticket is recorded. -/
def TaskPoint.spent : TaskPoint → Bool
  | .refusedCleanup | .cleanup => true
  | _ => false

/-- The pipeline goes on and leaves the records alone. -/
def Works (s : Shared) (o : Outcomes) : Prop :=
  ∀ s' next, o = some (s', next) → s'.records = s.records ∧ s'.refused = s.refused ∧
    ∃ point, next = .goes point ∧ point.spent = false

variable {cfg : RunConfig} {id : JsString} {s s' t : Shared} {p : Progress}

theorem works_goes {point : TaskPoint} (hr : t.records = s.records) (hf : t.refused = s.refused)
    (h : point.spent = false) : Works s (t.goes point) := by
  intro s' next e
  cases e
  exact ⟨hr, hf, point, rfl, h⟩

theorem works_none : Works s none := by
  intro s' next e
  cases e

theorem works_leaveMerge {result : Option MergeResult} (hr : t.records = s.records)
    (hf : t.refused = s.refused) : Works s (t.leaveMerge id result p) :=
  works_goes hr hf rfl

theorem works_next (n : Next) : Works s (s.next id n) := by
  cases n with
  | awaits effect p => cases effect <;> exact works_goes rfl rfl rfl
  | returns outcome => exact works_goes rfl rfl rfl

theorem works_quarantine {saves : Bool} {thrown : Option MergeResult} (hr : t.records = s.records)
    (hf : t.refused = s.refused) : Works s (t.quarantine id saves thrown p) := by
  cases saves <;> exact works_leaveMerge hr hf

theorem works_withdraw {completionSha : Nat} {late saves : Bool} (hr : t.records = s.records)
    (hf : t.refused = s.refused) : Works s (t.withdraw cfg id completionSha late saves p) := by
  unfold Shared.withdraw
  split_ifs
  · exact works_goes hr hf rfl
  · exact works_quarantine hr hf

theorem works_complete {clock : Clock} (hr : t.records = s.records) (hf : t.refused = s.refused) :
    Works s (t.complete cfg id clock p) := by
  unfold Shared.complete
  split_ifs
  · exact works_leaveMerge hr hf
  · exact works_leaveMerge hr hf
  · exact works_goes hr hf rfl
  · exact works_leaveMerge hr hf

theorem revertMerge_records (s : Shared) (mergeSha : Nat) (git : GitAnswer) :
    (s.revertMerge mergeSha git).1.records = s.records ∧
      (s.revertMerge mergeSha git).1.refused = s.refused := by
  unfold Shared.revertMerge
  cases git with
  | resetFails done => cases done <;> dsimp only <;> split_ifs <;> exact ⟨rfl, rfl⟩
  | works | headUnreadable | revertFails => dsimp only; split_ifs <;> exact ⟨rfl, rfl⟩

theorem works_mergeStep (point : MergePoint) (answer : EffectAnswer) :
    Works s (mergeStep cfg id s point p answer) := by
  unfold mergeStep
  split
  · split_ifs
    · exact works_none
    · exact works_leaveMerge rfl rfl
    · exact works_leaveMerge rfl rfl
    · exact works_goes rfl rfl rfl
  · exact works_goes rfl rfl rfl
  · exact works_leaveMerge rfl rfl
  · exact works_leaveMerge rfl rfl
  · split_ifs
    · exact works_complete rfl rfl
    · exact works_goes rfl rfl rfl
  · exact works_goes rfl rfl rfl
  · rename_i mergeSha why git _
    obtain ⟨hr, hf⟩ := revertMerge_records s mergeSha git
    split
    all_goals
      rename_i hrevert
      rw [hrevert] at hr hf
    · exact works_leaveMerge hr hf
    · exact works_quarantine hr hf
    · split <;> exact works_leaveMerge hr hf
  · dsimp only
    split_ifs
    · exact works_withdraw rfl rfl
    · exact works_goes rfl rfl rfl
  · exact works_leaveMerge rfl rfl
  · split_ifs
    · exact works_quarantine rfl rfl
    · exact works_leaveMerge rfl rfl
  · split_ifs
    · exact works_leaveMerge rfl rfl
    · exact works_leaveMerge rfl rfl
    · exact works_withdraw rfl rfl
  · exact works_withdraw rfl rfl
  · exact works_leaveMerge rfl rfl
  · exact works_quarantine rfl rfl
  · exact works_none

theorem works_awaitStep (effect : Await) (answer : EffectAnswer) :
    Works s (awaitStep cfg id s effect p answer) := by
  unfold awaitStep
  split
  all_goals first
    | exact works_next _
    | exact works_none

/-- What a step of a ticket does to the records and to the refused tickets. -/
inductive TaskEffect (id : JsString) (s : Shared) (spent : Bool) : Shared → TaskNext → Prop where
  | works {s' : Shared} {point : TaskPoint} (active : spent = false)
      (records : s'.records = s.records) (refused : s'.refused = s.refused)
      (stays : point.spent = false) : TaskEffect id s spent s' (.goes point)
  | builds {s' : Shared} {next : TaskNext} {strikes : Nat} (active : spent = false)
      (records : s'.records = withTicket s.records id (building strikes))
      (refused : s'.refused = s.refused) : TaskEffect id s spent s' next
  | refuses {s' : Shared} {next : TaskNext} {strikes : Nat} (active : spent = false)
      (records : s'.records = withTicket s.records id fun _ => ⟨.pending, strikes, none⟩)
      (refused : s'.refused = s.refused ++ [id])
      (leaves : ∀ point, next = .goes point → point.spent = true) : TaskEffect id s spent s' next
  | settles {s' : Shared} {next : TaskNext} {outcome : Outcome} (active : spent = false)
      (records : s'.records = withTicket s.records id fun _ =>
        ⟨outcome.state.recorded, outcome.strikes, outcome.reasonCode⟩)
      (refused : s'.refused = s.refused)
      (leaves : ∀ point, next = .goes point → point.spent = true) : TaskEffect id s spent s' next
  | cleans {s' : Shared} {rejected : Bool} (done : spent = true) (records : s'.records = s.records)
      (refused : s'.refused = s.refused) : TaskEffect id s spent s' (.finished rejected)

theorem persist_records (saves : Bool) : (s.persist saves).1.records = s.records := by
  cases saves <;> rfl

theorem persist_refused (saves : Bool) : (s.persist saves).1.refused = s.refused := by
  cases saves <;> rfl

theorem saveThen_eq {saves : Bool} {next next' : TaskNext}
    (h : s.saveThen saves next = some (s', next')) :
    s'.records = s.records ∧ s'.refused = s.refused ∧ (next' = next ∨ next' = .finished true) := by
  cases saves <;> cases h
  · exact ⟨rfl, rfl, .inr rfl⟩
  · exact ⟨rfl, rfl, .inl rfl⟩

theorem Works.effect {o : Outcomes} {next : TaskNext} (hw : Works s o) (h : o = some (s', next)) :
    TaskEffect id s false s' next := by
  obtain ⟨hr, hf, point, rfl, hp⟩ := hw s' next h
  exact .works rfl hr hf hp

theorem taskStep_effect {task : Task} {answer : EffectAnswer} {next : TaskNext}
    (h : taskStep cfg id s task answer = some (s', next)) :
    TaskEffect id s task.point.spent s' next := by
  obtain ⟨startStrikes, point⟩ := task
  unfold taskStep at h
  dsimp only at h ⊢
  split at h
  · obtain ⟨hr, hf, -⟩ := saveThen_eq h
    exact .builds rfl hr hf
  · obtain ⟨hr, hf, hnext⟩ := saveThen_eq h
    refine .refuses rfl hr hf ?_
    intro point e
    rcases hnext with rfl | rfl <;> cases e
  · exact (works_next _).effect h
  · obtain ⟨hr, hf, hnext⟩ := saveThen_eq h
    refine .refuses rfl hr hf ?_
    intro point e
    rcases hnext with rfl | rfl <;> cases e
    rfl
  · exact (works_awaitStep _ _).effect h
  · exact (works_mergeStep _ _).effect h
  · exact (works_next _).effect h
  · exact (works_next _).effect h
  · obtain ⟨hr, hf, hnext⟩ := saveThen_eq h
    refine .settles rfl hr hf ?_
    intro point e
    rcases hnext with rfl | rfl <;> cases e
    rfl
  · cases h
    exact .cleans rfl rfl rfl
  · cases h
    exact .cleans rfl rfl rfl
  · obtain ⟨hr, hf, rfl | rfl⟩ := saveThen_eq h <;> exact .cleans rfl hr hf
  · obtain ⟨hr, hf, rfl | rfl⟩ := saveThen_eq h <;> exact .cleans rfl hr hf
  · cases h

/-! ## Reading the records after a step -/

/-- `status.tickets[id]?.state` -/
def stateIn (records : TicketRecords) (id : JsString) : Option TicketState :=
  (records.lookup id).map TicketRecord.state

variable {records : TicketRecords} {id' : JsString} {ended : Bool} {next : TaskNext}

theorem lookup_withTicket_ne (patch : TicketRecord → TicketRecord) (h : id' ≠ id) :
    (withTicket records id patch).lookup id' = records.lookup id' :=
  AList.lookup_insert_ne h

theorem stateIn_withTicket (patch : TicketRecord → TicketRecord) :
    stateIn (withTicket records id patch) id =
      some (patch ((records.lookup id).getD ⟨.pending, 0, none⟩)).state := by
  rw [stateIn, withTicket, AList.lookup_insert, Option.map_some]

theorem stateIn_withTicket_ne (patch : TicketRecord → TicketRecord) (h : id' ≠ id) :
    stateIn (withTicket records id patch) id' = stateIn records id' := by
  rw [stateIn, stateIn, lookup_withTicket_ne patch h]

/-- The run will not admit the ticket again. -/
def Spent (s : Shared) (id : JsString) : Prop :=
  id ∈ s.refused ∨ ∃ state, stateIn s.records id = some state ∧ state ≠ .pending

theorem TaskEffect.stateIn_ne (h : TaskEffect id s ended s' next) (hne : id' ≠ id) :
    stateIn s'.records id' = stateIn s.records id' := by
  cases h with
  | works _ records _ _ => rw [records]
  | builds _ records _ => rw [records, stateIn_withTicket_ne _ hne]
  | refuses _ records _ _ => rw [records, stateIn_withTicket_ne _ hne]
  | settles _ records _ _ => rw [records, stateIn_withTicket_ne _ hne]
  | cleans _ records _ => rw [records]

theorem TaskEffect.refused_of_mem (h : TaskEffect id s ended s' next) (hm : id' ∈ s.refused) :
    id' ∈ s'.refused := by
  cases h with
  | refuses _ _ refused _ =>
    rw [refused]
    exact List.mem_append_left _ hm
  | works _ _ refused _ | builds _ _ refused | settles _ _ refused _ | cleans _ _ refused =>
    rwa [refused]

/-- A merged ticket stays merged: only a building ticket's record is changed. -/
theorem TaskEffect.merged (h : TaskEffect id s ended s' next)
    (hactive : ended = false → stateIn s.records id = some .building)
    (hm : stateIn s.records id' = some .merged) : stateIn s'.records id' = some .merged := by
  by_cases hne : id' = id
  · subst hne
    have hspent : ended = true := by
      by_contra hs
      rw [hactive (by simpa using hs)] at hm
      cases hm
    cases h with
    | works active | builds active | refuses active | settles active => simp [hspent] at active
    | cleans _ records _ => rwa [records]
  · rwa [h.stateIn_ne hne]

/-- As long as the pipeline goes on, the ticket is building. -/
theorem TaskEffect.building {point : TaskPoint} (h : TaskEffect id s ended s' (.goes point))
    (hactive : ended = false → stateIn s.records id = some .building)
    (hpoint : point.spent = false) : stateIn s'.records id = some .building := by
  cases h with
  | works active records _ _ =>
    rw [records]
    exact hactive active
  | builds _ records _ =>
    rw [records, stateIn_withTicket]
    rfl
  | refuses _ _ _ leaves => simp [leaves point rfl] at hpoint
  | settles _ _ _ leaves => simp [leaves point rfl] at hpoint

theorem TaskEffect.spent (h : TaskEffect id s ended s' next) (hs : Spent s id') : Spent s' id' := by
  rcases hs with hm | ⟨state, hstate, hne⟩
  · exact .inl (h.refused_of_mem hm)
  · by_cases hid : id' = id
    · subst hid
      cases h with
      | works _ records _ _ | cleans _ records _ =>
        right
        rw [records]
        exact ⟨state, hstate, hne⟩
      | builds _ records _ =>
        right
        rw [records, stateIn_withTicket]
        exact ⟨_, rfl, by simp [Fleet.building]⟩
      | refuses _ _ refused _ =>
        left
        rw [refused]
        simp
      | settles _ records _ _ =>
        right
        rw [records, stateIn_withTicket]
        exact ⟨_, rfl, OutcomeState.recorded_ne_pending _⟩
    · right
      rw [h.stateIn_ne hid]
      exact ⟨state, hstate, hne⟩

/-! ## The history of a run -/

variable {ν : Type} {all : List (Json ν)} {r r' : FleetRun}

theorem length_insert_new {m : AList fun _ : JsString => Task} {task : Task} (h : id ∉ m) :
    (m.insert id task).keys.length = m.keys.length + 1 := by
  rw [AList.keys, AList.entries_insert_of_notMem h]
  rfl

theorem length_insert_old {m : AList fun _ : JsString => Task} {task : Task} (h : id ∈ m) :
    (m.insert id task).keys.length = m.keys.length := by
  apply List.Perm.length_eq
  apply (List.perm_ext_iff_of_nodup (AList.keys_nodup _) (AList.keys_nodup _)).2
  intro id'
  rw [← AList.mem_keys, ← AList.mem_keys, AList.mem_insert]
  exact ⟨fun hm => hm.elim (fun e => e ▸ h) (fun hm => hm), .inr⟩

theorem length_erase {m : AList fun _ : JsString => Task} (h : id ∈ m) :
    (m.erase id).keys.length + 1 = m.keys.length := by
  have hnot : id ∉ (m.erase id).keys := by
    rw [← AList.mem_keys, AList.mem_erase]
    exact fun hm => hm.1 rfl
  have hperm : (id :: (m.erase id).keys).Perm m.keys := by
    apply (List.perm_ext_iff_of_nodup (List.nodup_cons.2 ⟨hnot, AList.keys_nodup _⟩)
      (AList.keys_nodup _)).2
    intro id'
    rw [List.mem_cons, ← AList.mem_keys, ← AList.mem_keys, AList.mem_erase]
    by_cases hid : id' = id
    · subst hid
      simp [h]
    · simp [hid]
  exact hperm.length_eq

/-- As long as the pipeline of a ticket runs, its record says building. -/
def Active (r : FleetRun) : Prop :=
  ∀ id task, r.inFlight.lookup id = some task → task.point.spent = false →
    stateIn r.shared.records id = some .building

/-- What holds in every state of every run. -/
structure Kept (all : List (Json ν)) (r : FleetRun) : Prop where
  building : Active r
  spent : ∀ id ∈ r.admitted, Spent r.shared id
  inFlight : ∀ id ∈ r.inFlight, id ∈ r.admitted
  known : ∀ id ∈ r.admitted, ∃ t ∈ all, idOf t = id
  once : r.admitted.Nodup
  count : r.completions + r.inFlight.keys.length = r.admitted.length

/-- Every round but the first follows a completion, and the loop waits for a ticket only. -/
structure Turning (r : FleetRun) : Prop where
  rounds : r.rounds + (if r.loop = .planning then 1 else 0) ≤ r.completions + 1
  waiting : r.loop = .waiting → r.inFlight.keys ≠ []

/-- A ticket that may be admitted: it has not been, and nothing is lost by it. -/
structure Admissible (all : List (Json ν)) (r : FleetRun) (t : Json ν) : Prop where
  known : t ∈ all
  fresh : idOf t ∉ r.admitted
  unmerged : stateIn r.shared.records (idOf t) ≠ some .merged

theorem stateIn_startTicket_ne {t : Json ν} (h : id ≠ idOf t) :
    stateIn (r.startTicket t).shared.records id = stateIn r.shared.records id :=
  stateIn_withTicket_ne _ h

theorem stateIn_startTicket_self (t : Json ν) :
    stateIn (r.startTicket t).shared.records (idOf t) = some .building :=
  stateIn_withTicket _

theorem Active.startTicket (h : Active r) (t : Json ν) : Active (r.startTicket t) := by
  intro id task hl hp
  by_cases hid : id = idOf t
  · subst hid
    exact stateIn_startTicket_self t
  · rw [stateIn_startTicket_ne hid]
    apply h id task _ hp
    rwa [FleetRun.startTicket, AList.lookup_insert_ne hid] at hl

theorem Kept.startTicket (h : Kept all r) {t : Json ν} (ht : Admissible all r t) :
    Kept all (r.startTicket t) := by
  have hnew : idOf t ∉ r.inFlight := fun hm => ht.fresh (h.inFlight _ hm)
  constructor
  · exact h.building.startTicket t
  · intro id hm
    by_cases hid : id = idOf t
    · subst hid
      exact .inr ⟨_, stateIn_startTicket_self t, by simp⟩
    · rcases List.mem_append.1 hm with hm | hm
      · rw [Spent, stateIn_startTicket_ne hid]
        exact h.spent id hm
      · exact absurd (List.mem_singleton.1 hm) hid
  · intro id hm
    rcases (AList.mem_insert _).1 hm with rfl | hm
    · exact List.mem_append_right _ (List.mem_singleton_self _)
    · exact List.mem_append_left _ (h.inFlight id hm)
  · intro id hm
    rcases List.mem_append.1 hm with hm | hm
    · exact h.known id hm
    · exact ⟨t, ht.known, (List.mem_singleton.1 hm).symm⟩
  · apply List.nodup_append.2
    refine ⟨h.once, List.nodup_singleton _, ?_⟩
    intro a ha b hb
    rw [List.mem_singleton.1 hb]
    exact fun e => ht.fresh (e ▸ ha)
  · show r.completions + (r.inFlight.insert _ _).keys.length = (r.admitted ++ [_]).length
    rw [length_insert_new hnew, List.length_append, ← h.count]
    rfl

/-- Admitting one ticket leaves the others admissible. -/
theorem Admissible.after {t u : Json ν} (h : Admissible all r u) (hne : idOf u ≠ idOf t) :
    Admissible all (r.startTicket t) u where
  known := h.known
  fresh hm := by
    rcases List.mem_append.1 hm with hm | hm
    · exact h.fresh hm
    · exact hne (List.mem_singleton.1 hm)
  unmerged := by
    rw [stateIn_startTicket_ne hne]
    exact h.unmerged

/-- What admitting one ticket keeps, admitting several with ids of their own keeps. -/
theorem foldl_startTicket_induction (all : List (Json ν)) {P : FleetRun → Prop} {ts : List (Json ν)}
    (hids : (ts.map idOf).Nodup) (hok : ∀ t ∈ ts, Admissible all r t) (first : P r)
    (next : ∀ r t, Admissible all r t → P r → P (r.startTicket t)) :
    P (ts.foldl FleetRun.startTicket r) := by
  induction ts generalizing r with
  | nil => exact first
  | cons t ts ih =>
    rw [List.map_cons, List.nodup_cons] at hids
    apply ih hids.2
    · intro u hu
      apply (hok u (List.mem_cons_of_mem _ hu)).after
      intro e
      exact hids.1 (e ▸ List.mem_map_of_mem hu)
    · exact next r t (hok t List.mem_cons_self) first

theorem loop_foldl_startTicket (ts : List (Json ν)) : (ts.foldl FleetRun.startTicket r).loop = r.loop := by
  induction ts generalizing r with
  | nil => rfl
  | cons t ts ih => rw [List.foldl_cons, ih]; rfl

theorem mem_foldl_startTicket (ts : List (Json ν)) :
    id ∈ (ts.foldl FleetRun.startTicket r).inFlight ↔ id ∈ r.inFlight ∨ ∃ t ∈ ts, idOf t = id := by
  induction ts generalizing r with
  | nil => simp
  | cons t ts ih =>
    have hone : id ∈ (r.startTicket t).inFlight ↔ id = idOf t ∨ id ∈ r.inFlight := AList.mem_insert _
    rw [List.foldl_cons, ih, hone, List.exists_mem_cons_iff, or_assoc, or_left_comm, eq_comm]

theorem lookup_foldl_startTicket {ts : List (Json ν)} (hne : ∀ t ∈ ts, idOf t ≠ id) :
    (ts.foldl FleetRun.startTicket r).inFlight.lookup id = r.inFlight.lookup id := by
  induction ts generalizing r with
  | nil => rfl
  | cons t ts ih =>
    rw [List.foldl_cons, ih fun u hu => hne u (List.mem_cons_of_mem _ hu)]
    exact AList.lookup_insert_ne (hne t List.mem_cons_self).symm

theorem shared_foldl_startTicket (ts : List (Json ν)) :
    ∃ records, (ts.foldl FleetRun.startTicket r).shared = { r.shared with records := records } := by
  induction ts generalizing r with
  | nil => exact ⟨_, rfl⟩
  | cons t ts ih => exact ih

theorem admitted_foldl_startTicket (ts : List (Json ν)) :
    (ts.foldl FleetRun.startTicket r).admitted = r.admitted ++ ts.map idOf := by
  induction ts generalizing r with
  | nil => simp
  | cons t ts ih =>
    rw [List.foldl_cons, ih]
    exact List.append_assoc _ _ _

theorem rounds_foldl_startTicket (ts : List (Json ν)) :
    (ts.foldl FleetRun.startTicket r).rounds = r.rounds := by
  induction ts generalizing r with
  | nil => rfl
  | cons t ts ih => rw [List.foldl_cons, ih]; rfl

theorem completions_foldl_startTicket (ts : List (Json ν)) :
    (ts.foldl FleetRun.startTicket r).completions = r.completions := by
  induction ts generalizing r with
  | nil => rfl
  | cons t ts ih => rw [List.foldl_cons, ih]; rfl

/-! ## What a round admits -/

/-- The tickets that the next round finds ready. -/
def readyTickets (cfg : RunConfig) (all : List (Json ν)) (r : FleetRun) : List (Json ν) :=
  computeReady (plannedFor all r.shared) r.shared.records r.inFlight.keys cfg.onlyIds

theorem toAdmit_sublist : (toAdmit cfg all r).Sublist all := by
  have h1 := selectFrom_sublist
    (computeReady (plannedFor all r.shared) r.shared.records r.inFlight.keys cfg.onlyIds)
    (ticketsOf (plannedFor all r.shared) r.inFlight.keys)
    (cfg.cap - (ticketsOf (plannedFor all r.shared) r.inFlight.keys).length)
  exact h1.trans (List.filter_sublist.trans (List.filter_sublist.trans List.filter_sublist))

theorem mem_readyTickets_of_toAdmit {t : Json ν} (h : t ∈ toAdmit cfg all r) :
    t ∈ readyTickets cfg all r :=
  (selectFrom_sublist _ _ _).subset h

theorem mem_computeReady {tickets : List (Json ν)} {inFlightIds : List JsString}
    {onlyIds : Option (List JsString)} {t : Json ν}
    (h : t ∈ computeReady tickets records inFlightIds onlyIds) :
    t ∈ tickets ∧ isCandidate records (idOf t) = true ∧
      (∀ q ∈ predecessorsOf (idOf t) tickets, mergedOrCompleted tickets records q = true) ∧
      ∀ f ∈ ticketsOf tickets inFlightIds, scopesOverlap f t = false := by
  rw [computeReady, List.mem_filter, activeTickets, List.mem_filter] at h
  obtain ⟨⟨hmem, -⟩, hready⟩ := h
  simp only [isReady, Bool.and_eq_true, List.all_eq_true, Bool.not_eq_true', List.any_eq_false] at hready
  obtain ⟨⟨⟨-, hcand⟩, hpreds⟩, hover⟩ := hready
  refine ⟨hmem, hcand, hpreds, ?_⟩
  intro f hf
  simpa using hover f hf

/-- A candidate has no record, or one that says pending. -/
theorem stateIn_of_candidate (h : isCandidate records id = true) :
    stateIn records id = none ∨ stateIn records id = some .pending := by
  unfold isCandidate stateOf at h
  split_ifs at h with hproto
  · subst hproto
    exact absurd h (by decide)
  · rw [← stateIn] at h
    cases hs : stateIn records id with
    | none => exact .inl rfl
    | some state =>
      rw [hs] at h
      right
      rw [of_decide_eq_true h]

theorem nodup_idOf [JsNumber ν] (h : ValidTickets all) : (all.map idOf).Nodup := by
  have hmap : (all.map idOf).map some = all.map id? := by
    rw [List.map_map]
    apply List.map_congr_left
    intro t ht
    obtain ⟨id, hid, -⟩ := id?_of_valid (h.valid t ht)
    rw [Function.comp_apply, idOf, hid]
    rfl
  apply List.Nodup.of_map some
  rw [hmap]
  exact h.ids

theorem nodup_toAdmit (hids : (all.map idOf).Nodup) :
    ((toAdmit cfg all r).map idOf).Nodup :=
  hids.sublist (toAdmit_sublist.map idOf)

/-- A round admits only what was not admitted before. -/
theorem Kept.admissible (h : Kept all r) {t : Json ν} (ht : t ∈ toAdmit cfg all r) :
    Admissible all r t := by
  obtain ⟨hplanned, hcand, -, -⟩ := mem_computeReady (mem_readyTickets_of_toAdmit ht)
  have hstate := stateIn_of_candidate hcand
  rw [plannedFor, List.mem_filter] at hplanned
  refine ⟨hplanned.1, ?_, ?_⟩
  · intro hm
    rcases h.spent _ hm with hrefused | ⟨state, hs, hne⟩
    · have hnot := hplanned.2
      rw [Bool.not_eq_true', List.contains_eq_mem, decide_eq_false_iff_not] at hnot
      exact hnot hrefused
    · rcases hstate with hnone | hpending
      · rw [hnone] at hs
        cases hs
      · rw [hpending] at hs
        exact hne (Option.some.inj hs).symm
  · rcases hstate with hnone | hpending
    · rw [hnone]
      simp
    · rw [hpending]
      simp

/-! ## The steps of a run -/

/-- A round admits what the planner says, or nothing once the wall clock has expired. -/
theorem round_cases {clock : Clock} (h : r.round cfg all clock = some r') :
    r.loop = .planning ∧ ∃ ts : List (Json ν),
      (ts = [] ∨ cfg.policy.expired (clock 1) = false ∧ ts = toAdmit cfg all r) ∧
      r' = (ts.foldl FleetRun.startTicket (r.turn cfg clock)).roundEnd cfg := by
  unfold FleetRun.round at h
  split_ifs at h with hloop hlate hexpired
  · refine ⟨by simpa using hloop, [], .inl rfl, ?_⟩
    rw [Bool.and_eq_true, decide_eq_true_eq] at hlate
    rw [List.foldl_nil, FleetRun.roundEnd, if_pos (show (r.turn cfg clock).inFlight.keys = [] from hlate.2)]
    exact (Option.some.inj h).symm
  · exact ⟨by simpa using hloop, [], .inl rfl, (Option.some.inj h).symm⟩
  · refine ⟨by simpa using hloop, toAdmit cfg all r, .inr ⟨?_, rfl⟩, (Option.some.inj h).symm⟩
    simpa using hexpired

theorem close_cases (cfg : RunConfig) (r : FleetRun) :
    ∃ loop, r.close cfg = { r with loop := loop } ∧
      (loop = .ended ∨ loop = .openingPR ∧ r.shared.contaminated = false) := by
  unfold FleetRun.close
  dsimp only
  split_ifs with h
  · exact ⟨.ended, rfl, .inl rfl⟩
  · refine ⟨.openingPR, rfl, .inr ⟨rfl, ?_⟩⟩
    simp only [Bool.or_eq_true, not_or, Bool.not_eq_true] at h
    exact h.1.1.1

/-- After a round the loop waits, has ended, or opens the PR of a branch that is not quarantined. -/
theorem roundEnd_cases (cfg : RunConfig) (r : FleetRun) :
    ∃ loop, r.roundEnd cfg = { r with loop := loop } ∧
      (loop = .waiting ∧ r.inFlight.keys ≠ [] ∨
        r.inFlight.keys = [] ∧ (loop = .ended ∨ loop = .openingPR ∧ r.shared.contaminated = false)) := by
  unfold FleetRun.roundEnd
  split_ifs with hempty
  · obtain ⟨loop, he, hl⟩ := close_cases cfg r
    exact ⟨loop, he, .inr ⟨hempty, hl⟩⟩
  · exact ⟨.waiting, rfl, .inl ⟨rfl, hempty⟩⟩

theorem Active.foldl_startTicket (h : Active r) (ts : List (Json ν)) :
    Active (ts.foldl FleetRun.startTicket r) := by
  induction ts generalizing r with
  | nil => exact h
  | cons t ts ih => exact ih (h.startTicket t)

theorem Active.round (h : Active r) {clock : Clock} (hr : r.round cfg all clock = some r') :
    Active r' := by
  obtain ⟨-, ts, -, rfl⟩ := round_cases hr
  obtain ⟨loop, hend, -⟩ := roundEnd_cases cfg (ts.foldl FleetRun.startTicket (r.turn cfg clock))
  have hturn : Active (r.turn cfg clock) := h
  rw [hend]
  exact hturn.foldl_startTicket ts

theorem Kept.congr (h : Kept all r) {r' : FleetRun} (hrecords : r'.shared.records = r.shared.records)
    (hrefused : r'.shared.refused = r.shared.refused) (hflight : r'.inFlight = r.inFlight)
    (hadmitted : r'.admitted = r.admitted) (hcompletions : r'.completions = r.completions) :
    Kept all r' where
  building := by
    rw [Active, hflight, hrecords]
    exact h.building
  spent := by
    intro id hm
    rw [hadmitted] at hm
    rw [Spent, hrecords, hrefused]
    exact h.spent id hm
  inFlight := by
    rw [hflight, hadmitted]
    exact h.inFlight
  known := by
    rw [hadmitted]
    exact h.known
  once := by
    rw [hadmitted]
    exact h.once
  count := by
    rw [hcompletions, hflight, hadmitted]
    exact h.count

theorem Kept.turn (h : Kept all r) (clock : Clock) : Kept all (r.turn cfg clock) :=
  h.congr rfl rfl rfl rfl rfl

theorem Kept.admissible_turn (h : Kept all r) (clock : Clock) :
    ∀ t ∈ toAdmit cfg all r, Admissible all (r.turn cfg clock) t := by
  intro t ht
  have hadmit : t ∈ toAdmit cfg all (r.turn cfg clock) := ht
  exact (h.turn clock).admissible hadmit

theorem Kept.admits (h : Kept all r) (hids : (all.map idOf).Nodup) (clock : Clock) :
    Kept all ((toAdmit cfg all r).foldl FleetRun.startTicket (r.turn cfg clock)) := by
  apply foldl_startTicket_induction all (nodup_toAdmit hids) (h.admissible_turn clock) (h.turn clock)
  intro r t ht hk
  exact hk.startTicket ht

theorem Kept.round (h : Kept all r) (hids : (all.map idOf).Nodup) {clock : Clock}
    (hr : r.round cfg all clock = some r') : Kept all r' := by
  obtain ⟨hloop, ts, hts, rfl⟩ := round_cases hr
  obtain ⟨loop, hend, -⟩ := roundEnd_cases cfg (ts.foldl FleetRun.startTicket (r.turn cfg clock))
  rw [hend]
  suffices hkept : Kept all (ts.foldl FleetRun.startTicket (r.turn cfg clock)) from
    hkept.congr rfl rfl rfl rfl rfl
  rcases hts with rfl | ⟨-, rfl⟩
  · exact h.turn clock
  · exact h.admits hids clock

theorem taskEvent_cases {answer : EffectAnswer} (h : r.taskEvent cfg id answer = some r') :
    ∃ task s' next, r.inFlight.lookup id = some task ∧
      taskStep cfg id r.shared task answer = some (s', next) ∧
      ((∃ point, next = .goes point ∧
          r' = { r with shared := s', inFlight := r.inFlight.insert id { task with point := point } }) ∨
        ∃ rejected, next = .finished rejected ∧ r' = r.finish id s' rejected) := by
  unfold FleetRun.taskEvent at h
  obtain ⟨task, htask, h⟩ := Option.bind_eq_some_iff.1 h
  obtain ⟨⟨s', next⟩, hstep, rfl⟩ := Option.map_eq_some_iff.1 h
  refine ⟨task, s', next, htask, hstep, ?_⟩
  cases next with
  | goes point => exact .inl ⟨point, rfl, rfl⟩
  | finished rejected => exact .inr ⟨rejected, rfl, rfl⟩

/-- A step of a ticket puts nothing in flight. -/
theorem mem_of_taskEvent {answer : EffectAnswer} (h : r.taskEvent cfg id answer = some r')
    (hm : id' ∈ r'.inFlight) : id' ∈ r.inFlight := by
  obtain ⟨task, s', next, htask, -, hnext⟩ := taskEvent_cases h
  rcases hnext with ⟨point, -, rfl⟩ | ⟨rejected, -, rfl⟩
  · rcases (AList.mem_insert _).1 hm with rfl | hm
    · exact AList.lookup_isSome.1 (by rw [htask]; rfl)
    · exact hm
  · exact (AList.mem_erase.1 hm).2

theorem length_of_taskEvent {answer : EffectAnswer} (h : r.taskEvent cfg id answer = some r') :
    r'.inFlight.keys.length ≤ r.inFlight.keys.length := by
  obtain ⟨task, s', next, htask, -, hnext⟩ := taskEvent_cases h
  have hmem : id ∈ r.inFlight := AList.lookup_isSome.1 (by rw [htask]; rfl)
  rcases hnext with ⟨point, -, rfl⟩ | ⟨rejected, -, rfl⟩
  · exact (length_insert_old hmem).le
  · have hlen := length_erase hmem
    show (r.inFlight.erase id).keys.length ≤ r.inFlight.keys.length
    omega

theorem Active.taskEvent (h : Active r) {answer : EffectAnswer}
    (hr : r.taskEvent cfg id answer = some r') : Active r' := by
  obtain ⟨task, s', next, htask, hstep, hnext⟩ := taskEvent_cases hr
  have heffect := taskStep_effect hstep
  have hother : ∀ id' task', id' ≠ id → r.inFlight.lookup id' = some task' →
      task'.point.spent = false → stateIn s'.records id' = some .building := by
    intro id' task' hne hl hp
    rw [heffect.stateIn_ne hne]
    exact h id' task' hl hp
  intro id' task' hl hp
  rcases hnext with ⟨point, rfl, rfl⟩ | ⟨rejected, rfl, rfl⟩
  · by_cases hid : id' = id
    · subst hid
      rw [AList.lookup_insert] at hl
      cases hl
      exact heffect.building (h id' task htask) hp
    · rw [AList.lookup_insert_ne hid] at hl
      exact hother id' task' hid hl hp
  · have hid : id' ≠ id := by
      rintro rfl
      rw [FleetRun.finish, AList.lookup_erase] at hl
      cases hl
    rw [FleetRun.finish, AList.lookup_erase_ne hid] at hl
    exact hother id' task' hid hl hp

theorem Kept.taskEvent (h : Kept all r) {answer : EffectAnswer}
    (hr : r.taskEvent cfg id answer = some r') : Kept all r' := by
  have hactive := h.building.taskEvent hr
  have hflight : ∀ id' ∈ r'.inFlight, id' ∈ r.admitted :=
    fun id' hm => h.inFlight id' (mem_of_taskEvent hr hm)
  obtain ⟨task, s', next, htask, hstep, hnext⟩ := taskEvent_cases hr
  have heffect := taskStep_effect hstep
  have hmem : id ∈ r.inFlight := AList.lookup_isSome.1 (by rw [htask]; rfl)
  have hspent : ∀ id' ∈ r.admitted, Spent s' id' := fun id' hm => heffect.spent (h.spent id' hm)
  rcases hnext with ⟨point, rfl, rfl⟩ | ⟨rejected, rfl, rfl⟩
  · refine ⟨hactive, hspent, hflight, h.known, h.once, ?_⟩
    rw [← h.count, length_insert_old hmem]
  · refine ⟨hactive, hspent, hflight, h.known, h.once, ?_⟩
    show r.completions + 1 + (r.inFlight.erase id).keys.length = r.admitted.length
    have hlen := length_erase hmem
    have hcount := h.count
    omega

theorem Turning.round {clock : Clock} (h : Turning r) (hr : r.round cfg all clock = some r') :
    Turning r' := by
  obtain ⟨hloop, ts, -, rfl⟩ := round_cases hr
  obtain ⟨loop, hend, hcases⟩ := roundEnd_cases cfg (ts.foldl FleetRun.startTicket (r.turn cfg clock))
  have hrounds : (ts.foldl FleetRun.startTicket (r.turn cfg clock)).rounds = r.rounds + 1 :=
    rounds_foldl_startTicket ts
  have hcompletions : (ts.foldl FleetRun.startTicket (r.turn cfg clock)).completions =
      r.completions := completions_foldl_startTicket ts
  have hbound := h.rounds
  rw [if_pos hloop] at hbound
  rw [hend]
  refine ⟨?_, ?_⟩
  · have hne : loop ≠ .planning := by
      rcases hcases with ⟨rfl, -⟩ | ⟨-, rfl | ⟨rfl, -⟩⟩ <;> simp
    show (ts.foldl FleetRun.startTicket (r.turn cfg clock)).rounds + (if loop = .planning then 1 else 0) ≤
      (ts.foldl FleetRun.startTicket (r.turn cfg clock)).completions + 1
    rw [if_neg hne, hrounds, hcompletions]
    exact hbound
  · intro hwaiting
    rcases hcases with ⟨-, hne⟩ | ⟨-, hended⟩
    · exact hne
    · have hloop' : loop = .waiting := hwaiting
      subst hloop'
      simp at hended

theorem Turning.taskEvent (h : Turning r) {answer : EffectAnswer}
    (hr : r.taskEvent cfg id answer = some r') : Turning r' := by
  obtain ⟨task, s', next, htask, -, hnext⟩ := taskEvent_cases hr
  rcases hnext with ⟨point, -, rfl⟩ | ⟨rejected, -, rfl⟩
  · refine ⟨h.rounds, ?_⟩
    intro hw
    have hmem : id ∈ r.inFlight.insert id { task with point := point } :=
      (AList.mem_insert _).2 (.inl rfl)
    exact List.ne_nil_of_mem hmem
  · have hbound := h.rounds
    refine ⟨?_, ?_⟩
    · show r.rounds + (if (r.finish id s' rejected).loop = .planning then 1 else 0) ≤
        r.completions + 1 + 1
      split_ifs at hbound ⊢ <;> omega
    · intro hw
      have hwaiting : (if r.loop = .waiting then (if rejected then Loop.threw else .planning)
          else r.loop) = .waiting := hw
      by_cases hloop : r.loop = .waiting
      · rw [if_pos hloop] at hwaiting
        cases rejected <;> cases hwaiting
      · rw [if_neg hloop] at hwaiting
        exact absurd hwaiting hloop

/-- A run starts with nothing in flight, and it starts with a round or it is over. -/
theorem begin_cases (cfg : RunConfig) (all : List (Json ν)) (records : TicketRecords)
    (contaminated : Bool) (branch : List Commit) (nextSha : Nat)
    (saved : Option (TicketRecords × Bool)) (saves : Bool) :
    ∃ s loop, begin cfg all records contaminated branch nextSha saved saves = ⟨s, ∅, loop, [], 0, 0⟩ ∧
      loop ≠ .waiting ∧ loop ≠ .openingPR ∧ s.refused = [] ∧ s.queue = [] ∧ s.branch = branch ∧
      s.nextSha = nextSha ∧ s.contaminated = contaminated ∧
      (s.saved = saved ∨ ∃ records', s.saved = some (records', contaminated)) := by
  cases contaminated with
  | true => exact ⟨_, .ended, rfl, by simp, by simp, rfl, rfl, rfl, rfl, rfl, .inl rfl⟩
  | false =>
    cases saves with
    | true => exact ⟨_, .planning, rfl, by simp, by simp, rfl, rfl, rfl, rfl, rfl, .inr ⟨_, rfl⟩⟩
    | false => exact ⟨_, .threw, rfl, by simp, by simp, rfl, rfl, rfl, rfl, rfl, .inl rfl⟩

theorem active_begin {records : TicketRecords} {contaminated : Bool} {branch : List Commit}
    {nextSha : Nat} {saved : Option (TicketRecords × Bool)} {saves : Bool} :
    Active (begin cfg all records contaminated branch nextSha saved saves) := by
  obtain ⟨s, loop, h, -⟩ := begin_cases cfg all records contaminated branch nextSha saved saves
  rw [h]
  intro id task hl
  cases hl

theorem kept_begin {records : TicketRecords} {contaminated : Bool} {branch : List Commit}
    {nextSha : Nat} {saved : Option (TicketRecords × Bool)} {saves : Bool} :
    Kept all (begin cfg all records contaminated branch nextSha saved saves) := by
  obtain ⟨s, loop, h, -⟩ := begin_cases cfg all records contaminated branch nextSha saved saves
  rw [h]
  have hactive : Active ⟨s, ∅, loop, [], 0, 0⟩ := fun id task hl => by cases hl
  refine ⟨hactive, ?_, ?_, ?_, List.nodup_nil, rfl⟩
  · intro id hm
    cases hm
  · intro id hm
    exact absurd hm (AList.notMem_empty id)
  · intro id hm
    cases hm

theorem turning_begin {records : TicketRecords} {contaminated : Bool} {branch : List Commit}
    {nextSha : Nat} {saved : Option (TicketRecords × Bool)} {saves : Bool} :
    Turning (begin cfg all records contaminated branch nextSha saved saves) := by
  obtain ⟨s, loop, h, hloop, -⟩ :=
    begin_cases cfg all records contaminated branch nextSha saved saves
  rw [h]
  refine ⟨?_, fun hw => absurd hw hloop⟩
  show 0 + (if loop = .planning then 1 else 0) ≤ 0 + 1
  split_ifs <;> omega

theorem Active.step (h : Active r) {e : Event} (hr : FleetRun.step cfg all r e = some r') :
    Active r' := by
  cases e with
  | round clock => exact h.round hr
  | task id answer => exact h.taskEvent hr
  | prDone =>
    unfold FleetRun.step at hr
    split_ifs at hr
    cases hr
    exact h
  | foreignCommit =>
    cases hr
    exact h
  | resume isAncestor saves =>
    obtain ⟨saved, -, rfl⟩ := Option.map_eq_some_iff.1 hr
    exact active_begin

theorem Kept.step (h : Kept all r) (hids : (all.map idOf).Nodup) {e : Event}
    (hr : FleetRun.step cfg all r e = some r') : Kept all r' := by
  cases e with
  | round clock => exact h.round hids hr
  | task id answer => exact h.taskEvent hr
  | prDone =>
    unfold FleetRun.step at hr
    split_ifs at hr
    cases hr
    exact h.congr rfl rfl rfl rfl rfl
  | foreignCommit =>
    cases hr
    exact h.congr rfl rfl rfl rfl rfl
  | resume isAncestor saves =>
    obtain ⟨saved, -, rfl⟩ := Option.map_eq_some_iff.1 hr
    exact kept_begin

theorem Turning.step (h : Turning r) {e : Event} (hr : FleetRun.step cfg all r e = some r') :
    Turning r' := by
  cases e with
  | round clock => exact h.round hr
  | task id answer => exact h.taskEvent hr
  | prDone =>
    unfold FleetRun.step at hr
    split_ifs at hr with hloop
    cases hr
    have hbound := h.rounds
    rw [hloop] at hbound
    exact ⟨hbound, fun hw => by cases hw⟩
  | foreignCommit =>
    cases hr
    exact ⟨h.rounds, h.waiting⟩
  | resume isAncestor saves =>
    obtain ⟨saved, -, rfl⟩ := Option.map_eq_some_iff.1 hr
    exact turning_begin

/-! ## Small runs -/

/-- A ticket with its scope and the tickets that wait for it. -/
def sampleTicket (id : String) (scope edges : List String) : Json Int :=
  .obj [(js "id", .str (js id)), (js "title", .str (js id)),
    (js "scope", .arr (scope.map fun glob => .str (js glob))),
    (js "edges", .arr (edges.map fun edge => .obj [(js "to", .str (js edge))]))]

/-- Two tickets at a time, no wall clock, and no commit but the merges. -/
def sampleRun : RunConfig :=
  { cap := 2
    onlyIds := none
    policy := ⟨2, none, false⟩
    noPr := false
    noComplete := true
    hasCompleteTicket := false
    hasRevertCompletion := false
    hasOpenPR := true }

/-- An effect of the ticket replies, and the status is saved. -/
def replies (id : String) (reply : Reply) : Event := .task (js id) ⟨reply, fun _ => 0, true⟩

def goodBuild : Build := ⟨some 0, false, false, false, false, false⟩

/-- The ticket is admitted, built, reviewed and merged, up to the verdict of the post-merge gate. -/
def mergesUpToGate (id : String) : List Event :=
  [.ok, .ok, .build goodBuild, .gate ⟨true, false⟩, .prosecution ⟨js "pass", false⟩, .ok, .ok].map
    (replies id)

def merges (id : String) : List Event :=
  mergesUpToGate id ++ [.gate ⟨true, false⟩, .ok, .ok, .ok].map (replies id)

def plans : Event := .round fun _ => 0

end Adlc.Fleet
