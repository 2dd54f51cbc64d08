import Mathlib.Data.Sym.Sym2
import Adlc.Framework.Countdown
import Adlc.Framework.IntNumber
import Adlc.Tickets.Schema

namespace Adlc.MergeForecast

open Adlc.Framework Adlc.Tickets

variable {ν : Type}

/-! ## The graph of the tickets -/

/-- `t.id` -/
def idOf (ticket : Json ν) : JsString := (id? ticket).getD []

/-- `new Set(xs)`: each element once, where it first stands. -/
def toSet (xs : List JsString) : List JsString :=
  xs.foldl (fun set x => if x ∈ set then set else set ++ [x]) []

/-- `succ.get(id)` of `buildSuccessors(tickets)` -/
def successorSet (tickets : List (Json ν)) (id : JsString) : List JsString :=
  toSet ((tickets.filter fun t => decide (idOf t = id)).flatMap targets)

/-- `indegree`: every edge counts, also one that is listed again. -/
def indegreeOf (tickets : List (Json ν)) (id : JsString) : Nat :=
  (tickets.flatMap targets).count id

/-- The walk of `computeReachability` in topological order. -/
structure Walk where
  indegree : JsString → Int
  q : List JsString
  inQueue : List JsString
  topoOrder : List JsString

/-- The body of `for (const next of succ.get(id) ?? [])` -/
def Walk.visit (w : Walk) (next : JsString) : Walk :=
  let newDeg := w.indegree next - 1
  let indegree := Function.update w.indegree next newDeg
  if newDeg = 0 ∧ next ∉ w.inQueue then
    { w with indegree := indegree, q := w.q ++ [next], inQueue := w.inQueue ++ [next] }
  else { w with indegree := indegree }

/-- `while (q.length)` -/
def Walk.run (succ : JsString → List JsString) : Nat → Walk → Walk
  | 0, w => w
  | n + 1, w =>
    match w.q with
    | [] => w
    | id :: q =>
      Walk.run succ n
        ((succ id).foldl Walk.visit { w with q := q, topoOrder := w.topoOrder ++ [id] })

def startWalk (tickets : List (Json ν)) : Walk :=
  let queue := (tickets.map idOf).filter fun id => decide (indegreeOf tickets id = 0)
  ⟨fun id => indegreeOf tickets id, queue, queue, []⟩

/-- Every round takes an id from the queue, and an id is queued once. -/
def topoOrder (tickets : List (Json ν)) : List JsString :=
  ((startWalk tickets).run (successorSet tickets)
    (tickets.map idOf ++ tickets.flatMap targets).length).topoOrder

/-- One round of `for (const id of [...topoOrder].reverse())` -/
def gather (succ : JsString → List JsString) (reachable : JsString → Finset JsString)
    (id : JsString) : JsString → Finset JsString :=
  Function.update reachable id
    ((succ id).foldl (fun set s => insert s set ∪ reachable s) (reachable id))

def computeReachability (tickets : List (Json ν)) : JsString → Finset JsString :=
  (topoOrder tickets).reverse.foldl (gather (successorSet tickets)) fun _ => ∅

/-- The pairs of `a` with the tickets after it. -/
def pairsWith (reachable : JsString → Finset JsString) (a : Json ν) (rest : List (Json ν)) :
    List (Json ν × Json ν) :=
  (rest.filter fun b =>
    !decide (idOf b ∈ reachable (idOf a)) && !decide (idOf a ∈ reachable (idOf b))).map fun b => (a, b)

def allPairs (reachable : JsString → Finset JsString) : List (Json ν) → List (Json ν × Json ν)
  | [] => []
  | a :: rest => pairsWith reachable a rest ++ allPairs reachable rest

def parallelEligiblePairs (tickets : List (Json ν)) : List (Json ν × Json ν) :=
  allPairs (computeReachability tickets) tickets

/-! ## The walk as a countdown -/

theorem toSet_spec (xs set : List JsString) (hset : set.Nodup) :
    (xs.foldl (fun set x => if x ∈ set then set else set ++ [x]) set).Nodup ∧
      ∀ v, v ∈ xs.foldl (fun set x => if x ∈ set then set else set ++ [x]) set ↔
        v ∈ set ∨ v ∈ xs := by
  induction xs generalizing set with
  | nil => simpa using hset
  | cons x xs ih =>
    rw [List.foldl_cons]
    split_ifs with hx
    · obtain ⟨h1, h2⟩ := ih set hset
      refine ⟨h1, fun v => ?_⟩
      rw [h2, List.mem_cons]
      constructor
      · tauto
      · intro h
        obtain h | rfl | h := h
        · exact Or.inl h
        · exact Or.inl hx
        · exact Or.inr h
    · have hset' : (set ++ [x]).Nodup := by
        apply List.nodup_append.mpr
        refine ⟨hset, by simp, ?_⟩
        intro a ha b hb e
        rw [List.mem_singleton] at hb
        exact hx (hb ▸ e ▸ ha)
      obtain ⟨h1, h2⟩ := ih (set ++ [x]) hset'
      refine ⟨h1, fun v => ?_⟩
      rw [h2, List.mem_append, List.mem_singleton, List.mem_cons]
      tauto

theorem mem_toSet (xs : List JsString) (v : JsString) : v ∈ toSet xs ↔ v ∈ xs := by
  rw [toSet, (toSet_spec xs [] List.nodup_nil).2 v]
  simp

theorem nodup_toSet (xs : List JsString) : (toSet xs).Nodup :=
  (toSet_spec xs [] List.nodup_nil).1

def Walk.countdown (w : Walk) : Countdown JsString := ⟨w.indegree, w.q⟩

/-- What was queued has no edge left to count. -/
def Walk.Queued (w : Walk) : Prop := ∀ v ∈ w.inQueue, w.indegree v ≤ 0

theorem Walk.visit_countdown {w : Walk} (h : w.Queued) (next : JsString) :
    (w.visit next).countdown = w.countdown.lower (fun _ => true) next ∧
      (w.visit next).Queued ∧ (w.visit next).topoOrder = w.topoOrder := by
  have hle : ∀ v, Function.update w.indegree next (w.indegree next - 1) v ≤ w.indegree v := by
    intro v
    rw [Function.update_apply]
    split_ifs with e
    · subst e
      omega
    · exact Int.le_refl _
  by_cases h0 : w.indegree next - 1 = 0
  · have hnew : next ∉ w.inQueue := by
      intro hm
      have hle := h next hm
      omega
    have hc : w.indegree next - 1 = 0 ∧ next ∉ w.inQueue := ⟨h0, hnew⟩
    rw [Walk.visit, if_pos hc]
    refine ⟨?_, ?_, rfl⟩
    · simp [Walk.countdown, Countdown.lower, h0]
    · intro v hv
      obtain hv | hv := List.mem_append.mp hv
      · exact (hle v).trans (h v hv)
      · rw [List.mem_singleton.mp hv]
        simp [h0]
  · have hc : ¬(w.indegree next - 1 = 0 ∧ next ∉ w.inQueue) := fun hc => h0 hc.1
    rw [Walk.visit, if_neg hc]
    refine ⟨?_, fun v hv => (hle v).trans (h v hv), rfl⟩
    simp [Walk.countdown, Countdown.lower, h0]

theorem Walk.visits_countdown (targets : List JsString) {w : Walk} (h : w.Queued) :
    (targets.foldl Walk.visit w).countdown =
        targets.foldl (Countdown.lower fun _ => true) w.countdown ∧
      (targets.foldl Walk.visit w).Queued ∧
      (targets.foldl Walk.visit w).topoOrder = w.topoOrder := by
  induction targets generalizing w with
  | nil => exact ⟨rfl, h, rfl⟩
  | cons next targets ih =>
    obtain ⟨h1, h2, h3⟩ := Walk.visit_countdown h next
    obtain ⟨h4, h5, h6⟩ := ih h2
    rw [List.foldl_cons, List.foldl_cons, ← h1]
    exact ⟨h4, h5, h6.trans h3⟩

/-- The queue and the order of the walk are those of the countdown. -/
theorem Walk.run_drain (succ : JsString → List JsString) (n : Nat) {w : Walk} (h : w.Queued) :
    ((w.run succ n).topoOrder, (w.run succ n).countdown) =
      Countdown.drain (fun _ => true) succ n w.topoOrder w.countdown := by
  induction n generalizing w with
  | zero => rfl
  | succ n ih =>
    obtain ⟨indegree, q, inQueue, order⟩ := w
    cases q with
    | nil => rfl
    | cons id q =>
      have hq : (⟨indegree, q, inQueue, order ++ [id]⟩ : Walk).Queued := h
      obtain ⟨h1, h2, h3⟩ := Walk.visits_countdown (succ id) hq
      rw [Walk.run, ih h2, h1, h3]
      rfl

/-! ## The order -/

theorem idOf_eq {ticket : Json ν} {id : JsString} (h : id? ticket = some id) : idOf ticket = id := by
  rw [idOf, h, Option.getD_some]

/-- A list of valid tickets seen by their ids. -/
structure Indexed (tickets : List (Json ν)) : Prop where
  ids : ∀ t ∈ tickets, id? t = some (idOf t)
  nodup : (tickets.map idOf).Nodup
  known : ∀ t ∈ tickets, ∀ b ∈ targets t, b ∈ tickets.map idOf
  acyclic : ∀ a, ¬Relation.TransGen (Blocks tickets) a a

theorem indexed_of_valid [JsNumber ν] {tickets : List (Json ν)} (h : ValidTickets tickets) :
    Indexed tickets := by
  have hids : ∀ t ∈ tickets, id? t = some (idOf t) := by
    intro t ht
    obtain ⟨id, hid, -⟩ := id?_of_valid (h.valid t ht)
    rw [idOf_eq hid, hid]
  have hmap : tickets.map id? = (tickets.map idOf).map some := by
    rw [List.map_map]
    exact List.map_congr_left hids
  have hnodup : (tickets.map idOf).Nodup := by
    have hn := h.ids
    rw [hmap] at hn
    exact hn.of_map _
  refine ⟨hids, hnodup, ?_, h.acyclic⟩
  intro t ht b hb
  have hk := h.known (idOf t) b ⟨t, ht, hids t ht, hb⟩
  rw [hmap, List.mem_map] at hk
  obtain ⟨x, hx, e⟩ := hk
  rwa [← Option.some.inj e]

theorem Indexed.eq_of_id {tickets : List (Json ν)} (h : Indexed tickets) {s t : Json ν}
    (hs : s ∈ tickets) (ht : t ∈ tickets) (e : idOf s = idOf t) : s = t :=
  List.inj_on_of_nodup_map h.nodup hs ht e

theorem mem_successorSet {tickets : List (Json ν)} (a b : JsString) :
    b ∈ successorSet tickets a ↔ ∃ t ∈ tickets, idOf t = a ∧ b ∈ targets t := by
  simp only [successorSet, mem_toSet, List.mem_flatMap, List.mem_filter, decide_eq_true_eq]
  constructor
  · intro ⟨t, ⟨h1, h2⟩, h3⟩
    exact ⟨t, h1, h2, h3⟩
  · intro ⟨t, h1, h2, h3⟩
    exact ⟨t, ⟨h1, h2⟩, h3⟩

theorem Indexed.edge_iff {tickets : List (Json ν)} (h : Indexed tickets) (a b : JsString) :
    Edge (successorSet tickets) a b ↔ Blocks tickets a b := by
  rw [Edge, mem_successorSet, Blocks]
  constructor
  · rintro ⟨t, ht, hid, hb⟩
    exact ⟨t, ht, hid ▸ h.ids t ht, hb⟩
  · rintro ⟨t, ht, hid, hb⟩
    exact ⟨t, ht, idOf_eq hid, hb⟩

theorem Indexed.edge_eq {tickets : List (Json ν)} (h : Indexed tickets) :
    Edge (successorSet tickets) = Blocks tickets := by
  funext a b
  exact propext (h.edge_iff a b)

theorem flatMap_count (tickets : List (Json ν)) (v : JsString) :
    (tickets.flatMap targets).count v = (tickets.map fun t => (targets t).count v).sum := by
  rw [List.count_flatMap]
  rfl

theorem Indexed.inflow_eq {tickets : List (Json ν)} (h : Indexed tickets)
    (succ : JsString → List JsString) (v : JsString) :
    inflow succ (tickets.map idOf) v = (tickets.map fun t => (succ (idOf t)).count v).sum := by
  rw [inflow_eq_sum h.nodup, List.map_map]
  rfl

theorem Indexed.successorSet_count {tickets : List (Json ν)} (h : Indexed tickets) {t : Json ν}
    (ht : t ∈ tickets) (v : JsString) :
    (successorSet tickets (idOf t)).count v = if v ∈ targets t then 1 else 0 := by
  have hn : (successorSet tickets (idOf t)).Nodup := nodup_toSet _
  have hm : v ∈ successorSet tickets (idOf t) ↔ v ∈ targets t := by
    rw [mem_successorSet]
    constructor
    · intro ⟨s, hs, e, hv⟩
      rwa [h.eq_of_id hs ht e] at hv
    · intro hv
      exact ⟨t, ht, rfl, hv⟩
  split_ifs with hv
  · exact List.count_eq_one_of_mem hn (hm.mpr hv)
  · exact List.count_eq_zero.mpr fun hm' => hv (hm.mp hm')

/-- The set counts an edge once, the in-degree as often as it is listed. -/
theorem Indexed.inflow_le {tickets : List (Json ν)} (h : Indexed tickets) (v : JsString) :
    inflow (successorSet tickets) (tickets.map idOf) v ≤ indegreeOf tickets v := by
  rw [h.inflow_eq, indegreeOf, flatMap_count]
  apply List.sum_le_sum
  intro t ht
  rw [h.successorSet_count ht]
  split_ifs with hv
  · exact List.count_pos_iff.mpr hv
  · exact Nat.zero_le _

/-- The two counts agree where no ticket lists an edge again. -/
theorem Indexed.counted_iff {tickets : List (Json ν)} (h : Indexed tickets) (v : JsString) :
    indegreeOf tickets v = inflow (successorSet tickets) (tickets.map idOf) v ↔
      ∀ t ∈ tickets, (targets t).count v ≤ 1 := by
  rw [h.inflow_eq, indegreeOf, flatMap_count]
  have hle : ∀ t ∈ tickets,
      (successorSet tickets (idOf t)).count v ≤ (targets t).count v := by
    intro t ht
    rw [h.successorSet_count ht]
    split_ifs with hv
    · exact List.count_pos_iff.mpr hv
    · exact Nat.zero_le _
  constructor
  · intro he t ht
    by_contra hno
    have hlt : (successorSet tickets (idOf t)).count v < (targets t).count v := by
      rw [h.successorSet_count ht]
      split_ifs <;> omega
    have hsum := List.sum_lt_sum _ _ hle ⟨t, ht, hlt⟩
    omega
  · intro hall
    congr 1
    apply List.map_congr_left
    intro t ht
    have h1 := hall t ht
    rw [h.successorSet_count ht]
    split_ifs with hv
    · have h2 := List.count_pos_iff.mpr hv
      omega
    · exact List.count_eq_zero.mpr hv

/-- The walk ends with an empty queue, and its order is one of taking vertices away. -/
theorem Indexed.topoOrder_drained {tickets : List (Json ν)} (h : Indexed tickets) :
    ∃ c : Countdown JsString, c.ready = [] ∧
      Drained (tickets.map idOf) (successorSet tickets) (indegreeOf tickets) (topoOrder tickets)
        c := by
  have hq : (startWalk tickets).Queued := by
    intro v hv
    have hv := (List.mem_filter.mp hv).2
    simp only [decide_eq_true_eq] at hv
    simp [startWalk, hv]
  have hrun := Walk.run_drain (successorSet tickets)
    (tickets.map idOf ++ tickets.flatMap targets).length hq
  have hstart : Drained (tickets.map idOf) (successorSet tickets) (indegreeOf tickets)
      (startWalk tickets).topoOrder (startWalk tickets).countdown := by
    apply Drained.start fun v _ => h.inflow_le v
    · exact h.nodup.filter _
    · exact fun _ => rfl
    · simp [startWalk]
  have hguard : ∀ a ∈ tickets.map idOf, ∀ v ∈ successorSet tickets a,
      (fun _ : JsString => true) v = true ↔ v ∈ tickets.map idOf := by
    intro a _ v hv
    obtain ⟨t, ht, -, hv⟩ := (mem_successorSet a v).mp hv
    exact iff_of_true rfl (h.known t ht v hv)
  obtain ⟨h1, h2⟩ := drain_spec (fun v _ => h.inflow_le v) hguard
    (tickets.map idOf ++ tickets.flatMap targets).length _ _ hstart (by simp; omega)
  rw [← hrun] at h1 h2
  exact ⟨_, h2, h1⟩

/-- The order leaves out what lies behind an edge that is listed again. -/
theorem Indexed.mem_topoOrder {tickets : List (Json ν)} (h : Indexed tickets) :
    ∀ v ∈ tickets.map idOf, (v ∈ topoOrder tickets ↔
      ∀ u, Relation.ReflTransGen (Blocks tickets) u v → ∀ t ∈ tickets, (targets t).count u ≤ 1) := by
  obtain ⟨c, hc, hd⟩ := h.topoOrder_drained
  have hout : ∀ a v, v ∈ successorSet tickets a → a ∈ tickets.map idOf := by
    intro a v hv
    obtain ⟨t, ht, e, -⟩ := (mem_successorSet a v).mp hv
    exact List.mem_map.mpr ⟨t, ht, e⟩
  have hall := hd.gone_iff_ancestors hc (fun v _ => h.inflow_le v)
    (by rw [h.edge_eq]; exact h.acyclic) hout
  intro v hv
  rw [hall v hv, h.edge_eq]
  simp only [h.counted_iff]

/-! ## What is gathered -/

theorem mem_gather_fold (reachable : JsString → Finset JsString) (succ : List JsString)
    (set : Finset JsString) (x : JsString) :
    x ∈ succ.foldl (fun set s => insert s set ∪ reachable s) set ↔
      x ∈ set ∨ ∃ s ∈ succ, x = s ∨ x ∈ reachable s := by
  induction succ generalizing set with
  | nil => simp
  | cons s succ ih =>
    rw [List.foldl_cons, ih]
    simp only [Finset.mem_union, Finset.mem_insert, List.exists_mem_cons_iff, or_assoc,
      or_left_comm]

theorem mem_gather_self (succ : JsString → List JsString) (reachable : JsString → Finset JsString)
    (id x : JsString) :
    x ∈ gather succ reachable id id ↔
      x ∈ reachable id ∨ ∃ s ∈ succ id, x = s ∨ x ∈ reachable s := by
  rw [gather, Function.update_self, mem_gather_fold]

theorem gather_ne (succ : JsString → List JsString) (reachable : JsString → Finset JsString)
    {id a : JsString} (h : a ≠ id) : gather succ reachable id a = reachable a :=
  Function.update_of_ne h ..

/-- What the rounds for the ids of `l`, the last one first, gather. -/
def gathered (succ : JsString → List JsString) (l : List JsString) : JsString → Finset JsString :=
  l.foldr (fun id reachable => gather succ reachable id) fun _ => ∅

theorem computeReachability_eq (tickets : List (Json ν)) :
    computeReachability tickets = gathered (successorSet tickets) (topoOrder tickets) := by
  rw [computeReachability, List.foldl_reverse, gathered]

/-- Along edges that leave the ids of `l`. -/
def EdgeFrom (succ : JsString → List JsString) (l : List JsString) (a b : JsString) : Prop :=
  a ∈ l ∧ b ∈ succ a

theorem EdgeFrom.cons {succ : JsString → List JsString} {l : List JsString} {id a b : JsString}
    (h : Relation.TransGen (EdgeFrom succ l) a b) :
    Relation.TransGen (EdgeFrom succ (id :: l)) a b :=
  Relation.TransGen.mono (fun _ _ hab => ⟨List.mem_cons_of_mem _ hab.1, hab.2⟩) _ _ h

/-- Only what a path leads to is gathered. -/
theorem gathered_sound (succ : JsString → List JsString) (l : List JsString) (a x : JsString)
    (h : x ∈ gathered succ l a) : Relation.TransGen (EdgeFrom succ l) a x := by
  induction l generalizing a x with
  | nil => simp [gathered] at h
  | cons id l ih =>
    have hcons : gathered succ (id :: l) = gather succ (gathered succ l) id := rfl
    rw [hcons] at h
    by_cases e : a = id
    · subst e
      rw [mem_gather_self] at h
      obtain h | ⟨s, hs, rfl | h⟩ := h
      · exact EdgeFrom.cons (ih a x h)
      · exact Relation.TransGen.single ⟨by simp, hs⟩
      · exact Relation.TransGen.head ⟨by simp, hs⟩ (EdgeFrom.cons (ih s x h))
    · rw [gather_ne _ _ e] at h
      exact EdgeFrom.cons (ih a x h)

/-- No id of the list has an edge to itself or to an earlier one. -/
def Forward (succ : JsString → List JsString) (l : List JsString) : Prop :=
  (∀ a ∈ l, a ∉ succ a) ∧ l.Pairwise fun a b => a ≠ b ∧ a ∉ succ b

theorem gathered_complete {succ : JsString → List JsString} {l : List JsString}
    (h : Forward succ l) :
    ∀ a ∈ l, ∀ s ∈ succ a, s ∈ gathered succ l a ∧ gathered succ l s ⊆ gathered succ l a := by
  induction l with
  | nil => simp
  | cons id l ih =>
    have hcons : gathered succ (id :: l) = gather succ (gathered succ l) id := rfl
    obtain ⟨hself, hpair⟩ := h
    obtain ⟨hid, hpair⟩ := List.pairwise_cons.mp hpair
    have ih := ih ⟨fun a ha => hself a (List.mem_cons_of_mem _ ha), hpair⟩
    intro a ha s hs
    rw [hcons]
    -- the round for `id` changes only the set of `id`, and no edge here leads to `id`
    have hsid : s ≠ id := by
      intro e
      subst e
      obtain rfl | ha := List.mem_cons.mp ha
      · exact hself a (by simp) hs
      · exact (hid a ha).2 hs
    rw [gather_ne _ _ hsid]
    by_cases e : a = id
    · subst e
      constructor
      · exact (mem_gather_self _ _ _ _).mpr (Or.inr ⟨s, hs, Or.inl rfl⟩)
      · intro x hx
        exact (mem_gather_self _ _ _ _).mpr (Or.inr ⟨s, hs, Or.inr hx⟩)
    · have ha' : a ∈ l := by
        obtain ha | ha := List.mem_cons.mp ha
        · exact absurd ha e
        · exact ha
      rw [gather_ne _ _ e]
      exact ih a ha' s hs

theorem mem_gathered {succ : JsString → List JsString} {l : List JsString} (h : Forward succ l)
    (a x : JsString) : x ∈ gathered succ l a ↔ Relation.TransGen (EdgeFrom succ l) a x := by
  constructor
  · exact gathered_sound succ l a x
  · intro hp
    induction hp using Relation.TransGen.head_induction_on with
    | single hab => exact (gathered_complete h _ hab.1 _ hab.2).1
    | head hab _ ih => exact (gathered_complete h _ hab.1 _ hab.2).2 ih

/-- A drained order runs along the edges. -/
theorem forward_of_drained {nodes gone : List JsString} {succ : JsString → List JsString}
    {total : JsString → Nat} {c : Countdown JsString} (h : Drained nodes succ total gone c)
    (hc : c.ready = []) : Forward succ gone := by
  have hn := h.nodup
  have hbefore := h.before
  rw [hc, List.append_nil] at hn hbefore
  constructor
  · intro a ha hs
    obtain ⟨l, l', e⟩ := List.append_of_mem ha
    have hal := hbefore l a l' e a (h.sub ha) hs
    rw [e] at hn
    exact (List.nodup_append.mp hn).2.2 a hal a (by simp) rfl
  · rw [List.pairwise_iff_forall_sublist]
    intro a b hab
    obtain ⟨l, l', e, hal, hbl⟩ := List.cons_sublist_iff.mp hab
    obtain ⟨k, k', rfl⟩ := List.append_of_mem hal
    have hb : b ∈ l' := by simpa using hbl
    have hne : ∀ x ∈ k ++ a :: k', x ≠ b := by
      rw [e] at hn
      intro x hx
      exact (List.nodup_append.mp hn).2.2 x hx b hb
    refine ⟨hne a (by simp), ?_⟩
    intro hs
    have hbk := hbefore k a (k' ++ l') (by simp [e]) b (h.sub (by simp [e, hb])) hs
    exact hne b (by simp [hbk]) rfl

/-! ## The pairs -/

/-- The two ids, in no order. -/
def pairOf (p : Json ν × Json ν) : Sym2 JsString := s(idOf p.1, idOf p.2)

def Free (reachable : JsString → Finset JsString) (a b : JsString) : Prop :=
  b ∉ reachable a ∧ a ∉ reachable b

theorem mem_pairsWith (reachable : JsString → Finset JsString) (a : Json ν)
    (rest : List (Json ν)) (p : Json ν × Json ν) :
    p ∈ pairsWith reachable a rest ↔
      p.1 = a ∧ p.2 ∈ rest ∧ Free reachable (idOf a) (idOf p.2) := by
  obtain ⟨x, y⟩ := p
  simp only [pairsWith, List.mem_map, List.mem_filter, Bool.and_eq_true, Bool.not_eq_true',
    decide_eq_false_iff_not, Prod.mk.injEq, Free]
  constructor
  · intro ⟨b, ⟨hb, hfree⟩, hx, hy⟩
    exact ⟨hx.symm, hy ▸ hb, hy ▸ hfree⟩
  · intro ⟨hx, hb, hfree⟩
    exact ⟨y, ⟨hb, hfree⟩, hx.symm, rfl⟩

theorem mem_allPairs (reachable : JsString → Finset JsString) (tickets : List (Json ν))
    (p : Json ν × Json ν) (h : p ∈ allPairs reachable tickets) :
    p.1 ∈ tickets ∧ p.2 ∈ tickets ∧ Free reachable (idOf p.1) (idOf p.2) := by
  induction tickets with
  | nil => simp [allPairs] at h
  | cons t rest ih =>
    rw [allPairs, List.mem_append, mem_pairsWith] at h
    obtain ⟨h1, h2, h3⟩ | h := h
    · exact ⟨by simp [h1], List.mem_cons_of_mem _ h2, h1 ▸ h3⟩
    · obtain ⟨h1, h2, h3⟩ := ih h
      exact ⟨List.mem_cons_of_mem _ h1, List.mem_cons_of_mem _ h2, h3⟩

theorem ne_of_mem_allPairs {reachable : JsString → Finset JsString} {tickets : List (Json ν)}
    (hn : (tickets.map idOf).Nodup) {p : Json ν × Json ν}
    (h : p ∈ allPairs reachable tickets) : p.1 ≠ p.2 := by
  induction tickets with
  | nil => simp [allPairs] at h
  | cons t rest ih =>
    rw [List.map_cons, List.nodup_cons] at hn
    rw [allPairs, List.mem_append, mem_pairsWith] at h
    obtain ⟨h1, h2, -⟩ | h := h
    · intro e
      exact hn.1 (h1 ▸ e ▸ List.mem_map_of_mem h2)
    · exact ih hn.2 h

theorem Free.symm {reachable : JsString → Finset JsString} {a b : JsString}
    (h : Free reachable a b) : Free reachable b a := ⟨h.2, h.1⟩

theorem pairOf_mem_allPairs {reachable : JsString → Finset JsString} {tickets : List (Json ν)}
    (hn : (tickets.map idOf).Nodup) {a b : Json ν} (ha : a ∈ tickets) (hb : b ∈ tickets)
    (hab : idOf a ≠ idOf b) :
    pairOf (a, b) ∈ (allPairs reachable tickets).map pairOf ↔
      Free reachable (idOf a) (idOf b) := by
  constructor
  · intro h
    obtain ⟨p, hp, e⟩ := List.mem_map.mp h
    obtain ⟨-, -, hfree⟩ := mem_allPairs reachable tickets p hp
    obtain ⟨e1, e2⟩ | ⟨e1, e2⟩ := Sym2.eq_iff.mp e
    · rwa [e1, e2] at hfree
    · rw [e1, e2] at hfree
      exact hfree.symm
  · intro hfree
    induction tickets with
    | nil => cases ha
    | cons t rest ih =>
      rw [List.map_cons, List.nodup_cons] at hn
      rw [allPairs, List.map_append, List.mem_append]
      obtain ea | ha := List.mem_cons.mp ha
      · obtain eb | hb := List.mem_cons.mp hb
        · exact absurd (ea ▸ eb ▸ rfl) hab
        · left
          exact List.mem_map.mpr ⟨(a, b), (mem_pairsWith ..).mpr ⟨ea, hb, ea ▸ hfree⟩, rfl⟩
      · obtain eb | hb := List.mem_cons.mp hb
        · left
          refine List.mem_map.mpr ⟨(b, a), (mem_pairsWith ..).mpr ⟨eb, ha, eb ▸ hfree.symm⟩, ?_⟩
          exact Sym2.eq_swap
        · right
          exact ih hn.2 ha hb

theorem nodup_allPairs (reachable : JsString → Finset JsString) {tickets : List (Json ν)}
    (hn : (tickets.map idOf).Nodup) : ((allPairs reachable tickets).map pairOf).Nodup := by
  induction tickets with
  | nil => simp [allPairs]
  | cons t rest ih =>
    rw [List.map_cons, List.nodup_cons] at hn
    rw [allPairs, List.map_append, List.nodup_append]
    refine ⟨?_, ih hn.2, ?_⟩
    · have hrest : ((rest.filter fun b => !decide (idOf b ∈ reachable (idOf t)) &&
          !decide (idOf t ∈ reachable (idOf b))).map idOf).Nodup :=
        hn.2.sublist (List.filter_sublist.map idOf)
      have hmap : (pairsWith reachable t rest).map pairOf =
          ((rest.filter fun b => !decide (idOf b ∈ reachable (idOf t)) &&
            !decide (idOf t ∈ reachable (idOf b))).map idOf).map fun b => s(idOf t, b) := by
        rw [pairsWith, List.map_map, List.map_map]
        rfl
      rw [hmap]
      exact hrest.map fun x y e => Sym2.congr_right.mp e
    · intro e he f hf hef
      obtain ⟨p, hp, rfl⟩ := List.mem_map.mp he
      obtain ⟨q, hq, rfl⟩ := List.mem_map.mp hf
      have hp1 := ((mem_pairsWith ..).mp hp).1
      obtain ⟨hq1, hq2, -⟩ := mem_allPairs reachable rest q hq
      -- the later pairs are of tickets after `t`
      have ht : idOf t ∈ pairOf q := by
        rw [← hef, pairOf, hp1]
        exact Sym2.mem_mk_left ..
      obtain e | e := Sym2.mem_iff.mp ht
      · exact hn.1 (e ▸ List.mem_map_of_mem hq1)
      · exact hn.1 (e ▸ List.mem_map_of_mem hq2)

/-- Along edges from one ticket to another. -/
def Reaches (tickets : List (Json ν)) (a b : Json ν) : Prop :=
  Relation.TransGen (Blocks tickets) (idOf a) (idOf b)

/-- Each pair of tickets is listed once if neither leads to the other, and else not at all. -/
structure PairsExact (tickets : List (Json ν)) (pairs : List (Json ν × Json ν)) : Prop where
  listed : ∀ p ∈ pairs, p.1 ∈ tickets ∧ p.2 ∈ tickets
  nodup : (pairs.map pairOf).Nodup
  mem : ∀ a ∈ tickets, ∀ b ∈ tickets, a ≠ b →
    (pairOf (a, b) ∈ pairs.map pairOf ↔ ¬Reaches tickets a b ∧ ¬Reaches tickets b a)
  distinct : ∀ p ∈ pairs, p.1 ≠ p.2

/-- No ticket that another lists more than once as a target has an edge of its own. -/
def RepeatedEndsHere (tickets : List (Json ν)) : Prop :=
  ∀ a ∈ tickets, ∀ b ∈ tickets, 2 ≤ (targets a).count (idOf b) → targets b = []

/-- What the gathered sets hold: the paths that only leave ids of the order. -/
theorem Indexed.mem_reachable {tickets : List (Json ν)} (h : Indexed tickets) (a x : JsString) :
    x ∈ computeReachability tickets a ↔
      Relation.TransGen (EdgeFrom (successorSet tickets) (topoOrder tickets)) a x := by
  obtain ⟨c, hc, hd⟩ := h.topoOrder_drained
  rw [computeReachability_eq, mem_gathered (forward_of_drained hd hc)]

theorem Indexed.sound {tickets : List (Json ν)} (h : Indexed tickets) {a x : JsString}
    (hx : x ∈ computeReachability tickets a) : Relation.TransGen (Blocks tickets) a x := by
  rw [h.mem_reachable] at hx
  exact Relation.TransGen.mono (fun a b hab => (h.edge_iff a b).mp hab.2) _ _ hx

/-- Where no repeated edge leads on, every ticket with an edge is in the order. -/
theorem Indexed.complete {tickets : List (Json ν)} (h : Indexed tickets)
    (hrep : RepeatedEndsHere tickets) {a x : JsString}
    (hx : Relation.TransGen (Blocks tickets) a x) : x ∈ computeReachability tickets a := by
  rw [h.mem_reachable]
  refine Relation.TransGen.mono ?_ _ _ hx
  intro a b hab
  refine ⟨?_, (h.edge_iff a b).mpr hab⟩
  obtain ⟨t, ht, hid, hb⟩ := hab
  have ha : a ∈ tickets.map idOf := List.mem_map.mpr ⟨t, ht, idOf_eq hid⟩
  refine (h.mem_topoOrder a ha).mpr ?_
  intro u hu s hs
  -- every ancestor has an edge, so none is listed twice
  have hout : ∃ w ∈ tickets, idOf w = u ∧ targets w ≠ [] := by
    obtain rfl | ⟨v, huv, -⟩ := Relation.ReflTransGen.cases_head hu
    · exact ⟨t, ht, idOf_eq hid, List.ne_nil_of_mem hb⟩
    · obtain ⟨w, hw, hwid, hv⟩ := huv
      exact ⟨w, hw, idOf_eq hwid, List.ne_nil_of_mem hv⟩
  obtain ⟨w, hw, rfl, hne⟩ := hout
  by_contra hno
  exact hne (hrep s hs w hw (by omega))

/-- The pairs are exact just when no repeated edge leads to a ticket that has an edge itself. -/
theorem parallelEligiblePairs_exact [JsNumber ν] (tickets : List (Json ν))
    (hv : validateTickets false true tickets = .ok ()) :
    PairsExact tickets (parallelEligiblePairs tickets) ↔ RepeatedEndsHere tickets := by
  have h := indexed_of_valid ((validateTickets_ok_iff tickets).mp hv)
  constructor
  · intro hex a ha b hb hab
    by_contra hne
    obtain ⟨x, hx⟩ := List.exists_mem_of_ne_nil _ hne
    obtain ⟨c, hc, rfl⟩ := List.mem_map.mp (h.known b hb x hx)
    have hbc : Blocks tickets (idOf b) (idOf c) := ⟨b, hb, h.ids b hb, hx⟩
    have hids : idOf b ≠ idOf c := by
      intro e
      exact h.acyclic (idOf b) (Relation.TransGen.single (by rwa [← e] at hbc))
    -- `b` never comes to the queue, so its set stays empty
    have hgone : idOf b ∉ topoOrder tickets := by
      intro hm
      have hone := (h.mem_topoOrder (idOf b) (List.mem_map_of_mem hb)).mp hm (idOf b) .refl a ha
      omega
    have hfree : Free (computeReachability tickets) (idOf b) (idOf c) := by
      constructor
      · intro hm
        obtain ⟨y, hy, -⟩ := Relation.TransGen.head'_iff.mp ((h.mem_reachable _ _).mp hm)
        exact hgone hy.1
      · intro hm
        exact h.acyclic (idOf b) ((Relation.TransGen.single hbc).trans (h.sound hm))
    have hmem := (pairOf_mem_allPairs h.nodup hb hc hids).mpr hfree
    exact ((hex.mem b hb c hc fun e => hids (e ▸ rfl)).mp hmem).1 (Relation.TransGen.single hbc)
  · intro hrep
    refine ⟨?_, nodup_allPairs _ h.nodup, ?_, ?_⟩
    · intro p hp
      obtain ⟨h1, h2, -⟩ := mem_allPairs _ _ p hp
      exact ⟨h1, h2⟩
    · intro a ha b hb hab
      have hids : idOf a ≠ idOf b := fun e => hab (h.eq_of_id ha hb e)
      rw [parallelEligiblePairs, pairOf_mem_allPairs h.nodup ha hb hids]
      have hiff : ∀ x y, y ∈ computeReachability tickets x ↔
          Relation.TransGen (Blocks tickets) x y :=
        fun x y => ⟨h.sound, h.complete hrep⟩
      rw [Free, hiff, hiff]
      rfl
    · intro p hp e
      -- a pair of a ticket with itself would repeat an id of the list
      exact absurd e (ne_of_mem_allPairs h.nodup hp)

def ticketTo (id : String) (edges : List String) : Json Int :=
  .obj [(js "id", .str (js id)), (js "title", .str (js "t")),
    (js "edges", .arr (edges.map fun edgeTo => .obj [(js "to", .str (js edgeTo))]))]

theorem accepted_of_leadsForward {tickets : List (Json Int)}
    (h : (∀ t ∈ tickets, validateTicket false t = []) ∧ (tickets.map id?).Nodup ∧
      leadsForward tickets = true) : validateTickets false true tickets = .ok () :=
  (validateTickets_ok_iff _).mpr (validTickets_of_leadsForward h.1 h.2.1 h.2.2)

theorem parallelEligiblePairs_exact_chain :
    PairsExact [ticketTo "A" ["B"], ticketTo "B" ["C", "C"], ticketTo "C" []]
        (parallelEligiblePairs [ticketTo "A" ["B"], ticketTo "B" ["C", "C"], ticketTo "C" []]) ↔
      RepeatedEndsHere [ticketTo "A" ["B"], ticketTo "B" ["C", "C"], ticketTo "C" []] :=
  parallelEligiblePairs_exact _ (accepted_of_leadsForward (by decide +kernel))

/-- An edge to `B` that is listed twice keeps `B` from the queue, and so `B` and `C`, which it
leads to, are taken for a parallel pair. -/
theorem repeatedEdge_not_exact :
    validateTickets false true [ticketTo "A" ["B", "B"], ticketTo "B" ["C"], ticketTo "C" []] =
        .ok () ∧
      ¬PairsExact [ticketTo "A" ["B", "B"], ticketTo "B" ["C"], ticketTo "C" []]
        (parallelEligiblePairs
          [ticketTo "A" ["B", "B"], ticketTo "B" ["C"], ticketTo "C" []]) := by
  refine ⟨accepted_of_leadsForward (by decide +kernel), ?_⟩
  intro h
  have hpair : pairOf (ticketTo "B" ["C"], ticketTo "C" []) ∈
      (parallelEligiblePairs
        [ticketTo "A" ["B", "B"], ticketTo "B" ["C"], ticketTo "C" []]).map pairOf := by
    decide +kernel
  have hne : ticketTo "B" ["C"] ≠ ticketTo "C" [] := by
    intro e
    exact absurd (congrArg idOf e) (by decide)
  have hedge : Blocks [ticketTo "A" ["B", "B"], ticketTo "B" ["C"], ticketTo "C" []]
      (idOf (ticketTo "B" ["C"])) (idOf (ticketTo "C" [])) :=
    ⟨ticketTo "B" ["C"], by simp, by decide, by decide⟩
  exact ((h.mem _ (by simp) _ (by simp) hne).mp hpair).1 (Relation.TransGen.single hedge)

end Adlc.MergeForecast
