import Adlc.Framework.Countdown
import Adlc.Framework.LongestPath
import Adlc.Tickets.ManifestPrimitives
import Mathlib.Algebra.Order.Ring.Rat

namespace Adlc.Core

open Adlc.Framework Adlc.Tickets Relation

/-! ## Critical path and float -/

/-- What scheduling reads of a ticket; `edges` are the targets. -/
structure PlannedTicket where
  id : JsString
  edges : List JsString
  duration : Option ℚ

/-- A number; `none` is NaN, as which a property that is not there is read. -/
abbrev JsNum := Option ℚ

def add (a b : JsNum) : JsNum := a.bind fun x => b.map fun y => x + y

def sub (a b : JsNum) : JsNum := a.bind fun x => b.map fun y => x - y

/-- `Math.max(first, ...rest)` -/
def mathMax (first : JsNum) (rest : List JsNum) : JsNum :=
  rest.foldl (fun a b => a.bind fun x => b.map fun y => max x y) first

/-- `Math.min(first, ...rest)` -/
def mathMin (first : JsNum) (rest : List JsNum) : JsNum :=
  rest.foldl (fun a b => a.bind fun x => b.map fun y => min x y) first

def protoKey : JsString := js "__proto__"

/-- `object[id] = value` on a plain object: a number stored under `__proto__` is dropped. -/
def assignKey (object : JsString → JsNum) (id : JsString) (value : JsNum) : JsString → JsNum :=
  if id = protoKey then object else Function.update object id value

section

variable (tickets : List PlannedTicket)

def ids : List JsString := tickets.map PlannedTicket.id

/-- `out[id]` of `topoSort` -/
def outOf (id : JsString) : List JsString :=
  (tickets.filter fun t => decide (t.id = id)).flatMap PlannedTicket.edges

/-- `indegree[id]` of an id in the list. The counter of any other id is NaN and never comes down
to zero. -/
def indegreeOf (id : JsString) : ℕ := (tickets.flatMap PlannedTicket.edges).count id

structure TopoResult where
  order : List JsString
  cycle : Option (List JsString)

def topoSort : TopoResult :=
  let order := (Countdown.drain (fun next => decide (next ∈ ids tickets)) (outOf tickets)
    (ids tickets).length []
    ⟨fun id => indegreeOf tickets id,
      (ids tickets).filter fun id => decide (indegreeOf tickets id = 0)⟩).1
  if order.length ≠ (ids tickets).length then
    ⟨order, some ((ids tickets).filter fun id => decide (id ∉ order))⟩
  else ⟨order, none⟩

/-- `byId[id]`: a later ticket replaces an earlier one of its id. -/
def byId (id : JsString) : Option PlannedTicket := tickets.reverse.find? fun t => decide (t.id = id)

/-- `byId[id].duration ?? 1` -/
def dur (id : JsString) : ℚ := ((byId tickets id).bind PlannedTicket.duration).getD 1

/-- `preds[id]` -/
def predsOf (id : JsString) : List JsString :=
  tickets.flatMap fun t => (t.edges.filter fun e => decide (e = id)).map fun _ => t.id

/-- `succs[id]` -/
def succsOf (id : JsString) : List JsString := ((byId tickets id).map PlannedTicket.edges).getD []

def earliestStep (earliestFinish : JsString → JsNum) (id : JsString) : JsNum :=
  add (mathMax (some 0) ((predsOf tickets id).map earliestFinish)) (some (dur tickets id))

def latestStep (makespan : JsNum) (latestFinish : JsString → JsNum) (id : JsString) : JsNum :=
  match succsOf tickets id with
  | [] => makespan
  | s :: rest =>
    let before := fun s => sub (latestFinish s) (some (dur tickets s))
    mathMin (before s) (rest.map before)

/-- The loop that fills an object with a value for each id. -/
def fillObject (step : (JsString → JsNum) → JsString → JsNum) (order : List JsString) :
    JsString → JsNum :=
  order.foldl (fun object id => assignKey object id (step object id)) fun _ => none

structure FloatReport where
  floats : List (JsString × JsNum)
  criticalPath : List JsString
  makespan : JsNum

inductive FloatResult where
  | error (text : JsString)
  | report (report : FloatReport)

/-- The two passes over the order, and what they report. -/
def floatReport (order : List JsString) : FloatReport :=
  let own := order.filter fun id => decide (id ≠ protoKey)
  let earliestFinish := fillObject (earliestStep tickets) order
  let makespan := mathMax (some 0) (own.map earliestFinish)
  let latestFinish := fillObject (latestStep tickets makespan) order.reverse
  let floats := own.map fun id => (id, sub (latestFinish id) (earliestFinish id))
  { floats, makespan
    criticalPath := order.filter fun id => decide (floats.lookup id = some (some 0)) }

/-- `none` is the TypeError of `preds[e.to].push` when no ticket has that id. -/
def computeFloat : Option FloatResult :=
  match (topoSort tickets).cycle with
  | some cycle => some (.error (js "cycle in ticket DAG: " ++ joinComma cycle))
  | none =>
    if tickets.all fun t => t.edges.all fun e => decide (e ∈ ids tickets) then
      some (.report (floatReport tickets (topoSort tickets).order))
    else none

/-! ## The graph -/

/-- An edge of the graph: the first ticket must complete before the second. -/
def Precedes (a b : JsString) : Prop := ∃ t ∈ tickets, t.id = a ∧ b ∈ t.edges

end

variable {tickets : List PlannedTicket}

theorem mem_outOf {a b : JsString} : b ∈ outOf tickets a ↔ Precedes tickets a b := by
  simp only [outOf, List.mem_flatMap, List.mem_filter, decide_eq_true_eq, Precedes, and_assoc]

theorem edge_outOf : Edge (outOf tickets) = Precedes tickets := by
  funext a b
  exact propext mem_outOf

theorem mem_predsOf {a b : JsString} : a ∈ predsOf tickets b ↔ Precedes tickets a b := by
  simp only [predsOf, List.mem_flatMap, List.mem_map, List.mem_filter, decide_eq_true_eq, Precedes]
  constructor
  · rintro ⟨t, ht, e, ⟨he, rfl⟩, hid⟩
    exact ⟨t, ht, hid, he⟩
  · rintro ⟨t, ht, hid, hb⟩
    exact ⟨t, ht, b, ⟨hb, rfl⟩, hid⟩

theorem Precedes.source {a b : JsString} (h : Precedes tickets a b) : a ∈ ids tickets := by
  obtain ⟨t, ht, rfl, -⟩ := h
  exact List.mem_map_of_mem ht

section

variable (hids : (ids tickets).Nodup)

include hids

theorem eq_of_id {s t : PlannedTicket} (hs : s ∈ tickets) (ht : t ∈ tickets) (e : s.id = t.id) :
    s = t := List.inj_on_of_nodup_map hids hs ht e

theorem byId_eq {t : PlannedTicket} (ht : t ∈ tickets) : byId tickets t.id = some t := by
  cases hf : byId tickets t.id with
  | none =>
    have h := List.find?_eq_none.mp hf t (List.mem_reverse.mpr ht)
    simp at h
  | some s =>
    have hs := List.mem_reverse.mp (List.mem_of_find?_eq_some hf)
    have e := List.find?_some hf
    rw [eq_of_id hids hs ht (of_decide_eq_true e)]

theorem mem_succsOf {a b : JsString} (ha : a ∈ ids tickets) :
    b ∈ succsOf tickets a ↔ Precedes tickets a b := by
  obtain ⟨t, ht, rfl⟩ := List.mem_map.mp ha
  rw [succsOf, byId_eq hids ht]
  constructor
  · intro hb
    exact ⟨t, ht, rfl, hb⟩
  · rintro ⟨s, hs, e, hb⟩
    rw [eq_of_id hids hs ht e] at hb
    exact hb

/-- Every edge is counted once for each time it is listed. -/
theorem inflow_outOf (v : JsString) :
    inflow (outOf tickets) (ids tickets) v = indegreeOf tickets v := by
  rw [inflow_eq_sum hids, ids, List.map_map, indegreeOf, List.count_flatMap]
  congr 1
  apply List.map_congr_left
  intro t ht
  have hone : (tickets.filter fun s => decide (s.id = t.id)) = [t] := by
    have hn := (hids.of_map _).filter fun s : PlannedTicket => decide (s.id = t.id)
    apply List.perm_singleton.mp
    apply (List.perm_ext_iff_of_nodup hn (List.nodup_singleton t)).mpr
    intro s
    rw [List.mem_filter, List.mem_singleton, decide_eq_true_eq]
    constructor
    · intro ⟨hs, e⟩
      exact eq_of_id hids hs ht e
    · intro e
      exact ⟨e ▸ ht, by rw [e]⟩
  rw [Function.comp_apply, Function.comp_apply, outOf, hone, List.flatMap_singleton]

/-- When the loop over the queue ends, `order` holds the tickets all of whose predecessors it
holds. -/
theorem topoSort_drained : ∃ c : Countdown JsString, c.ready = [] ∧
    Drained (ids tickets) (outOf tickets) (indegreeOf tickets) (topoSort tickets).order c := by
  have bound : ∀ v ∈ ids tickets,
      inflow (outOf tickets) (ids tickets) v ≤ indegreeOf tickets v :=
    fun v _ => (inflow_outOf hids v).le
  have hstart : Drained (ids tickets) (outOf tickets) (indegreeOf tickets) []
      ⟨fun id => indegreeOf tickets id,
        (ids tickets).filter fun id => decide (indegreeOf tickets id = 0)⟩ := by
    apply Drained.start bound (hids.filter _) (fun _ => rfl)
    intro v
    rw [List.mem_filter, decide_eq_true_eq]
  have hguard : ∀ a ∈ ids tickets, ∀ v ∈ outOf tickets a,
      (fun next => decide (next ∈ ids tickets)) v = true ↔ v ∈ ids tickets := fun _ _ v _ => by simp
  obtain ⟨hdrained, hready⟩ := drain_spec bound hguard (ids tickets).length [] _ hstart (by simp)
  refine ⟨_, hready, ?_⟩
  have horder : (topoSort tickets).order = (Countdown.drain
      (fun next => decide (next ∈ ids tickets)) (outOf tickets) (ids tickets).length []
      ⟨fun id => indegreeOf tickets id,
        (ids tickets).filter fun id => decide (indegreeOf tickets id = 0)⟩).1 := by
    unfold topoSort
    dsimp only
    split_ifs <;> rfl
  rw [horder]
  exact hdrained

theorem topoSort_cycle_none :
    (topoSort tickets).cycle = none ↔ ids tickets ⊆ (topoSort tickets).order := by
  obtain ⟨c, hready, h⟩ := topoSort_drained hids
  have hnodup : (topoSort tickets).order.Nodup := by
    have hn := h.nodup
    rwa [hready, List.append_nil] at hn
  have hlen : (topoSort tickets).cycle = none ↔
      (topoSort tickets).order.length = (ids tickets).length := by
    unfold topoSort
    dsimp only
    split_ifs with hne
    · exact iff_of_false (by simp) hne
    · exact iff_of_true rfl (not_not.mp hne)
  rw [hlen]
  constructor
  · intro e
    exact ((List.subperm_of_subset hnodup h.sub).perm_of_length_le e.ge).symm.subset
  · intro hsub
    exact ((List.perm_ext_iff_of_nodup hnodup hids).mpr
      fun v => ⟨fun hv => h.sub hv, fun hv => hsub hv⟩).length_eq

/-- A cycle is reported exactly when there is one; edges to absent tickets close none. -/
theorem topoSort_cycle_iff :
    (topoSort tickets).cycle = none ↔ ∀ id, ¬TransGen (Precedes tickets) id id := by
  obtain ⟨c, hready, h⟩ := topoSort_drained hids
  have bound : ∀ v ∈ ids tickets,
      inflow (outOf tickets) (ids tickets) v ≤ indegreeOf tickets v :=
    fun v _ => (inflow_outOf hids v).le
  rw [topoSort_cycle_none hids, ← edge_outOf]
  constructor
  · intro hall
    exact h.acyclic hready hall fun a v hv => (mem_outOf.mp hv).source
  · intro hac
    refine acyclic_induction hac ?_
    intro v hv ih
    exact (h.gone_iff bound hready v).mpr ⟨hv, (inflow_outOf hids v).symm, ih⟩

theorem topoSort_order (hac : ∀ id, ¬TransGen (Precedes tickets) id id) :
    TopologicalOrder (Precedes tickets) (ids tickets) (topoSort tickets).order := by
  obtain ⟨c, hready, h⟩ := topoSort_drained hids
  have hall := (topoSort_cycle_none hids).mp ((topoSort_cycle_iff hids).mpr hac)
  refine ⟨?_, ?_, ?_⟩
  · have hn := h.nodup
    rwa [hready, List.append_nil] at hn
  · intro v
    exact ⟨fun hv => h.sub hv, fun hv => hall hv⟩
  · intro l v l' e a ha hav
    apply h.before l v l' (by rw [hready, List.append_nil, e]) a ha
    exact mem_outOf.mpr hav

end

/-! ## The passes over the order -/

theorem mathMax_some (x : ℚ) (xs : List ℚ) :
    ∃ m, mathMax (some x) (xs.map some) = some m ∧ IsGreatest (insert x {y | y ∈ xs}) m := by
  induction xs generalizing x with
  | nil => exact ⟨x, rfl, by simp⟩
  | cons y xs ih =>
    obtain ⟨m, hm, hmem, hupper⟩ := ih (max x y)
    have hmax : max x y ≤ m := hupper (Set.mem_insert _ _)
    refine ⟨m, hm, ?_, ?_⟩
    · obtain rfl | hmem := hmem
      · obtain h | h := max_choice x y
        · exact Or.inl h
        · exact Or.inr (by simp [h])
      · exact Or.inr (List.mem_cons_of_mem _ hmem)
    · rintro z (rfl | hz)
      · exact (le_max_left _ y).trans hmax
      · obtain rfl | hz := List.mem_cons.mp hz
        · exact (le_max_right x _).trans hmax
        · exact hupper (Set.mem_insert_of_mem _ hz)

theorem mathMin_some (x : ℚ) (xs : List ℚ) :
    ∃ m, mathMin (some x) (xs.map some) = some m ∧ IsLeast (insert x {y | y ∈ xs}) m := by
  induction xs generalizing x with
  | nil => exact ⟨x, rfl, by simp⟩
  | cons y xs ih =>
    obtain ⟨m, hm, hmem, hlower⟩ := ih (min x y)
    have hmin : m ≤ min x y := hlower (Set.mem_insert _ _)
    refine ⟨m, hm, ?_, ?_⟩
    · obtain rfl | hmem := hmem
      · obtain h | h := min_choice x y
        · exact Or.inl h
        · exact Or.inr (by simp [h])
      · exact Or.inr (List.mem_cons_of_mem _ hmem)
    · rintro z (rfl | hz)
      · exact hmin.trans (min_le_left _ y)
      · obtain rfl | hz := List.mem_cons.mp hz
        · exact hmin.trans (min_le_right x _)
        · exact hlower (Set.mem_insert_of_mem _ hz)

theorem fillObject_eq_sweep (step : (JsString → JsNum) → JsString → JsNum) {order : List JsString}
    (h : protoKey ∉ order) : fillObject step order = sweep step order fun _ => none := by
  unfold fillObject sweep
  apply List.foldl_ext
  intro object id hid
  apply if_neg
  rintro rfl
  exact h hid

theorem map_eq_some {g : JsString → JsNum} {e : JsString → ℚ} {xs : List JsString}
    (h : ∀ a ∈ xs, g a = some (e a)) : xs.map g = (xs.map e).map some := by
  rw [List.map_map]
  exact List.map_congr_left h

theorem earliestStep_some {g : JsString → JsNum} {e : JsString → ℚ} {v : JsString}
    (h : ∀ a, Precedes tickets a v → g a = some (e a)) :
    ∃ m, earliestStep tickets g v = some (m + dur tickets v) ∧
      IsGreatest (insert 0 {x | ∃ a ∈ ids tickets, Precedes tickets a v ∧ x = e a}) m := by
  obtain ⟨m, hm, hgreatest⟩ := mathMax_some 0 ((predsOf tickets v).map e)
  have hset : {x | ∃ a ∈ ids tickets, Precedes tickets a v ∧ x = e a} =
      {y | y ∈ (predsOf tickets v).map e} := by
    ext x
    simp only [Set.mem_ofPred_eq, List.mem_map, mem_predsOf]
    constructor
    · rintro ⟨a, -, ha, rfl⟩
      exact ⟨a, ha, rfl⟩
    · rintro ⟨a, ha, rfl⟩
      exact ⟨a, ha.source, ha, rfl⟩
  rw [hset]
  refine ⟨m, ?_, hgreatest⟩
  rw [earliestStep, map_eq_some fun a ha => h a (mem_predsOf.mp ha), hm]
  rfl

section

variable (hids : (ids tickets).Nodup)

include hids

theorem latestStep_some {g : JsString → JsNum} {l : JsString → ℚ} {v : JsString} {m : ℚ}
    (hv : v ∈ ids tickets) (h : ∀ b, Precedes tickets v b → g b = some (l b)) :
    ∃ x, latestStep tickets (some m) g v = some x ∧
      ((¬∃ b, Precedes tickets v b) ∧ x = m ∨
        IsLeast {x | ∃ b, Precedes tickets v b ∧ x = l b - dur tickets b} x) := by
  cases hs : succsOf tickets v with
  | nil =>
    refine ⟨m, by rw [latestStep, hs], Or.inl ⟨?_, rfl⟩⟩
    rintro ⟨b, hb⟩
    have hb := (mem_succsOf hids hv).mpr hb
    rw [hs] at hb
    cases hb
  | cons s rest =>
    have hsucc : ∀ b, b ∈ s :: rest ↔ Precedes tickets v b := by
      intro b
      rw [← hs]
      exact mem_succsOf hids hv
    have hbefore : ∀ b ∈ s :: rest,
        sub (g b) (some (dur tickets b)) = some (l b - dur tickets b) := by
      intro b hb
      rw [h b ((hsucc b).mp hb)]
      rfl
    obtain ⟨x, hx, hleast⟩ := mathMin_some (l s - dur tickets s)
      (rest.map fun b => l b - dur tickets b)
    refine ⟨x, ?_, Or.inr ?_⟩
    · rw [latestStep, hs]
      dsimp only
      rw [hbefore s List.mem_cons_self,
        map_eq_some fun b hb => hbefore b (List.mem_cons_of_mem _ hb), hx]
    · have hset : {x | ∃ b, Precedes tickets v b ∧ x = l b - dur tickets b} =
          insert (l s - dur tickets s) {y | y ∈ rest.map fun b => l b - dur tickets b} := by
        ext x
        simp only [Set.mem_ofPred_eq, Set.mem_insert_iff, List.mem_map, ← hsucc, List.mem_cons]
        constructor
        · rintro ⟨b, rfl | hb, rfl⟩
          · exact Or.inl rfl
          · exact Or.inr ⟨b, hb, rfl⟩
        · rintro (rfl | ⟨b, hb, rfl⟩)
          · exact ⟨s, Or.inl rfl, rfl⟩
          · exact ⟨b, Or.inr hb, rfl⟩
      rw [hset]
      exact hleast

variable (hac : ∀ id, ¬TransGen (Precedes tickets) id id) (hproto : protoKey ∉ ids tickets)

include hac hproto

/-- The forward pass computes the longest paths that end at each ticket. -/
theorem earliest_solves : ∃ e : JsString → ℚ,
    (∀ v ∈ ids tickets, fillObject (earliestStep tickets) (topoSort tickets).order v = some (e v)) ∧
      Solves (Precedes tickets) (ids tickets) (dur tickets) e := by
  have ho := topoSort_order hids hac
  have hp : protoKey ∉ (topoSort tickets).order := fun h => hproto ((ho.mem _).mp h)
  rw [fillObject_eq_sweep _ hp]
  have hsweep := sweep_spec (F := earliestStep tickets) ho.nodup (fun _ => none) (by
    intro l v l' e g h hgh
    rw [earliestStep, earliestStep, List.map_congr_left]
    intro a ha
    have ha := mem_predsOf.mp ha
    exact hgh a (ho.before l v l' e a ha.source ha))
  revert hsweep
  generalize sweep (earliestStep tickets) (topoSort tickets).order (fun _ => none) = g
  intro hsweep
  have hsome : ∀ v ∈ (topoSort tickets).order, g v = some ((g v).getD 0) := by
    apply order_induction
    intro l v l' e ih
    obtain ⟨m, hm, -⟩ := earliestStep_some (g := g) (e := fun v => (g v).getD 0) (v := v)
      fun a ha => ih a (ho.before l v l' e a ha.source ha)
    rw [hsweep v (by simp [e]), hm]
    rfl
  refine ⟨fun v => (g v).getD 0, fun v hv => hsome v ((ho.mem v).mpr hv), ?_⟩
  intro v hv
  have hvo := (ho.mem v).mpr hv
  obtain ⟨m, hm, hgreatest⟩ := earliestStep_some (g := g) (e := fun v => (g v).getD 0) (v := v)
    fun a ha => hsome a ((ho.mem a).mpr ha.source)
  have hval : (g v).getD 0 - dur tickets v = m := by
    rw [hsweep v hvo, hm, Option.getD_some, add_sub_cancel_right]
  rw [hval]
  exact hgreatest

variable (hclosed : ∀ a b, Precedes tickets a b → b ∈ ids tickets)
variable (hdur : ∀ v, 0 ≤ dur tickets v)

include hclosed hdur

/-- The backward pass computes, below the makespan, the longest paths that start at each ticket. -/
theorem latest_solves (m : ℚ) : ∃ l : JsString → ℚ,
    (∀ v ∈ ids tickets,
      fillObject (latestStep tickets (some m)) (topoSort tickets).order.reverse v = some (l v)) ∧
      Solves (fun a b => Precedes tickets b a) (ids tickets) (dur tickets)
        fun v => m - l v + dur tickets v := by
  have ho := (topoSort_order hids hac).reverse fun v _ h => hac v (TransGen.single h)
  revert ho
  generalize (topoSort tickets).order.reverse = order
  intro ho
  have hp : protoKey ∉ order := fun h => hproto ((ho.mem _).mp h)
  rw [fillObject_eq_sweep _ hp]
  have hsweep := sweep_spec (F := latestStep tickets (some m)) ho.nodup (fun _ => none) (by
    intro l v l' e g h hgh
    have hv : v ∈ ids tickets := (ho.mem v).mp (by simp [e])
    have hbefore : ∀ b ∈ succsOf tickets v, g b = h b := by
      intro b hb
      have hvb := (mem_succsOf hids hv).mp hb
      exact hgh b (ho.before l v l' e b (hclosed v b hvb) hvb)
    rw [latestStep, latestStep]
    cases hs : succsOf tickets v with
    | nil => rfl
    | cons s rest =>
      rw [hs] at hbefore
      dsimp only
      rw [hbefore s List.mem_cons_self, List.map_congr_left]
      intro b hb
      rw [hbefore b (List.mem_cons_of_mem _ hb)])
  revert hsweep
  generalize sweep (latestStep tickets (some m)) order (fun _ => none) = g
  intro hsweep
  have hsome : ∀ v ∈ order, g v = some ((g v).getD 0) := by
    apply order_induction
    intro l v l' e ih
    have hv : v ∈ ids tickets := (ho.mem v).mp (by simp [e])
    obtain ⟨x, hx, -⟩ := latestStep_some (g := g) (l := fun v => (g v).getD 0) (m := m) hids hv
      fun b hb => ih b (ho.before l v l' e b (hclosed v b hb) hb)
    rw [hsweep v (by simp [e]), hx]
    rfl
  have hlast : ∀ v ∈ order, (¬∃ b, Precedes tickets v b) ∧ (g v).getD 0 = m ∨
      IsLeast {x | ∃ b, Precedes tickets v b ∧ x = (g b).getD 0 - dur tickets b} ((g v).getD 0) := by
    intro v hv
    obtain ⟨x, hx, hcase⟩ := latestStep_some (g := g) (l := fun v => (g v).getD 0) (m := m) hids
      ((ho.mem v).mp hv) fun b hb => hsome b ((ho.mem b).mpr (hclosed v b hb))
    rw [hsweep v hv, hx]
    exact hcase
  have hnonneg : ∀ v ∈ order, 0 ≤ m - (g v).getD 0 := by
    apply order_induction
    intro l v l' e ih
    obtain ⟨-, h⟩ | ⟨⟨b, hb, h⟩, -⟩ := hlast v (by simp [e])
    · rw [h, sub_self]
    · have hbl := ih b (ho.before l v l' e b (hclosed v b hb) hb)
      have hdb := hdur b
      rw [h]
      linarith
  refine ⟨fun v => (g v).getD 0, fun v hv => hsome v ((ho.mem v).mpr hv), ?_⟩
  intro v hv
  have hvo := (ho.mem v).mpr hv
  rw [add_sub_cancel_right]
  beta_reduce
  obtain ⟨hnone, h⟩ | ⟨⟨b, hb, h⟩, hleast⟩ := hlast v hvo
  · refine ⟨Or.inl (by rw [h, sub_self]), ?_⟩
    rintro x (rfl | ⟨b, -, hb, -⟩)
    · rw [h, sub_self]
    · exact absurd ⟨b, hb⟩ hnone
  · refine ⟨Or.inr ⟨b, hclosed v b hb, hb, ?_⟩, ?_⟩
    · rw [h]
      ring
    · rintro x (rfl | ⟨c, -, hc, rfl⟩)
      · exact hnonneg v hvo
      · have hle := hleast ⟨c, hc, rfl⟩
        linarith

end

/-! ## The critical path method -/

/-- The makespan is the largest total of a path, and each float the makespan less the largest total
of a path through its ticket. -/
def ExactFloats (tickets : List PlannedTicket) (report : FloatReport) : Prop :=
  ∃ m, report.makespan = some m ∧
    IsGreatest {x | ∃ p, IsPath (Precedes tickets) (ids tickets) p ∧ total (dur tickets) p = x} m ∧
    ∀ id ∈ ids tickets, ∃ f, report.floats.lookup id = some (some f) ∧ 0 ≤ f ∧
      IsGreatest {x | ∃ p, IsPath (Precedes tickets) (ids tickets) p ∧ id ∈ p ∧
        total (dur tickets) p = x} (m - f)

theorem dur_nonneg (h : ∀ t ∈ tickets, ∀ d, t.duration = some d → 0 ≤ d) (v : JsString) :
    0 ≤ dur tickets v := by
  unfold dur
  cases hb : byId tickets v with
  | none => norm_num
  | some t =>
    have ht : t ∈ tickets := List.mem_reverse.mp (List.mem_of_find?_eq_some hb)
    rw [Option.bind_some]
    cases hd : t.duration with
    | none => norm_num
    | some d => exact h t ht d hd

theorem lookup_map_self {keys : List JsString} (g : JsString → JsNum) {v : JsString}
    (h : v ∈ keys) : (keys.map fun id => (id, g id)).lookup v = some (g v) := by
  induction keys with
  | nil => cases h
  | cons k keys ih =>
    by_cases hk : v = k
    · subst hk
      rw [List.map_cons, List.lookup_cons_self]
    · rw [List.map_cons, List.lookup_cons, beq_false_of_ne hk]
      exact ih (List.mem_of_ne_of_mem hk h)

theorem computeFloat_exact (hids : (ids tickets).Nodup)
    (hac : ∀ id, ¬TransGen (Precedes tickets) id id) (hproto : protoKey ∉ ids tickets)
    (hclosed : ∀ t ∈ tickets, t.edges ⊆ ids tickets)
    (hdur : ∀ t ∈ tickets, ∀ d, t.duration = some d → 0 ≤ d) :
    ∃ report, computeFloat tickets = some (.report report) ∧ ExactFloats tickets report := by
  have hclosed' : ∀ a b, Precedes tickets a b → b ∈ ids tickets := by
    rintro a b ⟨t, ht, -, hb⟩
    exact hclosed t ht hb
  have hw := dur_nonneg hdur
  have ho := topoSort_order hids hac
  have hirrefl : ∀ v ∈ ids tickets, ¬Precedes tickets v v := fun v _ h => hac v (TransGen.single h)
  obtain ⟨e, he, hE⟩ := earliest_solves hids hac hproto
  have hown : ((topoSort tickets).order.filter fun id => decide (id ≠ protoKey)) =
      (topoSort tickets).order := by
    rw [List.filter_eq_self]
    intro id hid
    rw [decide_eq_true_eq]
    rintro rfl
    exact hproto ((ho.mem _).mp hid)
  obtain ⟨m, hm, hgreatest⟩ := mathMax_some 0 ((topoSort tickets).order.map e)
  have hspan : mathMax (some 0) ((topoSort tickets).order.map
      (fillObject (earliestStep tickets) (topoSort tickets).order)) = some m := by
    rw [map_eq_some fun a ha => he a ((ho.mem a).mp ha), hm]
  obtain ⟨l, hl, hL⟩ := latest_solves hids hac hproto hclosed' hw m
  have hmakespan : IsGreatest
      {x | ∃ p, IsPath (Precedes tickets) (ids tickets) p ∧ total (dur tickets) p = x} m := by
    apply hE.makespan ho
    have hset : {x | ∃ v ∈ ids tickets, x = e v} = {y | y ∈ (topoSort tickets).order.map e} := by
      ext x
      simp only [Set.mem_ofPred_eq, List.mem_map, ho.mem]
      constructor
      · rintro ⟨v, hv, rfl⟩
        exact ⟨v, hv, rfl⟩
      · rintro ⟨v, hv, rfl⟩
        exact ⟨v, hv, rfl⟩
    rw [hset]
    exact hgreatest
  have hall : (tickets.all fun t => t.edges.all fun e => decide (e ∈ ids tickets)) = true := by
    simp only [List.all_eq_true, decide_eq_true_eq]
    exact hclosed
  refine ⟨floatReport tickets (topoSort tickets).order, ?_, m, ?_, hmakespan, ?_⟩
  · rw [computeFloat, (topoSort_cycle_iff hids).mpr hac]
    exact if_pos hall
  · rw [floatReport, hown]
    exact hspan
  · intro id hid
    have hthrough := hE.through hL ho hirrefl hid
    have heq : m - (l id - e id) = e id + (m - l id + dur tickets id) - dur tickets id := by ring
    refine ⟨l id - e id, ?_, ?_, ?_⟩
    · simp only [floatReport]
      rw [hown, hspan, lookup_map_self _ ((ho.mem id).mpr hid), he id hid, hl id hid]
      rfl
    · obtain ⟨p, hp, -, htotal⟩ := hthrough.1
      have hle := hmakespan.2 ⟨p, hp, rfl⟩
      rw [htotal, ← heq] at hle
      linarith
    · rw [heq]
      exact hthrough

theorem computeFloat_dangling (hids : (ids tickets).Nodup)
    (hac : ∀ id, ¬TransGen (Precedes tickets) id id)
    (h : ∃ t ∈ tickets, ∃ b ∈ t.edges, b ∉ ids tickets) : computeFloat tickets = none := by
  obtain ⟨t, ht, b, hb, hno⟩ := h
  have hall : ¬(tickets.all fun t => t.edges.all fun e => decide (e ∈ ids tickets)) = true := by
    simp only [List.all_eq_true, decide_eq_true_eq]
    intro h
    exact hno (h t ht b hb)
  rw [computeFloat, (topoSort_cycle_iff hids).mpr hac]
  exact if_neg hall

/-- Two ways from `a` to `d`, the longer one through `b`. -/
def diamondPlan : List PlannedTicket :=
  [⟨js "a", [js "b", js "c"], some 2⟩, ⟨js "b", [js "d"], some 3⟩, ⟨js "c", [js "d"], none⟩,
    ⟨js "d", [], some (1 / 2)⟩]

/-- A ticket with an edge to one that is not in the list. -/
def danglingPlan : List PlannedTicket := [⟨js "a", [js "x"], none⟩]

end Adlc.Core
