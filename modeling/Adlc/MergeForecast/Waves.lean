import Adlc.Framework.Layers
import Adlc.MergeForecast.Reachability

namespace Adlc.MergeForecast

open Adlc.Framework Adlc.Tickets

variable {ν : Type}

/-! ## Waves -/

/-- `succ.get(id)` of `topoWaves(tickets)`: an edge that is listed again is pushed again. -/
def successorList (tickets : List (Json ν)) (id : JsString) : List JsString :=
  (tickets.filter fun t => decide (idOf t = id)).flatMap targets

/-- One round of `for (const id of ready)`: the assigned ids, the counters and `nextReady`. -/
def assign (succ : JsString → List JsString) (s : List JsString × Countdown JsString)
    (id : JsString) : List JsString × Countdown JsString :=
  let assigned := s.1 ++ [id]
  (assigned, (succ id).foldl (Countdown.lower fun next => decide (next ∉ assigned)) s.2)

/-- `while (ready.length)` -/
def wavesFrom (succ : JsString → List JsString) :
    Nat → List JsString → Countdown JsString → List (List JsString)
  | 0, _, _ => []
  | n + 1, assigned, c =>
    if c.ready = [] then []
    else
      let s := c.ready.foldl (assign succ) (assigned, { c with ready := [] })
      c.ready :: wavesFrom succ n s.1 s.2

/-- A wave has an id or more, and an id is in one wave. -/
def topoWaves (tickets : List (Json ν)) : List (List JsString) :=
  wavesFrom (successorList tickets) (tickets.map idOf ++ tickets.flatMap targets).length []
    ⟨fun id => indegreeOf tickets id,
      (tickets.map idOf).filter fun id => decide (indegreeOf tickets id = 0)⟩

/-! ## The width of a wave -/

structure PairResult (ν : Type) where
  a : JsString
  b : JsString
  score : ν
  hardVeto : Bool

section

variable (atLeast : ν → ν → Bool)

/-- `pr.score >= threshold || pr.hardVeto` -/
def isConflict (threshold : ν) (pr : PairResult ν) : Bool :=
  atLeast pr.score threshold || pr.hardVeto

def conflictKey (a b : JsString) : JsString := a ++ js "|" ++ b

/-- The keys of `conflicted` -/
def conflictKeys (waveIds : List JsString) (pairResults : List (PairResult ν)) (threshold : ν) :
    List JsString :=
  (pairResults.filter fun pr =>
    isConflict atLeast threshold pr && (waveIds.contains pr.a && waveIds.contains pr.b)).flatMap
      fun pr => [conflictKey pr.a pr.b, conflictKey pr.b pr.a]

def hasConflict (conflicted : List JsString) (id : JsString) (chosen : List JsString) : Bool :=
  chosen.any fun c => decide (conflictKey id c ∈ conflicted)

/-- `for (const id of order)`: the ids that no chosen one conflicts with. -/
def choose (conflicted : List JsString) (order : List JsString) : List JsString :=
  order.foldl
    (fun chosen id => if hasConflict conflicted id chosen then chosen else chosen ++ [id]) []

def startingAt (waveIds : List JsString) (start : Nat) : List JsString :=
  waveIds.drop start ++ waveIds.take start

def computeWaveWidth (waveIds : List JsString) (pairResults : List (PairResult ν))
    (threshold : ν) : Nat :=
  (List.range waveIds.length).foldl
    (fun best start =>
      max best
        (choose (conflictKeys atLeast waveIds pairResults threshold) (startingAt waveIds start)).length)
    0

end

/-! ## The waves are layers -/

theorem mem_successorList {tickets : List (Json ν)} (a b : JsString) :
    b ∈ successorList tickets a ↔ ∃ t ∈ tickets, idOf t = a ∧ b ∈ targets t := by
  simp only [successorList, List.mem_flatMap, List.mem_filter, decide_eq_true_eq]
  constructor
  · intro ⟨t, ⟨h1, h2⟩, h3⟩
    exact ⟨t, h1, h2, h3⟩
  · intro ⟨t, h1, h2, h3⟩
    exact ⟨t, ⟨h1, h2⟩, h3⟩

theorem successorList_out {tickets : List (Json ν)} (a v : JsString)
    (hv : v ∈ successorList tickets a) : a ∈ tickets.map idOf := by
  obtain ⟨t, ht, e, -⟩ := (mem_successorList a v).mp hv
  exact List.mem_map.mpr ⟨t, ht, e⟩

theorem Indexed.edge_list {tickets : List (Json ν)} (h : Indexed tickets) :
    Edge (successorList tickets) = Blocks tickets := by
  funext a b
  rw [← h.edge_iff, Edge, Edge, mem_successorList, mem_successorSet]

theorem Indexed.successorList_eq {tickets : List (Json ν)} (h : Indexed tickets) {t : Json ν}
    (ht : t ∈ tickets) : successorList tickets (idOf t) = targets t := by
  have hone : (tickets.filter fun s => decide (idOf s = idOf t)) = [t] := by
    have hn := (h.nodup.of_map _).filter fun s => decide (idOf s = idOf t)
    apply List.perm_singleton.mp
    apply (List.perm_ext_iff_of_nodup hn (List.nodup_singleton t)).mpr
    intro s
    rw [List.mem_filter, List.mem_singleton]
    constructor
    · intro ⟨hs, e⟩
      exact h.eq_of_id hs ht (by simpa using e)
    · intro e
      exact ⟨e ▸ ht, by simp [e]⟩
  rw [successorList, hone]
  simp

/-- Here an edge counts as often as it is listed, on both sides. -/
theorem Indexed.inflow_list {tickets : List (Json ν)} (h : Indexed tickets) (v : JsString) :
    inflow (successorList tickets) (tickets.map idOf) v = indegreeOf tickets v := by
  rw [h.inflow_eq, indegreeOf, flatMap_count]
  congr 1
  apply List.map_congr_left
  intro t ht
  rw [h.successorList_eq ht]

/-- A wave goes, id by id, while the next one fills up behind it. -/
theorem assign_wave {nodes : List JsString} {succ : JsString → List JsString}
    {total : JsString → Nat} (bound : ∀ v ∈ nodes, inflow succ nodes v ≤ total v)
    (closed : ∀ a v, v ∈ succ a → v ∈ nodes) (wave : List JsString) (assigned : List JsString)
    (c : Countdown JsString) (h : Drained nodes succ total assigned ⟨c.count, wave ++ c.ready⟩) :
    (wave.foldl (assign succ) (assigned, c)).1 = assigned ++ wave ∧
      Drained nodes succ total (assigned ++ wave) (wave.foldl (assign succ) (assigned, c)).2 := by
  induction wave generalizing assigned c with
  | nil => simpa using h
  | cons id wave ih =>
    rw [List.cons_append] at h
    have hg : Guards nodes (succ id) (fun next => decide (next ∉ assigned ++ [id])) c.count := by
      intro v hv hpos
      refine iff_of_true ?_ (closed id v hv)
      apply decide_eq_true
      -- the counters of assigned ids are down to zero
      intro hm
      have hm' : v ∈ assigned ++ id :: (wave ++ c.ready) := by
        obtain hm | hm := List.mem_append.mp hm
        · exact List.mem_append_left _ hm
        · exact List.mem_append_right _ (by simp [List.mem_singleton.mp hm])
      have h0 : c.count v = 0 := ((h.mem v).mp hm').2
      omega
    obtain ⟨fresh, hready, hl⟩ := lower_spec (succ id) c hg
    have hstep := h.step bound hl
    rw [List.append_assoc, ← hready] at hstep
    obtain ⟨h1, h2⟩ := ih (assigned ++ [id]) _ hstep
    rw [List.foldl_cons]
    have happ : assigned ++ id :: wave = assigned ++ [id] ++ wave := by simp
    rw [happ]
    exact ⟨h1, h2⟩

theorem wavesFrom_layers {nodes : List JsString} {succ : JsString → List JsString}
    {total : JsString → Nat} (hexact : ∀ v ∈ nodes, inflow succ nodes v = total v)
    (closed : ∀ a v, v ∈ succ a → v ∈ nodes) (n : Nat) (assigned : List JsString)
    (c : Countdown JsString) (h : Drained nodes succ total assigned c)
    (hn : nodes.length ≤ n + assigned.length) :
    Layers nodes succ assigned (wavesFrom succ n assigned c) := by
  have bound : ∀ v ∈ nodes, inflow succ nodes v ≤ total v := fun v hv => (hexact v hv).le
  induction n generalizing assigned c with
  | zero =>
    have hsub : assigned ++ c.ready ⊆ nodes := fun v hv => ((h.mem v).mp hv).1
    have hlen := (List.subperm_of_subset h.nodup hsub).length_le
    rw [List.length_append] at hlen
    have hr : c.ready = [] := List.length_eq_zero_iff.mp (by omega)
    have hopen := h.open_iff hexact
    rw [hr, List.append_nil] at hopen
    exact hopen
  | succ n ih =>
    have hopen := h.open_iff hexact
    rw [wavesFrom]
    split_ifs with hr
    · rw [hr, List.append_nil] at hopen
      exact hopen
    · have hpos := List.length_pos_iff.mpr hr
      have hstart : Drained nodes succ total assigned
          ⟨c.count, c.ready ++ ({ c with ready := [] } : Countdown JsString).ready⟩ := by
        rw [List.append_nil]
        exact h
      obtain ⟨h1, h2⟩ := assign_wave bound closed c.ready assigned { c with ready := [] } hstart
      have hrest := ih _ _ h2 (by rw [List.length_append]; omega)
      rw [← h1] at hrest
      refine ⟨h.nodup, hopen, ?_⟩
      rw [← h1]
      exact hrest

theorem Indexed.topoWaves_layers {tickets : List (Json ν)} (h : Indexed tickets) :
    Layers (tickets.map idOf) (successorList tickets) [] (topoWaves tickets) := by
  have closed : ∀ a v, v ∈ successorList tickets a → v ∈ tickets.map idOf := by
    intro a v hv
    obtain ⟨t, ht, -, hv⟩ := (mem_successorList a v).mp hv
    exact h.known t ht v hv
  have hexact : ∀ v ∈ tickets.map idOf,
      inflow (successorList tickets) (tickets.map idOf) v = indegreeOf tickets v :=
    fun v _ => h.inflow_list v
  have hstart : Drained (tickets.map idOf) (successorList tickets) (indegreeOf tickets) []
      ⟨fun id => indegreeOf tickets id,
        (tickets.map idOf).filter fun id => decide (indegreeOf tickets id = 0)⟩ := by
    apply Drained.start fun v hv => (hexact v hv).le
    · exact h.nodup.filter _
    · exact fun _ => rfl
    · simp
  exact wavesFrom_layers hexact closed _ [] _ hstart (by simp)

/-! ## The width is realised -/

/-- Tickets of which no two are a pair that is forecast to conflict. -/
def ConflictFree (atLeast : ν → ν → Bool) (pairResults : List (PairResult ν)) (threshold : ν)
    (chosen : List JsString) : Prop :=
  ∀ pr ∈ pairResults, pr.a ∈ chosen → pr.b ∈ chosen → pr.a ≠ pr.b →
    isConflict atLeast threshold pr = false

/-- No later id conflicts with an earlier one. -/
def Choosable (conflicted : List JsString) (chosen : List JsString) : Prop :=
  chosen.Pairwise fun c id => conflictKey id c ∉ conflicted

theorem choose_spec (conflicted order chosen : List JsString) (hc : Choosable conflicted chosen) :
    ∃ more, more.Sublist order ∧ Choosable conflicted (chosen ++ more) ∧
      order.foldl
        (fun chosen id => if hasConflict conflicted id chosen then chosen else chosen ++ [id]) chosen =
        chosen ++ more := by
  induction order generalizing chosen with
  | nil => exact ⟨[], by simp, by simpa using hc, by simp⟩
  | cons id order ih =>
    rw [List.foldl_cons]
    split_ifs with hid
    · obtain ⟨more, h1, h2, h3⟩ := ih chosen hc
      exact ⟨more, h1.cons id, h2, h3⟩
    · have hc' : Choosable conflicted (chosen ++ [id]) := by
        apply List.pairwise_append.mpr
        refine ⟨hc, by simp, ?_⟩
        intro c hcm x hx
        rw [List.mem_singleton.mp hx]
        intro hm
        apply hid
        exact List.any_eq_true.mpr ⟨c, hcm, decide_eq_true hm⟩
      obtain ⟨more, h1, h2, h3⟩ := ih (chosen ++ [id]) hc'
      refine ⟨id :: more, h1.cons_cons id, ?_, ?_⟩
      · simpa using h2
      · simpa using h3

/-- Each greedy choice is free of conflicts within the wave. -/
theorem choose_conflictFree (atLeast : ν → ν → Bool) {waveIds order : List JsString}
    (horder : order ⊆ waveIds) (pairResults : List (PairResult ν)) (threshold : ν) :
    (choose (conflictKeys atLeast waveIds pairResults threshold) order).Sublist order ∧
      ConflictFree atLeast pairResults threshold
        (choose (conflictKeys atLeast waveIds pairResults threshold) order) := by
  obtain ⟨chosen, hsub, hc, e⟩ := choose_spec
    (conflictKeys atLeast waveIds pairResults threshold) order [] List.Pairwise.nil
  have e' : choose (conflictKeys atLeast waveIds pairResults threshold) order = chosen := e
  rw [e']
  refine ⟨hsub, ?_⟩
  intro pr hpr ha hb hab
  by_contra hconf
  rw [Bool.not_eq_false] at hconf
  have hwave : ∀ x ∈ chosen, waveIds.contains x = true :=
    fun x hx => List.contains_iff_mem.mpr (horder (hsub.subset hx))
  have hkeys : ∀ k ∈ [conflictKey pr.a pr.b, conflictKey pr.b pr.a],
      k ∈ conflictKeys atLeast waveIds pairResults threshold := by
    intro k hk
    refine List.mem_flatMap.mpr ⟨pr, List.mem_filter.mpr ⟨hpr, ?_⟩, hk⟩
    rw [hconf, hwave _ ha, hwave _ hb]
    rfl
  -- one of the two keys of a pair is free, whichever of the two was chosen first
  have hsymm : Std.Symm fun c id =>
      conflictKey id c ∉ conflictKeys atLeast waveIds pairResults threshold ∨
        conflictKey c id ∉ conflictKeys atLeast waveIds pairResults threshold :=
    ⟨fun _ _ h => h.symm⟩
  have hpair : chosen.Pairwise fun c id =>
      conflictKey id c ∉ conflictKeys atLeast waveIds pairResults threshold ∨
        conflictKey c id ∉ conflictKeys atLeast waveIds pairResults threshold :=
    List.Pairwise.imp (fun h => Or.inl h) hc
  have hfree := hpair.forall
  obtain h | h := hfree ha hb hab
  · exact h (hkeys _ (by simp))
  · exact h (hkeys _ (by simp))

theorem foldl_max_spec (f : Nat → Nat) (starts : List Nat) (best : Nat) :
    starts.foldl (fun best start => max best (f start)) best = best ∨
      ∃ start ∈ starts, starts.foldl (fun best start => max best (f start)) best = f start := by
  induction starts generalizing best with
  | nil => exact Or.inl rfl
  | cons start starts ih =>
    rw [List.foldl_cons]
    obtain h | ⟨s, hs, h⟩ := ih (max best (f start))
    · rw [h]
      obtain hm | hm := max_choice best (f start)
      · exact Or.inl hm
      · exact Or.inr ⟨start, by simp, hm⟩
    · exact Or.inr ⟨s, List.mem_cons_of_mem _ hs, h⟩

/-- The width is the size of a set of ids of the wave that is free of conflicts. -/
theorem computeWaveWidth_realised (atLeast : ν → ν → Bool) {waveIds : List JsString}
    (hn : waveIds.Nodup) (pairResults : List (PairResult ν)) (threshold : ν) :
    ∃ chosen : Finset JsString, (∀ id ∈ chosen, id ∈ waveIds) ∧
      ConflictFree atLeast pairResults threshold chosen.toList ∧
      computeWaveWidth atLeast waveIds pairResults threshold = chosen.card := by
  obtain h | ⟨start, -, h⟩ := foldl_max_spec
    (fun start => (choose (conflictKeys atLeast waveIds pairResults threshold)
      (startingAt waveIds start)).length) (List.range waveIds.length) 0
  · refine ⟨∅, by simp, ?_, h⟩
    intro pr _ ha
    simp at ha
  · have hsub : startingAt waveIds start ⊆ waveIds := by
      intro x hx
      obtain hx | hx := List.mem_append.mp hx
      · exact List.mem_of_mem_drop hx
      · exact List.mem_of_mem_take hx
    have hnodup : (startingAt waveIds start).Nodup := by
      have hn' := hn
      rw [← List.take_append_drop start waveIds] at hn'
      exact List.nodup_append_comm.mp hn'
    obtain ⟨h1, h2⟩ := choose_conflictFree atLeast hsub pairResults threshold
    refine ⟨(choose (conflictKeys atLeast waveIds pairResults threshold)
      (startingAt waveIds start)).toFinset, ?_, ?_, ?_⟩
    · intro id hid
      exact hsub (h1.subset (List.mem_toFinset.mp hid))
    · intro pr hpr ha hb
      exact h2 pr hpr (by simpa using ha) (by simpa using hb)
    · rw [List.toFinset_card_of_nodup (hnodup.sublist h1)]
      exact h

/-- The waves of an accepted list hold each ticket once, its predecessors before it, and their
numbers are the lengths of the longest paths; and the width of a wave is realised. -/
theorem topoWaves_correct [JsNumber ν] (tickets : List (Json ν))
    (hv : validateTickets false true tickets = .ok ()) :
    (topoWaves tickets).flatten.Nodup ∧
    (∀ id, id ∈ (topoWaves tickets).flatten ↔ id ∈ tickets.map idOf) ∧
    (∀ (i j : Nat) wave wave' a b, (topoWaves tickets)[i]? = some wave → a ∈ wave →
      (topoWaves tickets)[j]? = some wave' → b ∈ wave' → Blocks tickets a b → i < j) ∧
    (∀ (k : Nat) wave id, (topoWaves tickets)[k]? = some wave → id ∈ wave →
      IsGreatest {n | ∃ path : List JsString, path.IsChain (Blocks tickets) ∧
        path.length = n + 1 ∧ path.getLast? = some id} k) ∧
    ∀ wave ∈ topoWaves tickets, ∀ (atLeast : ν → ν → Bool) (pairResults : List (PairResult ν))
      (threshold : ν), ∃ chosen : Finset JsString, (∀ id ∈ chosen, id ∈ wave) ∧
        ConflictFree atLeast pairResults threshold chosen.toList ∧
        computeWaveWidth atLeast wave pairResults threshold ≤ chosen.card := by
  have h := indexed_of_valid ((validateTickets_ok_iff tickets).mp hv)
  have hl := h.topoWaves_layers
  have hn : (topoWaves tickets).flatten.Nodup := by simpa using hl.nodup List.nodup_nil
  have hlongest : ∀ (k : Nat) wave id, (topoWaves tickets)[k]? = some wave → id ∈ wave →
      IsGreatest {n | ∃ path : List JsString, path.IsChain (Blocks tickets) ∧
        path.length = n + 1 ∧ path.getLast? = some id} k := by
    intro k wave id hk hid
    have hg := hl.longest successorList_out hk hid
    unfold PathTo at hg
    rwa [h.edge_list] at hg
  refine ⟨hn, ?_, ?_, hlongest, ?_⟩
  · exact hl.mem_flatten (by rw [h.edge_list]; exact h.acyclic)
  · intro i j wave wave' a b hi ha hj hb hab
    -- a longest path to `a` goes on to `b`
    obtain ⟨path, hchain, hlen, hlast⟩ := (hlongest i wave a hi ha).1
    have hto : PathTo (successorList tickets) a i := by
      unfold PathTo
      rw [h.edge_list]
      exact ⟨path, hchain, hlen, hlast⟩
    have hedge : b ∈ successorList tickets a := by
      have he : Edge (successorList tickets) a b := by
        rw [h.edge_list]
        exact hab
      exact he
    have hle := (hl.longest successorList_out hj hb).2 (hto.succ hedge)
    omega
  · intro wave hw atLeast pairResults threshold
    have hwn : wave.Nodup := (List.nodup_flatten.mp hn).1 wave hw
    obtain ⟨chosen, h1, h2, h3⟩ := computeWaveWidth_realised atLeast hwn pairResults threshold
    exact ⟨chosen, h1, h2, h3.le⟩

/-- Two ways from `A` to `D`, one of them listed twice. -/
def diamond : List (Json Int) :=
  [ticketTo "A" ["B", "C", "C"], ticketTo "B" ["D"], ticketTo "C" ["E"], ticketTo "E" ["D"],
    ticketTo "D" []]

theorem topoWaves_correct_diamond :
    topoWaves diamond = [[js "A"], [js "B", js "C"], [js "E"], [js "D"]] ∧
      ∀ (k : Nat) wave id, (topoWaves diamond)[k]? = some wave → id ∈ wave →
        IsGreatest {n | ∃ path : List JsString, path.IsChain (Blocks diamond) ∧
          path.length = n + 1 ∧ path.getLast? = some id} k :=
  ⟨by decide +kernel,
    (topoWaves_correct diamond (accepted_of_leadsForward (by decide +kernel))).2.2.2.1⟩

end Adlc.MergeForecast
