import Mathlib.Algebra.BigOperators.Group.Finset.Basic
import Mathlib.Algebra.GroupWithZero.Nat
import Mathlib.Algebra.Order.BigOperators.Group.Finset
import Mathlib.Order.WellFoundedSet
import Adlc.Framework.Search

namespace Adlc.Framework

/-! Taking the vertices of a graph away, each when no edge leads to it any more. -/

variable {α : Type} [DecidableEq α]

/-- In-degree counters, and the vertices whose counter has come down to zero. -/
structure Countdown (α : Type) where
  count : α → Int
  ready : List α

/-- One edge to `v` is gone. -/
def Countdown.lower (guard : α → Bool) (c : Countdown α) (v : α) : Countdown α where
  count := Function.update c.count v (c.count v - 1)
  ready := if c.count v - 1 = 0 ∧ guard v then c.ready ++ [v] else c.ready

/-- What lowering the counters of the targets does: the fresh vertices come down to zero. -/
structure Lowered (nodes targets : List α) (old new : α → Int) (fresh : List α) : Prop where
  count : ∀ v, new v = old v - targets.count v
  nodup : fresh.Nodup
  mem : ∀ v, v ∈ fresh ↔ v ∈ nodes ∧ 0 < old v ∧ old v ≤ targets.count v

/-- The guard lets just the nodes through while their counters are positive. -/
def Guards (nodes targets : List α) (guard : α → Bool) (count : α → Int) : Prop :=
  ∀ v ∈ targets, 0 < count v → (guard v = true ↔ v ∈ nodes)

theorem lower_spec {nodes : List α} {guard : α → Bool} (targets : List α) (c : Countdown α)
    (hg : Guards nodes targets guard c.count) :
    ∃ fresh, (targets.foldl (Countdown.lower guard) c).ready = c.ready ++ fresh ∧
      Lowered nodes targets c.count (targets.foldl (Countdown.lower guard) c).count fresh := by
  induction targets generalizing c with
  | nil =>
    refine ⟨[], by simp, ⟨by simp, List.nodup_nil, ?_⟩⟩
    intro v
    simp only [List.not_mem_nil, List.count_nil, false_iff, not_and]
    intro _ h1 h2
    omega
  | cons w targets ih =>
    have hcount : ∀ v, (c.lower guard w).count v = if v = w then c.count w - 1 else c.count v := by
      intro v
      simp [Countdown.lower, Function.update_apply]
    have hg' : Guards nodes targets guard (c.lower guard w).count := by
      intro v hv h0
      apply hg v (List.mem_cons_of_mem _ hv)
      rw [hcount] at h0
      split_ifs at h0 with e
      · subst e
        omega
      · exact h0
    obtain ⟨fresh, hready, hl⟩ := ih (c.lower guard w) hg'
    rw [List.foldl_cons]
    by_cases hw : c.count w - 1 = 0 ∧ guard w = true
    · have hnode := (hg w (by simp) (by omega)).mp hw.2
      have hne : w ∉ fresh := by
        intro hm
        have h := ((hl.mem w).mp hm).2.1
        rw [hcount, if_pos rfl] at h
        omega
      refine ⟨w :: fresh, ?_, ⟨?_, List.nodup_cons.mpr ⟨hne, hl.nodup⟩, ?_⟩⟩
      · rw [hready, Countdown.lower, if_pos hw, List.append_assoc]
        rfl
      · intro v
        rw [hl.count, hcount, List.count_cons]
        by_cases e : v = w
        · subst e
          simp
          omega
        · have e' : w ≠ v := fun h => e h.symm
          simp [e, e']
      · intro v
        rw [List.mem_cons, hl.mem, hcount, List.count_cons]
        by_cases e : v = w
        · subst e
          simp [hnode]
          omega
        · have e' : w ≠ v := fun h => e h.symm
          simp [e, e']
    · refine ⟨fresh, ?_, ⟨?_, hl.nodup, ?_⟩⟩
      · rw [hready, Countdown.lower, if_neg hw]
      · intro v
        rw [hl.count, hcount, List.count_cons]
        by_cases e : v = w
        · subst e
          simp
          omega
        · have e' : w ≠ v := fun h => e h.symm
          simp [e, e']
      · intro v
        rw [hl.mem, hcount, List.count_cons]
        by_cases e : v = w
        · subst e
          simp only [if_true, beq_self_eq_true]
          constructor
          · intro ⟨h1, h2, h3⟩
            exact ⟨h1, by omega, by omega⟩
          · intro ⟨h1, h2, h3⟩
            have hpos : 0 < c.count v - 1 := by
              by_contra hle
              exact hw ⟨by omega, (hg v (by simp) h2).mpr h1⟩
            exact ⟨h1, hpos, by omega⟩
        · have e' : w ≠ v := fun h => e h.symm
          simp [e, e']

/-! ## The invariant -/

variable {nodes : List α} {next : α → List α} {total : α → Nat}

/-- The edges from the vertices of `gone` to `v`. -/
def inflow (next : α → List α) (gone : List α) (v : α) : Nat :=
  ∑ a ∈ gone.toFinset, (next a).count v

/-- The same sum, with any lawful test of equality to count by. -/
theorem inflow_eq_sum {β : Type} [DecidableEq β] [BEq β] [LawfulBEq β] {next : β → List β}
    {nodes : List β} (hn : nodes.Nodup) (v : β) :
    inflow next nodes v = (nodes.map fun a => (next a).count v).sum := by
  have hcount : ∀ l : List β, @List.count β instBEqOfDecidableEq v l = l.count v := by
    intro l
    apply List.countP_congr
    intro x _
    simp
  rw [inflow, List.sum_toFinset _ hn]
  simp only [hcount]

theorem inflow_concat {gone : List α} {a : α} (h : a ∉ gone) (v : α) :
    inflow next (gone ++ [a]) v = inflow next gone v + (next a).count v := by
  have hset : (gone ++ [a]).toFinset = insert a gone.toFinset := by
    ext x
    simp
  rw [inflow, hset, Finset.sum_insert (by simpa using h), Nat.add_comm, inflow]

theorem inflow_mono (next : α → List α) {gone : List α} (h : gone ⊆ nodes) (v : α) :
    inflow next gone v ≤ inflow next nodes v := by
  apply Finset.sum_le_sum_of_subset
  intro x hx
  simpa using h (by simpa using hx)

/-- Where no edge of the others counts, all predecessors are gone. -/
theorem mem_of_inflow_eq {gone : List α} (h : gone ⊆ nodes) {v : α}
    (he : inflow next gone v = inflow next nodes v) : ∀ a ∈ nodes, v ∈ next a → a ∈ gone := by
  intro a ha hv
  by_contra hno
  have hsub : gone ++ [a] ⊆ nodes := by
    intro x hx
    obtain hx | hx := List.mem_append.mp hx
    · exact h hx
    · exact (List.mem_singleton.mp hx) ▸ ha
  have hle := inflow_mono next hsub v
  have hpos := List.count_pos_iff.mpr hv
  rw [inflow_concat hno] at hle
  omega

theorem inflow_eq_of_mem {gone : List α} (h : gone ⊆ nodes) {v : α}
    (hall : ∀ a ∈ nodes, v ∈ next a → a ∈ gone) :
    inflow next gone v = inflow next nodes v := by
  apply Finset.sum_subset
  · intro x hx
    simpa using h (by simpa using hx)
  · intro x hx hno
    rw [List.count_eq_zero]
    intro hv
    exact hno (by simpa using hall x (by simpa using hx) hv)

/-- Vertices taken away one after another, each when its counter was down to zero. -/
structure Drained (nodes : List α) (next : α → List α) (total : α → Nat) (gone : List α)
    (c : Countdown α) : Prop where
  nodup : (gone ++ c.ready).Nodup
  count : ∀ v, c.count v = total v - inflow next gone v
  mem : ∀ v, v ∈ gone ++ c.ready ↔ v ∈ nodes ∧ c.count v = 0
  before : ∀ l v l', gone ++ c.ready = l ++ v :: l' → ∀ a ∈ nodes, v ∈ next a → a ∈ l

theorem Drained.sub {gone : List α} {c : Countdown α} (h : Drained nodes next total gone c) :
    gone ⊆ nodes :=
  fun v hv => ((h.mem v).mp (List.mem_append_left _ hv)).1

section

variable (bound : ∀ v ∈ nodes, inflow next nodes v ≤ total v)

include bound

theorem Drained.nonneg {gone : List α} {c : Countdown α} (h : Drained nodes next total gone c)
    {v : α} (hv : v ∈ nodes) : 0 ≤ c.count v := by
  have h1 := h.count v
  have h2 := inflow_mono next h.sub v
  have h3 := bound v hv
  omega

/-- What is ready has no predecessors left. -/
theorem Drained.settled {gone : List α} {c : Countdown α} (h : Drained nodes next total gone c)
    {v : α} (hv : v ∈ nodes) (h0 : c.count v = 0) :
    total v = inflow next nodes v ∧ ∀ a ∈ nodes, v ∈ next a → a ∈ gone := by
  have h1 := h.count v
  have h2 := inflow_mono next h.sub v
  have h3 := bound v hv
  have he : inflow next gone v = inflow next nodes v := by omega
  exact ⟨by omega, mem_of_inflow_eq h.sub he⟩

/-- One ready vertex is taken away, and those that it alone held back become ready. -/
theorem Drained.step {gone rest fresh : List α} {v : α} {count count' : α → Int}
    (h : Drained nodes next total gone ⟨count, v :: rest⟩)
    (hl : Lowered nodes (next v) count count' fresh) :
    Drained nodes next total (gone ++ [v]) ⟨count', rest ++ fresh⟩ := by
  have happ : gone ++ [v] ++ (rest ++ fresh) = gone ++ v :: rest ++ fresh := by simp
  have hmem := h.mem
  have hvgone : v ∉ gone := by
    intro hv
    exact (List.nodup_append.mp h.nodup).2.2 v hv v (by simp) rfl
  have hsub : gone ++ [v] ⊆ nodes := by
    intro x hx
    apply ((hmem x).mp _).1
    obtain hx | hx := List.mem_append.mp hx
    · exact List.mem_append_left _ hx
    · exact List.mem_append_right _ (by simp [List.mem_singleton.mp hx])
  have hcount : ∀ w, count' w = total w - inflow next (gone ++ [v]) w := by
    intro w
    have h1 := hl.count w
    have h2 : count w = total w - inflow next gone w := h.count w
    rw [inflow_concat hvgone]
    push_cast
    omega
  have hnonneg : ∀ w ∈ nodes, 0 ≤ count' w := by
    intro w hw
    have h1 := hcount w
    have h2 := inflow_mono next hsub w
    have h3 := bound w hw
    omega
  -- the predecessors of a fresh vertex are all gone
  have hfresh : ∀ w ∈ fresh, ∀ a ∈ nodes, w ∈ next a → a ∈ gone ++ v :: rest := by
    intro w hw a ha haw
    have hm := (hl.mem w).mp hw
    have h1 := hl.count w
    have h2 := hnonneg w hm.1
    have h3 := hcount w
    have h4 := inflow_mono next hsub w
    have h5 := bound w hm.1
    have he : inflow next (gone ++ [v]) w = inflow next nodes w := by omega
    have hgone := mem_of_inflow_eq hsub he a ha haw
    simp only [List.mem_append, List.mem_singleton] at hgone
    simp only [List.mem_append, List.mem_cons]
    tauto
  refine ⟨?_, hcount, ?_, ?_⟩
  · simp only [happ]
    refine List.nodup_append.mpr ⟨h.nodup, hl.nodup, ?_⟩
    intro a ha b hb e
    have h1 : count a = 0 := ((hmem a).mp ha).2
    have h2 := ((hl.mem b).mp hb).2.1
    rw [← e] at h2
    omega
  · intro w
    simp only [happ]
    rw [List.mem_append, hmem, hl.mem]
    have h1 := hl.count w
    constructor
    · intro hw
      obtain ⟨hw, h0⟩ | ⟨hw, h0, h2⟩ := hw
      · have h3 := hnonneg w hw
        simp only at h0
        exact ⟨hw, by omega⟩
      · have h3 := hnonneg w hw
        exact ⟨hw, by omega⟩
    · intro ⟨hw, h0⟩
      have h3 : 0 ≤ count w := h.nonneg bound hw
      by_cases h4 : count w = 0
      · exact Or.inl ⟨hw, h4⟩
      · exact Or.inr ⟨hw, by omega, by omega⟩
  · intro l w l' e a ha haw
    simp only [happ] at e
    obtain ⟨m, h1, h2⟩ | ⟨m, h1, h2⟩ := List.append_eq_append_iff.mp e
    · rw [h1]
      exact List.mem_append_left _ (hfresh w (by simp [h2]) a ha haw)
    · cases m with
      | nil =>
        rw [List.append_nil] at h1
        rw [List.nil_append] at h2
        rw [← h1]
        exact hfresh w (by simp [← h2]) a ha haw
      | cons x m =>
        rw [List.cons_append, List.cons.injEq] at h2
        obtain ⟨rfl, -⟩ := h2
        exact h.before l w m h1 a ha haw

/-! ## The whole run -/

/-- The ready vertices are taken away in the order in which they became ready. -/
def Countdown.drain (guard : α → Bool) (next : α → List α) :
    Nat → List α → Countdown α → List α × Countdown α
  | 0, gone, c => (gone, c)
  | n + 1, gone, c =>
    match c.ready with
    | [] => (gone, c)
    | v :: rest =>
      drain guard next n (gone ++ [v]) ((next v).foldl (Countdown.lower guard) { c with ready := rest })

theorem drain_spec {guard : α → Bool}
    (hg : ∀ a ∈ nodes, ∀ v ∈ next a, guard v = true ↔ v ∈ nodes) (n : Nat) (gone : List α)
    (c : Countdown α) (h : Drained nodes next total gone c)
    (hn : nodes.length ≤ n + gone.length) :
    Drained nodes next total (Countdown.drain guard next n gone c).1
        (Countdown.drain guard next n gone c).2 ∧
      (Countdown.drain guard next n gone c).2.ready = [] := by
  induction n generalizing gone c with
  | zero =>
    refine ⟨h, ?_⟩
    have hsub : gone ++ c.ready ⊆ nodes := fun v hv => ((h.mem v).mp hv).1
    have hlen := (List.subperm_of_subset h.nodup hsub).length_le
    rw [List.length_append] at hlen
    have h0 : c.ready.length = 0 := by omega
    exact List.length_eq_zero_iff.mp h0
  | succ n ih =>
    obtain ⟨count, ready⟩ := c
    cases ready with
    | nil => exact ⟨h, rfl⟩
    | cons v rest =>
      have hv : v ∈ nodes := ((h.mem v).mp (by simp)).1
      obtain ⟨fresh, hready, hl⟩ := lower_spec (next v) ⟨count, rest⟩
        (fun w hw _ => hg v hv w hw)
      rw [Countdown.drain]
      have hstep := h.step bound hl
      have hc : (next v).foldl (Countdown.lower guard) ⟨count, rest⟩ =
          ⟨((next v).foldl (Countdown.lower guard) ⟨count, rest⟩).count, rest ++ fresh⟩ := by
        rw [← hready]
      rw [← hc] at hstep
      exact ih (gone ++ [v]) _ hstep (by rw [List.length_append, List.length_singleton]; omega)

/-- At the start the vertices without a counted edge are ready. -/
theorem Drained.start {count : α → Int} {ready : List α} (hnodup : ready.Nodup)
    (hcount : ∀ v, count v = total v) (hmem : ∀ v, v ∈ ready ↔ v ∈ nodes ∧ total v = 0) :
    Drained nodes next total [] ⟨count, ready⟩ := by
  refine ⟨by simpa using hnodup, ?_, ?_, ?_⟩
  · intro v
    simp [hcount, inflow]
  · intro v
    simp [hmem, hcount]
  · intro l v l' e a ha hav
    have hv : v ∈ ready := by
      have hv : v ∈ [] ++ ready := by simp [e]
      simpa using hv
    have h0 := (hmem v).mp hv
    have h1 := bound v h0.1
    have hle : (next a).count v ≤ inflow next nodes v :=
      Finset.single_le_sum (f := fun a => (next a).count v) (fun _ _ => Nat.zero_le _)
        (by simpa using ha)
    have hpos := List.count_pos_iff.mpr hav
    omega

/-- When nothing is ready any more, the vertices gone are those whose counted edges all come from
vertices that are gone. -/
theorem Drained.gone_iff {gone : List α} {c : Countdown α} (h : Drained nodes next total gone c)
    (hr : c.ready = []) (v : α) :
    v ∈ gone ↔ v ∈ nodes ∧ total v = inflow next nodes v ∧
      ∀ a ∈ nodes, v ∈ next a → a ∈ gone := by
  have hmem := h.mem v
  rw [hr, List.append_nil] at hmem
  rw [hmem]
  constructor
  · intro ⟨hv, h0⟩
    exact ⟨hv, h.settled bound hv h0⟩
  · intro ⟨hv, ht, hall⟩
    have h1 := h.count v
    have h2 := inflow_eq_of_mem h.sub hall
    exact ⟨hv, by omega⟩

end

/-! ## Graphs without cycles -/

/-- What holds of a vertex when it holds of its predecessors holds of all vertices. -/
theorem acyclic_induction {P : α → Prop} (hac : ∀ a, ¬Relation.TransGen (Edge next) a a)
    (step : ∀ v ∈ nodes, (∀ a ∈ nodes, v ∈ next a → P a) → P v) : ∀ v ∈ nodes, P v := by
  have hstrict : IsStrictOrder α (Relation.TransGen (Edge next)) :=
    { irrefl := hac, trans := fun _ _ _ h1 h2 => h1.trans h2 }
  have hfin : ({v | v ∈ nodes} : Set α).Finite := by
    apply nodes.toFinset.finite_toSet.subset
    intro v hv
    simpa using hv
  have hwf := hfin.wellFoundedOn (r := Relation.TransGen (Edge next))
  intro v hv
  refine hwf.induction (P := P) hv ?_
  intro w hw ih
  exact step w hw fun a ha haw => ih a ha (Relation.TransGen.single haw)

/-- Without a cycle, a vertex is gone when all the edges to its ancestors were counted right. -/
theorem Drained.gone_iff_ancestors {gone : List α} {c : Countdown α}
    (h : Drained nodes next total gone c) (hr : c.ready = [])
    (bound : ∀ v ∈ nodes, inflow next nodes v ≤ total v)
    (hac : ∀ a, ¬Relation.TransGen (Edge next) a a)
    (hout : ∀ a v, v ∈ next a → a ∈ nodes) :
    ∀ v ∈ nodes, (v ∈ gone ↔
      ∀ u, Relation.ReflTransGen (Edge next) u v → total u = inflow next nodes u) := by
  refine acyclic_induction hac ?_
  intro v hv ih
  rw [h.gone_iff bound hr]
  constructor
  · intro ⟨_, ht, hall⟩ u hu
    obtain rfl | ⟨a, hua, hav⟩ := Relation.ReflTransGen.cases_tail hu
    · exact ht
    · have ha := hout a v hav
      exact (ih a ha hav).mp (hall a ha hav) u hua
  · intro hanc
    refine ⟨hv, hanc v .refl, ?_⟩
    intro a ha hav
    exact (ih a ha hav).mpr fun u hua => hanc u (hua.tail hav)

/-- Where every vertex is gone there is no cycle. -/
theorem Drained.acyclic {gone : List α} {c : Countdown α} (h : Drained nodes next total gone c)
    (hr : c.ready = []) (hall : nodes ⊆ gone) (hout : ∀ a v, v ∈ next a → a ∈ nodes) :
    ∀ a, ¬Relation.TransGen (Edge next) a a := by
  have hbefore : ∀ a b, Edge next a b → b ∈ nodes → gone.idxOf a < gone.idxOf b := by
    intro a b hab hb
    obtain ⟨l, l', e⟩ := List.append_of_mem (hall hb)
    have hal := h.before l b l' (by rw [hr, List.append_nil, e]) a (hout a b hab) hab
    have hn := h.nodup
    rw [hr, List.append_nil, e] at hn
    have hbl : b ∉ l := fun hb => (List.nodup_append.mp hn).2.2 b hb b (by simp) rfl
    rw [e, List.idxOf_append_of_mem hal, List.idxOf_append_of_notMem hbl]
    have hlt := List.idxOf_lt_length_of_mem hal
    omega
  have hlt : ∀ a b, Relation.TransGen (Edge next) a b → b ∈ nodes →
      gone.idxOf a < gone.idxOf b := by
    intro a b hab
    induction hab with
    | single hab => exact hbefore a _ hab
    | tail _ hbc ih =>
      intro hc
      exact (ih (hout _ _ hbc)).trans (hbefore _ _ hbc hc)
  intro a ha
  obtain ⟨b, hab, -⟩ := Relation.TransGen.head'_iff.mp ha
  exact Nat.lt_irrefl _ (hlt a a ha (hout a b hab))

end Adlc.Framework
