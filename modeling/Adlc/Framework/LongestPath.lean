import Mathlib.Algebra.BigOperators.Group.List.Basic
import Mathlib.Algebra.Order.Group.Defs
import Mathlib.Data.List.Chain
import Mathlib.Order.Bounds.Basic
import Mathlib.Tactic.Abel
import Mathlib.Tactic.Linarith

namespace Adlc.Framework

/-! Longest paths through vertices with weights, along a topological order. -/

variable {α β : Type*}

/-! ## Folds along an order -/

/-- What holds of a vertex when it holds of all before it holds of the whole order. -/
theorem order_induction {P : α → Prop} {order : List α}
    (step : ∀ l v l', order = l ++ v :: l' → (∀ a ∈ l, P a) → P v) : ∀ v ∈ order, P v := by
  have hprefix : ∀ l l', order = l ++ l' → ∀ v ∈ l, P v := by
    intro l
    induction l using List.reverseRecOn with
    | nil => simp
    | append_singleton l v ih =>
      intro l' e w hw
      have hl := ih (v :: l') (by simpa using e)
      obtain hw | hw := List.mem_append.mp hw
      · exact hl w hw
      · rw [List.mem_singleton.mp hw]
        exact step l v l' (by simpa using e) hl
  exact hprefix order [] (by simp)

section

variable [DecidableEq α] {F : (α → β) → α → β}

/-- Each vertex in turn is given a value computed from the values so far. -/
def sweep (F : (α → β) → α → β) (order : List α) (start : α → β) : α → β :=
  order.foldl (fun g v => Function.update g v (F g v)) start

theorem sweep_of_notMem {order : List α} {v : α} (hv : v ∉ order) (start : α → β) :
    sweep F order start v = start v := by
  induction order generalizing start with
  | nil => rfl
  | cons w order ih =>
    rw [List.mem_cons, not_or] at hv
    rw [sweep, List.foldl_cons]
    exact (ih hv.2 _).trans (Function.update_of_ne hv.1 ..)

/-- Where a value depends on vertices before its own only, the values at the end solve the
equations they were computed by. -/
theorem sweep_spec {order : List α} (hn : order.Nodup) (start : α → β)
    (hdep : ∀ l v l', order = l ++ v :: l' → ∀ g h, (∀ a ∈ l, g a = h a) → F g v = F h v) :
    ∀ v ∈ order, sweep F order start v = F (sweep F order start) v := by
  intro v hv
  obtain ⟨l, l', e⟩ := List.append_of_mem hv
  have hcut : ∀ a, a ∉ l' → sweep F order start a =
      Function.update (sweep F l start) v (F (sweep F l start) v) a := by
    intro a ha
    rw [e, sweep, List.foldl_append, List.foldl_cons]
    exact sweep_of_notMem ha _
  rw [e] at hn
  have hsplit := List.nodup_append.mp hn
  have hvl' : v ∉ l' := (List.nodup_cons.mp hsplit.2.1).1
  rw [hcut v hvl', Function.update_self]
  apply hdep l v l' e
  intro a ha
  have hal' : a ∉ l' := fun hm => hsplit.2.2 a ha a (List.mem_cons_of_mem _ hm) rfl
  have hav : a ≠ v := fun hm => hsplit.2.2 a ha v List.mem_cons_self hm
  rw [hcut a hal', Function.update_of_ne hav]

end

/-! ## Paths -/

variable {R : α → α → Prop} {nodes : List α}

/-- A sequence of vertices, each with an edge to the next. -/
def IsPath (R : α → α → Prop) (nodes p : List α) : Prop := p.IsChain R ∧ p ⊆ nodes

section

variable [AddCommGroup β] {w : α → β}

def total (w : α → β) (p : List α) : β := (p.map w).sum

theorem total_append (p q : List α) : total w (p ++ q) = total w p + total w q := by
  simp [total]

theorem total_one (v : α) : total w [v] = w v := by
  simp [total]

theorem total_reverse (p : List α) : total w p.reverse = total w p := by
  rw [total, List.map_reverse, List.sum_reverse, total]

end

theorem IsPath.reverse {p : List α} (h : IsPath R nodes p) :
    IsPath (fun a b => R b a) nodes p.reverse :=
  ⟨List.isChain_reverse.mpr h.1, fun _ hx => h.2 (List.mem_reverse.mp hx)⟩

/-- The order lists every vertex once, each after all that have an edge to it. -/
structure TopologicalOrder (R : α → α → Prop) (nodes order : List α) : Prop where
  nodup : order.Nodup
  mem : ∀ v, v ∈ order ↔ v ∈ nodes
  before : ∀ l v l', order = l ++ v :: l' → ∀ a ∈ nodes, R a v → a ∈ l

/-- Read backwards, the order is one of the reversed graph. -/
theorem TopologicalOrder.reverse {order : List α} (h : TopologicalOrder R nodes order)
    (irrefl : ∀ v ∈ nodes, ¬R v v) :
    TopologicalOrder (fun a b => R b a) nodes order.reverse := by
  refine ⟨List.pairwise_reverse.mpr (h.nodup.imp Ne.symm), by simp [h.mem], ?_⟩
  intro l v l' e a ha hva
  have e' : order = l'.reverse ++ v :: l.reverse := by
    rw [← List.reverse_reverse order, e]
    simp
  have hv : v ∈ nodes := (h.mem v).mp (by simp [e'])
  have haorder := (h.mem a).mpr ha
  rw [e', List.mem_append, List.mem_cons] at haorder
  obtain hal | rfl | hal := haorder
  · -- `a` cannot come before `v`, which has an edge to it
    obtain ⟨m, m', em⟩ := List.append_of_mem hal
    have hvm := h.before m a (m' ++ v :: l.reverse) (by simp [e', em]) v hv hva
    have hn := h.nodup
    rw [e', em] at hn
    simp only [List.nodup_append, List.mem_append, List.mem_cons] at hn
    exact absurd rfl (hn.2.2 v (Or.inl hvm) v (Or.inl rfl))
  · exact absurd hva (irrefl a ha)
  · simpa using hal

variable [AddCommGroup β] [LinearOrder β] {w : α → β}

/-- `longest v` solves the equations of the longest path that ends at `v`. -/
def Solves (R : α → α → Prop) (nodes : List α) (w longest : α → β) : Prop :=
  ∀ v ∈ nodes, IsGreatest (insert 0 {x | ∃ a ∈ nodes, R a v ∧ x = longest a}) (longest v - w v)

variable {longest : α → β}

theorem Solves.attained {order : List α} (h : Solves R nodes w longest)
    (ho : TopologicalOrder R nodes order) :
    ∀ v ∈ nodes, ∃ p, IsPath R nodes (p ++ [v]) ∧ total w (p ++ [v]) = longest v := by
  have hmain : ∀ v ∈ order, ∃ p, IsPath R nodes (p ++ [v]) ∧ total w (p ++ [v]) = longest v := by
    apply order_induction
    intro l v l' e ih
    have hv : v ∈ nodes := (ho.mem v).mp (by simp [e])
    obtain h0 | ⟨a, ha, hav, hlongest⟩ := (h v hv).1
    · refine ⟨[], ⟨List.isChain_singleton v, by simpa using hv⟩, ?_⟩
      rw [List.nil_append, total_one]
      exact (sub_eq_zero.mp h0).symm
    · obtain ⟨p, hp, htotal⟩ := ih a (ho.before l v l' e a ha hav)
      refine ⟨p ++ [a], ⟨?_, ?_⟩, ?_⟩
      · refine List.isChain_append.mpr ⟨hp.1, List.isChain_singleton v, ?_⟩
        intro x hx y hy
        simp only [List.getLast?_concat, Option.mem_def, Option.some.injEq, List.head?_cons] at hx hy
        subst hx hy
        exact hav
      · intro x hx
        obtain hx | hx := List.mem_append.mp hx
        · exact hp.2 hx
        · rw [List.mem_singleton.mp hx]
          exact hv
      · rw [total_append, htotal, total_one, ← hlongest, sub_add_cancel]
  intro v hv
  exact hmain v ((ho.mem v).mpr hv)

variable [IsOrderedAddMonoid β]

theorem Solves.upper (h : Solves R nodes w longest) (p : List α) (v : α)
    (hp : IsPath R nodes (p ++ [v])) : total w (p ++ [v]) ≤ longest v := by
  induction p using List.reverseRecOn generalizing v with
  | nil =>
    have hv : v ∈ nodes := hp.2 (by simp)
    have h0 := (h v hv).2 (Set.mem_insert 0 _)
    rw [List.nil_append, total_one]
    exact sub_nonneg.mp h0
  | append_singleton p a ih =>
    have hv : v ∈ nodes := hp.2 (by simp)
    have ha : a ∈ nodes := hp.2 (by simp)
    obtain ⟨hchain, -, hlast⟩ := List.isChain_append.mp hp.1
    have hav : R a v := hlast a (by simp) v (by simp)
    have hle := ih a ⟨hchain, fun x hx => hp.2 (by simp at hx ⊢; tauto)⟩
    have hstep := (h v hv).2 (Set.mem_insert_of_mem 0 ⟨a, ha, hav, rfl⟩)
    rw [total_append, total_one]
    calc total w (p ++ [a]) + w v ≤ longest a + w v := by gcongr
      _ ≤ longest v := le_sub_iff_add_le.mp hstep

/-- The longest of all paths. -/
theorem Solves.makespan {order : List α} (h : Solves R nodes w longest)
    (ho : TopologicalOrder R nodes order) {m : β}
    (hm : IsGreatest (insert 0 {x | ∃ v ∈ nodes, x = longest v}) m) :
    IsGreatest {x | ∃ p, IsPath R nodes p ∧ total w p = x} m := by
  constructor
  · obtain h0 | ⟨v, hv, hlongest⟩ := hm.1
    · exact ⟨[], ⟨List.IsChain.nil, by simp⟩, h0.symm⟩
    · obtain ⟨p, hp, htotal⟩ := h.attained ho v hv
      exact ⟨p ++ [v], hp, htotal.trans hlongest.symm⟩
  · rintro x ⟨p, hp, rfl⟩
    induction p using List.reverseRecOn with
    | nil => exact hm.2 (Set.mem_insert 0 _)
    | append_singleton p v =>
      have hv : v ∈ nodes := hp.2 (by simp)
      exact (h.upper p v hp).trans (hm.2 (Set.mem_insert_of_mem 0 ⟨v, hv, rfl⟩))

/-- The longest of the paths through a vertex is one that ends there and one that starts there. -/
theorem Solves.through {order : List α} {rest : α → β} (h : Solves R nodes w longest)
    (hrest : Solves (fun a b => R b a) nodes w rest) (ho : TopologicalOrder R nodes order)
    (irrefl : ∀ v ∈ nodes, ¬R v v) {v : α} (hv : v ∈ nodes) :
    IsGreatest {x | ∃ p, IsPath R nodes p ∧ v ∈ p ∧ total w p = x} (longest v + rest v - w v) := by
  have hsplit : ∀ l r, total w (l ++ v :: r) = total w (l ++ [v]) + total w (v :: r) - w v := by
    intro l r
    have e : total w (v :: r) = w v + total w r := by
      rw [← List.singleton_append, total_append, total_one]
    rw [← List.singleton_append, ← List.append_assoc, total_append, List.singleton_append, e]
    abel
  constructor
  · obtain ⟨l, hl, hltotal⟩ := h.attained ho v hv
    obtain ⟨r, hr, hrtotal⟩ := hrest.attained (ho.reverse irrefl) v hv
    have hr' := hr.reverse
    rw [List.reverse_append, List.reverse_singleton, List.singleton_append] at hr'
    have hrtotal' : total w (v :: r.reverse) = rest v := by
      rw [← hrtotal, ← total_reverse (r ++ [v]), List.reverse_append, List.reverse_singleton,
        List.singleton_append]
    refine ⟨l ++ v :: r.reverse, ⟨List.isChain_split.mpr ⟨hl.1, hr'.1⟩, ?_⟩, by simp, ?_⟩
    · intro x hx
      obtain hx | hx := List.mem_append.mp hx
      · exact hl.2 (List.mem_append_left _ hx)
      · exact hr'.2 hx
    · rw [hsplit, hltotal, hrtotal']
  · rintro x ⟨p, hp, hvp, rfl⟩
    obtain ⟨l, r, rfl⟩ := List.append_of_mem hvp
    obtain ⟨hl, hr⟩ := List.isChain_split.mp hp.1
    have hlpath : IsPath R nodes (l ++ [v]) := by
      refine ⟨hl, ?_⟩
      intro x hx
      apply hp.2
      obtain hx | hx := List.mem_append.mp hx
      · exact List.mem_append_left _ hx
      · rw [List.mem_singleton.mp hx]
        simp
    have hrpath : IsPath R nodes (v :: r) := ⟨hr, fun x hx => hp.2 (List.mem_append_right _ hx)⟩
    have h1 := h.upper l v hlpath
    have h2 := hrest.upper r.reverse v (by simpa using hrpath.reverse)
    have e : total w (r.reverse ++ [v]) = total w (v :: r) := by
      rw [← total_reverse (v :: r), List.reverse_cons]
    rw [e] at h2
    rw [hsplit]
    gcongr

end Adlc.Framework
