import Adlc.Framework.Countdown

namespace Adlc.Framework

/-! What goes away when a vertex may go once all its predecessors are gone. -/

section

variable {α : Type}

/-- The least set that has every allowed vertex whose predecessors it has. -/
inductive Freed (edge : α → α → Prop) (allowed : α → Prop) : α → Prop where
  | intro (v : α) (ha : allowed v) (hp : ∀ p, edge p v → Freed edge allowed p) : Freed edge allowed v

variable {edge edge' : α → α → Prop} {allowed allowed' : α → Prop}

theorem Freed.isAllowed {v : α} (h : Freed edge allowed v) : allowed v := by
  cases h with
  | intro _ ha _ => exact ha

theorem Freed.pred {v p : α} (h : Freed edge allowed v) (hp : edge p v) : Freed edge allowed p := by
  cases h with
  | intro _ _ h => exact h p hp

/-- It is contained in every set that is closed in this way. -/
theorem Freed.least {S : α → Prop} (hS : ∀ v, allowed v → (∀ p, edge p v → S p) → S v) {v : α}
    (h : Freed edge allowed v) : S v := by
  induction h with
  | intro v ha _ ih => exact hS v ha ih

/-- Once the set is gone, nothing of what stays can go. -/
theorem Freed.settled (ha : ∀ v, allowed' v → allowed v ∧ ¬Freed edge allowed v)
    (hedge : ∀ p v, edge p v → edge' p v ∨ Freed edge allowed p) (v : α) :
    ¬Freed edge' allowed' v := by
  have hback : ∀ v, Freed edge' allowed' v → Freed edge allowed v := by
    intro v h
    induction h with
    | intro v hv _ ih =>
      refine .intro v (ha v hv).1 fun p hp => ?_
      obtain hp | hp := hedge p v hp
      · exact ih p hp
      · exact hp
  intro h
  exact (ha v h.isAllowed).2 (hback v h)

end

/-! ## An order in which every vertex comes after its predecessors -/

variable {α : Type} [DecidableEq α] [BEq α] [LawfulBEq α] {next : α → List α} {nodes : List α}

structure SourcesFirst (next : α → List α) (nodes order : List α) : Prop where
  nodup : order.Nodup
  mem : ∀ v, v ∈ order ↔ v ∈ nodes
  before : ∀ l v l', order = l ++ v :: l' → ∀ a, v ∈ next a → a ∈ l

theorem drain_sourcesFirst (hnodes : nodes.Nodup) (hin : ∀ a v, v ∈ next a → a ∈ nodes ∧ v ∈ nodes)
    (hac : ∀ a, ¬Relation.TransGen (Edge next) a a) :
    SourcesFirst next nodes (Countdown.drain (fun _ => true) next nodes.length []
      ⟨fun v => ((nodes.flatMap next).count v : Nat),
        nodes.filter fun v => decide ((nodes.flatMap next).count v = 0)⟩).1 := by
  have hcount : ∀ v, (nodes.flatMap next).count v = inflow next nodes v := by
    intro v
    rw [inflow_eq_sum hnodes, List.count_flatMap]
    rfl
  have hstart : Drained nodes next (inflow next nodes) []
      ⟨fun v => ((nodes.flatMap next).count v : Nat),
        nodes.filter fun v => decide ((nodes.flatMap next).count v = 0)⟩ := by
    refine Drained.start (fun v _ => Nat.le_refl _) (hnodes.filter _) (fun v => ?_) fun v => ?_
    · rw [hcount]
    · rw [List.mem_filter, decide_eq_true_eq, hcount]
  obtain ⟨hdrained, hready⟩ := drain_spec (fun v _ => Nat.le_refl _)
    (fun a _ v hv => iff_of_true rfl (hin a v hv).2) nodes.length [] _ hstart (by simp)
  have hall := hdrained.gone_iff_ancestors hready (fun v _ => Nat.le_refl _) hac fun a v hv => (hin a v hv).1
  generalize (Countdown.drain (fun _ => true) next nodes.length [] _) = done at hdrained hready hall ⊢
  have hnodup := hdrained.nodup
  have hbefore := hdrained.before
  rw [hready, List.append_nil] at hnodup hbefore
  refine ⟨hnodup, fun v => ⟨fun hv => hdrained.sub hv, fun hv => (hall v hv).mpr fun _ _ => rfl⟩, ?_⟩
  intro l v l' e a hav
  exact hbefore l v l' e a (hin a v hav).1 hav

end Adlc.Framework
