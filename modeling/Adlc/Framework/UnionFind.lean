import Mathlib.Data.Fintype.Card
import Mathlib.Logic.Function.Iterate
import Mathlib.Logic.Relation

namespace Adlc.Framework

/-! Union-find over a finite type. -/

variable {α : Type*}

/-- Parent pointers that lead to roots: some rank falls along each that is no loop. -/
structure Forest (α : Type*) where
  parent : α → α
  ranked : ∃ rank : α → ℕ, ∀ x, parent x ≠ x → rank (parent x) < rank x

namespace Forest

/-- Every element is a root. -/
def discrete (α : Type*) : Forest α := ⟨id, fun _ => 0, fun _ h => absurd rfl h⟩

variable [Fintype α]

/-- A rank below the number of elements: how many values of a rank lie below an element's. -/
theorem exists_rank_lt (f : Forest α) :
    ∃ rank : α → ℕ, (∀ x, f.parent x ≠ x → rank (f.parent x) < rank x) ∧
      ∀ x, rank x < Fintype.card α := by
  obtain ⟨rank, hrank⟩ := f.ranked
  let values := Finset.univ.image rank
  refine ⟨fun x => (values.filter (· < rank x)).card, ?_, ?_⟩
  · intro x hx
    apply Finset.card_lt_card
    rw [Finset.ssubset_iff_of_subset]
    · refine ⟨rank (f.parent x), ?_, by simp⟩
      rw [Finset.mem_filter]
      exact ⟨Finset.mem_image_of_mem _ (Finset.mem_univ _), hrank x hx⟩
    · intro v hv
      rw [Finset.mem_filter] at hv ⊢
      exact ⟨hv.1, hv.2.trans (hrank x hx)⟩
  · intro x
    have hlt : (values.filter (· < rank x)).card < values.card := by
      apply Finset.card_lt_card
      rw [Finset.ssubset_iff_of_subset (Finset.filter_subset _ _)]
      exact ⟨rank x, Finset.mem_image_of_mem _ (Finset.mem_univ _), by simp⟩
    exact hlt.trans_le Finset.card_image_le

/-- Where the parent pointers of an element lead. -/
def root (f : Forest α) (x : α) : α := f.parent^[Fintype.card α] x

omit [Fintype α] in
theorem parent_iterate (f : Forest α) {rank : α → ℕ}
    (hrank : ∀ x, f.parent x ≠ x → rank (f.parent x) < rank x) {k : ℕ} {x : α} (h : rank x ≤ k) :
    f.parent (f.parent^[k] x) = f.parent^[k] x := by
  induction k generalizing x with
  | zero =>
    by_contra hx
    have hlt := hrank x hx
    omega
  | succ k ih =>
    by_cases hx : f.parent x = x
    · rw [Function.iterate_fixed hx, hx]
    · have hlt := hrank x hx
      rw [Function.iterate_succ_apply]
      exact ih (by omega)

variable (f : Forest α)

@[simp] theorem parent_root (x : α) : f.parent (f.root x) = f.root x := by
  obtain ⟨rank, hrank, hlt⟩ := f.exists_rank_lt
  exact f.parent_iterate hrank (hlt x).le

@[simp] theorem root_parent (x : α) : f.root (f.parent x) = f.root x := by
  have h := f.parent_root x
  rwa [root, ← Function.iterate_succ_apply' f.parent, Function.iterate_succ_apply] at h

theorem root_of_fixed {x : α} (h : f.parent x = x) : f.root x = x := Function.iterate_fixed h _

theorem root_root (x : α) : f.root (f.root x) = f.root x := f.root_of_fixed (f.parent_root x)

/-- Whatever is constant along the pointers and fixes the roots is the root. -/
theorem root_unique {g : α → α} (hparent : ∀ x, g (f.parent x) = g x)
    (hfixed : ∀ x, f.parent x = x → g x = x) : f.root = g := by
  have hiterate : ∀ k x, g (f.parent^[k] x) = g x := by
    intro k x
    induction k with
    | zero => rfl
    | succ k ih => rw [Function.iterate_succ_apply', hparent, ih]
  funext x
  rw [← hiterate (Fintype.card α) x]
  exact (hfixed _ (f.parent_root x)).symm

/-! ## The relation a forest tracks -/

/-- Two elements have one root exactly when the pairs of `R` connect them. -/
def Tracks (R : α → α → Prop) : Prop :=
  ∀ x y, f.root x = f.root y ↔ Relation.EqvGen R x y

theorem tracks_discrete : (discrete α).Tracks fun _ _ => False := by
  have hroot : ∀ x, (discrete α).root x = x := fun x => root_of_fixed _ rfl
  intro x y
  rw [hroot, hroot]
  constructor
  · rintro rfl
    exact Relation.EqvGen.refl _
  · intro h
    induction h with
    | rel _ _ h => exact h.elim
    | refl => rfl
    | symm _ _ _ ih => exact ih.symm
    | trans _ _ _ _ _ ih1 ih2 => exact ih1.trans ih2

variable {f} {R S : α → α → Prop}

theorem Tracks.congr (h : f.Tracks R) (hRS : ∀ x y, R x y ↔ S x y) : f.Tracks S := by
  have e : R = S := by
    funext x y
    exact propext (hRS x y)
  rwa [← e]

theorem Tracks.of_root_eq {g : Forest α} (h : f.Tracks R) (hg : g.root = f.root) : g.Tracks R := by
  intro x y
  rw [hg]
  exact h x y

/-! ## Halving and linking -/

variable [DecidableEq α] (f)

omit [Fintype α] in
/-- A rank still falls along the pointers once an element points at its grandparent. -/
theorem halved_rank {rank : α → ℕ} (hrank : ∀ x, f.parent x ≠ x → rank (f.parent x) < rank x)
    (x y : α) (hy : Function.update f.parent x (f.parent (f.parent x)) y ≠ y) :
    rank (Function.update f.parent x (f.parent (f.parent x)) y) < rank y := by
  by_cases hyx : y = x
  · subst hyx
    rw [Function.update_self] at hy ⊢
    by_cases h1 : f.parent y = y
    · rw [h1, h1] at hy
      exact absurd rfl hy
    · by_cases h2 : f.parent (f.parent y) = f.parent y
      · rw [h2]
        exact hrank y h1
      · exact (hrank _ h2).trans (hrank y h1)
  · rw [Function.update_of_ne hyx] at hy ⊢
    exact hrank y hy

/-- Path halving: an element is given its grandparent for its parent. -/
def halve (x : α) : Forest α where
  parent := Function.update f.parent x (f.parent (f.parent x))
  ranked := by
    obtain ⟨rank, hrank⟩ := f.ranked
    exact ⟨rank, f.halved_rank hrank x⟩

omit [Fintype α] in
theorem halve_parent_self (x : α) : (f.halve x).parent x = f.parent (f.parent x) :=
  Function.update_self ..

omit [Fintype α] in
theorem halve_parent_of_ne {x y : α} (h : y ≠ x) : (f.halve x).parent y = f.parent y :=
  Function.update_of_ne h ..

/-- Halving changes no root. -/
theorem root_halve (x : α) : (f.halve x).root = f.root := by
  apply root_unique
  · intro y
    by_cases hyx : y = x
    · rw [hyx, halve_parent_self, root_parent, root_parent]
    · rw [halve_parent_of_ne f hyx, root_parent]
  · intro y hy
    by_cases hyx : y = x
    · subst hyx
      rw [halve_parent_self] at hy
      obtain ⟨rank, hrank⟩ := f.ranked
      by_cases h1 : f.parent y = y
      · exact f.root_of_fixed h1
      · have hlt := hrank y h1
        have h2 : f.parent (f.parent y) ≠ f.parent y := by
          intro e
          exact h1 (e.symm.trans hy)
        have hlt2 := hrank _ h2
        rw [hy] at hlt2
        omega
    · rw [halve_parent_of_ne f hyx] at hy
      exact f.root_of_fixed hy

variable {f} {a b : α}

/-- One root is put below another. -/
def link (f : Forest α) (ha : f.root a = a) (hb : f.root b = b) (hab : a ≠ b) : Forest α where
  parent := Function.update f.parent a b
  ranked := by
    obtain ⟨rank, hrank⟩ := f.ranked
    refine ⟨fun x => rank x + if f.root x = a then rank b + 1 else 0, ?_⟩
    intro x hx
    by_cases hxa : x = a
    · subst hxa
      simp only [Function.update_self, hb, if_neg hab.symm, ha, if_true]
      omega
    · rw [Function.update_of_ne hxa] at hx
      simp only [Function.update_of_ne hxa, root_parent]
      have hlt := hrank x hx
      omega

theorem link_parent_self (ha : f.root a = a) (hb : f.root b = b) (hab : a ≠ b) :
    (f.link ha hb hab).parent a = b :=
  Function.update_self ..

theorem link_parent_of_ne (ha : f.root a = a) (hb : f.root b = b) (hab : a ≠ b) {x : α}
    (h : x ≠ a) : (f.link ha hb hab).parent x = f.parent x :=
  Function.update_of_ne h ..

theorem root_link (ha : f.root a = a) (hb : f.root b = b) (hab : a ≠ b) :
    (f.link ha hb hab).root = fun x => if f.root x = a then b else f.root x := by
  apply root_unique
  · intro x
    by_cases hxa : x = a
    · subst hxa
      simp only [link_parent_self, hb, if_neg hab.symm, ha, if_true]
    · simp only [link_parent_of_ne ha hb hab hxa, root_parent]
  · intro x hx
    by_cases hxa : x = a
    · subst hxa
      rw [link_parent_self] at hx
      exact absurd hx.symm hab
    · rw [link_parent_of_ne ha hb hab hxa] at hx
      simp only [f.root_of_fixed hx, if_neg hxa]

/-- The forest tracks one more pair once the roots of that pair are one. -/
theorem Tracks.join {g : Forest α} (h : f.Tracks R)
    (hg : ∀ x, g.root x = if f.root x = f.root a then f.root b else f.root x) :
    g.Tracks fun x y => R x y ∨ (x = a ∧ y = b) := by
  have hold : ∀ {x y}, Relation.EqvGen R x y →
      Relation.EqvGen (fun x y => R x y ∨ (x = a ∧ y = b)) x y :=
    fun h => h.mono fun _ _ => Or.inl
  have hnew : Relation.EqvGen (fun x y => R x y ∨ (x = a ∧ y = b)) a b :=
    Relation.EqvGen.rel _ _ (Or.inr ⟨rfl, rfl⟩)
  intro x y
  constructor
  · intro he
    rw [hg, hg] at he
    split_ifs at he with hx hy hy
    · exact (hold ((h x y).mp (hx.trans hy.symm)))
    · exact (hold ((h x a).mp hx)).trans _ _ _ (hnew.trans _ _ _ (hold ((h b y).mp he)))
    · exact (hold ((h x b).mp he)).trans _ _ _
        (hnew.symm.trans _ _ _ (hold ((h a y).mp hy.symm)))
    · exact hold ((h x y).mp he)
  · intro he
    induction he with
    | rel x y hxy =>
      obtain hxy | ⟨rfl, rfl⟩ := hxy
      · rw [hg, hg, (h x y).mpr (Relation.EqvGen.rel _ _ hxy)]
      · rw [hg, hg, if_pos rfl]
        split_ifs <;> rfl
    | refl => rfl
    | symm _ _ _ ih => exact ih.symm
    | trans _ _ _ _ _ ih1 ih2 => exact ih1.trans ih2

end Forest

end Adlc.Framework
