import Mathlib.Logic.Relation

namespace Adlc.Framework

/-! Histories of commits, numbered in the order they were made. -/

structure CommitGraph where
  parents : Nat → List Nat
  older : ∀ c, ∀ p ∈ parents c, p < c

namespace CommitGraph

variable (g : CommitGraph) {a b c start tip : Nat}

/-- A commit is in the history of another. -/
def Ancestor (a b : Nat) : Prop := Relation.ReflTransGen (fun p c => p ∈ g.parents c) a b

def ancestorWithin : Nat → Nat → Nat → Bool
  | 0, _, _ => false
  | fuel + 1, a, b => decide (a = b) || (g.parents b).any (ancestorWithin fuel a)

/-- `git merge-base --is-ancestor` -/
def isAncestor (a b : Nat) : Bool := g.ancestorWithin (b + 1) a b

variable {g}

theorem ancestor_of_within {fuel : Nat} (h : g.ancestorWithin fuel a b = true) :
    g.Ancestor a b := by
  induction fuel generalizing b with
  | zero => cases h
  | succ fuel ih =>
    rw [ancestorWithin, Bool.or_eq_true, decide_eq_true_eq, List.any_eq_true] at h
    obtain rfl | ⟨p, hp, hwithin⟩ := h
    · exact .refl
    · exact (ih hwithin).tail hp

theorem within_of_ancestor (h : g.Ancestor a b) {fuel : Nat} (hfuel : b < fuel) :
    g.ancestorWithin fuel a b = true := by
  induction h generalizing fuel with
  | refl =>
    obtain ⟨fuel, rfl⟩ := Nat.exists_eq_succ_of_ne_zero (Nat.ne_zero_of_lt hfuel)
    simp [ancestorWithin]
  | tail _ hp ih =>
    obtain ⟨fuel, rfl⟩ := Nat.exists_eq_succ_of_ne_zero (Nat.ne_zero_of_lt hfuel)
    have hlt := g.older _ _ hp
    rw [ancestorWithin, Bool.or_eq_true, List.any_eq_true]
    exact .inr ⟨_, hp, ih (by omega)⟩

theorem isAncestor_iff : g.isAncestor a b = true ↔ g.Ancestor a b :=
  ⟨ancestor_of_within, fun h => within_of_ancestor h (Nat.lt_succ_self b)⟩

instance : Decidable (g.Ancestor a b) := decidable_of_iff _ isAncestor_iff

theorem Ancestor.trans (h : g.Ancestor a b) (h' : g.Ancestor b c) : g.Ancestor a c :=
  Relation.ReflTransGen.trans h h'

/-- A branch has a commit that its start has not, unless it stands in the start's history. -/
theorem exists_new_iff : (∃ c, g.Ancestor c tip ∧ ¬g.Ancestor c start) ↔ ¬g.Ancestor tip start := by
  constructor
  · rintro ⟨c, htip, hstart⟩ h
    exact hstart (htip.trans h)
  · intro h
    exact ⟨tip, .refl, h⟩

end CommitGraph

end Adlc.Framework
