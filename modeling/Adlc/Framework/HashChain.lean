import Mathlib.Data.List.Basic
import Mathlib.Data.Set.Function

namespace Adlc.Framework

/-! Chains whose links each carry a digest of the link before. -/

variable {α γ : Type} {back : α → γ} {digest : Option α → γ}

/-- A chain, newest link first: each link holds the digest of the one before it. -/
def HashLinked (back : α → γ) (digest : Option α → γ) : List α → Prop
  | [] => True
  | a :: older => back a = digest older.head? ∧ HashLinked back digest older

theorem HashLinked.tail {a : α} {older : List α} (h : HashLinked back digest (a :: older)) :
    HashLinked back digest older := h.2

/-- Two chains whose newest links point back alike have the same links before. -/
theorem HashLinked.older_eq {s : Set (Option α)} (hi : Set.InjOn digest s) (hnone : none ∈ s)
    {a b : α} {xs ys : List α} (hx : HashLinked back digest (a :: xs))
    (hy : HashLinked back digest (b :: ys)) (hsx : ∀ x ∈ xs, some x ∈ s)
    (hsy : ∀ y ∈ ys, some y ∈ s) (h : back a = back b) : xs = ys := by
  induction xs generalizing a b ys with
  | nil =>
    have e : digest none = digest ys.head? := by
      rw [← hy.1, ← h, hx.1]
      rfl
    cases ys with
    | nil => rfl
    | cons y ys => cases hi hnone (hsy y List.mem_cons_self) e
  | cons x xs ih =>
    have e : digest (some x) = digest ys.head? := by
      rw [← hy.1, ← h, hx.1]
      rfl
    cases ys with
    | nil => cases hi (hsx x List.mem_cons_self) hnone e
    | cons y ys =>
      obtain rfl := Option.some.inj (hi (hsx x List.mem_cons_self) (hsy y List.mem_cons_self) e)
      have hxs : ∀ z ∈ xs, some z ∈ s := fun z hz => hsx z (List.mem_cons_of_mem _ hz)
      have hys : ∀ z ∈ ys, some z ∈ s := fun z hz => hsy z (List.mem_cons_of_mem _ hz)
      rw [ih hx.tail hy.tail hxs hys rfl]

/-- What a chain holds is settled by its newest link. -/
theorem HashLinked.eq_of_newest {s : Set (Option α)} (hi : Set.InjOn digest s) (hnone : none ∈ s)
    {a : α} {xs ys : List α} (hx : HashLinked back digest (a :: xs))
    (hy : HashLinked back digest (a :: ys)) (hsx : ∀ x ∈ xs, some x ∈ s)
    (hsy : ∀ y ∈ ys, some y ∈ s) : a :: xs = a :: ys := by
  rw [hx.older_eq hi hnone hy hsx hsy rfl]

end Adlc.Framework
