import Mathlib.Data.List.Induction
import Mathlib.Data.List.Lex
import Mathlib.Order.Lattice

namespace Adlc.Framework

/-! Numerals of one width: the order of the digits is the order of the values. -/

/-- The value of a list of digits, the first of which counts most. -/
def positional (base : Nat) (digits : List Nat) : Nat := digits.foldl (fun n d => n * base + d) 0

@[simp] theorem positional_nil (base : Nat) : positional base [] = 0 := rfl

@[simp] theorem positional_concat (base : Nat) (digits : List Nat) (d : Nat) :
    positional base (digits ++ [d]) = positional base digits * base + d := by
  rw [positional, List.foldl_append]
  rfl

theorem digit_lt_iff {base p q x y : Nat} (hx : x < base) (hy : y < base) :
    p * base + x < q * base + y ↔ p < q ∨ (p = q ∧ x < y) := by
  obtain hpq | rfl | hqp := lt_trichotomy p q
  · have hle : (p + 1) * base ≤ q * base := Nat.mul_le_mul_right base hpq
    rw [Nat.succ_mul] at hle
    exact iff_of_true (by omega) (Or.inl hpq)
  · omega
  · have hle : (q + 1) * base ≤ p * base := Nat.mul_le_mul_right base hqp
    rw [Nat.succ_mul] at hle
    exact iff_of_false (by omega) (by omega)

theorem digit_inj {base p q x y : Nat} (hx : x < base) (hy : y < base)
    (h : p * base + x = q * base + y) : p = q ∧ x = y := by
  have hlt := digit_lt_iff (p := p) (q := q) hx hy
  have hgt := digit_lt_iff (p := q) (q := p) hy hx
  omega

/-- Lists of one length are compared by their fronts, then by what follows. -/
theorem append_lt_append_iff {α : Type} [LinearOrder α] {a b : List α} (h : a.length = b.length)
    (x y : List α) : a ++ x < b ++ y ↔ a < b ∨ (a = b ∧ x < y) := by
  induction a generalizing b with
  | nil =>
    obtain rfl := List.eq_nil_of_length_eq_zero h.symm
    simp
  | cons c a ih =>
    cases b with
    | nil => cases h
    | cons d b =>
      rw [List.cons_append, List.cons_append, List.cons_lt_cons_iff, List.cons_lt_cons_iff,
        ih (Nat.succ.inj h), List.cons.injEq]
      tauto

theorem positional_inj {base : Nat} {a b : List Nat} (h : a.length = b.length)
    (ha : ∀ d ∈ a, d < base) (hb : ∀ d ∈ b, d < base) (he : positional base a = positional base b) :
    a = b := by
  induction a using List.reverseRecOn generalizing b with
  | nil => exact (List.eq_nil_of_length_eq_zero h.symm).symm
  | append_singleton a x ih =>
    obtain rfl | ⟨b, y, rfl⟩ := b.eq_nil_or_concat
    · simp at h
    · rw [List.concat_eq_append] at *
      rw [List.forall_mem_append, List.forall_mem_singleton] at ha hb
      have hlength : a.length = b.length := by simpa using h
      rw [positional_concat, positional_concat] at he
      obtain ⟨hfront, rfl⟩ := digit_inj ha.2 hb.2 he
      rw [ih hlength ha.1 hb.1 hfront]

theorem positional_lt_iff {base : Nat} {a b : List Nat} (h : a.length = b.length)
    (ha : ∀ d ∈ a, d < base) (hb : ∀ d ∈ b, d < base) :
    positional base a < positional base b ↔ a < b := by
  induction a using List.reverseRecOn generalizing b with
  | nil =>
    obtain rfl := List.eq_nil_of_length_eq_zero h.symm
    simp
  | append_singleton a x ih =>
    obtain rfl | ⟨b, y, rfl⟩ := b.eq_nil_or_concat
    · simp at h
    · rw [List.concat_eq_append] at *
      rw [List.forall_mem_append, List.forall_mem_singleton] at ha hb
      have hlength : a.length = b.length := by simpa using h
      have heq : positional base a = positional base b ↔ a = b :=
        ⟨positional_inj hlength ha.1 hb.1, congrArg _⟩
      have hlast : ([x] : List Nat) < [y] ↔ x < y := by
        rw [List.cons_lt_cons_iff]
        simp
      rw [positional_concat, positional_concat, digit_lt_iff ha.2 hb.2, append_lt_append_iff hlength,
        ih hlength ha.1 hb.1, heq, hlast]

/-- A strictly increasing change of the digits keeps the order. -/
theorem map_lt_map_iff {α β : Type} [LinearOrder α] [LinearOrder β] {f : α → β} {a b : List α}
    (hf : ∀ x ∈ a, ∀ y ∈ b, (f x < f y ↔ x < y) ∧ (f x = f y ↔ x = y)) :
    a.map f < b.map f ↔ a < b := by
  induction a generalizing b with
  | nil => cases b <;> simp
  | cons x a ih =>
    cases b with
    | nil => simp
    | cons y b =>
      obtain ⟨hlt, heq⟩ := hf x List.mem_cons_self y List.mem_cons_self
      have htail := ih fun x hx y hy => hf x (List.mem_cons_of_mem _ hx) y (List.mem_cons_of_mem _ hy)
      rw [List.map_cons, List.map_cons, List.cons_lt_cons_iff, List.cons_lt_cons_iff, hlt, heq, htail]

end Adlc.Framework
