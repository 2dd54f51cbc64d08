import Mathlib.Data.List.Perm.Subperm

namespace Adlc.Framework

/-! Lists that occur in another, in order or in any order. -/

variable {α : Type} [DecidableEq α]

/-- Taking the first place of the head loses nothing. -/
theorem cons_sublist_iff_drop (a : α) (l hay : List α) :
    (a :: l).Sublist hay ↔
      hay.findIdx (· = a) < hay.length ∧ l.Sublist (hay.drop (hay.findIdx (· = a) + 1)) := by
  induction hay with
  | nil => simp
  | cons b hay ih =>
    rw [List.findIdx_cons]
    by_cases h : b = a
    · subst h
      simp [List.cons_sublist_cons]
    · rw [decide_eq_false h, cond_false, List.sublist_cons_iff, ih]
      have hne : ¬∃ r, a :: l = b :: r ∧ r.Sublist hay := by
        rintro ⟨r, e, -⟩
        exact h (List.cons.inj e).1.symm
      simp only [hne, or_false, List.length_cons, List.drop_succ_cons, Nat.add_lt_add_iff_right]

/-- How many of a list can be taken one by one from what is available. -/
def countAvailable (avail : α → Nat) : List α → Nat
  | [] => 0
  | a :: l =>
    if 0 < avail a then countAvailable (Function.update avail a (avail a - 1)) l + 1
    else countAvailable avail l

theorem countAvailable_le (avail : α → Nat) (l : List α) : countAvailable avail l ≤ l.length := by
  induction l generalizing avail with
  | nil => exact Nat.le_refl _
  | cons a l ih =>
    rw [countAvailable, List.length_cons]
    split_ifs
    · exact Nat.succ_le_succ (ih _)
    · exact Nat.le_succ_of_le (ih _)

theorem countAvailable_eq_zero_iff (avail : α → Nat) (l : List α) :
    countAvailable avail l = 0 ↔ ∀ a ∈ l, avail a = 0 := by
  induction l generalizing avail with
  | nil => simp [countAvailable]
  | cons a l ih =>
    rw [countAvailable, List.forall_mem_cons]
    split_ifs with h
    · exact iff_of_false not_false fun hall => absurd hall.1 (Nat.ne_of_gt h)
    · rw [ih]
      exact ⟨fun hl => ⟨Nat.eq_zero_of_not_pos h, hl⟩, fun hl => hl.2⟩

theorem countAvailable_eq_length_iff [BEq α] [LawfulBEq α] (avail : α → Nat) (l : List α) :
    countAvailable avail l = l.length ↔ ∀ a, l.count a ≤ avail a := by
  induction l generalizing avail with
  | nil => simp [countAvailable]
  | cons a l ih =>
    rw [countAvailable, List.length_cons]
    split_ifs with h
    · rw [Nat.add_right_cancel_iff, ih]
      refine forall_congr' fun b => ?_
      rw [List.count_cons, Function.update_apply]
      by_cases hb : b = a
      · subst hb
        simp only [if_true, BEq.rfl]
        omega
      · rw [if_neg hb, if_neg (by simpa using fun e => hb e.symm), Nat.add_zero]
    · refine iff_of_false (fun e => ?_) fun hall => ?_
      · have hle := countAvailable_le avail l
        omega
      · have ha := hall a
        rw [List.count_cons_self] at ha
        omega

/-- Everything can be taken exactly when the list occurs in some order. -/
theorem countAvailable_count_eq_length_iff [BEq α] [LawfulBEq α] (hay l : List α) :
    countAvailable (fun a => hay.count a) l = l.length ↔ l.Subperm hay := by
  rw [countAvailable_eq_length_iff, List.subperm_ext_iff]
  constructor
  · exact fun h a _ => h a
  · intro h a
    by_cases ha : a ∈ l
    · exact h a ha
    · rw [List.count_eq_zero_of_not_mem ha]
      exact Nat.zero_le _

end Adlc.Framework
