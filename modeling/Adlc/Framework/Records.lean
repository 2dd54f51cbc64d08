import Mathlib.Data.List.Basic

namespace Adlc.Framework

/-! Records framed by a separator that occurs in none of them. -/

variable {α : Type*} {t : α}

/-- Each record, followed by the terminator. -/
def terminated (t : α) (records : List (List α)) : List α := records.flatMap fun r => r ++ [t]

@[simp] theorem terminated_cons (r : List α) (rs : List (List α)) :
    terminated t (r :: rs) = r ++ t :: terminated t rs := by
  simp [terminated]

/-- Terminated records are read back. -/
theorem splitOn_terminated [DecidableEq α] {rs : List (List α)} (h : ∀ r ∈ rs, t ∉ r) :
    (terminated t rs).splitOn t = rs ++ [[]] := by
  induction rs with
  | nil => rfl
  | cons r rs ih =>
    have hr : t ∉ r := h r List.mem_cons_self
    have hrs : ∀ r' ∈ rs, t ∉ r' := fun r' hr' => h r' (List.mem_cons_of_mem _ hr')
    rw [terminated_cons, List.splitOn_append_cons_self_of_not_mem hr, ih hrs, List.cons_append]

/-- The framed text determines the records. -/
theorem terminated_inj {rs ss : List (List α)} (hr : ∀ r ∈ rs, t ∉ r) (hs : ∀ s ∈ ss, t ∉ s)
    (h : terminated t rs = terminated t ss) : rs = ss := by
  classical
  have e := congrArg (List.splitOn t) h
  rw [splitOn_terminated hr, splitOn_terminated hs] at e
  exact List.append_cancel_right e

/-- A last field without the separator is determined by the text, and so is what precedes it. -/
theorem lastField_inj {a b x y : List α} (hx : t ∉ x) (hy : t ∉ y)
    (h : a ++ t :: x = b ++ t :: y) : a = b ∧ x = y := by
  classical
  have e := congrArg (fun l => (List.reverse l).splitOn t) h
  simp only [List.reverse_append, List.reverse_cons, List.append_assoc, List.singleton_append] at e
  rw [List.splitOn_append_cons_self_of_not_mem (by simpa using hx),
    List.splitOn_append_cons_self_of_not_mem (by simpa using hy)] at e
  have hxy : x = y := List.reverse_injective (List.cons.inj e).1
  subst hxy
  exact ⟨List.append_cancel_right h, rfl⟩

end Adlc.Framework
