import Mathlib.Logic.Basic
import Mathlib.Tactic.SplitIfs

namespace Adlc.Framework

/-! Three-way merges, place by place. Two values are the same when `key` takes them to one. -/

section
variable {α β : Type} [DecidableEq β] (key : α → β)

/-- The value of a place that a merge leaves, and `none` for a conflict. -/
def mergePlace (base ours theirs : α) : Option α :=
  if key ours = key theirs then some ours
  else if key base = key ours then some theirs
  else if key base = key theirs then some ours
  else none

variable {key} {base ours theirs merged : α}

/-- What they have left as it was stays as we have it. -/
theorem mergePlace_of_same (h : key base = key theirs) : mergePlace key base ours theirs = some ours := by
  unfold mergePlace
  split_ifs with h1 h2
  · rfl
  · exact absurd (h2.symm.trans h) h1
  · rfl

/-- A merged value is ours, but where they alone have changed it. -/
theorem mergePlace_cases (h : mergePlace key base ours theirs = some merged) :
    merged = ours ∨ key base = key ours ∧ merged = theirs := by
  unfold mergePlace at h
  split_ifs at h with h1 h2 h3
  · exact Or.inl (Option.some.inj h).symm
  · exact Or.inr ⟨h2, (Option.some.inj h).symm⟩
  · exact Or.inl (Option.some.inj h).symm

/-- What we have left as it was comes to be the same as theirs. -/
theorem mergePlace_theirs (h : mergePlace key base ours theirs = some merged)
    (ho : key base = key ours) : key merged = key theirs := by
  unfold mergePlace at h
  split_ifs at h with h1
  · rw [← h1, Option.some.inj h]
  · rw [Option.some.inj h]

end

end Adlc.Framework
