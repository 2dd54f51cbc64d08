import Mathlib.Data.List.Perm.Basic
import Mathlib.Data.List.Sort

namespace Adlc.Framework

/-! A stable sort is determined by its order within each class of ties. -/

variable {α : Type*} {le : α → α → Bool}

/-- Neither element is strictly below the other. -/
def tie (le : α → α → Bool) (a b : α) : Bool := le a b && le b a

section

variable (trans : ∀ a b c, le a b = true → le b c = true → le a c = true)
variable (total : ∀ a b, (le a b || le b a) = true)

include trans total

/-- Sorting keeps the order of ties. -/
theorem filter_tie_mergeSort (a : α) (l : List α) :
    (l.mergeSort le).filter (tie le a) = l.filter (tie le a) := by
  have hp : (l.filter (tie le a)).Pairwise fun x y => le x y = true := by
    refine List.pairwise_of_forall_mem_list ?_
    intro x hx y hy
    have hx := (List.mem_filter.mp hx).2
    have hy := (List.mem_filter.mp hy).2
    simp only [tie, Bool.and_eq_true] at hx hy
    exact trans x a y hx.2 hy.1
  have hs := List.sublist_mergeSort trans total hp List.filter_sublist
  have hf := hs.filter (tie le a)
  rw [List.filter_filter] at hf
  simp only [Bool.and_self] at hf
  have hl := ((List.mergeSort_perm l le).filter (tie le a)).length_eq
  exact (hf.eq_of_length hl.symm).symm

omit trans in
/-- Sorted lists with the same ties in the same order are equal. -/
theorem eq_of_filter_tie {s t : List α} (hs : s.Pairwise fun x y => le x y = true)
    (ht : t.Pairwise fun x y => le x y = true)
    (h : ∀ a, s.filter (tie le a) = t.filter (tie le a)) : s = t := by
  have refl : ∀ a, le a a = true := by
    intro a
    have ha := total a a
    rwa [Bool.or_self] at ha
  have mem : ∀ {u v : List α}, (∀ a, u.filter (tie le a) = v.filter (tie le a)) →
      ∀ x ∈ u, x ∈ v := by
    intro u v huv x hx
    have hm : x ∈ u.filter (tie le x) := List.mem_filter.mpr ⟨hx, by simp [tie, refl]⟩
    rw [huv] at hm
    exact (List.mem_filter.mp hm).1
  induction s generalizing t with
  | nil =>
    cases t with
    | nil => rfl
    | cons y t =>
      have hy := mem (fun a => (h a).symm) y (by simp)
      cases hy
  | cons x s ih =>
    cases t with
    | nil =>
      have hx := mem h x (by simp)
      cases hx
    | cons y t =>
      obtain ⟨hxs, hss⟩ := List.pairwise_cons.mp hs
      obtain ⟨hyt, htt⟩ := List.pairwise_cons.mp ht
      have hxy : le x y = true := by
        rcases List.mem_cons.mp (mem (fun a => (h a).symm) y (by simp)) with rfl | hy
        · exact refl _
        · exact hxs y hy
      have hyx : le y x = true := by
        rcases List.mem_cons.mp (mem h x (by simp)) with rfl | hx
        · exact refl _
        · exact hyt x hx
      have hx := h x
      have e1 : tie le x x = true := by simp [tie, refl]
      have e2 : tie le x y = true := by simp [tie, hxy, hyx]
      rw [List.filter_cons_of_pos e1, List.filter_cons_of_pos e2] at hx
      obtain ⟨rfl, -⟩ := List.cons.inj hx
      refine congrArg (List.cons x) (ih hss htt ?_)
      intro a
      have ha := h a
      by_cases hax : tie le a x = true
      · rw [List.filter_cons_of_pos hax, List.filter_cons_of_pos hax] at ha
        exact (List.cons.inj ha).2
      · rw [List.filter_cons_of_neg hax, List.filter_cons_of_neg hax] at ha
        exact ha

/-- Lists with the same ties in the same order sort to the same list. -/
theorem mergeSort_congr {l m : List α} (h : ∀ a, l.filter (tie le a) = m.filter (tie le a)) :
    l.mergeSort le = m.mergeSort le := by
  apply eq_of_filter_tie total (List.pairwise_mergeSort trans total l)
    (List.pairwise_mergeSort trans total m)
  intro a
  rw [filter_tie_mergeSort trans total, filter_tie_mergeSort trans total, h]

/-- An order without ties sorts all listings alike. -/
theorem mergeSort_eq_of_perm (antisymm : ∀ a b, le a b = true → le b a = true → a = b)
    {l m : List α} (h : l.Perm m) : l.mergeSort le = m.mergeSort le := by
  apply List.Perm.eq_of_pairwise (fun a b _ _ => antisymm a b)
    (List.pairwise_mergeSort trans total l) (List.pairwise_mergeSort trans total m)
  exact (List.mergeSort_perm l le).trans (h.trans (List.mergeSort_perm m le).symm)

/-- Sorting commutes with leaving elements out. -/
theorem filter_mergeSort (p : α → Bool) (l : List α) :
    (l.mergeSort le).filter p = (l.filter p).mergeSort le := by
  apply eq_of_filter_tie total ((List.pairwise_mergeSort trans total l).filter p)
    (List.pairwise_mergeSort trans total _)
  intro a
  rw [filter_tie_mergeSort trans total, List.filter_comm, filter_tie_mergeSort trans total,
    List.filter_comm]

end

/-! ## A measure that the order refines -/

section

variable {measure : α → Nat}
variable (hle : ∀ a b, le a b = true → measure a ≤ measure b)
variable (hgt : ∀ a b, le a b = false → measure b ≤ measure a)

include hle hgt

theorem pairwise_merge_measure {l m : List α} (hl : l.Pairwise fun a b => measure a ≤ measure b)
    (hm : m.Pairwise fun a b => measure a ≤ measure b) :
    (l.merge m le).Pairwise fun a b => measure a ≤ measure b := by
  induction l generalizing m with
  | nil => simpa only [List.nil_merge] using hm
  | cons x l ihl =>
    induction m with
    | nil => simpa only [List.merge_right] using hl
    | cons y m ihm =>
      obtain ⟨hxl, hl'⟩ := List.pairwise_cons.mp hl
      obtain ⟨hym, hm'⟩ := List.pairwise_cons.mp hm
      rw [List.cons_merge_cons]
      split_ifs with h
      · refine List.Pairwise.cons ?_ (ihl hl' hm)
        intro z hz
        rcases List.mem_append.mp ((List.merge_perm_append le).mem_iff.mp hz) with hz | hz
        · exact hxl z hz
        · rcases List.mem_cons.mp hz with rfl | hz
          · exact hle x z h
          · exact (hle x y h).trans (hym z hz)
      · have hyx := hgt x y (Bool.not_eq_true _ ▸ h)
        refine List.Pairwise.cons ?_ (ihm hm')
        intro z hz
        rcases List.mem_append.mp ((List.merge_perm_append le).mem_iff.mp hz) with hz | hz
        · rcases List.mem_cons.mp hz with rfl | hz
          · exact hyx
          · exact hyx.trans (hxl z hz)
        · exact hym z hz

/-- However the ties of the measure are broken, the sorted list ascends in it. -/
theorem pairwise_mergeSort_measure (l : List α) :
    (l.mergeSort le).Pairwise fun a b => measure a ≤ measure b := by
  fun_induction List.mergeSort l le with
  | case1 => simp
  | case2 a => simp
  | case3 a b xs le lr h1 h2 ih2 ih1 =>
    exact pairwise_merge_measure hle hgt (ih2 hle hgt) (ih1 hle hgt)

end

/-- In a list that ascends in a measure, what measures less comes first. -/
theorem sublist_pair_of_ascending {measure : α → Nat} {l : List α} {a b : α}
    (h : l.Pairwise fun a b => measure a ≤ measure b) (ha : a ∈ l) (hb : b ∈ l)
    (hlt : measure a < measure b) : [a, b].Sublist l := by
  induction l with
  | nil => cases ha
  | cons x l ih =>
    obtain ⟨hx, hl⟩ := List.pairwise_cons.mp h
    rcases List.mem_cons.mp ha with rfl | hal
    · rcases List.mem_cons.mp hb with rfl | hbl
      · omega
      · exact (List.singleton_sublist.mpr hbl).cons_cons a
    · rcases List.mem_cons.mp hb with rfl | hbl
      · have hle := hx a hal
        omega
      · exact (ih hl hal hbl).cons x

theorem idxOf_lt_of_sublist_pair [BEq α] [LawfulBEq α] {l : List α} {a b : α} (hn : l.Nodup)
    (h : [a, b].Sublist l) : l.idxOf a < l.idxOf b := by
  induction l with
  | nil => cases h
  | cons x l ih =>
    obtain ⟨hx, hl⟩ := List.nodup_cons.mp hn
    cases h with
    | cons _ h =>
      have ha : a ≠ x := fun e => hx (e ▸ h.subset (by simp))
      have hb : b ≠ x := fun e => hx (e ▸ h.subset (by simp))
      rw [List.idxOf_cons_ne _ ha.symm, List.idxOf_cons_ne _ hb.symm]
      exact Nat.succ_lt_succ (ih hl h)
    | cons_cons _ h =>
      have hb : b ≠ a := fun e => hx (e ▸ h.subset (by simp))
      rw [List.idxOf_cons_self, List.idxOf_cons_ne _ hb.symm]
      exact Nat.succ_pos _

end Adlc.Framework
