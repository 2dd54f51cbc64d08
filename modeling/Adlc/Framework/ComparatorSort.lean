import Adlc.Framework.StableSort

namespace Adlc.Framework

/-! Sorting by a comparison that need not be an order. -/

variable {α : Type*}

/-- The comparison orders these elements. -/
structure OrdersOn (le : α → α → Bool) (l : List α) : Prop where
  total : ∀ a ∈ l, ∀ b ∈ l, le a b = true ∨ le b a = true
  trans : ∀ a ∈ l, ∀ b ∈ l, ∀ c ∈ l, le a b = true → le b c = true → le a c = true

/-- A sort as a language promises it: the same elements, and, where the comparison orders them, in
order and with ties in place. Where it does not, any arrangement may come out. -/
structure ComparatorSort (α : Type*) where
  sort : (α → α → Bool) → List α → List α
  perm : ∀ le l, (sort le l).Perm l
  sorted : ∀ le l, OrdersOn le l → (sort le l).Pairwise fun a b => le a b = true
  stable : ∀ le l, OrdersOn le l → ∀ a ∈ l, (sort le l).filter (tie le a) = l.filter (tie le a)

/-! ## Insertion sort -/

/-- The comparison among the elements of a list. -/
def onElements (le : α → α → Bool) (l : List α) (a b : { x // x ∈ l }) : Prop := le a.1 b.1 = true

instance (le : α → α → Bool) (l : List α) : DecidableRel (onElements le l) := fun a b => by
  unfold onElements
  infer_instance

theorem insertionSort_onElements (le : α → α → Bool) (l : List α) :
    l.insertionSort (fun a b => le a b = true) =
      (l.attach.insertionSort (onElements le l)).map Subtype.val := by
  rw [List.map_insertionSort (onElements le l) (fun a b => le a b = true) Subtype.val l.attach
    (fun a _ b _ => Iff.rfl), List.attach_map_subtype_val]

theorem sorted_insertionSort {le : α → α → Bool} {l : List α} (h : OrdersOn le l) :
    (l.insertionSort fun a b => le a b = true).Pairwise fun a b => le a b = true := by
  have htotal : Std.Total (onElements le l) := ⟨fun a b => h.total a.1 a.2 b.1 b.2⟩
  have htrans : IsTrans _ (onElements le l) := ⟨fun a b c => h.trans a.1 a.2 b.1 b.2 c.1 c.2⟩
  rw [insertionSort_onElements]
  exact List.pairwise_map.mpr (List.pairwise_insertionSort (onElements le l) l.attach)

theorem filter_tie_insertionSort {le : α → α → Bool} {l : List α} (h : OrdersOn le l) {a : α}
    (ha : a ∈ l) :
    (l.insertionSort fun a b => le a b = true).filter (tie le a) = l.filter (tie le a) := by
  have hp : (l.filter (tie le a)).Pairwise fun x y => le x y = true := by
    refine List.pairwise_of_forall_mem_list ?_
    intro x hx y hy
    obtain ⟨hxl, hx⟩ := List.mem_filter.mp hx
    obtain ⟨hyl, hy⟩ := List.mem_filter.mp hy
    rw [tie, Bool.and_eq_true] at hx hy
    exact h.trans x hxl a ha y hyl hx.2 hy.1
  have hs := (List.sublist_insertionSort hp List.filter_sublist).filter (tie le a)
  rw [List.filter_filter] at hs
  simp only [Bool.and_self] at hs
  have hl := ((List.perm_insertionSort (fun a b => le a b = true) l).filter (tie le a)).length_eq
  exact (hs.eq_of_length hl.symm).symm

def ComparatorSort.insertion : ComparatorSort α where
  sort le l := l.insertionSort fun a b => le a b = true
  perm _ l := List.perm_insertionSort _ l
  sorted _ _ h := sorted_insertionSort h
  stable _ _ h _ ha := filter_tie_insertionSort h ha

/-! ## Sorting what is not ordered -/

open Classical in
/-- Of elements that the comparison does not order, any arrangement may come out. -/
theorem ComparatorSort.exists_arrangement {le : α → α → Bool} {l r : List α} (h : ¬OrdersOn le l)
    (hr : r.Perm l) : ∃ s : ComparatorSort α, s.sort le l = r := by
  let arranged : (α → α → Bool) → List α → List α := fun le' l' =>
    if le' = le ∧ l' = l then r else insertion.sort le' l'
  have hother : ∀ le' l', OrdersOn le' l' → arranged le' l' = insertion.sort le' l' := by
    intro le' l' horders
    refine if_neg ?_
    rintro ⟨rfl, rfl⟩
    exact h horders
  refine ⟨⟨arranged, ?_, ?_, ?_⟩, if_pos ⟨rfl, rfl⟩⟩
  · intro le' l'
    by_cases e : le' = le ∧ l' = l
    · have hmoved : arranged le' l' = r := if_pos e
      rw [hmoved, e.2]
      exact hr
    · have hkept : arranged le' l' = insertion.sort le' l' := if_neg e
      rw [hkept]
      exact insertion.perm le' l'
  · intro le' l' horders
    rw [hother le' l' horders]
    exact insertion.sorted le' l' horders
  · intro le' l' horders b hb
    rw [hother le' l' horders]
    exact insertion.stable le' l' horders b hb

theorem ComparatorSort.exists_first {le : α → α → Bool} {l : List α} (h : ¬OrdersOn le l) {a : α}
    (ha : a ∈ l) : ∃ (s : ComparatorSort α) (rest : List α), s.sort le l = a :: rest := by
  obtain ⟨front, back, rfl⟩ := List.append_of_mem ha
  obtain ⟨s, hs⟩ := exists_arrangement h (r := a :: (front ++ back)) List.perm_middle.symm
  exact ⟨s, front ++ back, hs⟩

/-! ## The last element -/

/-- The last of the greatest, and any element where the comparison is no order. -/
def MayComeLast (le : α → α → Bool) (l : List α) (a : α) : Prop :=
  a ∈ l ∧ (OrdersOn le l → (l.filter fun b => l.all fun c => le c b).getLast? = some a)

theorem ComparatorSort.mayComeLast (s : ComparatorSort α) {le : α → α → Bool} {l : List α} {a : α}
    (h : (s.sort le l).getLast? = some a) : MayComeLast le l a := by
  have hmem : a ∈ l := (s.perm le l).mem_iff.mp (List.mem_of_getLast? h)
  refine ⟨hmem, ?_⟩
  intro horders
  have hrefl : ∀ b ∈ l, le b b = true := fun b hb => (horders.total b hb b hb).elim id id
  obtain ⟨front, hfront⟩ : ∃ front, s.sort le l = front ++ [a] := by
    have hdrop := List.dropLast_append_getLast? a h
    exact ⟨_, hdrop.symm⟩
  have hgreatest : ∀ b ∈ l, le b a = true := by
    intro b hb
    have hsorted := s.sorted le l horders
    rw [hfront, List.pairwise_append] at hsorted
    have hb' := (s.perm le l).mem_iff.mpr hb
    rw [hfront, List.mem_append, List.mem_singleton] at hb'
    obtain hb' | rfl := hb'
    · exact hsorted.2.2 b hb' a List.mem_cons_self
    · exact hrefl b hb
  have hties : (l.filter fun b => l.all fun c => le c b) = l.filter (tie le a) := by
    refine List.filter_congr ?_
    intro b hb
    have hiff : (l.all fun c => le c b) = true ↔ tie le a b = true := by
      rw [tie, Bool.and_eq_true, List.all_eq_true]
      constructor
      · intro hall
        exact ⟨hall a hmem, hgreatest b hb⟩
      · rintro ⟨hab, -⟩ c hc
        exact horders.trans c hc a hmem b hb (hgreatest c hc) hab
    exact Bool.eq_iff_iff.mpr hiff
  have hself : tie le a a = true := by rw [tie, hrefl a hmem]; rfl
  rw [hties, ← s.stable le l horders a hmem, hfront, List.filter_append, List.filter_cons_of_pos hself,
    List.filter_nil, List.getLast?_append_cons]
  rfl

theorem exists_sort_getLast {le : α → α → Bool} {l : List α} {a : α} (h : MayComeLast le l a) :
    ∃ s : ComparatorSort α, (s.sort le l).getLast? = some a := by
  by_cases horders : OrdersOn le l
  · have hsame : a ∈ ComparatorSort.insertion.sort le l :=
      (ComparatorSort.insertion.perm le l).mem_iff.mpr h.1
    have hb := List.getLast?_eq_some_getLast (List.ne_nil_of_mem hsame)
    have hlast := (ComparatorSort.insertion.mayComeLast hb).2 horders
    exact ⟨_, hb.trans (hlast.symm.trans (h.2 horders))⟩
  · obtain ⟨front, back, rfl⟩ := List.append_of_mem h.1
    have hperm : (front ++ back ++ [a]).Perm (front ++ a :: back) := by
      rw [List.append_assoc]
      exact (List.perm_append_singleton a back).append_left front
    obtain ⟨s, hs⟩ := ComparatorSort.exists_arrangement horders hperm
    refine ⟨s, ?_⟩
    rw [hs]
    exact List.getLast?_concat

end Adlc.Framework
