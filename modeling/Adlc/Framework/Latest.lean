import Mathlib.Data.List.Dedup
import Mathlib.Data.List.Induction

namespace Adlc.Framework

/-! A log read once, keeping the entry of each key that wins over those before it. -/

variable {α κ : Type} [DecidableEq κ] {wins : α → α → Bool} {key : α → κ} {l : List α}

/-- The keys in the order in which they come first. -/
def firstSeen (ks : List κ) : List κ := ks.reverse.dedup.reverse

theorem firstSeen_concat (ks : List κ) (k : κ) :
    firstSeen (ks ++ [k]) = if k ∈ ks then firstSeen ks else firstSeen ks ++ [k] := by
  unfold firstSeen
  rw [List.reverse_concat]
  split_ifs with h
  · rw [List.dedup_cons_of_mem (List.mem_reverse.2 h)]
  · rw [List.dedup_cons_of_notMem (fun hm => h (List.mem_reverse.1 hm)), List.reverse_cons]

@[simp] theorem mem_firstSeen {ks : List κ} {k : κ} : k ∈ firstSeen ks ↔ k ∈ ks := by
  simp [firstSeen]

theorem firstSeen_nodup (ks : List κ) : (firstSeen ks).Nodup := List.nodup_reverse.mpr (List.nodup_dedup _)

theorem firstSeen_filter (p : κ → Bool) (ks : List κ) :
    (firstSeen ks).filter p = firstSeen (ks.filter p) := by
  induction ks using List.reverseRecOn with
  | nil => rfl
  | append_singleton ks k ih =>
    rw [firstSeen_concat, List.filter_append]
    by_cases hp : p k = true
    · have hone : [k].filter p = [k] := by simp [hp]
      rw [hone, firstSeen_concat, ← ih]
      by_cases hk : k ∈ ks
      · rw [if_pos hk, if_pos (List.mem_filter.2 ⟨hk, hp⟩)]
      · rw [if_neg hk, if_neg fun h => hk (List.mem_of_mem_filter h), List.filter_append, hone]
    · have hnone : [k].filter p = [] := by simp [hp]
      rw [hnone, List.append_nil, ← ih]
      split_ifs
      · rfl
      · rw [List.filter_append, hnone, List.append_nil]

/-! ## The latest entry -/

/-- `e` takes the place of the best so far. -/
def keepLatest (wins : α → α → Bool) : Option α → α → Option α
  | none, e => some e
  | some best, e => if wins e best then some e else some best

def latestOf (wins : α → α → Bool) (l : List α) : Option α := l.foldl (keepLatest wins) none

/-- Every entry wins over those before it, and loses against those after it. -/
def WinsInOrder (wins : α → α → Bool) (l : List α) : Prop :=
  (∀ e ∈ l, wins e e = true) ∧ l.Pairwise fun a b => wins b a = true ∧ wins a b = false

theorem WinsInOrder.sublist {l' : List α} (h : WinsInOrder wins l) (hl : l'.Sublist l) :
    WinsInOrder wins l' :=
  ⟨fun e he => h.1 e (hl.subset he), h.2.sublist hl⟩

theorem latestOf_concat (l : List α) (e : α) :
    latestOf wins (l ++ [e]) = keepLatest wins (latestOf wins l) e := by
  simp [latestOf]

theorem getLast?_mem {e : α} (h : l.getLast? = some e) : e ∈ l := List.mem_of_getLast? h

/-- Of the last entries of two kinds, the one that wins is the last of both kinds. -/
theorem keepLatest_getLast? (h : WinsInOrder wins l) (p q : α → Bool) {e : α}
    (he : (l.filter q).getLast? = some e) :
    keepLatest wins (l.filter p).getLast? e = (l.filter fun a => p a || q a).getLast? := by
  induction l using List.reverseRecOn with
  | nil => cases he
  | append_singleton l x ih =>
    have hl : WinsInOrder wins l := h.sublist (List.sublist_append_left _ _)
    have hx : ∀ a ∈ l, wins x a = true ∧ wins a x = false := fun a ha =>
      (List.pairwise_append.1 h.2).2.2 a ha x (List.mem_singleton.2 rfl)
    have hself : wins x x = true := h.1 x (List.mem_append_right _ (List.mem_singleton.2 rfl))
    rw [List.filter_append] at he ⊢
    rw [List.filter_append]
    cases hp : p x <;> cases hq : q x <;> simp only [List.filter_cons, List.filter_nil, hp, hq,
      Bool.or_true, Bool.or_false, Bool.false_eq_true, if_true, if_false, List.append_nil,
      List.getLast?_concat, Bool.or_self] at he ⊢
    · exact ih hl he
    · cases he
      cases hlast : (l.filter p).getLast? with
      | none => rfl
      | some b =>
        have hb : b ∈ l := List.mem_of_mem_filter (getLast?_mem hlast)
        simp [keepLatest, (hx b hb).1]
    · have hb : e ∈ l := List.mem_of_mem_filter (getLast?_mem he)
      simp [keepLatest, (hx e hb).2]
    · cases he
      simp [keepLatest, hself]

/-- The latest of the last entries of some keys is the last entry with one of the keys. -/
theorem latestOf_last (h : WinsInOrder wins l) (ks : List κ) {p : α → Bool}
    (hp : ∀ a, p a = true ↔ key a ∈ ks) :
    latestOf wins (ks.filterMap fun k => (l.filter fun a => decide (key a = k)).getLast?) =
      (l.filter p).getLast? := by
  induction ks using List.reverseRecOn generalizing p with
  | nil =>
    have hnone : l.filter p = [] := List.filter_eq_nil_iff.2 fun a _ ha => by simp [hp] at ha
    simp [latestOf, hnone]
  | append_singleton ks k ih =>
    rw [List.filterMap_append]
    have hrest := ih (p := fun a => decide (key a ∈ ks)) (by simp)
    have hor : l.filter p = l.filter fun a => decide (key a ∈ ks) || decide (key a = k) := by
      apply List.filter_congr
      intro a _
      rw [Bool.eq_iff_iff, hp]
      simp
    rw [hor]
    cases hlast : (l.filter fun a => decide (key a = k)).getLast? with
    | none =>
      have hnone : ∀ a ∈ l, ¬key a = k := by
        intro a ha hk
        rw [List.getLast?_eq_none_iff, List.filter_eq_nil_iff] at hlast
        exact hlast a ha (decide_eq_true hk)
      have hsame : (l.filter fun a => decide (key a ∈ ks) || decide (key a = k)) =
          l.filter fun a => decide (key a ∈ ks) := by
        apply List.filter_congr
        intro a ha
        simp [hnone a ha]
      simp only [List.filterMap_cons, hlast, List.filterMap_nil, List.append_nil]
      rw [hrest, hsame]
    | some e =>
      simp only [List.filterMap_cons, hlast, List.filterMap_nil]
      rw [latestOf_concat, hrest]
      exact keepLatest_getLast? h _ _ hlast

/-! ## The latest entry of each key -/

def valueAt (m : List (κ × α)) (k : κ) : Option α := m.lookup k

/-- The key keeps its place, or takes the last one. -/
def upsert (m : List (κ × α)) (k : κ) (v : α) : List (κ × α) :=
  if (valueAt m k).isSome then m.map fun p => if p.1 = k then (k, v) else p else m ++ [(k, v)]

def latestByKeyStep (wins : α → α → Bool) (key : α → κ) (m : List (κ × α)) (e : α) :
    List (κ × α) :=
  match valueAt m (key e) with
  | some prev => if wins e prev then upsert m (key e) e else m
  | none => upsert m (key e) e

def latestByKey (wins : α → α → Bool) (key : α → κ) (l : List α) : List (κ × α) :=
  l.foldl (latestByKeyStep wins key) []

/-- Each key in the order in which it comes first, with its last entry. -/
def lastByKey (key : α → κ) (l : List α) : List (κ × α) :=
  (firstSeen (l.map key)).filterMap fun k =>
    (l.filter fun a => decide (key a = k)).getLast?.map (k, ·)

theorem getLast?_filter_isSome {k : κ} (h : k ∈ l.map key) :
    ∃ e, (l.filter fun a => decide (key a = k)).getLast? = some e := by
  obtain ⟨a, ha, hk⟩ := List.mem_map.1 h
  have hne : (l.filter fun a => decide (key a = k)) ≠ [] :=
    List.ne_nil_of_mem (List.mem_filter.2 ⟨ha, decide_eq_true hk⟩)
  exact ⟨_, List.getLast?_eq_getLast_of_ne_nil hne⟩

theorem lookup_filterMap {ks : List κ} {f : κ → Option α} {k : κ} :
    (ks.filterMap fun k => (f k).map (k, ·)).lookup k = if k ∈ ks then f k else none := by
  induction ks with
  | nil => rfl
  | cons a ks ih =>
    rw [List.filterMap_cons]
    by_cases hk : k = a
    · subst hk
      cases hf : f k with
      | none =>
        rw [Option.map_none]
        simp only
        rw [ih]
        simp [hf]
      | some v => simp
    · have hne : (k == a) = false := beq_eq_false_iff_ne.2 hk
      cases hf : f a with
      | none =>
        rw [Option.map_none]
        simp only
        rw [ih]
        simp [hk]
      | some v =>
        rw [Option.map_some]
        simp only
        rw [List.lookup_cons, hne]
        simp only
        rw [ih]
        simp [hk]

theorem valueAt_lastByKey (k : κ) :
    valueAt (lastByKey key l) k = (l.filter fun a => decide (key a = k)).getLast? := by
  rw [valueAt, lastByKey, lookup_filterMap]
  split_ifs with hseen
  · rfl
  · have h : k ∉ l.map key := fun hk => hseen (mem_firstSeen.2 hk)
    symm
    rw [List.getLast?_eq_none_iff, List.filter_eq_nil_iff]
    intro a ha hk
    exact h (List.mem_map.2 ⟨a, ha, of_decide_eq_true hk⟩)

theorem map_fst_lastByKey (l : List α) : (lastByKey key l).map Prod.fst = firstSeen (l.map key) := by
  rw [lastByKey, List.map_filterMap]
  calc _ = (firstSeen (l.map key)).filterMap some := List.filterMap_congr fun k hk => by
        obtain ⟨e, he⟩ := getLast?_filter_isSome (mem_firstSeen.mp hk)
        rw [he]
        rfl
    _ = firstSeen (l.map key) := List.filterMap_some

theorem lastByKey_concat (l : List α) (e : α) :
    lastByKey key (l ++ [e]) = upsert (lastByKey key l) (key e) e := by
  have hlast : ∀ k, ((l ++ [e]).filter fun a => decide (key a = k)).getLast? =
      if key e = k then some e else (l.filter fun a => decide (key a = k)).getLast? := by
    intro k
    rw [List.filter_append]
    split_ifs with hk
    · simp [hk]
    · simp [hk]
  have hother : ∀ ks : List κ, key e ∉ ks →
      (ks.filterMap fun k => ((l ++ [e]).filter fun a => decide (key a = k)).getLast?.map (k, ·)) =
        ks.filterMap fun k => (l.filter fun a => decide (key a = k)).getLast?.map (k, ·) := by
    intro ks hks
    apply List.filterMap_congr
    intro k hk
    have hne : ¬key e = k := by
      rintro rfl
      exact hks hk
    rw [hlast, if_neg hne]
  unfold upsert
  rw [valueAt_lastByKey]
  unfold lastByKey
  rw [List.map_append, List.map_singleton, firstSeen_concat]
  by_cases hmem : key e ∈ l.map key
  · obtain ⟨b, hb⟩ := getLast?_filter_isSome hmem
    rw [if_pos hmem, hb, Option.isSome_some, if_pos rfl, List.map_filterMap]
    apply List.filterMap_congr
    intro k _
    rw [hlast]
    split_ifs with hk
    · subst hk
      rw [hb]
      simp
    · cases (l.filter fun a => decide (key a = k)).getLast? with
      | none => rfl
      | some v => simp [Ne.symm hk]
  · have hnone : (l.filter fun a => decide (key a = key e)).getLast? = none := by
      rw [List.getLast?_eq_none_iff, List.filter_eq_nil_iff]
      intro a ha hk
      exact hmem (List.mem_map.2 ⟨a, ha, of_decide_eq_true hk⟩)
    rw [if_neg hmem, hnone, List.filterMap_append,
      hother _ (fun h => hmem (mem_firstSeen.1 h))]
    simp

/-- In a log in which every entry wins over those before it, the latest of a key is the last. -/
theorem latestByKey_eq (h : WinsInOrder wins l) : latestByKey wins key l = lastByKey key l := by
  induction l using List.reverseRecOn with
  | nil => rfl
  | append_singleton l e ih =>
    have hl : WinsInOrder wins l := h.sublist (List.sublist_append_left _ _)
    have hfold : latestByKey wins key (l ++ [e]) =
        latestByKeyStep wins key (latestByKey wins key l) e := by simp [latestByKey]
    rw [hfold, ih hl, lastByKey_concat, latestByKeyStep]
    cases hlookup : valueAt (lastByKey key l) (key e) with
    | none => rfl
    | some prev =>
      rw [valueAt_lastByKey] at hlookup
      have hprev : prev ∈ l := List.mem_of_mem_filter (getLast?_mem hlookup)
      have hwins : wins e prev = true :=
        ((List.pairwise_append.1 h.2).2.2 prev hprev e (List.mem_singleton.2 rfl)).1
      simp only
      rw [if_pos hwins]

end Adlc.Framework
