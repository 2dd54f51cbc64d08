import Mathlib.Data.List.Infix
import Mathlib.Data.List.TakeDrop

namespace Adlc.Framework

/-! All the matches of a pattern in a text, from left to right and none within another. -/

/-- What the pattern captures at the head of a text, and the text after the match. -/
abbrev Pattern (α β : Type) := List α → Option (β × List α)

/-- A match: where it starts, where the text after it starts, and what it captures. -/
structure Match (β : Type) where
  index : Nat
  stop : Nat
  groups : β

variable {α β : Type}

/-- The matches from `index` on, after `skip` characters that belong to the match before. -/
def scan (m : Pattern α β) : Nat → Nat → List α → List (Match β)
  | _, _, [] => []
  | index, skip + 1, _ :: s => scan m (index + 1) skip s
  | index, 0, c :: s =>
    match m (c :: s) with
    | none => scan m (index + 1) 0 s
    | some (groups, rest) =>
      ⟨index, index + 1 + (s.length - rest.length), groups⟩ ::
        scan m (index + 1) (s.length - rest.length) s

/-- No match starts in `s`, when `t` follows it. -/
def noneStart (m : Pattern α β) : List α → List α → Bool
  | [], _ => true
  | c :: s, t => (m (c :: (s ++ t))).isNone && noneStart m s t

/-- A match is never empty. -/
def Consumes (m : Pattern α β) : Prop :=
  ∀ s x r, m s = some (x, r) → ∃ p, p ≠ [] ∧ s = p ++ r

variable {m : Pattern α β}

theorem scan_nil (index skip : Nat) : scan m index skip [] = [] := by
  cases skip <;> rfl

theorem scan_inMatch (index skip : Nat) (c : α) (s : List α) :
    scan m index (skip + 1) (c :: s) = scan m (index + 1) skip s := rfl

theorem scan_cons (index : Nat) (c : α) (s : List α) :
    scan m index 0 (c :: s) =
      match m (c :: s) with
      | none => scan m (index + 1) 0 s
      | some (groups, rest) =>
        ⟨index, index + 1 + (s.length - rest.length), groups⟩ ::
          scan m (index + 1) (s.length - rest.length) s := rfl

theorem noneStart_cons (c : α) (s t : List α) :
    noneStart m (c :: s) t = ((m (c :: (s ++ t))).isNone && noneStart m s t) := rfl

theorem noneStart_append (s u t : List α) :
    noneStart m (s ++ u) t = (noneStart m s (u ++ t) && noneStart m u t) := by
  induction s with
  | nil => rfl
  | cons c s ih =>
    rw [List.cons_append, noneStart_cons, noneStart_cons, ih, List.append_assoc, Bool.and_assoc]

/-- The pattern matches no text that begins with a character of `s`. -/
theorem noneStart_of_head {s : List α} (h : ∀ c ∈ s, ∀ r, m (c :: r) = none) (t : List α) :
    noneStart m s t = true := by
  induction s with
  | nil => rfl
  | cons c s ih =>
    rw [noneStart_cons, h c List.mem_cons_self, ih fun d hd => h d (List.mem_cons_of_mem c hd)]
    rfl

theorem scan_skip (s t : List α) (index : Nat) :
    scan m index s.length (s ++ t) = scan m (index + s.length) 0 t := by
  induction s generalizing index with
  | nil => rfl
  | cons c s ih =>
    rw [List.cons_append, List.length_cons, scan_inMatch, ih]
    congr 1
    omega

theorem scan_noneStart {s t : List α} (h : noneStart m s t = true) (index : Nat) :
    scan m index 0 (s ++ t) = scan m (index + s.length) 0 t := by
  induction s generalizing index with
  | nil => rfl
  | cons c s ih =>
    rw [noneStart_cons, Bool.and_eq_true, Option.isNone_iff_eq_none] at h
    have hcomm : index + 1 + s.length = index + (s.length + 1) := by omega
    rw [List.cons_append, scan_cons, h.1]
    simp only [ih h.2, List.length_cons, hcomm]

/-- A match at the head, and the matches after it. -/
theorem scan_match {p t : List α} {x : β} (hp : p ≠ []) (h : m (p ++ t) = some (x, t))
    (index : Nat) : scan m index 0 (p ++ t) =
      ⟨index, index + p.length, x⟩ :: scan m (index + p.length) 0 t := by
  cases p with
  | nil => exact absurd rfl hp
  | cons c p =>
    have hlength : (p ++ t).length - t.length = p.length := by
      rw [List.length_append]
      omega
    rw [List.cons_append] at h ⊢
    rw [scan_cons, h]
    simp only [hlength, scan_skip, List.length_cons]
    have hcomm : index + 1 + p.length = index + (p.length + 1) := by omega
    rw [hcomm]

theorem scan_eq_nil_iff {s : List α} {index : Nat} :
    scan m index 0 s = [] ↔ noneStart m s [] = true := by
  induction s generalizing index with
  | nil => exact ⟨fun _ => rfl, fun _ => rfl⟩
  | cons c s ih =>
    rw [scan_cons, noneStart_cons, List.append_nil, Bool.and_eq_true, Option.isNone_iff_eq_none]
    cases hm : m (c :: s) with
    | none => simpa using ih
    | some p => simp

theorem le_index_of_mem_scan {s : List α} {index skip : Nat} {x : Match β}
    (h : x ∈ scan m index skip s) : index ≤ x.index := by
  induction s generalizing index skip with
  | nil =>
    rw [scan_nil] at h
    cases h
  | cons c s ih =>
    cases skip with
    | succ skip =>
      rw [scan_inMatch] at h
      have hle := ih h
      omega
    | zero =>
      rw [scan_cons] at h
      cases hm : m (c :: s) with
      | none =>
        rw [hm] at h
        have hle := ih h
        omega
      | some p =>
        rw [hm] at h
        rcases List.mem_cons.1 h with rfl | h
        · exact Nat.le_refl _
        · have hle := ih h
          omega

/-- A match is one that the pattern makes at its place. -/
theorem mem_scan (hc : Consumes m) {s : List α} {index skip : Nat} {x : Match β}
    (h : x ∈ scan m index skip s) : ∃ u p t, s = u ++ (p ++ t) ∧ x.index = index + u.length ∧
      x.stop = x.index + p.length ∧ m (p ++ t) = some (x.groups, t) := by
  induction s generalizing index skip with
  | nil =>
    rw [scan_nil] at h
    cases h
  | cons c s ih =>
    have later : ∀ skip, x ∈ scan m (index + 1) skip s → ∃ u p t, c :: s = u ++ (p ++ t) ∧
        x.index = index + u.length ∧ x.stop = x.index + p.length ∧
        m (p ++ t) = some (x.groups, t) := by
      intro skip hx
      obtain ⟨u, p, t, rfl, hindex, hrest⟩ := ih hx
      refine ⟨c :: u, p, t, rfl, ?_, hrest⟩
      rw [hindex, List.length_cons]
      omega
    cases skip with
    | succ skip =>
      rw [scan_inMatch] at h
      exact later skip h
    | zero =>
      rw [scan_cons] at h
      cases hm : m (c :: s) with
      | none =>
        rw [hm] at h
        exact later 0 h
      | some q =>
        obtain ⟨groups, rest⟩ := q
        rw [hm] at h
        rcases List.mem_cons.1 h with rfl | h
        · obtain ⟨p, hp, hs⟩ := hc _ _ _ hm
          refine ⟨[], p, rest, hs, rfl, ?_, by rwa [← hs]⟩
          have hlength := congrArg List.length hs
          have hpos := List.length_pos_iff.2 hp
          rw [List.length_cons, List.length_append] at hlength
          simp only
          omega
        · exact later _ h

/-- When the first match starts after `s`, none starts in it. -/
theorem noneStart_of_scan {s t : List α} {index : Nat} {x : Match β} {xs : List (Match β)}
    (h : scan m index 0 (s ++ t) = x :: xs) (hx : x.index = index + s.length) :
    noneStart m s t = true := by
  induction s generalizing index with
  | nil => rfl
  | cons c s ih =>
    rw [List.cons_append, scan_cons] at h
    rw [List.length_cons] at hx
    cases hm : m (c :: (s ++ t)) with
    | some p =>
      rw [hm] at h
      obtain ⟨rfl, -⟩ := List.cons.inj h
      simp only at hx
      omega
    | none =>
      rw [hm] at h
      rw [noneStart_cons, hm, ih h (by omega)]
      rfl

/-- The matches that start in `s` come before those of the text after it, when each of them ends
in `s`. -/
theorem scan_append_of_ends {t : List α} (hc : Consumes m)
    (h : ∀ s x r, s ≠ [] → m (s ++ t) = some (x, r) → ∃ r', r = r' ++ t) (s : List α) (index : Nat) :
    ∃ xs, scan m index 0 (s ++ t) = xs ++ scan m (index + s.length) 0 t ∧
      (xs = [] → noneStart m s t = true) := by
  induction hn : s.length using Nat.strongRecOn generalizing s index with
  | ind n ih =>
    cases s with
    | nil =>
      subst hn
      exact ⟨[], rfl, fun _ => rfl⟩
    | cons c s =>
      rw [List.length_cons] at hn
      cases hm : m (c :: (s ++ t)) with
      | none =>
        obtain ⟨xs, hscan, hnone⟩ := ih s.length (by omega) s (index + 1) rfl
        refine ⟨xs, ?_, ?_⟩
        · rw [List.cons_append, scan_cons, hm]
          simp only [hscan, ← hn]
          congr 2
          omega
        · intro hxs
          rw [noneStart_cons, hm, hnone hxs]
          rfl
      | some p =>
        obtain ⟨x, r⟩ := p
        obtain ⟨r', rfl⟩ := h (c :: s) x r (List.cons_ne_nil _ _) hm
        obtain ⟨p, hp, hs⟩ := hc _ _ _ hm
        rw [← List.append_assoc] at hs
        have hsplit : c :: s = p ++ r' := List.append_cancel_right hs
        obtain ⟨xs, hscan, -⟩ := ih r'.length (by
          have hlength := congrArg List.length hsplit
          rw [List.length_append, List.length_cons] at hlength
          have hpos := List.length_pos_iff.2 hp
          omega) r' (index + p.length) rfl
        refine ⟨⟨index, index + p.length, x⟩ :: xs, ?_, by simp⟩
        rw [hsplit, List.append_assoc, scan_match hp (by rwa [← List.append_assoc, ← hsplit]), hscan,
          List.cons_append, ← hn, ← List.length_cons, hsplit, List.length_append]
        congr 3
        omega

end Adlc.Framework
