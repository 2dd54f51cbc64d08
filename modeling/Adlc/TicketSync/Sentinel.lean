import Adlc.TicketSync.Block

namespace Adlc.TicketSync

open Adlc.Framework Adlc.Tickets

variable {ν : Type} [JsNumber ν]

/-! ## Line ends -/

theorem normalizeNewlines_crlf (s : JsString) :
    normalizeNewlines (13 :: 10 :: s) = 10 :: normalizeNewlines s := by
  rw [normalizeNewlines, replaceCrlf, if_pos ⟨rfl, rfl⟩]
  rfl

/-- A character that is not the first of two that stand for one line end. -/
theorem normalizeNewlines_cons {c : UInt16} {s : JsString} (h : c = 13 → s.head? ≠ some 10) :
    normalizeNewlines (c :: s) = (if c = 13 then 10 else c) :: normalizeNewlines s := by
  cases s with
  | nil => rfl
  | cons d s =>
    have hnot : ¬(c = 13 ∧ d = 10) := by
      rintro ⟨hc, rfl⟩
      exact h hc rfl
    rw [normalizeNewlines, replaceCrlf, if_neg hnot]
    rfl

/-- Induction over a text, line ends of two characters together. -/
theorem newline_ind {P : JsString → Prop} (nil : P []) (crlf : ∀ s, P s → P (13 :: 10 :: s))
    (cons : ∀ c s, (c = 13 → s.head? ≠ some 10) → P s → P (c :: s)) (s : JsString) : P s := by
  induction hn : s.length using Nat.strongRecOn generalizing s with
  | ind n ih =>
    cases s with
    | nil => exact nil
    | cons c s =>
      rw [List.length_cons] at hn
      by_cases h : c = 13 → s.head? ≠ some 10
      · exact cons c s h (ih s.length (by omega) s rfl)
      · obtain ⟨rfl, h10⟩ := Classical.not_imp.1 h
        cases s with
        | nil => exact absurd (Option.some_ne_none 10).symm h10
        | cons d s =>
          obtain rfl := Option.some.inj (not_not.1 h10)
          rw [List.length_cons] at hn
          exact crlf s (ih s.length (by omega) s rfl)

theorem noReturn_normalizeNewlines (s : JsString) : 13 ∉ normalizeNewlines s := by
  induction s using newline_ind with
  | nil => exact List.not_mem_nil
  | crlf s ih =>
    rw [normalizeNewlines_crlf, List.mem_cons, not_or]
    exact ⟨by decide, ih⟩
  | cons c s h ih =>
    rw [normalizeNewlines_cons h, List.mem_cons, not_or]
    refine ⟨?_, ih⟩
    split_ifs with hc
    · decide
    · exact Ne.symm hc

theorem normalizeNewlines_of_noReturn {s : JsString} (h : 13 ∉ s) : normalizeNewlines s = s := by
  induction s with
  | nil => rfl
  | cons c s ih =>
    rw [List.mem_cons, not_or] at h
    rw [normalizeNewlines_cons fun hc => absurd hc.symm h.1, if_neg (Ne.symm h.1), ih h.2]

theorem length_normalizeNewlines_le (s : JsString) : (normalizeNewlines s).length ≤ s.length := by
  induction s using newline_ind with
  | nil => exact Nat.le_refl _
  | crlf s ih =>
    rw [normalizeNewlines_crlf]
    simp only [List.length_cons]
    omega
  | cons c s h ih =>
    rw [normalizeNewlines_cons h]
    simpa using ih

/-- A character that is no line feed stands in the text as it is. -/
theorem split_of_normalizeNewlines {s x y : JsString} {c : UInt16} (hc : c ≠ 10)
    (h : normalizeNewlines s = x ++ c :: y) :
    ∃ x' y', s = x' ++ c :: y' ∧ normalizeNewlines x' = x ∧ normalizeNewlines y' = y := by
  induction s using newline_ind generalizing x with
  | nil => cases x <;> cases h
  | crlf s ih =>
    rw [normalizeNewlines_crlf] at h
    cases x with
    | nil => exact absurd (List.cons.inj h).1.symm hc
    | cons d x =>
      obtain ⟨rfl, hrest⟩ := List.cons.inj h
      obtain ⟨x', y', rfl, hx, hy⟩ := ih hrest
      exact ⟨13 :: 10 :: x', y', rfl, by rw [normalizeNewlines_crlf, hx], hy⟩
  | cons d s hd ih =>
    rw [normalizeNewlines_cons hd] at h
    cases x with
    | nil =>
      obtain ⟨hhead, hrest⟩ := List.cons.inj h
      split_ifs at hhead with h13
      · exact absurd hhead.symm hc
      · subst hhead
        exact ⟨[], s, rfl, rfl, hrest⟩
    | cons e x =>
      obtain ⟨rfl, hrest⟩ := List.cons.inj h
      obtain ⟨x', y', rfl, hx, hy⟩ := ih hrest
      refine ⟨d :: x', y', rfl, ?_, hy⟩
      rw [normalizeNewlines_cons, hx]
      intro h13 hx10
      refine hd h13 ?_
      cases x' with
      | nil => cases hx10
      | cons f x' => exact hx10

/-! ## What the sentinels match -/

theorem untilArrow_eq_some_iff {s a r : JsString} :
    untilArrow s = some (a, r) ↔ s = a ++ (js "-->" ++ r) ∧ 62 ∉ a := by
  have harrow : js "-->" = [45, 45, 62] := by decide
  induction s generalizing a with
  | nil =>
    rw [untilArrow, harrow]
    simp
  | cons c s ih =>
    rw [untilArrow]
    cases hp : (js "-->").isPrefixOf? (c :: s) with
    | some rest =>
      have hrest := List.isPrefixOf?_eq_some_iff_append_eq.1 hp
      simp only [Option.some.injEq, Prod.mk.injEq]
      constructor
      · rintro ⟨rfl, rfl⟩
        exact ⟨hrest.symm, List.not_mem_nil⟩
      · rintro ⟨heq, ha⟩
        rw [← hrest, harrow] at heq
        cases a with
        | nil => exact ⟨rfl, List.append_cancel_left heq⟩
        | cons x a =>
          cases a with
          | nil => simp at heq
          | cons y a =>
            cases a with
            | nil => simp at heq
            | cons z a =>
              simp only [List.cons_append, List.nil_append, List.cons.injEq] at heq
              obtain ⟨-, -, rfl, -⟩ := heq
              simp at ha
    | none =>
      have hnot : ∀ r, js "-->" ++ r ≠ c :: s := by
        intro r hr
        rw [List.isPrefixOf?_eq_some_iff_append_eq.2 hr] at hp
        cases hp
      by_cases hc : c = 62
      · subst hc
        rw [if_pos rfl]
        constructor
        · intro h
          cases h
        · rintro ⟨heq, ha⟩
          cases a with
          | nil => exact absurd heq.symm (hnot r)
          | cons x a =>
            obtain ⟨rfl, -⟩ := List.cons.inj heq
            exact absurd List.mem_cons_self ha
      · simp only [if_neg hc, Option.map_eq_some_iff, Prod.exists, Prod.mk.injEq]
        constructor
        · rintro ⟨a', r', h, rfl, rfl⟩
          obtain ⟨rfl, ha⟩ := ih.1 h
          exact ⟨rfl, by simp [ha, Ne.symm hc]⟩
        · rintro ⟨heq, ha⟩
          cases a with
          | nil => exact absurd heq.symm (hnot r)
          | cons x a =>
            obtain ⟨rfl, rfl⟩ := List.cons.inj heq
            exact ⟨a, r, ih.2 ⟨rfl, fun h => ha (List.mem_cons_of_mem _ h)⟩, rfl, rfl⟩

theorem isPrefixOf?_append (p s : JsString) : p.isPrefixOf? (p ++ s) = some s :=
  List.isPrefixOf?_eq_some_iff_append_eq.2 rfl

theorem beginSentinel_eq_some_iff {s a r : JsString} :
    beginSentinel s = some (a, r) ↔ ∃ w, Blank w ∧ 62 ∉ a ∧
      boundaryBefore (a ++ (js "-->" ++ r)) = true ∧
      s = js "<!--" ++ (w ++ (js "adlc:begin" ++ (a ++ (js "-->" ++ r)))) := by
  have hbegin : ∃ t, js "adlc:begin" = 97 :: t := ⟨js "dlc:begin", by decide⟩
  obtain ⟨t, ht⟩ := hbegin
  constructor
  · intro h
    unfold beginSentinel at h
    split at h
    · cases h
    · rename_i s1 h1
      split at h
      · cases h
      · rename_i s2 h2
        split_ifs at h with hb
        obtain ⟨rfl, ha⟩ := untilArrow_eq_some_iff.1 h
        refine ⟨s1.takeWhile isTrimmed, blank_takeWhile _, ha, hb, ?_⟩
        rw [← List.isPrefixOf?_eq_some_iff_append_eq.1 h1,
          List.isPrefixOf?_eq_some_iff_append_eq.1 h2, List.takeWhile_append_dropWhile]
  · rintro ⟨w, hw, ha, hb, rfl⟩
    unfold beginSentinel
    rw [isPrefixOf?_append]
    simp only
    have hdrop := dropWhile_blank hw (show isTrimmed 97 = false by decide)
      (t ++ (a ++ (js "-->" ++ r)))
    rw [← List.cons_append, ← ht] at hdrop
    rw [hdrop, isPrefixOf?_append]
    simp only
    rw [if_pos hb]
    exact untilArrow_eq_some_iff.2 ⟨rfl, ha⟩

theorem endSentinel_eq_some_iff {s r : JsString} {x : Unit} :
    endSentinel s = some (x, r) ↔ ∃ w w', Blank w ∧ Blank w' ∧
      s = js "<!--" ++ (w ++ (js "adlc:end" ++ (w' ++ (js "-->" ++ r)))) := by
  obtain ⟨t, ht⟩ : ∃ t, js "adlc:end" = 97 :: t := ⟨js "dlc:end", by decide⟩
  obtain ⟨t', ht'⟩ : ∃ t, js "-->" = 45 :: t := ⟨js "->", by decide⟩
  constructor
  · intro h
    unfold endSentinel at h
    split at h
    · cases h
    · rename_i s1 h1
      split at h
      · cases h
      · rename_i s2 h2
        obtain ⟨rest, h3, heq⟩ := Option.map_eq_some_iff.1 h
        obtain ⟨-, rfl⟩ := Prod.mk.inj heq
        refine ⟨s1.takeWhile isTrimmed, s2.takeWhile isTrimmed, blank_takeWhile _,
          blank_takeWhile _, ?_⟩
        rw [← List.isPrefixOf?_eq_some_iff_append_eq.1 h1,
          List.isPrefixOf?_eq_some_iff_append_eq.1 h3, List.takeWhile_append_dropWhile,
          List.isPrefixOf?_eq_some_iff_append_eq.1 h2, List.takeWhile_append_dropWhile]
  · rintro ⟨w, w', hw, hw', rfl⟩
    have hdrop := dropWhile_blank hw (show isTrimmed 97 = false by decide)
      (t ++ (w' ++ (js "-->" ++ r)))
    have hdrop' := dropWhile_blank hw' (show isTrimmed 45 = false by decide) (t' ++ r)
    rw [← List.cons_append, ← ht] at hdrop
    rw [← List.cons_append, ← ht'] at hdrop'
    unfold endSentinel
    rw [isPrefixOf?_append]
    simp only
    rw [hdrop, isPrefixOf?_append]
    simp only
    rw [hdrop', isPrefixOf?_append]
    rfl

/-- A pattern whose match ends at the first `>` of the text, whatever follows it. -/
structure EndsAtArrow {β : Type} (m : Pattern UInt16 β) : Prop where
  opens : ∀ c s, c ≠ 60 → m (c :: s) = none
  ends : ∀ s x r, m s = some (x, r) → ∃ p, 62 ∉ p ∧ s = p ++ 62 :: r
  same : ∀ p x r r', 62 ∉ p → m (p ++ 62 :: r) = some (x, r) → m (p ++ 62 :: r') = some (x, r')

theorem not_arrow_blank {w : JsString} (hw : Blank w) : 62 ∉ w := by
  intro h
  have h62 := hw 62 h
  revert h62
  decide

theorem prefix_opens (c : UInt16) (s : JsString) (h : c ≠ 60) :
    (js "<!--").isPrefixOf? (c :: s) = none := by
  have hopen : js "<!--" = [60, 33, 45, 45] := by decide
  rw [hopen, List.isPrefixOf?, if_neg (by simpa using Ne.symm h)]

theorem beginSentinel_endsAtArrow : EndsAtArrow beginSentinel where
  opens c s h := by
    rw [beginSentinel, prefix_opens c s h]
  ends s a r h := by
    obtain ⟨w, hw, ha, -, rfl⟩ := beginSentinel_eq_some_iff.1 h
    have harrow : js "-->" = js "--" ++ [62] := by decide
    refine ⟨js "<!--" ++ (w ++ (js "adlc:begin" ++ (a ++ js "--"))), ?_, by simp [harrow]⟩
    have h1 : 62 ∉ js "<!--" := by decide
    have h2 : 62 ∉ js "adlc:begin" := by decide
    have h3 : 62 ∉ js "--" := by decide
    simp [h1, h2, h3, ha, not_arrow_blank hw]
  same p a r r' hp h := by
    obtain ⟨w, hw, ha, hb, heq⟩ := beginSentinel_eq_some_iff.1 h
    have harrow : js "-->" = js "--" ++ [62] := by decide
    have hsplit : p = js "<!--" ++ (w ++ (js "adlc:begin" ++ (a ++ js "--"))) := by
      refine (List.append_left_inj (62 :: r)).1 ?_
      rw [heq]
      simp [harrow]
    refine beginSentinel_eq_some_iff.2 ⟨w, hw, ha, ?_, ?_⟩
    · cases a <;> exact hb
    · rw [hsplit]
      simp [harrow]

theorem endSentinel_endsAtArrow : EndsAtArrow endSentinel where
  opens c s h := by
    rw [endSentinel, prefix_opens c s h]
  ends s x r h := by
    obtain ⟨w, w', hw, hw', rfl⟩ := endSentinel_eq_some_iff.1 h
    have harrow : js "-->" = js "--" ++ [62] := by decide
    refine ⟨js "<!--" ++ (w ++ (js "adlc:end" ++ (w' ++ js "--"))), ?_, by simp [harrow]⟩
    have h1 : 62 ∉ js "<!--" := by decide
    have h2 : 62 ∉ js "adlc:end" := by decide
    have h3 : 62 ∉ js "--" := by decide
    simp [h1, h2, h3, not_arrow_blank hw, not_arrow_blank hw']
  same p x r r' hp h := by
    obtain ⟨w, w', hw, hw', heq⟩ := endSentinel_eq_some_iff.1 h
    have harrow : js "-->" = js "--" ++ [62] := by decide
    have hsplit : p = js "<!--" ++ (w ++ (js "adlc:end" ++ (w' ++ js "--"))) := by
      refine (List.append_left_inj (62 :: r)).1 ?_
      rw [heq]
      simp [harrow]
    refine endSentinel_eq_some_iff.2 ⟨w, w', hw, hw', ?_⟩
    rw [hsplit]
    simp [harrow]

section Arrow

variable {β : Type} {m : Pattern UInt16 β}

/-- Two texts that go on from the same place: one of them holds what the other has more. -/
theorem EndsAtArrow.cut (h : EndsAtArrow m) {s t : JsString} (ht : 62 ∈ s) {x : β} {r : JsString}
    (hm : m (s ++ t) = some (x, r)) : ∃ r', r = r' ++ t ∧ m s = some (x, r') := by
  obtain ⟨p, hp, heq⟩ := h.ends _ _ _ hm
  rcases List.append_eq_append_iff.1 heq with ⟨q, rfl, -⟩ | ⟨q, rfl, hq⟩
  · exact absurd (List.mem_append_left _ ht) hp
  · cases q with
    | nil =>
      rw [List.append_nil] at ht
      exact absurd ht hp
    | cons c q =>
      obtain ⟨rfl, rfl⟩ := List.cons.inj hq
      refine ⟨q, rfl, ?_⟩
      rw [List.append_assoc] at hm
      exact h.same p x _ q hp hm

theorem EndsAtArrow.isNone_append (h : EndsAtArrow m) {s : JsString} (ht : 62 ∈ s) (t : JsString) :
    (m (s ++ t)).isNone = (m s).isNone := by
  cases hm : m (s ++ t) with
  | some p =>
    obtain ⟨r', -, hs⟩ := h.cut ht hm
    rw [hs]
    rfl
  | none =>
    cases hs : m s with
    | none => rfl
    | some q =>
      obtain ⟨x, r⟩ := q
      obtain ⟨p, hp, rfl⟩ := h.ends _ _ _ hs
      have hsame := h.same p x r (r ++ t) hp hs
      rw [List.append_assoc, List.cons_append] at hm
      rw [hm] at hsame
      cases hsame

/-- What follows a `>` does not count. -/
theorem EndsAtArrow.noneStart_append (h : EndsAtArrow m) {o : JsString} (ho : 62 ∈ o)
    (s t : JsString) : noneStart m s (o ++ t) = noneStart m s o := by
  induction s with
  | nil => rfl
  | cons c s ih =>
    have hmem : 62 ∈ c :: (s ++ o) := List.mem_cons_of_mem _ (List.mem_append_right _ ho)
    have hone := h.isNone_append hmem t
    rw [List.cons_append, List.append_assoc] at hone
    rw [noneStart, noneStart, hone, ih]

theorem EndsAtArrow.consumes (h : EndsAtArrow m) : Consumes m := by
  intro s x r hm
  obtain ⟨p, -, rfl⟩ := h.ends s x r hm
  exact ⟨p ++ [62], by simp, by simp⟩

theorem EndsAtArrow.noneStart (h : EndsAtArrow m) {s : JsString} (hs : 60 ∉ s) (t : JsString) :
    noneStart m s t = true :=
  noneStart_of_head (fun c hc r => h.opens c r fun h60 => hs (h60 ▸ hc)) t

end Arrow

/-- An end sentinel does not run into a `<`. -/
theorem endSentinel_ends {s t : JsString} (hs : s ≠ []) {x : Unit} {r : JsString}
    (h : endSentinel (s ++ 60 :: t) = some (x, r)) : ∃ r', r = r' ++ 60 :: t := by
  obtain ⟨w, w', hw, hw', heq⟩ := endSentinel_eq_some_iff.1 h
  have hopen : js "<!--" = 60 :: js "!--" := by decide
  have hno : 60 ∉ js "!--" ++ (w ++ (js "adlc:end" ++ (w' ++ js "-->"))) := by
    have h1 : 60 ∉ js "!--" := by decide
    have h2 : 60 ∉ js "adlc:end" := by decide
    have h3 : 60 ∉ js "-->" := by decide
    have hblank : ∀ w, Blank w → 60 ∉ w := by
      intro w hw hmem
      have h60 := hw 60 hmem
      revert h60
      decide
    simp [h1, h2, h3, hblank w hw, hblank w' hw']
  cases s with
  | nil => exact absurd rfl hs
  | cons c s =>
    rw [hopen, List.cons_append, List.cons_append] at heq
    obtain ⟨-, hrest⟩ := List.cons.inj heq
    have hassoc : s ++ 60 :: t = (js "!--" ++ (w ++ (js "adlc:end" ++ (w' ++ js "-->")))) ++ r := by
      rw [hrest]
      simp
    rcases List.append_eq_append_iff.1 hassoc with ⟨q, hq, hr⟩ | ⟨q, rfl, hr⟩
    · cases q with
      | nil => exact ⟨[], by simpa using hr.symm⟩
      | cons d q =>
        obtain ⟨rfl, -⟩ := List.cons.inj hr
        rw [hq] at hno
        simp at hno
    · exact ⟨q, hr⟩

end Adlc.TicketSync
