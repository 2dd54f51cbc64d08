import Adlc.Framework.CutText

namespace Adlc.Framework

/-! Texts in which spans are replaced, and texts with fenced parts. -/

/-! ## Replaced spans -/

/-- `String.prototype.replace` with a global pattern: `find` looks for a match that begins here, after
this unit, and says how many further units it has. -/
def replaceFrom (find : Option UInt16 → JsString → Option Nat) (rewrite : JsString → JsString) :
    Option UInt16 → Nat → JsString → JsString
  | _, _, [] => []
  | _, skip + 1, c :: rest => replaceFrom find rewrite (some c) skip rest
  | before, 0, c :: rest =>
    match find before (c :: rest) with
    | some more => rewrite ((c :: rest).take (more + 1)) ++ replaceFrom find rewrite (some c) more rest
    | none => c :: replaceFrom find rewrite (some c) 0 rest

def replaceMatches (find : Option UInt16 → JsString → Option Nat) (rewrite : JsString → JsString)
    (text : JsString) : JsString := replaceFrom find rewrite none 0 text

/-- Where this text begins here. -/
def findText (needle : JsString) (_ : Option UInt16) (text : JsString) : Option Nat :=
  if needle.isPrefixOf text then some (needle.length - 1) else none

/-- `text.split(needle).join(by)` -/
def replaceAll (needle by_ text : JsString) : JsString :=
  replaceMatches (findText needle) (fun _ => by_) text

/-- Spans of the first text are replaced in the second one. -/
inductive Replaced (R : JsString → Prop) : JsString → JsString → Prop where
  | nil : Replaced R [] []
  | keep {s t : JsString} (c : UInt16) : Replaced R s t → Replaced R (c :: s) (c :: t)
  | cut {s t r : JsString} (span : JsString) : R r → Replaced R s t → Replaced R (span ++ s) (r ++ t)

variable {R : JsString → Prop} {s t u v : JsString}

theorem Replaced.refl (R : JsString → Prop) (s : JsString) : Replaced R s s := by
  induction s with
  | nil => exact .nil
  | cons c s ih => exact .keep c ih

theorem Replaced.append (h : Replaced R s t) (h' : Replaced R u v) : Replaced R (s ++ u) (t ++ v) := by
  induction h with
  | nil => exact h'
  | keep c _ ih => exact .keep c ih
  | cut span hr _ ih =>
    rw [List.append_assoc, List.append_assoc]
    exact .cut span hr ih

theorem Replaced.single (span : JsString) {r : JsString} (hr : R r) : Replaced R span r := by
  have hcut := Replaced.cut span hr (Replaced.nil (R := R))
  rwa [List.append_nil, List.append_nil] at hcut

theorem replaceFrom_replaced {find : Option UInt16 → JsString → Option Nat}
    {rewrite : JsString → JsString} (hrewrite : ∀ span, Replaced R span (rewrite span))
    (before : Option UInt16) (skip : Nat) (text : JsString) :
    Replaced R (text.drop skip) (replaceFrom find rewrite before skip text) := by
  induction text generalizing before skip with
  | nil =>
    rw [List.drop_nil, replaceFrom]
    exact .nil
  | cons c rest ih =>
    cases skip with
    | succ skip =>
      rw [List.drop_succ_cons, replaceFrom]
      exact ih _ _
    | zero =>
      rw [List.drop_zero, replaceFrom]
      cases find before (c :: rest) with
      | none => exact .keep c (ih _ 0)
      | some more =>
        have hsplit : c :: rest = (c :: rest).take (more + 1) ++ rest.drop more := by
          rw [← List.drop_succ_cons, List.take_append_drop]
        conv_lhs => rw [hsplit]
        exact (hrewrite _).append (ih _ _)

theorem replaceMatches_replaced {find : Option UInt16 → JsString → Option Nat}
    {rewrite : JsString → JsString} (hrewrite : ∀ span, Replaced R span (rewrite span))
    (text : JsString) : Replaced R text (replaceMatches find rewrite text) :=
  replaceFrom_replaced hrewrite none 0 text

theorem replaceAll_replaced {needle by_ : JsString} (hby : R by_) (text : JsString) :
    Replaced R text (replaceAll needle by_ text) :=
  replaceMatches_replaced (fun span => .single span hby) text

/-! ## Markers -/

/-- A marker cannot come about at this replacement: it holds neither the first nor the last unit of it,
and does not stand in it. -/
structure Inert (marker r : JsString) : Prop where
  head : ∀ c ∈ r.head?, c ∉ marker
  last : ∀ c ∈ r.getLast?, c ∉ marker
  absent : ¬marker <:+: r
  ne_nil : r ≠ []

variable {marker : JsString}

theorem Replaced.prefix_of (h : Replaced R s t) (hinert : ∀ r, R r → Inert marker r) {m : JsString}
    (hm : ∀ c ∈ m, c ∈ marker) (hstart : m <+: t) : m <+: s := by
  induction h generalizing m with
  | nil => exact hstart
  | keep c _ ih =>
    cases m with
    | nil => exact List.nil_prefix
    | cons d m =>
      obtain ⟨rfl, hrest⟩ := List.cons_prefix_cons.mp hstart
      exact List.cons_prefix_cons.mpr ⟨rfl, ih (fun c hc => hm c (List.mem_cons_of_mem _ hc)) hrest⟩
  | @cut s t r span hr _ ih =>
    cases m with
    | nil => exact List.nil_prefix
    | cons d m =>
      obtain ⟨c, r', rfl⟩ := List.exists_cons_of_ne_nil (hinert r hr).ne_nil
      obtain ⟨rfl, -⟩ := List.cons_prefix_cons.mp hstart
      exact absurd (hm d List.mem_cons_self) ((hinert _ hr).head d rfl)

/-- A marker that stands neither in the first part nor over its end stands in the second one. -/
theorem infix_right {a b : JsString} (hlast : ∀ c ∈ a.getLast?, c ∉ marker)
    (habsent : ¬marker <:+: a) (h : marker <:+: a ++ b) : marker <:+: b := by
  induction a with
  | nil => exact h
  | cons c a ih =>
    obtain hstart | hrest := List.infix_cons_iff.mp h
    · exfalso
      obtain hshort | hlong := Nat.le_total marker.length (c :: a).length
      · exact habsent (List.prefix_of_prefix_length_le hstart (List.prefix_append _ _) hshort).isInfix
      · have hpart : c :: a <+: marker :=
          List.prefix_of_prefix_length_le (List.prefix_append (c :: a) b) hstart hlong
        have hmem := List.getLast_mem (List.cons_ne_nil c a)
        exact hlast _ (List.getLast?_eq_getLast_of_ne_nil (List.cons_ne_nil c a)) (hpart.subset hmem)
    · apply ih _ (fun ha => habsent (ha.trans (List.suffix_cons c a).isInfix)) hrest
      intro d hd
      apply hlast
      cases a with
      | nil => cases hd
      | cons e a => rwa [List.getLast?_cons_cons]

/-- Replacements bring about no marker. -/
theorem Replaced.infix_of (h : Replaced R s t) (hinert : ∀ r, R r → Inert marker r)
    (hinner : marker <:+: t) : marker <:+: s := by
  induction h with
  | nil => exact hinner
  | keep c hrest ih =>
    obtain hstart | hlater := List.infix_cons_iff.mp hinner
    · exact ((Replaced.keep c hrest).prefix_of hinert (fun _ hd => hd) hstart).isInfix
    · exact (ih hlater).trans (List.suffix_cons _ _).isInfix
  | cut span hr _ ih =>
    have hlater := infix_right (hinert _ hr).last (hinert _ hr).absent hinner
    exact (ih hlater).trans (List.suffix_append _ _).isInfix

theorem replaceFrom_absent {by_ : JsString} (hinert : Inert marker by_) (hne : marker ≠ [])
    (before : Option UInt16) (skip : Nat) (text : JsString) :
    ¬marker <:+: replaceFrom (findText marker) (fun _ => by_) before skip text := by
  induction text generalizing before skip with
  | nil =>
    rw [replaceFrom, List.infix_nil]
    exact hne
  | cons c rest ih =>
    cases skip with
    | succ skip =>
      rw [replaceFrom]
      exact ih _ _
    | zero =>
      rw [replaceFrom, findText]
      by_cases hstart : marker.isPrefixOf (c :: rest) = true
      · rw [if_pos hstart]
        intro hinner
        exact ih _ _ (infix_right hinert.last hinert.absent hinner)
      · rw [if_neg hstart]
        intro hinner
        obtain hhere | hlater := List.infix_cons_iff.mp hinner
        · have hreplaced : Replaced (· = by_) (c :: rest)
              (c :: replaceFrom (findText marker) (fun _ => by_) (some c) 0 rest) := by
            apply Replaced.keep
            exact @replaceFrom_replaced (· = by_) (findText marker) (fun _ => by_)
              (fun span => .single span rfl) (some c) 0 rest
          apply hstart
          rw [List.isPrefixOf_iff_prefix]
          apply hreplaced.prefix_of _ (fun _ hd => hd) hhere
          rintro r rfl
          exact hinert
        · exact ih _ _ hlater

/-- What is split off at a marker and joined again has no marker. -/
theorem replaceAll_absent {by_ : JsString} (hinert : Inert marker by_) (hne : marker ≠ [])
    (text : JsString) : ¬marker <:+: replaceAll marker by_ text :=
  replaceFrom_absent hinert hne none 0 text

theorem replaceFrom_none {rewrite : JsString → JsString} {find : Option UInt16 → JsString → Option Nat}
    {text : JsString} (h : ∀ before rest, rest <:+ text → find before rest = none)
    (before : Option UInt16) : replaceFrom find rewrite before 0 text = text := by
  induction text generalizing before with
  | nil => rfl
  | cons c rest ih =>
    rw [replaceFrom, h _ _ (List.suffix_refl _)]
    dsimp only
    rw [ih fun before t ht => h before t (ht.trans (List.suffix_cons c rest))]

theorem replaceAll_of_absent {by_ text : JsString} (h : ¬marker <:+: text) :
    replaceAll marker by_ text = text := by
  apply replaceFrom_none
  intro before rest hrest
  rw [findText, if_neg]
  intro hstart
  exact h ((List.isPrefixOf_iff_prefix.mp hstart).isInfix.trans hrest.isInfix)

/-! ## Fences -/

/-- The markers that open and close a fenced part. -/
structure Fence where
  opening : JsString
  closing : JsString
  opening_ne : opening ≠ []
  closing_ne : closing ≠ []
  apart : ¬closing <:+: opening ∧ ¬opening <:+: closing

namespace Fence

variable (fence : Fence)

/-- Whether the text ends in a fenced part, and the text without what is inside the fences; nothing where
a marker stands where it cannot. -/
def scan : Bool → Nat → JsString → Option (Bool × JsString)
  | inside, _, [] => some (inside, [])
  | inside, skip + 1, c :: rest => (scan inside skip rest).map fun r => (r.1, c :: r.2)
  | false, 0, c :: rest =>
    if fence.opening.isPrefixOf (c :: rest) then
      (scan true (fence.opening.length - 1) rest).map fun r => (r.1, c :: r.2)
    else if fence.closing.isPrefixOf (c :: rest) then none
    else (scan false 0 rest).map fun r => (r.1, c :: r.2)
  | true, 0, c :: rest =>
    if fence.closing.isPrefixOf (c :: rest) then
      (scan false (fence.closing.length - 1) rest).map fun r => (r.1, c :: r.2)
    else if fence.opening.isPrefixOf (c :: rest) then none
    else scan true 0 rest

theorem scan_nil (inside : Bool) (skip : Nat) : fence.scan inside skip [] = some (inside, []) := by
  cases inside <;> rfl

theorem scan_inMarker (inside : Bool) (skip : Nat) (c : UInt16) (rest : JsString) :
    fence.scan inside (skip + 1) (c :: rest) =
      (fence.scan inside skip rest).map fun r => (r.1, c :: r.2) := by
  cases inside <;> rfl

theorem scan_false_cons (c : UInt16) (rest : JsString) :
    fence.scan false 0 (c :: rest) =
      if fence.opening.isPrefixOf (c :: rest) then
        (fence.scan true (fence.opening.length - 1) rest).map fun r => (r.1, c :: r.2)
      else if fence.closing.isPrefixOf (c :: rest) then none
      else (fence.scan false 0 rest).map fun r => (r.1, c :: r.2) := rfl

theorem scan_true_cons (c : UInt16) (rest : JsString) :
    fence.scan true 0 (c :: rest) =
      if fence.closing.isPrefixOf (c :: rest) then
        (fence.scan false (fence.closing.length - 1) rest).map fun r => (r.1, c :: r.2)
      else if fence.opening.isPrefixOf (c :: rest) then none
      else fence.scan true 0 rest := rfl

/-- The text without what is inside its fences, where all of them are closed. -/
def unfenced (text : JsString) : Option JsString :=
  match fence.scan false 0 text with
  | some (false, shown) => some shown
  | _ => none

def wrap (body : JsString) : JsString := fence.opening ++ [10] ++ body ++ [10] ++ fence.closing

/-- No marker stands in the text. -/
structure Free (text : JsString) : Prop where
  opening : ¬fence.opening <:+: text
  closing : ¬fence.closing <:+: text

/-- The unit is in no marker. -/
structure Separates (c : UInt16) : Prop where
  opening : c ∉ fence.opening
  closing : c ∉ fence.closing

/-- No marker begins in the first text when the second one follows. -/
def Clear (a b : JsString) : Prop :=
  ∀ u v, a = u ++ v → v ≠ [] → ¬fence.opening <+: v ++ b ∧ ¬fence.closing <+: v ++ b

end Fence

/-- A marker at the start of the text is all in its first part, or begins with all of it. -/
theorem prefix_append_cases {a b : JsString} (h : marker <+: a ++ b) :
    marker <+: a ∨ ∃ c w, marker = a ++ c :: w ∧ b.head? = some c := by
  obtain hshort | hlong := Nat.lt_or_ge a.length marker.length
  · right
    obtain ⟨rest, hrest⟩ :=
      List.prefix_of_prefix_length_le (List.prefix_append a b) h (Nat.le_of_lt hshort)
    cases rest with
    | nil =>
      rw [← hrest, List.append_nil] at hshort
      exact absurd hshort (Nat.lt_irrefl _)
    | cons c w =>
      refine ⟨c, w, hrest.symm, ?_⟩
      rw [← hrest, List.prefix_append_right_inj] at h
      obtain ⟨tail, rfl⟩ := h
      rfl
  · exact Or.inl (List.prefix_of_prefix_length_le h (List.prefix_append a b) hlong)

namespace Fence

variable {fence : Fence} {a b p : JsString}

theorem Free.clear_head (h : fence.Free a) (hb : ∀ c ∈ b.head?, fence.Separates c) : fence.Clear a b := by
  rintro u v rfl hv
  constructor
  · intro hstart
    obtain hpart | ⟨c, w, hmarker, hc⟩ := prefix_append_cases hstart
    · exact h.opening (hpart.isInfix.trans (List.suffix_append u v).isInfix)
    · apply (hb c hc).opening
      rw [hmarker]
      simp
  · intro hstart
    obtain hpart | ⟨c, w, hmarker, hc⟩ := prefix_append_cases hstart
    · exact h.closing (hpart.isInfix.trans (List.suffix_append u v).isInfix)
    · apply (hb c hc).closing
      rw [hmarker]
      simp

theorem Free.clear_last (h : fence.Free a) {c : UInt16} (hc : fence.Separates c) :
    fence.Clear (a ++ [c]) b := by
  have hfree : ∀ marker : JsString, c ∉ marker → ¬marker <:+: a → marker ≠ [] →
      ∀ u v, a ++ [c] = u ++ v → v ≠ [] → ¬marker <+: v ++ b := by
    intro marker hmem habsent hne u v huv hv hstart
    obtain ⟨v', d, rfl⟩ := (List.eq_nil_or_concat v).resolve_left hv
    rw [List.concat_eq_append, ← List.append_assoc] at huv
    obtain ⟨ha, hd⟩ := List.append_inj' huv rfl
    obtain rfl := List.singleton_inj.mp hd
    rw [List.concat_eq_append, List.append_assoc] at hstart
    obtain hpart | ⟨d, w, hmarker, hd⟩ := prefix_append_cases hstart
    · apply habsent
      rw [ha]
      exact hpart.isInfix.trans (List.suffix_append u v').isInfix
    · obtain rfl := Option.some.inj hd
      apply hmem
      rw [hmarker]
      simp
  intro u v huv hv
  exact ⟨hfree _ hc.opening h.opening fence.opening_ne u v huv hv,
    hfree _ hc.closing h.closing fence.closing_ne u v huv hv⟩

theorem Clear.tail {c : UInt16} (h : fence.Clear (c :: a) b) : fence.Clear a b := by
  intro u v huv hv
  exact h (c :: u) v (by rw [huv, List.cons_append]) hv

theorem scan_outside (h : fence.Clear a b) :
    fence.scan false 0 (a ++ b) = (fence.scan false 0 b).map fun r => (r.1, a ++ r.2) := by
  induction a with
  | nil => simp
  | cons c a ih =>
    obtain ⟨hopening, hclosing⟩ := h [] (c :: a) rfl (List.cons_ne_nil _ _)
    rw [← List.isPrefixOf_iff_prefix] at hopening hclosing
    rw [List.cons_append] at hopening hclosing ⊢
    rw [scan_false_cons, if_neg hopening, if_neg hclosing, ih h.tail, Option.map_map]
    rfl

theorem scan_inside (h : fence.Clear a b) : fence.scan true 0 (a ++ b) = fence.scan true 0 b := by
  induction a with
  | nil => rfl
  | cons c a ih =>
    obtain ⟨hopening, hclosing⟩ := h [] (c :: a) rfl (List.cons_ne_nil _ _)
    rw [← List.isPrefixOf_iff_prefix] at hopening hclosing
    rw [List.cons_append] at hopening hclosing ⊢
    rw [scan_true_cons, if_neg hclosing, if_neg hopening, ih h.tail]

theorem scan_skip (inside : Bool) (a b : JsString) :
    fence.scan inside a.length (a ++ b) = (fence.scan inside 0 b).map fun r => (r.1, a ++ r.2) := by
  induction a with
  | nil => simp
  | cons c a ih =>
    rw [List.length_cons, List.cons_append, scan_inMarker, ih, Option.map_map]
    rfl

theorem scan_opening : fence.scan false 0 (fence.opening ++ b) =
    (fence.scan true 0 b).map fun r => (r.1, fence.opening ++ r.2) := by
  obtain ⟨c, rest, hopening⟩ := List.exists_cons_of_ne_nil fence.opening_ne
  have hstart : fence.opening.isPrefixOf (c :: (rest ++ b)) = true := by
    rw [List.isPrefixOf_iff_prefix, hopening]
    exact List.prefix_append (c :: rest) b
  have hlength : fence.opening.length - 1 = rest.length := by rw [hopening]; rfl
  have htext : fence.opening ++ b = c :: (rest ++ b) := by rw [hopening, List.cons_append]
  rw [htext, scan_false_cons, if_pos hstart, hlength, scan_skip, Option.map_map, hopening]
  rfl

theorem scan_closing : fence.scan true 0 (fence.closing ++ b) =
    (fence.scan false 0 b).map fun r => (r.1, fence.closing ++ r.2) := by
  obtain ⟨c, rest, hclosing⟩ := List.exists_cons_of_ne_nil fence.closing_ne
  have hstart : fence.closing.isPrefixOf (c :: (rest ++ b)) = true := by
    rw [List.isPrefixOf_iff_prefix, hclosing]
    exact List.prefix_append (c :: rest) b
  have hlength : fence.closing.length - 1 = rest.length := by rw [hclosing]; rfl
  have htext : fence.closing ++ b = c :: (rest ++ b) := by rw [hclosing, List.cons_append]
  rw [htext, scan_true_cons, if_pos hstart, hlength, scan_skip, Option.map_map, hclosing]
  rfl

theorem Free.cons (h : fence.Free a) {c : UInt16} (hc : fence.Separates c) : fence.Free (c :: a) := by
  have hfree : ∀ marker : JsString, c ∉ marker → ¬marker <:+: a → marker ≠ [] → ¬marker <:+: c :: a := by
    intro marker hmem habsent hne hinner
    obtain hstart | hlater := List.infix_cons_iff.mp hinner
    · obtain ⟨d, rest, rfl⟩ := List.exists_cons_of_ne_nil hne
      obtain ⟨rfl, -⟩ := List.cons_prefix_cons.mp hstart
      exact hmem List.mem_cons_self
    · exact habsent hlater
  exact ⟨hfree _ hc.opening h.opening fence.opening_ne, hfree _ hc.closing h.closing fence.closing_ne⟩

/-- What is wrapped leaves its markers. -/
theorem scan_wrap {body : JsString} (hbody : fence.Free body) (hbreak : fence.Separates 10) :
    fence.scan false 0 (fence.wrap body ++ b) =
      (fence.scan false 0 b).map fun r => (r.1, fence.opening ++ fence.closing ++ r.2) := by
  have htext : fence.wrap body ++ b =
      fence.opening ++ ((10 :: body) ++ [10] ++ (fence.closing ++ b)) := by
    simp [wrap]
  have hclear : fence.Clear ((10 :: body) ++ [10]) (fence.closing ++ b) :=
    (hbody.cons hbreak).clear_last hbreak
  rw [htext, scan_opening, scan_inside hclear, scan_closing, Option.map_map]
  congr 1
  funext r
  simp

theorem map_shown (c : UInt16) (x : Option (Bool × JsString)) (f : Bool → Option (Bool × JsString)) :
    ((x.bind fun r => (f r.1).map fun q => (q.1, r.2 ++ q.2)).map fun r => (r.1, c :: r.2)) =
      (x.map fun r => (r.1, c :: r.2)).bind fun r => (f r.1).map fun q => (q.1, r.2 ++ q.2) := by
  cases x with
  | none => rfl
  | some r =>
    simp only [Option.bind_some, Option.map_some, Option.map_map]
    rfl

/-- A text that no marker reaches into is scanned after the one before it. -/
theorem scan_append (hb : ∀ c ∈ b.head?, fence.Separates c) (inside : Bool) (skip : Nat)
    (hskip : skip ≤ a.length) : fence.scan inside skip (a ++ b) =
      (fence.scan inside skip a).bind fun r => (fence.scan r.1 0 b).map fun q => (q.1, r.2 ++ q.2) := by
  have hstart : ∀ marker : JsString, (∀ c ∈ b.head?, c ∉ marker) → ∀ t : JsString,
      marker.isPrefixOf (t ++ b) = marker.isPrefixOf t := by
    intro marker hmarker t
    rw [Bool.eq_iff_iff, List.isPrefixOf_iff_prefix, List.isPrefixOf_iff_prefix]
    constructor
    · intro h
      obtain hpart | ⟨c, w, rfl, hc⟩ := prefix_append_cases h
      · exact hpart
      · exact absurd (by simp) (hmarker c hc)
    · exact fun h => h.trans (List.prefix_append t b)
  have hopening := hstart fence.opening fun c hc => (hb c hc).opening
  have hclosing := hstart fence.closing fun c hc => (hb c hc).closing
  have hshort : ∀ {marker : JsString} {c : UInt16} {rest : JsString},
      marker.isPrefixOf (c :: rest) = true → marker.length - 1 ≤ rest.length := by
    intro marker c rest h
    have hle := (List.isPrefixOf_iff_prefix.mp h).length_le
    rw [List.length_cons] at hle
    omega
  induction a generalizing inside skip with
  | nil =>
    obtain rfl : skip = 0 := Nat.le_zero.mp hskip
    simp [scan_nil]
  | cons c rest ih =>
    rw [List.cons_append]
    cases skip with
    | succ skip =>
      rw [scan_inMarker, scan_inMarker, ih inside skip (Nat.le_of_succ_le_succ hskip)]
      exact map_shown c _ fun inside => fence.scan inside 0 b
    | zero =>
      have hopening' := hopening (c :: rest)
      have hclosing' := hclosing (c :: rest)
      rw [List.cons_append] at hopening' hclosing'
      cases inside with
      | false =>
        rw [scan_false_cons, scan_false_cons, hopening', hclosing']
        split_ifs with h1 h2
        · rw [ih true _ (hshort h1)]
          exact map_shown c _ fun inside => fence.scan inside 0 b
        · rfl
        · rw [ih false 0 (Nat.zero_le _)]
          exact map_shown c _ fun inside => fence.scan inside 0 b
      | true =>
        rw [scan_true_cons, scan_true_cons, hopening', hclosing']
        split_ifs with h1 h2
        · rw [ih false _ (hshort h1)]
          exact map_shown c _ fun inside => fence.scan inside 0 b
        · rfl
        · rw [ih true 0 (Nat.zero_le _)]

/-- A part of an opening marker shows as it is. -/
theorem scan_openingPart (hpart : a <+: fence.opening) (hshort : ¬fence.opening <+: a) :
    fence.scan false 0 a = some (false, a) := by
  have hfree : fence.Free a := by
    constructor
    · intro hinner
      have hlength := Nat.le_antisymm hpart.length_le hinner.length_le
      exact hshort (hpart.eq_of_length hlength ▸ List.prefix_refl _)
    · exact fun hinner => fence.apart.1 (hinner.trans hpart.isInfix)
  have hscan := scan_outside (hfree.clear_head (b := []) (by simp))
  rw [List.append_nil] at hscan
  rw [hscan, scan_nil]
  simp

/-- A part of a closing marker closes nothing. -/
theorem scan_closingPart (hpart : a <+: fence.closing) (hshort : ¬fence.closing <+: a) :
    fence.scan true 0 a = some (true, []) := by
  have hfree : fence.Free a := by
    constructor
    · exact fun hinner => fence.apart.2 (hinner.trans hpart.isInfix)
    · intro hinner
      have hlength := Nat.le_antisymm hpart.length_le hinner.length_le
      exact hshort (hpart.eq_of_length hlength ▸ List.prefix_refl _)
  have hscan := scan_inside (hfree.clear_head (b := []) (by simp))
  rw [List.append_nil] at hscan
  rw [hscan, scan_nil]

/-- A marker that a cut goes through. -/
theorem starts_of_starts (h : marker <+: a ++ b) (hshort : ¬marker <+: a) : a <+: marker := by
  obtain hpart | ⟨c, w, rfl, -⟩ := prefix_append_cases h
  · exact absurd hpart hshort
  · exact List.prefix_append _ _

/-- Where a text is cut outside its fences, what shows is cut there too. -/
theorem scan_prefix (inside : Bool) (skip : Nat) {r : Bool × JsString}
    (h : fence.scan inside skip (a ++ b) = some r) :
    ∃ q, fence.scan inside skip a = some q ∧ (q.1 = false → q.2 <+: r.2) := by
  have hshown : ∀ {c : UInt16} {inside : Bool} {skip : Nat} {rest : JsString} {r : Bool × JsString},
      (∀ {r}, fence.scan inside skip (rest ++ b) = some r →
        ∃ q, fence.scan inside skip rest = some q ∧ (q.1 = false → q.2 <+: r.2)) →
      ((fence.scan inside skip (rest ++ b)).map fun r => (r.1, c :: r.2)) = some r →
      ∃ q, ((fence.scan inside skip rest).map fun r => (r.1, c :: r.2)) = some q ∧
        (q.1 = false → q.2 <+: r.2) := by
    intro c inside skip rest r ih h
    obtain ⟨r, hr, rfl⟩ := Option.map_eq_some_iff.mp h
    obtain ⟨q, hq, hstart⟩ := ih hr
    rw [hq]
    exact ⟨(q.1, c :: q.2), rfl, fun hq => List.cons_prefix_cons.mpr ⟨rfl, hstart hq⟩⟩
  induction a generalizing inside skip r with
  | nil =>
    rw [scan_nil]
    exact ⟨_, rfl, fun _ => List.nil_prefix⟩
  | cons c rest ih =>
    have hmono : ∀ marker : JsString, marker.isPrefixOf (c :: rest) = true →
        marker.isPrefixOf (c :: (rest ++ b)) = true := by
      intro marker hstart
      rw [List.isPrefixOf_iff_prefix] at hstart ⊢
      exact hstart.trans (List.prefix_append (c :: rest) b)
    cases skip with
    | succ skip =>
      rw [List.cons_append, scan_inMarker] at h
      rw [scan_inMarker]
      exact hshown (ih _ _) h
    | zero =>
      cases inside with
      | false =>
        by_cases hcut : fence.opening <+: (c :: rest) ++ b ∧ ¬fence.opening <+: c :: rest
        · obtain ⟨hwhole, hshort⟩ := hcut
          have hpart := starts_of_starts hwhole hshort
          refine ⟨_, scan_openingPart hpart hshort, fun _ => ?_⟩
          obtain ⟨tail, htail⟩ := hwhole
          rw [← htail, scan_opening] at h
          obtain ⟨r, -, rfl⟩ := Option.map_eq_some_iff.mp h
          exact hpart.trans (List.prefix_append _ _)
        · rw [← List.isPrefixOf_iff_prefix, ← List.isPrefixOf_iff_prefix, not_and_not_right] at hcut
          rw [List.cons_append] at h hcut
          rw [scan_false_cons] at h
          rw [scan_false_cons]
          by_cases hopening : fence.opening.isPrefixOf (c :: rest) = true
          · rw [if_pos (hmono _ hopening)] at h
            rw [if_pos hopening]
            exact hshown (ih _ _) h
          · rw [if_neg fun hwhole => hopening (hcut hwhole)] at h
            rw [if_neg hopening]
            split_ifs at h with hclosing
            rw [if_neg fun hpart => hclosing (hmono _ hpart)]
            exact hshown (ih _ _) h
      | true =>
        by_cases hcut : fence.closing <+: (c :: rest) ++ b ∧ ¬fence.closing <+: c :: rest
        · obtain ⟨hwhole, hshort⟩ := hcut
          exact ⟨_, scan_closingPart (starts_of_starts hwhole hshort) hshort, fun h => by cases h⟩
        · rw [← List.isPrefixOf_iff_prefix, ← List.isPrefixOf_iff_prefix, not_and_not_right] at hcut
          rw [List.cons_append] at h hcut
          rw [scan_true_cons] at h
          rw [scan_true_cons]
          by_cases hclosing : fence.closing.isPrefixOf (c :: rest) = true
          · rw [if_pos (hmono _ hclosing)] at h
            rw [if_pos hclosing]
            exact hshown (ih _ _) h
          · rw [if_neg fun hwhole => hclosing (hcut hwhole)] at h
            rw [if_neg hclosing]
            split_ifs at h with hopening
            rw [if_neg fun hpart => hopening (hmono _ hpart)]
            exact ih _ _ h

/-! ## Texts of several fenced parts -/

/-- Fenced parts, each after what leads to it. -/
def woven (fence : Fence) (ending : JsString) : List (JsString × JsString) → JsString
  | [] => ending
  | (lead, body) :: rest => lead ++ fence.wrap body ++ woven fence ending rest

/-- The woven text with nothing inside its fences. -/
def scaffold (fence : Fence) (ending : JsString) : List (JsString × JsString) → JsString
  | [] => ending
  | (lead, _) :: rest => lead ++ (fence.opening ++ fence.closing) ++ scaffold fence ending rest

theorem scaffold_map (f : JsString → JsString) (ending : JsString) (parts : List (JsString × JsString)) :
    fence.scaffold ending (parts.map fun q => (q.1, f q.2)) = fence.scaffold ending parts := by
  induction parts with
  | nil => rfl
  | cons part rest ih => rw [List.map_cons, scaffold, scaffold, ih]

/-- Whether a place of the woven text, counted in bytes, is after an opening marker and not yet after its
closing marker. -/
def insideAt (fence : Fence) : List (JsString × JsString) → Nat → Bool
  | [], _ => false
  | (lead, body) :: rest, n =>
    if n < (utf8Encode (lead ++ fence.opening)).length then false
    else if n < (utf8Encode (lead ++ fence.wrap body)).length then true
    else insideAt fence rest (n - (utf8Encode (lead ++ fence.wrap body)).length)

/-- What leads to a fence, which no marker reaches out of. -/
def Lead (fence : Fence) (lead : JsString) : Prop :=
  ∃ a c, lead = a ++ [c] ∧ fence.Free a ∧ fence.Separates c

theorem Lead.clear {lead : JsString} (h : fence.Lead lead) : fence.Clear lead b := by
  obtain ⟨a, c, rfl, ha, hc⟩ := h
  exact ha.clear_last hc

theorem scan_woven (hbreak : fence.Separates 10) {ending : JsString} (hending : fence.Free ending)
    {parts : List (JsString × JsString)} (hparts : ∀ q ∈ parts, fence.Lead q.1 ∧ fence.Free q.2) :
    fence.scan false 0 (fence.woven ending parts) = some (false, fence.scaffold ending parts) := by
  induction parts with
  | nil =>
    have hscan := scan_outside (hending.clear_head (b := []) (by simp))
    rw [List.append_nil] at hscan
    rw [woven, scaffold, hscan, scan_nil, Option.map_some, List.append_nil]
  | cons part rest ih =>
    obtain ⟨lead, body⟩ := part
    obtain ⟨hlead, hbody⟩ := hparts (lead, body) List.mem_cons_self
    have hrest := ih fun q hq => hparts q (List.mem_cons_of_mem _ hq)
    rw [woven, scaffold, List.append_assoc, scan_outside hlead.clear, scan_wrap hbody hbreak, hrest]
    simp

theorem Clear.cut {t : JsString} (h : fence.Clear a []) (ht : t <+: a) : fence.Clear t [] := by
  obtain ⟨v, rfl⟩ := ht
  intro u w huw hw
  have hwhole := h u (w ++ v) (by rw [huw, List.append_assoc]) (by simp [hw])
  rw [List.append_nil] at hwhole ⊢
  exact ⟨fun hopening => hwhole.1 (hopening.trans (List.prefix_append _ _)),
    fun hclosing => hwhole.2 (hclosing.trans (List.prefix_append _ _))⟩

/-- A text that ends before the opening marker does shows as it is. -/
theorem scan_cutLead {lead t : JsString} (hlead : fence.Lead lead) (hpart : t <+: lead ++ fence.opening)
    (hshort : ¬lead ++ fence.opening <+: t) : (fence.scan false 0 t).map Prod.fst = some false := by
  obtain hin | hlong := Nat.lt_or_ge lead.length t.length
  · have hstart : lead <+: t :=
      List.prefix_of_prefix_length_le (List.prefix_append _ _) hpart (Nat.le_of_lt hin)
    obtain ⟨u, rfl⟩ := hstart
    rw [List.prefix_append_right_inj] at hpart hshort
    rw [scan_outside hlead.clear, scan_openingPart hpart hshort]
    rfl
  · have hstart : t <+: lead :=
      List.prefix_of_prefix_length_le hpart (List.prefix_append _ _) hlong
    have hscan := scan_outside (hlead.clear.cut hstart)
    rw [List.append_nil] at hscan
    rw [hscan, scan_nil]
    rfl

/-- A text that ends before the closing marker does ends in an open fence. -/
theorem scan_cutBody {lead body t : JsString} (hbreak : fence.Separates 10) (hlead : fence.Lead lead)
    (hbody : fence.Free body) (hopen : lead ++ fence.opening <+: t) (hpart : t <+: lead ++ fence.wrap body)
    (hshort : ¬lead ++ fence.wrap body <+: t) : (fence.scan false 0 t).map Prod.fst = some true := by
  obtain ⟨u, rfl⟩ := hopen
  have hwrap : lead ++ fence.wrap body =
      lead ++ fence.opening ++ ((10 :: body) ++ [10] ++ fence.closing) := by
    simp [wrap]
  rw [hwrap, List.prefix_append_right_inj] at hpart hshort
  have hinner : fence.Lead ((10 :: body) ++ [10]) := ⟨10 :: body, 10, rfl, hbody.cons hbreak, hbreak⟩
  have hscan : (fence.scan true 0 u).map Prod.fst = some true := by
    obtain hin | hlong := Nat.lt_or_ge ((10 :: body) ++ [10]).length u.length
    · obtain ⟨v, rfl⟩ : (10 :: body) ++ [10] <+: u :=
        List.prefix_of_prefix_length_le (List.prefix_append _ _) hpart (Nat.le_of_lt hin)
      rw [List.prefix_append_right_inj] at hpart hshort
      rw [scan_inside hinner.clear, scan_closingPart hpart hshort]
      rfl
    · have hstart : u <+: (10 :: body) ++ [10] :=
        List.prefix_of_prefix_length_le hpart (List.prefix_append _ _) hlong
      have hscan := scan_inside (hinner.clear.cut hstart)
      rw [List.append_nil] at hscan
      rw [hscan, scan_nil]
      rfl
  rw [List.append_assoc, scan_outside hlead.clear, scan_opening]
  rw [Option.map_map, Option.map_map]
  exact hscan

/-- A woven text that ends at a place ends in an open fence where the place is inside one. -/
theorem scan_cut (hbreak : fence.Separates 10) {ending : JsString} (hending : fence.Free ending)
    {parts : List (JsString × JsString)} (hparts : ∀ q ∈ parts, fence.Lead q.1 ∧ fence.Free q.2)
    (hwf : ∀ q ∈ parts, wellFormed (q.1 ++ fence.opening) = true ∧
      wellFormed (q.1 ++ fence.wrap q.2) = true) {t : JsString} {n : Nat}
    (ht : t <+: fence.woven ending parts)
    (hplace : ∀ u, wellFormed u = true → u <+: fence.woven ending parts →
      (u <+: t ↔ (utf8Encode u).length ≤ n)) :
    (fence.scan false 0 t).map Prod.fst = some (fence.insideAt parts n) := by
  induction parts generalizing t n with
  | nil =>
    have hclear : fence.Clear ending [] := hending.clear_head (b := []) (by simp)
    have hscan := scan_outside (hclear.cut ht)
    rw [List.append_nil] at hscan
    rw [hscan, scan_nil, insideAt]
    rfl
  | cons part rest ih =>
    obtain ⟨lead, body⟩ := part
    obtain ⟨hlead, hbody⟩ := hparts (lead, body) List.mem_cons_self
    have hwfOpen : wellFormed (lead ++ fence.opening) = true := (hwf _ List.mem_cons_self).1
    have hwfWrap : wellFormed (lead ++ fence.wrap body) = true := (hwf _ List.mem_cons_self).2
    have hopenWrap : lead ++ fence.opening <+: lead ++ fence.wrap body := by
      rw [List.prefix_append_right_inj, wrap]
      simp only [List.append_assoc]
      exact List.prefix_append _ _
    have hwrapWoven : lead ++ fence.wrap body <+: fence.woven ending ((lead, body) :: rest) :=
      List.prefix_append _ _
    have hopenPlace := hplace _ hwfOpen (hopenWrap.trans hwrapWoven)
    have hwrapPlace := hplace _ hwfWrap hwrapWoven
    rw [insideAt]
    by_cases hopen : n < (utf8Encode (lead ++ fence.opening)).length
    · have hshort : ¬lead ++ fence.opening <+: t := by
        rw [hopenPlace]
        exact Nat.not_le.mpr hopen
      rw [if_pos hopen]
      apply scan_cutLead hlead _ hshort
      obtain hle | hle := Nat.le_total t.length (lead ++ fence.opening).length
      · exact List.prefix_of_prefix_length_le ht (hopenWrap.trans hwrapWoven) hle
      · exact absurd (List.prefix_of_prefix_length_le (hopenWrap.trans hwrapWoven) ht hle) hshort
    · rw [if_neg hopen]
      have hopened : lead ++ fence.opening <+: t := hopenPlace.mpr (Nat.not_lt.mp hopen)
      by_cases hclosed : n < (utf8Encode (lead ++ fence.wrap body)).length
      · have hshort : ¬lead ++ fence.wrap body <+: t := by
          rw [hwrapPlace]
          exact Nat.not_le.mpr hclosed
        rw [if_pos hclosed]
        apply scan_cutBody hbreak hlead hbody hopened _ hshort
        obtain hle | hle := Nat.le_total t.length (lead ++ fence.wrap body).length
        · exact List.prefix_of_prefix_length_le ht hwrapWoven hle
        · exact absurd (List.prefix_of_prefix_length_le hwrapWoven ht hle) hshort
      · rw [if_neg hclosed]
        have hlater := Nat.not_lt.mp hclosed
        obtain ⟨u, rfl⟩ := hwrapPlace.mpr hlater
        rw [woven, List.prefix_append_right_inj] at ht
        have hrest : ∀ x, wellFormed x = true → x <+: fence.woven ending rest →
            (x <+: u ↔ (utf8Encode x).length ≤ n - (utf8Encode (lead ++ fence.wrap body)).length) := by
          intro x hx hstart
          have hwhole := hplace (lead ++ fence.wrap body ++ x)
            (by rw [wellFormed_append _ _ hwfWrap, hx])
            (by rw [woven, List.prefix_append_right_inj]; exact hstart)
          rw [List.prefix_append_right_inj, utf8Encode_append hwfWrap, List.length_append] at hwhole
          rw [hwhole]
          omega
        have hscan := ih (fun q hq => hparts q (List.mem_cons_of_mem _ hq))
          (fun q hq => hwf q (List.mem_cons_of_mem _ hq)) ht hrest
        rw [List.append_assoc, scan_outside hlead.clear, scan_wrap hbody hbreak, Option.map_map,
          Option.map_map]
        exact hscan

/-- Only the parts of a woven text can have a surrogate alone. -/
theorem toWellFormed_woven {ending : JsString} (hending : wellFormed ending = true)
    (hclosing : wellFormed fence.closing = true) {parts : List (JsString × JsString)}
    (hwf : ∀ q ∈ parts, wellFormed (q.1 ++ fence.opening) = true) :
    toWellFormed (fence.woven ending parts) =
      fence.woven ending (parts.map fun q => (q.1, toWellFormed q.2)) := by
  induction parts with
  | nil => exact toWellFormed_of_wellFormed _ hending
  | cons part rest ih =>
    obtain ⟨lead, body⟩ := part
    have hlead : wellFormed (lead ++ fence.opening) = true := hwf _ List.mem_cons_self
    have hsplit : ∀ body rest : JsString, lead ++ fence.wrap body ++ rest =
        (lead ++ fence.opening) ++ ([] ++ 10 :: (body ++ 10 :: (fence.closing ++ rest))) := by
      intro body rest
      simp [wrap]
    rw [woven, List.map_cons, woven, hsplit, hsplit, toWellFormed_append hlead, toWellFormed_break,
      toWellFormed_break, toWellFormed_append hclosing, ih fun q hq => hwf q (List.mem_cons_of_mem _ hq)]
    rfl

end Fence

end Adlc.Framework
