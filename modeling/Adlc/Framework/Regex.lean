import Adlc.Framework.Text
import Mathlib.Computability.Language

namespace Adlc.Framework

/-! Regular expressions over any alphabet, the languages they stand for, and the texts of the
anchored ones that the code builds. -/

inductive Regex (α : Type) where
  | never
  | empty
  | one (p : α → Bool)
  | alt (r s : Regex α)
  | seq (r s : Regex α)
  | star (r : Regex α)

namespace Regex

variable {α : Type}

def plus (r : Regex α) : Regex α := .seq r (.star r)

def language : Regex α → Language α
  | never => 0
  | empty => 1
  | one p => {w | ∃ c, p c = true ∧ w = [c]}
  | alt r s => r.language + s.language
  | seq r s => r.language * s.language
  | star r => KStar.kstar r.language

def nullable : Regex α → Bool
  | never => false
  | empty => true
  | one _ => false
  | alt r s => r.nullable || s.nullable
  | seq r s => r.nullable && s.nullable
  | star _ => true

/-- What may follow the letter. -/
def deriv (c : α) : Regex α → Regex α
  | never => never
  | empty => never
  | one p => if p c then empty else never
  | alt r s => alt (r.deriv c) (s.deriv c)
  | seq r s => if r.nullable then alt (seq (r.deriv c) s) (s.deriv c) else seq (r.deriv c) s
  | star r => seq (r.deriv c) (star r)

/-- The whole word matches. -/
def accepts : Regex α → List α → Bool
  | r, [] => r.nullable
  | r, c :: w => (r.deriv c).accepts w

theorem mem_one {p : α → Bool} {w : List α} : w ∈ (one p).language ↔ ∃ c, p c = true ∧ w = [c] :=
  Iff.rfl

theorem mem_seq {r s : Regex α} {w : List α} :
    w ∈ (seq r s).language ↔ ∃ u ∈ r.language, ∃ v ∈ s.language, u ++ v = w :=
  Language.mem_mul

theorem mem_star {r : Regex α} {w : List α} :
    w ∈ (star r).language ↔ ∃ L : List (List α), w = L.flatten ∧ ∀ y ∈ L, y ∈ r.language :=
  Language.mem_kstar

theorem nullable_iff (r : Regex α) : r.nullable = true ↔ [] ∈ r.language := by
  induction r with
  | never => simp [nullable, language]
  | empty => simp [nullable, language, Language.mem_one]
  | one p => simp [nullable, mem_one]
  | alt r s ihr ihs => rw [nullable, Bool.or_eq_true, ihr, ihs, language, Language.mem_add]
  | seq r s ihr ihs =>
    rw [nullable, Bool.and_eq_true, ihr, ihs, mem_seq]
    constructor
    · intro ⟨hr, hs⟩
      exact ⟨[], hr, [], hs, rfl⟩
    · intro ⟨u, hu, v, hv, huv⟩
      obtain ⟨rfl, rfl⟩ := List.append_eq_nil_iff.mp huv
      exact ⟨hu, hv⟩
  | star r ih =>
    have hnil : [] ∈ (star r).language := mem_star.mpr ⟨[], rfl, by simp⟩
    simp [nullable, hnil]

theorem mem_deriv (r : Regex α) (c : α) :
    ∀ w, w ∈ (r.deriv c).language ↔ c :: w ∈ r.language := by
  induction r with
  | never => exact fun w => Iff.rfl
  | empty =>
    intro w
    rw [deriv, language, language, Language.mem_one]
    simp
  | one p =>
    intro w
    rw [deriv, mem_one]
    split_ifs with hp
    · rw [language, Language.mem_one]
      constructor
      · intro h
        exact ⟨c, hp, by rw [h]⟩
      · intro ⟨d, _, h⟩
        exact (List.cons.inj h).2
    · constructor
      · intro h
        exact absurd h (Language.notMem_zero w)
      · intro ⟨d, hd, h⟩
        rw [(List.cons.inj h).1] at hp
        exact absurd hd hp
  | alt r s ihr ihs =>
    intro w
    rw [deriv, language, language, Language.mem_add, Language.mem_add, ihr, ihs]
  | seq r s ihr ihs =>
    intro w
    have hfront : w ∈ (seq (r.deriv c) s).language ↔
        ∃ u, c :: u ∈ r.language ∧ ∃ v ∈ s.language, u ++ v = w := by
      rw [mem_seq]
      constructor
      · intro ⟨u, hu, hv⟩
        exact ⟨u, (ihr u).mp hu, hv⟩
      · intro ⟨u, hu, hv⟩
        exact ⟨u, (ihr u).mpr hu, hv⟩
    have hsplit : c :: w ∈ (seq r s).language ↔ [] ∈ r.language ∧ c :: w ∈ s.language ∨
        ∃ u, c :: u ∈ r.language ∧ ∃ v ∈ s.language, u ++ v = w := by
      rw [mem_seq]
      constructor
      · intro ⟨u, hu, v, hv, huv⟩
        cases u with
        | nil =>
          rw [List.nil_append] at huv
          exact Or.inl ⟨hu, huv ▸ hv⟩
        | cons d u =>
          obtain ⟨rfl, huv'⟩ := List.cons.inj huv
          exact Or.inr ⟨u, hu, v, hv, huv'⟩
      · intro h
        obtain ⟨hr, hs⟩ | ⟨u, hu, v, hv, huv⟩ := h
        · exact ⟨[], hr, c :: w, hs, rfl⟩
        · exact ⟨c :: u, hu, v, hv, by rw [List.cons_append, huv]⟩
    rw [hsplit, deriv, ← nullable_iff]
    split_ifs with hr
    · rw [language, Language.mem_add, hfront, ihs]
      simp [hr, or_comm]
    · rw [hfront]
      simp [hr]
  | star r ih =>
    intro w
    rw [deriv, mem_seq]
    constructor
    · intro ⟨u, hu, v, hv, huv⟩
      obtain ⟨L, rfl, hL⟩ := mem_star.mp hv
      refine mem_star.mpr ⟨(c :: u) :: L, by rw [List.flatten_cons, List.cons_append, huv], ?_⟩
      exact List.forall_mem_cons.mpr ⟨(ih u).mp hu, hL⟩
    · intro h
      obtain ⟨L, hw, hL⟩ := mem_star.mp h
      -- the first part that is not empty begins with the letter
      induction L with
      | nil => cases hw
      | cons y L ihL =>
        obtain ⟨hy, hrest⟩ := List.forall_mem_cons.mp hL
        cases y with
        | nil => exact ihL hw hrest
        | cons d u =>
          rw [List.flatten_cons, List.cons_append] at hw
          obtain ⟨rfl, rfl⟩ := List.cons.inj hw
          exact ⟨u, (ih u).mpr hy, L.flatten, mem_star.mpr ⟨L, rfl, hrest⟩, rfl⟩

theorem accepts_iff (r : Regex α) (w : List α) : r.accepts w = true ↔ w ∈ r.language := by
  induction w generalizing r with
  | nil => exact nullable_iff r
  | cons c w ih => rw [accepts, ih, mem_deriv]

end Regex

/-! ## Texts of regular expressions -/

/-- The units with a meaning of their own. -/
def isSyntaxUnit (c : UInt16) : Bool := decide (c ∈ js "^$\\.*+?()[]\x7b\x7d|")

/-- What `.` does not match. -/
def endsLine (c : UInt16) : Bool := c = 10 || c = 13 || c = 0x2028 || c = 0x2029

/-- The units of a class up to its bracket. -/
def readClass : JsString → Option (List UInt16 × JsString)
  | [] => none
  | c :: s =>
    if c = 93 then some ([], s)
    else if c = 92 ∨ c = 45 then none
    else (readClass s).map fun p => (c :: p.1, p.2)

/-- One atom that is no group. -/
def readAtom : JsString → Option (Regex UInt16 × JsString)
  | 92 :: c :: s => if isSyntaxUnit c then some (.one (· == c), s) else none
  | 46 :: s => some (.one fun d => !endsLine d, s)
  | 91 :: 94 :: s => (readClass s).map fun p => (.one fun d => !p.1.contains d, p.2)
  | c :: s => if isSyntaxUnit c then none else some (.one (· == c), s)
  | [] => none

/-- The atom with the quantifier that follows it. -/
def quantified (r : Regex UInt16) : JsString → Regex UInt16 × JsString
  | 42 :: s => (.star r, s)
  | 43 :: s => (.plus r, s)
  | s => (r, s)

/-- What follows `(?:`. -/
def openGroup (s : JsString) : Option JsString :=
  if (js "(?:").isPrefixOf s then some (s.drop 3) else none

def closeGroup (p : Regex UInt16 × JsString) : Option (Regex UInt16 × JsString) :=
  if p.2.head? = some 41 then some (p.1, p.2.tail) else none

/-- Terms up to a closing parenthesis, a `$` or the end. -/
def readTerms : Nat → JsString → Option (Regex UInt16 × JsString)
  | 0, _ => none
  | _ + 1, [] => some (.empty, [])
  | n + 1, c :: s =>
    if c = 41 ∨ c = 36 then some (.empty, c :: s)
    else
      let atom :=
        match openGroup (c :: s) with
        | some body => (readTerms n body).bind closeGroup
        | none => readAtom (c :: s)
      match atom with
      | none => none
      | some (r, s) =>
        let term := quantified r s
        (readTerms n term.2).map fun p => (.seq term.1 p.1, p.2)

/-- `new RegExp(source).test(text)` for a source that is anchored at both ends. -/
def anchoredTest (source text : JsString) : Bool :=
  if source.head? = some 94 then
    match readTerms source.length source.tail with
    | some (r, rest) => decide (rest = js "$") && r.accepts text
    | none => false
  else false

/-- The text is read as the terms `r`, with `rest` left over. -/
structure Reads (s : JsString) (r : Regex UInt16) (rest : JsString) : Prop where
  head : ∀ c ∈ s.head?, c ≠ 42 ∧ c ≠ 43
  terms : ∀ n, s.length < n → readTerms n s = some (r, rest)

theorem anchoredTest_iff {body : JsString} {r : Regex UInt16} (h : Reads body r (js "$")) (text : JsString) :
    anchoredTest (94 :: body) text = true ↔ text ∈ r.language := by
  rw [anchoredTest, List.head?_cons, if_pos rfl, List.tail_cons,
    h.terms (94 :: body).length (Nat.lt_succ_self _), ← Regex.accepts_iff]
  simp

theorem Reads.stop {c : UInt16} (hc : c = 41 ∨ c = 36) (s : JsString) :
    Reads (c :: s) .empty (c :: s) := by
  constructor
  · intro d hd
    obtain rfl := Option.some.inj hd
    obtain rfl | rfl := hc <;> decide
  · intro n hn
    obtain ⟨n, rfl⟩ := Nat.exists_eq_succ_of_ne_zero (Nat.ne_zero_of_lt hn)
    rw [readTerms, if_pos hc]

theorem quantified_self {s : JsString} (h : ∀ c ∈ s.head?, c ≠ 42 ∧ c ≠ 43) (r : Regex UInt16) :
    quantified r s = (r, s) := by
  unfold quantified
  split
  · exact absurd rfl (h 42 rfl).1
  · exact absurd rfl (h 43 rfl).2
  · rfl

/-- One atom with its quantifier in front of terms that are read. -/
theorem Reads.term {c : UInt16} {s t u : JsString} {r x y : Regex UInt16} {rest : JsString}
    (hc : c ∉ js "()$*+") (hatom : readAtom (c :: s) = some (x, u)) (hq : quantified x u = (y, t))
    (hlen : t.length ≤ s.length) (h : Reads t r rest) : Reads (c :: s) (.seq y r) rest := by
  have hne : ∀ d ∈ js "()$*+", c ≠ d := fun d hd e => hc (e ▸ hd)
  constructor
  · intro d hd
    obtain rfl := Option.some.inj hd
    exact ⟨hne 42 (by decide), hne 43 (by decide)⟩
  · intro n hn
    obtain ⟨n, rfl⟩ := Nat.exists_eq_succ_of_ne_zero (Nat.ne_zero_of_lt hn)
    have hstop : ¬(c = 41 ∨ c = 36) := not_or.mpr ⟨hne 41 (by decide), hne 36 (by decide)⟩
    have hfuel : t.length < n := by
      rw [List.length_cons] at hn
      omega
    have hopen : openGroup (c :: s) = none := by
      have h40 : ((40 : UInt16) == c) = false := beq_eq_false_iff_ne.mpr (hne 40 (by decide)).symm
      rw [openGroup, show js "(?:" = 40 :: js "?:" from rfl, List.isPrefixOf_cons_cons, h40]
      rfl
    rw [readTerms, if_neg hstop]
    simp only [hopen, hatom, hq, h.terms n hfuel, Option.map_some]

theorem Reads.unit {c : UInt16} {s rest : JsString} {r : Regex UInt16} (hc : isSyntaxUnit c = false)
    (h : Reads s r rest) : Reads (c :: s) (.seq (.one (· == c)) r) rest := by
  have hout : c ∉ js "^$\\.*+?()[]\x7b\x7d|" := of_decide_eq_false hc
  have hne : ∀ d ∈ js "^$\\.*+?()[]\x7b\x7d|", c ≠ d := fun d hd e => hout (e ▸ hd)
  have hatom : readAtom (c :: s) = some (.one (· == c), s) := by
    unfold readAtom
    split
    · rename_i e
      exact absurd (List.cons.inj e).1 (hne 92 (by decide))
    · rename_i e
      exact absurd (List.cons.inj e).1 (hne 46 (by decide))
    · rename_i e
      exact absurd (List.cons.inj e).1 (hne 91 (by decide))
    · rename_i e
      obtain ⟨rfl, rfl⟩ := List.cons.inj e
      rw [hc]
      rfl
    · rename_i e
      cases e
  refine Reads.term ?_ hatom (quantified_self h.head _) le_rfl h
  intro hmem
  have hsub : ∀ d ∈ js "()$*+", d ∈ js "^$\\.*+?()[]\x7b\x7d|" := forall_mem_of_all (by decide)
  exact hout (hsub c hmem)

theorem Reads.escaped {c : UInt16} {s rest : JsString} {r : Regex UInt16} (hc : isSyntaxUnit c = true)
    (h : Reads s r rest) : Reads (92 :: c :: s) (.seq (.one (· == c)) r) rest := by
  have hatom : readAtom (92 :: c :: s) = some (.one (· == c), s) := by
    rw [readAtom, if_pos hc]
  exact Reads.term (by decide) hatom (quantified_self h.head _) (by simp) h

/-- The class of everything but a slash. -/
def notSlash : Regex UInt16 := .one fun d => !([47] : List UInt16).contains d

theorem readAtom_notSlash (s : JsString) : readAtom (js "[^/]" ++ s) = some (notSlash, s) := rfl

theorem Reads.notSlash {s rest : JsString} {r : Regex UInt16} (h : Reads s r rest) :
    Reads (js "[^/]" ++ s) (.seq notSlash r) rest :=
  Reads.term (s := js "^/]" ++ s) (by decide) (readAtom_notSlash s) (quantified_self h.head _)
    (by simp) h

theorem Reads.notSlashStar {s rest : JsString} {r : Regex UInt16} (h : Reads s r rest) :
    Reads (js "[^/]*" ++ s) (.seq (.star Framework.notSlash) r) rest :=
  Reads.term (s := js "^/]*" ++ s) (by decide) (readAtom_notSlash (42 :: s)) rfl (by simp) h

theorem Reads.notSlashPlus {s rest : JsString} {r : Regex UInt16} (h : Reads s r rest) :
    Reads (js "[^/]+" ++ s) (.seq (.plus Framework.notSlash) r) rest :=
  Reads.term (s := js "^/]+" ++ s) (by decide) (readAtom_notSlash (43 :: s)) rfl (by simp) h

/-- Everything but a line end. -/
def inLine : Regex UInt16 := .one fun d => !endsLine d

theorem Reads.inLineStar {s rest : JsString} {r : Regex UInt16} (h : Reads s r rest) :
    Reads (js ".*" ++ s) (.seq (.star inLine) r) rest :=
  Reads.term (s := 42 :: s) (x := inLine) (by decide) rfl rfl (by simp) h

theorem Reads.groupStar {body s rest : JsString} {g r : Regex UInt16}
    (hbody : Reads (body ++ js ")*" ++ s) g (js ")*" ++ s)) (h : Reads s r rest) :
    Reads (js "(?:" ++ body ++ js ")*" ++ s) (.seq (.star g) r) rest := by
  have htext : js "(?:" ++ body ++ js ")*" ++ s = 40 :: 63 :: 58 :: (body ++ js ")*" ++ s) := rfl
  rw [htext]
  constructor
  · intro d hd
    obtain rfl := Option.some.inj hd
    decide
  · intro n hn
    obtain ⟨n, rfl⟩ := Nat.exists_eq_succ_of_ne_zero (Nat.ne_zero_of_lt hn)
    have hfuel : (body ++ js ")*" ++ s).length < n ∧ s.length < n := by
      simp only [List.length_cons, List.length_append] at hn ⊢
      omega
    have hgroup : readTerms n (body ++ js ")*" ++ s) = some (g, 41 :: 42 :: s) :=
      hbody.terms n hfuel.1
    have hopen : openGroup (40 :: 63 :: 58 :: (body ++ js ")*" ++ s)) = some (body ++ js ")*" ++ s) := rfl
    rw [readTerms, if_neg (by decide)]
    simp only [hopen, hgroup, Option.bind_some, closeGroup, List.head?_cons, if_true, List.tail_cons,
      quantified, h.terms n hfuel.2, Option.map_some]

end Adlc.Framework
