import Mathlib.Computability.Language
import Adlc.Framework.Paths

namespace Adlc.Core

open Adlc.Framework

/-! ## The matcher -/

inductive GlobToken where
  | starStarSlash | starStar | star
  | literal (text : JsString)
  deriving DecidableEq

def asterisk : UInt16 := 42

/-- A unit that is no token of its own joins the literal that follows it. -/
def pushLiteral (c : UInt16) : List GlobToken → List GlobToken
  | .literal text :: tokens => .literal (c :: text) :: tokens
  | tokens => .literal [c] :: tokens

/-- `pattern.split(/(\*\*\/|\*\*|\*)/).filter((part) => part !== '')` -/
def globTokens : JsString → List GlobToken
  | [] => []
  | [c] => if c = asterisk then [.star] else pushLiteral c []
  | [c, d] =>
    if c = asterisk then
      if d = asterisk then [.starStar] else .star :: globTokens [d]
    else pushLiteral c (globTokens [d])
  | c :: d :: e :: rest =>
    if c = asterisk then
      if d = asterisk then
        if e = slash then .starStarSlash :: globTokens rest else .starStar :: globTokens (e :: rest)
      else .star :: globTokens (d :: e :: rest)
    else pushLiteral c (globTokens (d :: e :: rest))

/-- `**`: once an offset is reachable, so is every later one. -/
def reachAny : Bool → List Bool → List Bool
  | _, [] => []
  | opened, r :: reach => (opened || r) :: reachAny (opened || r) reach

/-- `**/`: nothing, or a run ending at a slash. -/
def reachRun (path : JsString) : Bool → Bool → List Bool → List Bool
  | _, _, [] => []
  | opened, past, r :: reach =>
    (r || past) ::
      reachRun path.tail (opened || r) ((opened || r) && decide (path.head? = some slash)) reach

/-- `*`: a run that stops at the segment boundary. -/
def reachSegment (path : JsString) : Bool → List Bool → List Bool
  | _, [] => []
  | opened, r :: reach =>
    (opened || r) ::
      reachSegment path.tail ((opened || r) && !decide (path.head? = some slash)) reach

def reachLiteral (text path : JsString) (reach : List Bool) : List Bool :=
  (List.range reach.length).map fun j =>
    decide (text.length ≤ j) && reach.getD (j - text.length) false &&
      text.isPrefixOf (path.drop (j - text.length))

def GlobToken.advance (path : JsString) (reach : List Bool) : GlobToken → List Bool
  | .starStar => reachAny false reach
  | .starStarSlash => reachRun path false false reach
  | .star => reachSegment path false reach
  | .literal text => reachLiteral text path reach

/-- `reach[i]`: what the tokens so far match can end at offset `i`. -/
def reachOf (path : JsString) (tokens : List GlobToken) : List Bool :=
  tokens.foldl (GlobToken.advance path) (true :: List.replicate path.length false)

def globMatch (pattern path : JsString) : Bool :=
  (reachOf path (globTokens pattern)).getD path.length false

/-! ## What a pattern means -/

/-- The texts that a token stands for. -/
def GlobToken.language : GlobToken → Language UInt16
  | .starStar => Set.univ
  | .starStarSlash => {w | w = [] ∨ ∃ run, w = run ++ [slash]}
  | .star => {w | slash ∉ w}
  | .literal text => {text}

def globLanguage (tokens : List GlobToken) : Language UInt16 :=
  (tokens.map GlobToken.language).prod

/-- The units of the path between two offsets. -/
def between (path : JsString) (i j : Nat) : JsString := (path.take j).drop i

theorem reachAny_length (opened : Bool) (reach : List Bool) :
    (reachAny opened reach).length = reach.length := by
  induction reach generalizing opened with
  | nil => rfl
  | cons r reach ih => rw [reachAny, List.length_cons, ih, List.length_cons]

theorem reachRun_length (path : JsString) (opened past : Bool) (reach : List Bool) :
    (reachRun path opened past reach).length = reach.length := by
  induction reach generalizing path opened past with
  | nil => rfl
  | cons r reach ih => rw [reachRun, List.length_cons, ih, List.length_cons]

theorem reachSegment_length (path : JsString) (opened : Bool) (reach : List Bool) :
    (reachSegment path opened reach).length = reach.length := by
  induction reach generalizing path opened with
  | nil => rfl
  | cons r reach ih => rw [reachSegment, List.length_cons, ih, List.length_cons]

theorem advance_length (path : JsString) (reach : List Bool) (token : GlobToken) :
    (token.advance path reach).length = reach.length := by
  cases token with
  | starStarSlash => exact reachRun_length path false false reach
  | starStar => exact reachAny_length false reach
  | star => exact reachSegment_length path false reach
  | literal text => simp [GlobToken.advance, reachLiteral]

theorem exists_le_succ {P : Nat → Prop} {j : Nat} :
    (∃ i, i ≤ j + 1 ∧ P i) ↔ P 0 ∨ ∃ i, i ≤ j ∧ P (i + 1) := by
  constructor
  · intro ⟨i, hi, h⟩
    cases i with
    | zero => exact Or.inl h
    | succ i => exact Or.inr ⟨i, by omega, h⟩
  · intro h
    obtain h | ⟨i, hi, h⟩ := h
    · exact ⟨0, by omega, h⟩
    · exact ⟨i + 1, by omega, h⟩

theorem reachAny_iff (opened : Bool) (reach : List Bool) (j : Nat) (hj : j < reach.length) :
    (reachAny opened reach).getD j false = true ↔
      opened = true ∨ ∃ i, i ≤ j ∧ reach.getD i false = true := by
  induction reach generalizing opened j with
  | nil => cases hj
  | cons r reach ih =>
    rw [reachAny]
    cases j with
    | zero => simp
    | succ j =>
      have hj' : j < reach.length := by simpa using hj
      rw [List.getD_cons_succ, ih (opened || r) j hj', exists_le_succ]
      simp [or_assoc]

theorem reachSegment_iff (path : JsString) (opened : Bool) (reach : List Bool) (j : Nat)
    (hj : j < reach.length) :
    (reachSegment path opened reach).getD j false = true ↔
      (opened = true ∧ slash ∉ path.take j) ∨
        ∃ i, i ≤ j ∧ reach.getD i false = true ∧ slash ∉ between path i j := by
  induction reach generalizing path opened j with
  | nil => cases hj
  | cons r reach ih =>
    rw [reachSegment]
    cases j with
    | zero => simp [between]
    | succ j =>
      have hj' : j < reach.length := by simpa using hj
      have htake : slash ∉ path.take (j + 1) ↔
          ¬path.head? = some slash ∧ slash ∉ path.tail.take j := by
        cases path with
        | nil => simp
        | cons c path => simp [eq_comm]
      have hbetween : ∀ i, between path (i + 1) (j + 1) = between path.tail i j := by
        intro i
        cases path <;> simp [between]
      rw [List.getD_cons_succ, ih path.tail _ j hj', exists_le_succ]
      simp only [hbetween, List.getD_cons_succ, List.getD_cons_zero]
      have hzero : between path 0 (j + 1) = path.take (j + 1) := rfl
      rw [hzero, htake]
      simp only [Bool.and_eq_true, Bool.or_eq_true, Bool.not_eq_true', decide_eq_false_iff_not]
      tauto

theorem reachRun_iff (path : JsString) (opened past : Bool) (reach : List Bool) (j : Nat)
    (hj : j < reach.length) :
    (reachRun path opened past reach).getD j false = true ↔
      reach.getD j false = true ∨ (past = true ∧ j = 0) ∨
        ∃ k, j = k + 1 ∧ path[k]? = some slash ∧
          (opened = true ∨ ∃ i, i ≤ k ∧ reach.getD i false = true) := by
  induction reach generalizing path opened past j with
  | nil => cases hj
  | cons r reach ih =>
    rw [reachRun]
    cases j with
    | zero => simp
    | succ j =>
      have hj' : j < reach.length := by simpa using hj
      have hslash : ∀ k, path.tail[k]? = path[k + 1]? := by
        intro k
        cases path <;> simp
      rw [List.getD_cons_succ, ih path.tail _ _ j hj']
      cases j with
      | zero =>
        have hhead : path.head? = path[0]? := by cases path <;> rfl
        simp [hhead, and_comm]
      | succ k =>
        have hle := exists_le_succ (P := fun i => (r :: reach).getD i false = true) (j := k)
        simp only [List.getD_cons_zero, List.getD_cons_succ] at hle
        simp only [hslash, List.getD_cons_succ, Nat.add_right_cancel_iff, exists_eq_left', hle]
        simp [or_assoc]

theorem between_length {path : JsString} {i j : Nat} (hj : j ≤ path.length) :
    (between path i j).length = j - i := by
  rw [between, List.length_drop, List.length_take_of_le hj]

theorem take_append_between (path : JsString) {i j : Nat} (hij : i ≤ j) :
    path.take i ++ between path i j = path.take j := by
  have htake : path.take i = (path.take j).take i := by rw [List.take_take, Nat.min_eq_left hij]
  rw [htake, between, List.take_append_drop]

/-- A run between two offsets that ends at a slash. -/
theorem between_endsAtSlash {path : JsString} {i j : Nat} (hij : i ≤ j) (hj : j ≤ path.length) :
    between path i j ∈ GlobToken.starStarSlash.language ↔
      i = j ∨ ∃ k, j = k + 1 ∧ path[k]? = some slash ∧ i ≤ k := by
  have hmem : between path i j ∈ GlobToken.starStarSlash.language ↔
      between path i j = [] ∨ ∃ run, between path i j = run ++ [slash] := Iff.rfl
  rw [hmem, ← List.length_eq_zero_iff, between_length hj]
  constructor
  · intro h
    obtain h | ⟨run, hrun⟩ := h
    · exact Or.inl (by omega)
    · have hlen := congrArg List.length hrun
      rw [between_length hj, List.length_append, List.length_singleton] at hlen
      refine Or.inr ⟨j - 1, by omega, ?_, by omega⟩
      have hget : (between path i j)[run.length]? = some slash := by simp [hrun]
      rw [between, List.getElem?_drop, List.getElem?_take_of_lt (by omega)] at hget
      rwa [show j - 1 = i + run.length by omega]
  · intro h
    obtain h | ⟨k, rfl, hslash, hik⟩ := h
    · exact Or.inl (by omega)
    · refine Or.inr ⟨between path i k, ?_⟩
      have htake : path.take (k + 1) = path.take k ++ [slash] := by
        rw [List.take_succ_eq_append_getElem (by omega)]
        rw [List.getElem?_eq_getElem (by omega)] at hslash
        rw [Option.some.inj hslash]
      rw [between, htake, List.drop_append_of_le_length]
      · rfl
      · rw [List.length_take_of_le (by omega)]
        exact hik

/-- One token moves the reachable offsets by the texts it stands for. -/
theorem advance_iff {path : JsString} {reach : List Bool} (hreach : reach.length = path.length + 1)
    (token : GlobToken) {j : Nat} (hj : j ≤ path.length) :
    (token.advance path reach).getD j false = true ↔
      ∃ i, i ≤ j ∧ reach.getD i false = true ∧ between path i j ∈ token.language := by
  have hlt : j < reach.length := by omega
  cases token with
  | starStar =>
    have hall : ∀ i, between path i j ∈ GlobToken.starStar.language := fun _ => trivial
    simp only [GlobToken.advance, reachAny_iff false reach j hlt, hall, Bool.false_eq_true, false_or,
      and_true]
  | star =>
    have hno : ∀ i, between path i j ∈ GlobToken.star.language ↔ slash ∉ between path i j :=
      fun _ => Iff.rfl
    simp only [GlobToken.advance, reachSegment_iff path false reach j hlt, hno, Bool.false_eq_true,
      false_and, false_or]
  | starStarSlash =>
    simp only [GlobToken.advance, reachRun_iff path false false reach j hlt]
    constructor
    · intro h
      obtain h | h | ⟨k, rfl, hslash, h | ⟨i, hik, h⟩⟩ := h
      · exact ⟨j, Nat.le_refl j, h, (between_endsAtSlash (Nat.le_refl j) hj).2 (Or.inl rfl)⟩
      · cases h.1
      · cases h
      · have hij : i ≤ k + 1 := by omega
        exact ⟨i, hij, h, (between_endsAtSlash hij hj).2 (Or.inr ⟨k, rfl, hslash, hik⟩)⟩
    · intro ⟨i, hij, h, hmem⟩
      obtain rfl | ⟨k, rfl, hslash, hik⟩ := (between_endsAtSlash hij hj).1 hmem
      · exact Or.inl h
      · exact Or.inr (Or.inr ⟨k, rfl, hslash, Or.inr ⟨i, hik, h⟩⟩)
  | literal text =>
    have hmem : ∀ i, between path i j ∈ (GlobToken.literal text).language ↔
        between path i j = text := fun _ => Iff.rfl
    simp only [GlobToken.advance, reachLiteral, hmem]
    rw [List.getD_eq_getElem?_getD, List.getElem?_map, List.getElem?_range hlt, Option.map_some,
      Option.getD_some]
    simp only [Bool.and_eq_true, decide_eq_true_eq, List.isPrefixOf_iff_prefix]
    constructor
    · intro ⟨⟨hlen, h⟩, hfront⟩
      refine ⟨j - text.length, by omega, h, ?_⟩
      have htake := List.prefix_iff_eq_take.1 hfront
      rw [between, List.drop_take]
      rw [show j - (j - text.length) = text.length by omega]
      exact htake.symm
    · intro ⟨i, hij, h, htext⟩
      have hlen := between_length (i := i) hj
      rw [htext] at hlen
      have hi : j - text.length = i := by omega
      rw [hi]
      refine ⟨⟨by omega, h⟩, ?_⟩
      rw [← htext, between, List.drop_take]
      exact List.take_prefix _ _

theorem reachOf_concat (path : JsString) (tokens : List GlobToken) (token : GlobToken) :
    reachOf path (tokens ++ [token]) = token.advance path (reachOf path tokens) := by
  rw [reachOf, List.foldl_append, List.foldl_cons, List.foldl_nil, reachOf]

theorem reachOf_length (path : JsString) (tokens : List GlobToken) :
    (reachOf path tokens).length = path.length + 1 := by
  induction tokens using List.reverseRecOn with
  | nil => simp [reachOf]
  | append_singleton tokens token ih => rw [reachOf_concat, advance_length, ih]

theorem globLanguage_concat (tokens : List GlobToken) (token : GlobToken) :
    globLanguage (tokens ++ [token]) = globLanguage tokens * token.language := by
  rw [globLanguage, List.map_append, List.prod_append, List.map_cons, List.map_nil,
    List.prod_singleton, globLanguage]

/-- An offset is reached when the tokens match the path up to it. -/
theorem reachOf_iff (path : JsString) (tokens : List GlobToken) {j : Nat} (hj : j ≤ path.length) :
    (reachOf path tokens).getD j false = true ↔ path.take j ∈ globLanguage tokens := by
  induction tokens using List.reverseRecOn generalizing j with
  | nil =>
    have hnil : globLanguage [] = 1 := rfl
    rw [hnil, Language.mem_one, List.take_eq_nil_iff]
    cases j with
    | zero => simp [reachOf]
    | succ j =>
      have hne : path ≠ [] := by
        rintro rfl
        simp at hj
      simp [reachOf, hne, show j < path.length by omega]
  | append_singleton tokens token ih =>
    rw [reachOf_concat, advance_iff (reachOf_length path tokens) token hj, globLanguage_concat,
      Language.mem_mul]
    constructor
    · intro ⟨i, hij, h, hmem⟩
      exact ⟨path.take i, (ih (by omega)).1 h, between path i j, hmem,
        take_append_between path hij⟩
    · intro ⟨front, hfront, rest, hrest, happ⟩
      have hlen := congrArg List.length happ
      rw [List.length_append, List.length_take_of_le hj] at hlen
      have htake : path.take front.length = front := by
        have h := congrArg (List.take front.length) happ
        rwa [List.take_left, List.take_take, Nat.min_eq_left (by omega), eq_comm] at h
      refine ⟨front.length, by omega, (ih (by omega)).2 (by rwa [htake]), ?_⟩
      rwa [between, ← happ, List.drop_left]

/-- The automaton decides the language of the pattern. -/
theorem globMatch_eq_true_iff (pattern path : JsString) :
    globMatch pattern path = true ↔ path ∈ globLanguage (globTokens pattern) := by
  rw [globMatch, reachOf_iff path _ (Nat.le_refl _), List.take_length]

/-! ## The declared semantics -/

/-- The piece of the pattern that a token is. -/
def GlobToken.text : GlobToken → JsString
  | .starStarSlash => [asterisk, asterisk, slash]
  | .starStar => [asterisk, asterisk]
  | .star => [asterisk]
  | .literal text => text

theorem pushLiteral_text (c : UInt16) (tokens : List GlobToken) :
    (pushLiteral c tokens).flatMap GlobToken.text = c :: tokens.flatMap GlobToken.text := by
  unfold pushLiteral
  split <;> rfl

/-- No unit is lost or added: the tokens are the pieces of the pattern in order. -/
theorem globTokens_text (pattern : JsString) :
    (globTokens pattern).flatMap GlobToken.text = pattern := by
  fun_induction globTokens pattern with
  | case1 => rfl
  | _ => simp_all [GlobToken.text, pushLiteral_text]

/-- A literal is a run without asterisks. -/
theorem globTokens_literal (pattern : JsString) :
    ∀ text, .literal text ∈ globTokens pattern → text ≠ [] ∧ asterisk ∉ text := by
  have push : ∀ (c : UInt16) (tokens : List GlobToken), c ≠ asterisk →
      (∀ text, .literal text ∈ tokens → text ≠ [] ∧ asterisk ∉ text) →
      ∀ text, .literal text ∈ pushLiteral c tokens → text ≠ [] ∧ asterisk ∉ text := by
    intro c tokens hc h text htext
    unfold pushLiteral at htext
    split at htext
    · rename_i run rest
      obtain e | htext := List.mem_cons.mp htext
      · cases e
        refine ⟨by simp, ?_⟩
        intro hm
        obtain e | hm := List.mem_cons.mp hm
        · exact hc e.symm
        · exact (h run (by simp)).2 hm
      · exact h text (List.mem_cons_of_mem _ htext)
    · obtain e | htext := List.mem_cons.mp htext
      · cases e
        exact ⟨by simp, by simpa using hc.symm⟩
      · exact h text htext
  fun_induction globTokens pattern with
  | case3 c hc => exact push c [] hc (by simp)
  | case6 c d hc ih => exact push c _ hc ih
  | case10 c d e rest hc ih => exact push c _ hc ih
  | _ => simp_all

/-- The path is cut into consecutive parts, one for each token. -/
def Splits (tokens : List GlobToken) (path : JsString) : Prop :=
  ∃ parts : List JsString, parts.flatten = path ∧
    List.Forall₂ (fun token part => part ∈ token.language) tokens parts

theorem mem_globLanguage (tokens : List GlobToken) (path : JsString) :
    path ∈ globLanguage tokens ↔ Splits tokens path := by
  induction tokens generalizing path with
  | nil =>
    rw [globLanguage, List.map_nil, List.prod_nil, Language.mem_one]
    constructor
    · intro h
      exact ⟨[], h.symm, .nil⟩
    · intro ⟨parts, hp, hall⟩
      cases hall
      exact hp.symm
  | cons token tokens ih =>
    have hcons : globLanguage (token :: tokens) = token.language * globLanguage tokens := by
      simp [globLanguage]
    rw [hcons, Language.mem_mul]
    constructor
    · intro ⟨part, hpart, rest, hrest, happ⟩
      obtain ⟨parts, rfl, hall⟩ := (ih rest).mp hrest
      exact ⟨part :: parts, happ, .cons hpart hall⟩
    · intro ⟨parts, hp, hall⟩
      cases hall with
      | cons hpart hall =>
        rename_i part parts
        exact ⟨part, hpart, parts.flatten, (ih _).mpr ⟨parts, rfl, hall⟩, hp⟩

end Adlc.Core
