import Adlc.Framework.JsonText
import Adlc.Framework.Lines

namespace Adlc.Framework

/-! The text of a module of the language, by its lexical elements. -/

/-! ## String literals -/

inductive LiteralPart where
  | unit (c : UInt16)
  | escape (c : UInt16)
  | hex (a b : UInt16)
  | unicode (a b c d : UInt16)
  | codePoint (digits : JsString)
  | continuation (terminator : JsString)

namespace LiteralPart

def text : LiteralPart → JsString
  | unit c => [c]
  | escape c => [92, c]
  | hex a b => [92, 120, a, b]
  | unicode a b c d => [92, 117, a, b, c, d]
  | codePoint digits => 92 :: 117 :: 123 :: (digits ++ [125])
  | continuation terminator => 92 :: terminator

/-- What a single character stands for after a backslash. -/
def escapeValue (c : UInt16) : UInt16 :=
  if c = 110 then 10
  else if c = 116 then 9
  else if c = 98 then 8
  else if c = 118 then 11
  else if c = 102 then 12
  else if c = 114 then 13
  else if c = 48 then 0
  else c

def hexNumber (digits : JsString) : Nat := digits.foldl (fun n c => n * 16 + (hexValue c).getD 0) 0

def value : LiteralPart → JsString
  | unit c => [c]
  | escape c => [escapeValue c]
  | hex a b => [UInt16.ofNat (hexNumber [a, b])]
  | unicode a b c d => [UInt16.ofNat (hexNumber [a, b, c, d])]
  | codePoint digits => scalarUnits (hexNumber digits)
  | continuation _ => []

def isHexUnit (c : UInt16) : Bool := (hexValue c).isSome

def isTerminator (c : UInt16) : Bool := c = 10 || c = 13 || c = 0x2028 || c = 0x2029

/-- The part may stand between these quotes. -/
def Valid (quote : UInt16) : LiteralPart → Prop
  | unit c => c ≠ quote ∧ c ≠ 92 ∧ c ≠ 10 ∧ c ≠ 13
  | escape c => c ≠ 120 ∧ c ≠ 117 ∧ isTerminator c = false ∧ ¬(49 ≤ c.toNat ∧ c.toNat ≤ 57)
  | hex a b => [a, b].all isHexUnit = true
  | unicode a b c d => [a, b, c, d].all isHexUnit = true
  | codePoint digits => digits ≠ [] ∧ digits.all isHexUnit = true ∧ hexNumber digits ≤ 0x10FFFF
  | continuation terminator => terminator ∈ ([[10], [13], [13, 10], [0x2028], [0x2029]] : List JsString)

/-- A reader that skips what a backslash precedes does not leave the literal here. -/
def Closed (quote : UInt16) : LiteralPart → Prop
  | unit c => c ≠ quote ∧ c ≠ 92
  | p => p.text.drop 1 ≠ [] ∧ ∀ c ∈ p.text.drop 2, c ≠ quote ∧ c ≠ 92

theorem Valid.closed {quote : UInt16} (hquote : quote = 34 ∨ quote = 39) {p : LiteralPart}
    (h : p.Valid quote) : p.Closed quote := by
  have hhex : ∀ c : UInt16, isHexUnit c = true → c ≠ quote ∧ c ≠ 92 := by
    intro c hc
    obtain rfl | rfl := hquote <;> refine ⟨?_, ?_⟩ <;> rintro rfl <;> exact absurd hc (by decide)
  cases p with
  | unit c => exact ⟨h.1, h.2.1⟩
  | escape c =>
    refine ⟨List.cons_ne_nil _ _, ?_⟩
    intro c hc
    cases hc
  | hex a b =>
    refine ⟨List.cons_ne_nil _ _, ?_⟩
    intro c hc
    exact hhex c (List.all_eq_true.mp h c hc)
  | unicode a b c d =>
    refine ⟨List.cons_ne_nil _ _, ?_⟩
    intro c hc
    exact hhex c (List.all_eq_true.mp h c hc)
  | codePoint digits =>
    refine ⟨List.cons_ne_nil _ _, ?_⟩
    intro c hc
    have hmem : c ∈ 123 :: (digits ++ [125]) := hc
    rw [List.mem_cons, List.mem_append, List.mem_singleton] at hmem
    obtain rfl | hc | rfl := hmem
    · obtain rfl | rfl := hquote <;> decide
    · exact hhex c (List.all_eq_true.mp h.2.1 c hc)
    · obtain rfl | rfl := hquote <;> decide
  | continuation terminator =>
    have hterminator : terminator ∈ ([[10], [13], [13, 10], [0x2028], [0x2029]] : List JsString) := h
    refine ⟨?_, ?_⟩
    · rintro rfl
      exact absurd hterminator (by decide)
    intro c hc
    have hmem : c ∈ terminator.drop 1 := hc
    simp only [List.mem_cons, List.not_mem_nil, or_false] at hterminator
    obtain rfl | rfl | rfl | rfl | rfl := hterminator
    all_goals simp only [List.drop_succ_cons, List.drop_zero, List.drop_nil, List.mem_cons, List.not_mem_nil,
      or_false] at hmem
    obtain rfl := hmem
    obtain rfl | rfl := hquote <;> decide

end LiteralPart

def partsText (parts : List LiteralPart) : JsString := parts.flatMap LiteralPart.text

structure StringLiteral where
  quote : UInt16
  parts : List LiteralPart
  quoted : quote = 34 ∨ quote = 39
  valid : ∀ p ∈ parts, p.Valid quote

def StringLiteral.text (s : StringLiteral) : JsString := s.quote :: (partsText s.parts ++ [s.quote])

def StringLiteral.value (s : StringLiteral) : JsString := s.parts.flatMap LiteralPart.value

/-! ## Pieces of a module -/

inductive Piece where
  /-- Neither a comment, nor a string, a template or a regular expression. -/
  | code (text : JsString)
  | regex (text : JsString)
  | lineComment (body : JsString)
  | blockComment (body : JsString)
  | string (s : StringLiteral)
  | template (parts : List LiteralPart) (closed : ∀ p ∈ parts, p.Closed 96)

def Piece.text : Piece → JsString
  | .code text => text
  | .regex text => text
  | .lineComment body => js "//" ++ body
  | .blockComment body => js "/*" ++ (body ++ js "*/")
  | .string s => s.text
  | .template parts _ => 96 :: (partsText parts ++ [96])

def Piece.isTemplate : Piece → Bool
  | .template _ _ => true
  | _ => false

def piecesText (ps : List Piece) : JsString := ps.flatMap Piece.text

/-- White space and comments. -/
inductive Trivia where
  | space (text : JsString) (blank : text.all isTrimmed = true)
  | lineComment (body : JsString)
  | blockComment (body : JsString)

def Trivia.piece : Trivia → Piece
  | .space text _ => .code text
  | .lineComment body => .lineComment body
  | .blockComment body => .blockComment body

/-! ## Arrays of strings -/

/-- An element: literals that are added up, or what another expression spreads. -/
inductive ListElement where
  | sum (first : StringLiteral) (rest : List (List Trivia × List Trivia × StringLiteral))
  | spread (expression : List Piece) (values : List JsString)

def ListElement.pieces : ListElement → List Piece
  | .sum first rest =>
    .string first :: rest.flatMap fun t =>
      t.1.map Trivia.piece ++ .code (js "+") :: (t.2.1.map Trivia.piece ++ [.string t.2.2])
  | .spread expression _ => .code (js "...") :: expression

/-- What the element gives to the array. -/
def ListElement.values : ListElement → List JsString
  | .sum first rest => [first.value ++ rest.flatMap fun t => t.2.2.value]
  | .spread _ values => values

structure ListEntry where
  before : List Trivia
  element : ListElement
  after : List Trivia

def ListEntry.pieces (e : ListEntry) : List Piece :=
  e.before.map Trivia.piece ++ (e.element.pieces ++ e.after.map Trivia.piece)

/-- What stands between the brackets: entries with a comma each, perhaps a last one without. -/
structure ListBody where
  entries : List ListEntry
  last : Option ListEntry
  tail : List Trivia

def ListBody.pieces (b : ListBody) : List Piece :=
  (b.entries.flatMap fun e => e.pieces ++ [.code (js ",")]) ++
    (b.last.toList.flatMap ListEntry.pieces ++ b.tail.map Trivia.piece)

/-- The strings of the evaluated array. -/
def ListBody.values (b : ListBody) : List JsString :=
  (b.entries ++ b.last.toList).flatMap fun e => e.element.values

end Adlc.Framework
