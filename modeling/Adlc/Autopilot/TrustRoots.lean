import Adlc.Framework.Paths
import Adlc.Framework.SourceText
import Adlc.TicketSync.Sentinel

namespace Adlc.Autopilot

open Framework

open TicketSync (firstAtWord isWord)

/-! The trust-root lists, read from the text of a module. -/

def isQuote (c : UInt16) : Bool := c = 34 || c = 39 || c = 96

/-- Where the loop of `stripComments` stands. -/
inductive Strip where
  | code
  | string (quote : UInt16)
  | escape (quote : UInt16)
  | line
  /-- At the asterisk that opens a comment. -/
  | opening
  | block
  /-- At the slash that closes a comment. -/
  | closing

def stripFrom : Strip → JsString → JsString
  | _, [] => []
  | .code, c :: s =>
    if isQuote c then c :: stripFrom (.string c) s
    else if c = 47 ∧ s.head? = some 47 then stripFrom .line s
    else if c = 47 ∧ s.head? = some 42 then stripFrom .opening s
    else c :: stripFrom .code s
  | .string quote, c :: s =>
    if c = quote then c :: stripFrom .code s
    else if c = 92 then c :: stripFrom (.escape quote) s
    else c :: stripFrom (.string quote) s
  | .escape quote, c :: s => c :: stripFrom (.string quote) s
  | .line, c :: s => if c = 10 then c :: stripFrom .code s else stripFrom .line s
  | .opening, _ :: s => stripFrom .block s
  | .block, c :: s => if c = 42 ∧ s.head? = some 47 then stripFrom .closing s else stripFrom .block s
  | .closing, _ :: s => stripFrom .code s

def stripComments (text : JsString) : JsString := stripFrom .code text

/-- Where the loop of `stringLiteralsOfArray` stands, at a depth of brackets. -/
inductive ArrayScan where
  | code (depth : Nat)
  | literal (depth : Nat) (quote : UInt16) (s : JsString)
  | escape (depth : Nat) (quote : UInt16) (s : JsString)

def literalsFrom : ArrayScan → List JsString → JsString → Except JsString (List JsString)
  | .code _, _, [] => .error (js "unterminated array literal")
  | .literal _ _ _, _, [] => .error (js "unterminated string literal")
  | .escape _ _ _, _, [] => .error (js "unterminated string literal")
  | .code depth, out, c :: text =>
    if c = 34 ∨ c = 39 then literalsFrom (.literal depth c []) out text
    else if c = 96 then .error (js "template literal inside a trust-root list")
    else if c = 91 then literalsFrom (.code (depth + 1)) out text
    else if c = 93 then if depth = 1 then .ok out else literalsFrom (.code (depth - 1)) out text
    else literalsFrom (.code depth) out text
  | .literal depth quote s, out, c :: text =>
    if c = quote then literalsFrom (.code depth) (out ++ [s]) text
    else if c = 92 then literalsFrom (.escape depth quote s) out text
    else literalsFrom (.literal depth quote (s ++ [c])) out text
  | .escape depth quote s, out, c :: text => literalsFrom (.literal depth quote (s ++ [c])) out text

def stringLiteralsOfArray (text : JsString) : Except JsString (List JsString) :=
  literalsFrom (.code 0) [] text

/-- `PATH_RE`'s characters. -/
def isPathUnit (c : UInt16) : Bool := 0x21 ≤ c.toNat && c.toNat ≤ 0x7E

def validatePathGlob (p ident : JsString) : Except JsString JsString :=
  if p = [] ∨ 512 < p.length ∨ p.all isPathUnit = false then
    .error (ident ++ js ": illegal entry " ++ quote p)
  else if p.head? = some slash ∨ ((p.splitOn slash).any fun segment => segment = js ".." ∨ segment = js ".") then
    .error (ident ++ js ": non-relative entry " ++ p)
  else .ok p

/-- `Object\.freeze\s*\(\s*` -/
def freezeAt (text : JsString) : Option JsString := do
  let text ← (js "Object.freeze").isPrefixOf? text
  let text ← (js "(").isPrefixOf? (text.dropWhile isTrimmed)
  pure (text.dropWhile isTrimmed)

/-- `const\s+ident\s*=\s*(?:Object\.freeze\s*\(\s*)?\[`, with what follows from the bracket on. -/
def declarationAt (ident text : JsString) : Option JsString := do
  let text ← (js "const").isPrefixOf? text
  if text.head?.any isTrimmed then
    let text ← ident.isPrefixOf? (text.dropWhile isTrimmed)
    let text ← (js "=").isPrefixOf? (text.dropWhile isTrimmed)
    let text := text.dropWhile isTrimmed
    let text := (freezeAt text).getD text
    if text.head? = some 91 then some text else none
  else none

def parseTrustRootList (text ident : JsString) : Except JsString (List JsString) :=
  match firstAtWord (declarationAt ident) false (stripComments text) with
  | none => .error (ident ++ js ": declaration not found")
  | some array =>
    match stringLiteralsOfArray array with
    | .error e => .error e
    | .ok literals =>
      match literals.mapM fun p => validatePathGlob p ident with
      | .error e => .error e
      | .ok [] => .error (ident ++ js ": empty list")
      | .ok entries => .ok entries

/-! ## Modules that declare a list -/

/-- A module, from its start to the list. -/
structure ListModule where
  before : List Piece
  afterConst : List Trivia
  beforeEquals : List Trivia
  afterEquals : List Trivia
  freeze : Option (List Trivia × List Trivia)
  body : ListBody
  /-- The text after the closing bracket. -/
  after : JsString

def trivia (ts : List Trivia) : List Piece := ts.map Trivia.piece

/-- What stands between the equals sign and the opening bracket, without white space in front. -/
def ListModule.frozen (m : ListModule) : List Piece :=
  match m.freeze with
  | none => []
  | some (afterFreeze, afterParen) =>
    .code (js "Object.freeze") :: (trivia afterFreeze ++ .code (js "(") :: trivia afterParen)

/-- The declaration up to the opening bracket. -/
def ListModule.declaration (m : ListModule) (ident : JsString) : List Piece :=
  .code (js "const") :: (trivia m.afterConst ++ .code ident :: (trivia m.beforeEquals ++ .code (js "=") ::
    (trivia m.afterEquals ++ m.frozen)))

/-- The declaration with its list. -/
def ListModule.list (m : ListModule) (ident : JsString) : List Piece :=
  m.declaration ident ++ .code (js "[") :: (m.body.pieces ++ [.code (js "]")])

def ListModule.pieces (m : ListModule) (ident : JsString) : List Piece := m.before ++ m.list ident

def ListModule.text (m : ListModule) (ident : JsString) : JsString :=
  piecesText (m.pieces ident) ++ m.after

/-- The parser throws, or returns a list with every string of the evaluated array. -/
def KeepsAll (m : ListModule) (ident : JsString) : Prop :=
  ∀ entries, parseTrustRootList (m.text ident) ident = .ok entries → ∀ v ∈ m.body.values, v ∈ entries

/-! ## What the scanners make of a piece -/

/-- What is left of a piece when comments are stripped. -/
def cleanPiece : Piece → JsString
  | .code text => text
  | .regex text => text
  | .lineComment _ => []
  | .blockComment _ => []
  | .string s => s.text
  | .template parts closed => (Piece.template parts closed).text

def cleanText (ps : List Piece) : JsString := ps.flatMap cleanPiece

/-- A part as it is read: a backslash is dropped. -/
def readPart : LiteralPart → JsString
  | .unit c => [c]
  | p => p.text.tail

def literalReading (s : StringLiteral) : JsString := s.parts.flatMap readPart

/-- The literals of some pieces, as they are read. -/
def readings (ps : List Piece) : List JsString :=
  ps.filterMap fun p =>
    match p with
    | .string s => some (literalReading s)
    | _ => none

/-- How deep in brackets the loop of `stringLiteralsOfArray` is after some code, if it has not returned. -/
def bracketsFrom : Nat → JsString → Option Nat
  | depth, [] => some depth
  | depth, c :: text =>
    if c = 91 then bracketsFrom (depth + 1) text
    else if c = 93 then if depth = 1 then none else bracketsFrom (depth - 1) text
    else bracketsFrom depth text

def nesting : Nat → List Piece → Option Nat
  | depth, [] => some depth
  | depth, .code text :: ps => (bracketsFrom depth text).bind fun d => nesting d ps
  | depth, .regex text :: ps => (bracketsFrom depth text).bind fun d => nesting d ps
  | depth, .lineComment _ :: ps => nesting depth ps
  | depth, .blockComment _ :: ps => nesting depth ps
  | depth, .string _ :: ps => nesting depth ps
  | depth, .template _ _ :: ps => nesting depth ps

/-- Code in which no quote stands and no comment opens, with what follows. -/
def CodeScans (text rest : JsString) : Prop :=
  ∀ front c back, text = front ++ c :: back → isQuote c = false ∧
    (c = 47 → (back ++ rest).head? ≠ some 47 ∧ (back ++ rest).head? ≠ some 42)

/-- The piece is for the scanner what it is in the module. -/
def PieceScans : Piece → JsString → Prop
  | .code text, rest => CodeScans text rest
  | .regex text, rest => CodeScans text rest
  | .lineComment body, rest => 10 ∉ body ∧ rest.head?.all (fun c => c = 10) = true
  | .blockComment body, _ => ¬js "*/" <:+: body
  | .string _, _ => True
  | .template _ _, _ => True

def Scans : List Piece → JsString → Prop
  | [], _ => True
  | p :: ps, rest => PieceScans p (piecesText ps ++ rest) ∧ Scans ps rest

/-! ## Stripping comments -/

theorem strip_code {text rest : JsString} (h : CodeScans text rest) :
    stripFrom .code (text ++ rest) = text ++ stripFrom .code rest := by
  induction text with
  | nil => rfl
  | cons c text ih =>
    obtain ⟨hquote, hslash⟩ := h [] c text rfl
    have htail : CodeScans text rest := by
      rintro front d back rfl
      exact h (c :: front) d back rfl
    have hline : ¬(c = 47 ∧ (text ++ rest).head? = some 47) := fun e => (hslash e.1).1 e.2
    have hblock : ¬(c = 47 ∧ (text ++ rest).head? = some 42) := fun e => (hslash e.1).2 e.2
    rw [List.cons_append, stripFrom, if_neg (by rw [hquote]; exact Bool.false_ne_true), if_neg hline,
      if_neg hblock, ih htail, List.cons_append]

theorem strip_inside {quote : UInt16} {text : JsString} (h : ∀ c ∈ text, c ≠ quote ∧ c ≠ 92)
    (rest : JsString) :
    stripFrom (.string quote) (text ++ rest) = text ++ stripFrom (.string quote) rest := by
  induction text with
  | nil => rfl
  | cons c text ih =>
    obtain ⟨hquote, hescape⟩ := h c List.mem_cons_self
    rw [List.cons_append, stripFrom, if_neg hquote, if_neg hescape,
      ih fun d hd => h d (List.mem_cons_of_mem c hd), List.cons_append]

/-- Escaped parts start with a backslash and one more unit. -/
theorem closed_cases {quote : UInt16} {p : LiteralPart} (h : p.Closed quote) :
    (∃ c, p = .unit c ∧ c ≠ quote ∧ c ≠ 92) ∨
      ∃ c tail, p.text = 92 :: c :: tail ∧ readPart p = c :: tail ∧ ∀ d ∈ tail, d ≠ quote ∧ d ≠ 92 := by
  cases p with
  | unit c => exact .inl ⟨c, rfl, h⟩
  | escape c => exact .inr ⟨c, [], rfl, rfl, h.2⟩
  | hex a b => exact .inr ⟨_, _, rfl, rfl, h.2⟩
  | unicode a b c d => exact .inr ⟨_, _, rfl, rfl, h.2⟩
  | codePoint digits => exact .inr ⟨_, _, rfl, rfl, h.2⟩
  | continuation terminator =>
    obtain ⟨hne, htail⟩ := h
    cases terminator with
    | nil => exact absurd rfl hne
    | cons c tail => exact .inr ⟨c, tail, rfl, rfl, htail⟩

theorem strip_part {quote : UInt16} (hquote : quote ≠ 92) {p : LiteralPart} (h : p.Closed quote)
    (rest : JsString) :
    stripFrom (.string quote) (p.text ++ rest) = p.text ++ stripFrom (.string quote) rest := by
  obtain ⟨c, rfl, hc⟩ | ⟨c, tail, htext, -, htail⟩ := closed_cases h
  · refine strip_inside ?_ rest
    intro d hd
    obtain rfl := List.mem_singleton.mp hd
    exact hc
  · rw [htext, List.cons_append, List.cons_append, stripFrom, if_neg (Ne.symm hquote), if_pos rfl, stripFrom,
      strip_inside htail, List.cons_append, List.cons_append]

theorem strip_parts {quote : UInt16} (hquote : quote ≠ 92) {parts : List LiteralPart}
    (h : ∀ p ∈ parts, p.Closed quote) (rest : JsString) :
    stripFrom (.string quote) (partsText parts ++ quote :: rest) =
      partsText parts ++ quote :: stripFrom .code rest := by
  induction parts with
  | nil => exact if_pos rfl
  | cons p parts ih =>
    have htail := ih fun q hq => h q (List.mem_cons_of_mem p hq)
    rw [partsText, List.flatMap_cons, List.append_assoc, strip_part hquote (h p List.mem_cons_self),
      ← partsText, htail, List.append_assoc]

theorem strip_quoted {quote : UInt16} (hquote : isQuote quote = true) {parts : List LiteralPart}
    (h : ∀ p ∈ parts, p.Closed quote) (rest : JsString) :
    stripFrom .code (quote :: (partsText parts ++ [quote]) ++ rest) =
      quote :: (partsText parts ++ [quote]) ++ stripFrom .code rest := by
  have hne : quote ≠ 92 := by
    rintro rfl
    exact absurd hquote (by decide)
  rw [List.cons_append, stripFrom, if_pos hquote, List.append_assoc, List.singleton_append,
    strip_parts hne h, List.cons_append, List.append_assoc, List.singleton_append]

theorem strip_line {body rest : JsString} (hbody : 10 ∉ body)
    (hrest : rest.head?.all (fun c => c = 10) = true) :
    stripFrom .line (body ++ rest) = stripFrom .code rest := by
  induction body with
  | nil =>
    cases rest with
    | nil => rfl
    | cons c rest =>
      obtain rfl : c = 10 := of_decide_eq_true hrest
      rfl
  | cons c body ih =>
    have hc : c ≠ 10 := fun e => hbody (e ▸ List.mem_cons_self)
    rw [List.cons_append, stripFrom, if_neg hc, ih fun hmem => hbody (List.mem_cons_of_mem c hmem)]

theorem strip_block {body : JsString} (h : ¬js "*/" <:+: body) (rest : JsString) :
    stripFrom .block (body ++ 42 :: 47 :: rest) = stripFrom .code rest := by
  induction body with
  | nil => rfl
  | cons c body ih =>
    have hopen : ¬(c = 42 ∧ (body ++ 42 :: 47 :: rest).head? = some 47) := by
      rintro ⟨rfl, hhead⟩
      cases body with
      | nil => exact absurd (Option.some.inj hhead) (by decide)
      | cons d body =>
        obtain rfl : d = 47 := Option.some.inj hhead
        exact h ⟨[], body, rfl⟩
    have htail : ¬js "*/" <:+: body := fun hinfix => h (List.infix_cons hinfix)
    rw [List.cons_append, stripFrom, if_neg hopen, ih htail]

theorem strip_pieces {ps : List Piece} {rest : JsString} (h : Scans ps rest) :
    stripFrom .code (piecesText ps ++ rest) = cleanText ps ++ stripFrom .code rest := by
  induction ps with
  | nil => rfl
  | cons p ps ih =>
    obtain ⟨hp, hps⟩ := h
    have htext : piecesText (p :: ps) ++ rest = p.text ++ (piecesText ps ++ rest) := by
      rw [piecesText, List.flatMap_cons, List.append_assoc, ← piecesText]
    have hclean : cleanText (p :: ps) = cleanPiece p ++ cleanText ps := List.flatMap_cons
    rw [htext, hclean, List.append_assoc, ← ih hps]
    cases p with
    | code text => exact strip_code hp
    | regex text => exact strip_code hp
    | lineComment body =>
      have hline := strip_line hp.1 hp.2
      exact hline
    | blockComment body =>
      have hblock := strip_block hp (piecesText ps ++ rest)
      have hopen : (Piece.blockComment body).text ++ (piecesText ps ++ rest) =
          47 :: 42 :: (body ++ 42 :: 47 :: (piecesText ps ++ rest)) := by
        have hstart : js "/*" = [47, 42] := by decide
        have hstop : js "*/" = [42, 47] := by decide
        rw [Piece.text, hstart, hstop]
        simp only [List.append_assoc, List.cons_append, List.nil_append]
      rw [hopen]
      exact hblock
    | string s =>
      refine strip_quoted ?_ (fun q hq => (s.valid q hq).closed s.quoted) _
      obtain e | e := s.quoted <;> rw [e] <;> rfl
    | template parts closed => exact strip_quoted rfl closed _

/-! ## Literals of the list -/

section Literals

variable {depth : Nat} {out : List JsString} {quote : UInt16}

theorem literals_code {text : JsString} {d : Nat} (hquote : ∀ c ∈ text, isQuote c = false)
    (h : bracketsFrom depth text = some d) (rest : JsString) :
    literalsFrom (.code depth) out (text ++ rest) = literalsFrom (.code d) out rest := by
  induction text generalizing depth with
  | nil =>
    obtain rfl := Option.some.inj h
    rfl
  | cons c text ih =>
    have hc := hquote c List.mem_cons_self
    have htail := fun e he => hquote e (List.mem_cons_of_mem c he)
    simp only [isQuote, Bool.or_eq_false_iff, decide_eq_false_iff_not] at hc
    obtain ⟨⟨hdouble, hsingle⟩, hback⟩ := hc
    rw [List.cons_append, literalsFrom, if_neg (not_or.mpr ⟨hdouble, hsingle⟩), if_neg hback]
    rw [bracketsFrom] at h
    split at h
    · rename_i hopen
      rw [if_pos hopen, ih htail h]
    · rename_i hopen
      rw [if_neg hopen]
      split at h
      · rename_i hclose
        split at h
        · cases h
        · rename_i hone
          rw [if_pos hclose, if_neg hone, ih htail h]
      · rename_i hclose
        rw [if_neg hclose, ih htail h]

theorem literals_inside {text : JsString} (h : ∀ c ∈ text, c ≠ quote ∧ c ≠ 92) (s rest : JsString) :
    literalsFrom (.literal depth quote s) out (text ++ rest) =
      literalsFrom (.literal depth quote (s ++ text)) out rest := by
  induction text generalizing s with
  | nil => rw [List.nil_append, List.append_nil]
  | cons c text ih =>
    obtain ⟨hquote, hescape⟩ := h c List.mem_cons_self
    rw [List.cons_append, literalsFrom, if_neg hquote, if_neg hescape,
      ih (fun d hd => h d (List.mem_cons_of_mem c hd)), List.append_assoc, List.singleton_append]

theorem literals_part (hquote : quote ≠ 92) {p : LiteralPart} (h : p.Closed quote) (s rest : JsString) :
    literalsFrom (.literal depth quote s) out (p.text ++ rest) =
      literalsFrom (.literal depth quote (s ++ readPart p)) out rest := by
  obtain ⟨c, rfl, hc⟩ | ⟨c, tail, htext, hread, htail⟩ := closed_cases h
  · refine literals_inside ?_ s rest
    intro d hd
    obtain rfl := List.mem_singleton.mp hd
    exact hc
  · rw [htext, hread, List.cons_append, List.cons_append, literalsFrom, if_neg (Ne.symm hquote), if_pos rfl,
      literalsFrom, literals_inside htail, List.append_assoc, List.singleton_append]

theorem literals_parts (hquote : quote ≠ 92) {parts : List LiteralPart} (h : ∀ p ∈ parts, p.Closed quote)
    (s rest : JsString) :
    literalsFrom (.literal depth quote s) out (partsText parts ++ quote :: rest) =
      literalsFrom (.code depth) (out ++ [s ++ parts.flatMap readPart]) rest := by
  induction parts generalizing s with
  | nil =>
    rw [List.flatMap_nil, List.append_nil]
    exact if_pos rfl
  | cons p parts ih =>
    have htail := ih fun q hq => h q (List.mem_cons_of_mem p hq)
    rw [partsText, List.flatMap_cons, List.append_assoc, literals_part hquote (h p List.mem_cons_self),
      ← partsText, htail, List.flatMap_cons, List.append_assoc]

theorem literals_string (s : StringLiteral) (rest : JsString) :
    literalsFrom (.code depth) out (s.text ++ rest) =
      literalsFrom (.code depth) (out ++ [literalReading s]) rest := by
  have hne : s.quote ≠ 92 := by
    obtain e | e := s.quoted <;> rw [e] <;> decide
  have hparts := fun q hq => (s.valid q hq).closed s.quoted
  rw [StringLiteral.text, List.cons_append, literalsFrom, if_pos s.quoted, List.append_assoc,
    List.singleton_append, literals_parts hne hparts, List.nil_append, literalReading]

theorem quoteless {text rest : JsString} (h : CodeScans text rest) : ∀ c ∈ text, isQuote c = false := by
  intro c hc
  obtain ⟨front, back, e⟩ := List.append_of_mem hc
  exact (h front c back e).1

theorem literals_pieces {ps : List Piece} {rest : JsString} (hscans : Scans ps rest) {d : Nat}
    (h : nesting depth ps = some d) (hplain : ∀ p ∈ ps, p.isTemplate = false) (text : JsString) :
    literalsFrom (.code depth) out (cleanText ps ++ text) =
      literalsFrom (.code d) (out ++ readings ps) text := by
  induction ps generalizing depth out with
  | nil =>
    obtain rfl := Option.some.inj h
    rw [readings, List.filterMap_nil, List.append_nil, cleanText, List.flatMap_nil, List.nil_append]
  | cons p ps ih =>
    obtain ⟨hp, hps⟩ := hscans
    have htail := fun q hq => hplain q (List.mem_cons_of_mem p hq)
    rw [cleanText, List.flatMap_cons, List.append_assoc, ← cleanText]
    cases p with
    | code s =>
      obtain ⟨b, hb, hrest⟩ := Option.bind_eq_some_iff.mp h
      rw [cleanPiece, literals_code (quoteless hp) hb, ih hps hrest htail]
      rfl
    | regex s =>
      obtain ⟨b, hb, hrest⟩ := Option.bind_eq_some_iff.mp h
      rw [cleanPiece, literals_code (quoteless hp) hb, ih hps hrest htail]
      rfl
    | lineComment body => exact ih hps h htail
    | blockComment body => exact ih hps h htail
    | string s =>
      have hread : readings (.string s :: ps) = literalReading s :: readings ps := rfl
      rw [cleanPiece, literals_string, ih hps h htail, hread, List.append_assoc,
        List.singleton_append]
    | template parts closed => exact absurd (hplain _ List.mem_cons_self) (by exact Bool.noConfusion)

theorem literals_template {ps : List Piece} {rest : JsString} (hscans : Scans ps rest) {d : Nat}
    (h : nesting depth ps = some d) (htemplate : ∃ p ∈ ps, p.isTemplate = true) (text : JsString) :
    literalsFrom (.code depth) out (cleanText ps ++ text) =
      .error (js "template literal inside a trust-root list") := by
  induction ps generalizing depth out with
  | nil =>
    obtain ⟨p, hp, -⟩ := htemplate
    cases hp
  | cons p ps ih =>
    obtain ⟨hp, hps⟩ := hscans
    have htail : p.isTemplate = false → ∃ q ∈ ps, q.isTemplate = true := by
      intro hplain
      obtain ⟨q, hq, hqtemplate⟩ := htemplate
      obtain rfl | hq := List.mem_cons.mp hq
      · exact absurd hqtemplate (by rw [hplain]; exact Bool.false_ne_true)
      · exact ⟨q, hq, hqtemplate⟩
    rw [cleanText, List.flatMap_cons, List.append_assoc, ← cleanText]
    cases p with
    | code s =>
      obtain ⟨b, hb, hrest⟩ := Option.bind_eq_some_iff.mp h
      rw [cleanPiece, literals_code (quoteless hp) hb, ih hps hrest (htail rfl)]
    | regex s =>
      obtain ⟨b, hb, hrest⟩ := Option.bind_eq_some_iff.mp h
      rw [cleanPiece, literals_code (quoteless hp) hb, ih hps hrest (htail rfl)]
    | lineComment body => exact ih hps h (htail rfl)
    | blockComment body => exact ih hps h (htail rfl)
    | string s =>
      rw [cleanPiece, literals_string, ih hps h (htail rfl)]
    | template parts closed => rfl

end Literals

end Adlc.Autopilot
