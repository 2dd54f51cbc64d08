import Adlc.Framework.Lines

namespace Adlc.Framework.Shell

open Adlc.Framework

def tab : UInt16 := 9
def lineFeed : UInt16 := 10
def space : UInt16 := 32
def doubleQuote : UInt16 := 34
def hash : UInt16 := 35
def ampersand : UInt16 := 38
def singleQuote : UInt16 := 39
def openParen : UInt16 := 40
def closeParen : UInt16 := 41
def semicolon : UInt16 := 59
def less : UInt16 := 60
def greater : UInt16 := 62
def escape : UInt16 := 92
def pipe : UInt16 := 124

/-! ## Tokenization -/

/-- Where the shell is in the text. `wordStart` says that a `#` begins a comment here; `redirect`
follows `<`, or `>` if `output`, whose operator can have a second unit. -/
inductive Lex where
  | plain (wordStart : Bool)
  | escaped (wordStart : Bool)
  | single
  | double
  | doubleEscaped
  | comment
  | redirect (output : Bool)
  deriving DecidableEq

/-- What a unit of the text belongs to. -/
inductive Mark where
  | part
  | input
  | output
  | separator
  | paren
  | comment
  deriving DecidableEq

def isBlank (c : UInt16) : Bool := c = space || c = tab

/-- A control operator that is no parenthesis, or a unit of one. -/
def isControl (c : UInt16) : Bool := c = semicolon || c = ampersand || c = pipe || c = lineFeed

def stepPlain (wordStart : Bool) (c : UInt16) : Lex × Mark :=
  if c = escape then (.escaped wordStart, .part)
  else if c = singleQuote then (.single, .part)
  else if c = doubleQuote then (.double, .part)
  else if c = hash && wordStart then (.comment, .comment)
  else if isControl c then (.plain true, .separator)
  else if c = openParen || c = closeParen then (.plain true, .paren)
  else if c = less then (.redirect false, .input)
  else if c = greater then (.redirect true, .output)
  else (.plain (isBlank c), .part)

def Lex.step (state : Lex) (c : UInt16) : Lex × Mark :=
  match state with
  | .plain wordStart => stepPlain wordStart c
  | .escaped wordStart => (.plain (wordStart && c = lineFeed), .part)
  | .single => (if c = singleQuote then .plain false else .single, .part)
  | .double =>
    (if c = escape then .doubleEscaped else if c = doubleQuote then .plain false else .double, .part)
  | .doubleEscaped => (.double, .part)
  | .comment => if c = lineFeed then (.plain true, .separator) else (.comment, .comment)
  | .redirect output =>
    -- `>&`, `<&` and `>|` are operators, and so are `>>`, `<<` and `<>`
    if c = ampersand || (c = pipe && output) then (.plain true, .part)
    else if c = greater then (.plain true, .output)
    else if c = less then (.plain true, .input)
    else stepPlain true c

def lexed : Lex → JsString → List (UInt16 × Mark)
  | _, [] => []
  | state, c :: rest => (c, (state.step c).2) :: lexed (state.step c).1 rest

def ends (mark : Mark) : Bool := mark = .separator || mark = .paren

/-- The texts between the operators, without comments; `current` is the one that has begun. -/
def commandsFrom (current : JsString) : List (UInt16 × Mark) → List JsString
  | [] => [current]
  | (c, mark) :: rest =>
    if ends mark then current :: commandsFrom [] rest
    else if mark = .comment then commandsFrom current rest
    else commandsFrom (current ++ [c]) rest

/-- The simple commands of the text, as they are written. -/
def simpleCommands (text : JsString) : List JsString :=
  (commandsFrom [] (lexed (.plain true) text)).filter fun command => command.any fun c => !isBlank c

/-- Some unit of the text is one of this kind. -/
def HasMark (mark : Mark) (text : JsString) : Prop :=
  ∃ c, (c, mark) ∈ lexed (.plain true) text

theorem hasMark_iff {mark : Mark} {text : JsString} :
    HasMark mark text ↔ ∃ m ∈ lexed (.plain true) text, m.2 = mark := by
  constructor
  · rintro ⟨c, hm⟩
    exact ⟨(c, mark), hm, rfl⟩
  · rintro ⟨⟨c, _⟩, hm, rfl⟩
    exact ⟨c, hm⟩

instance (mark : Mark) (text : JsString) : Decidable (HasMark mark text) :=
  decidable_of_iff _ hasMark_iff.symm

end Adlc.Framework.Shell
