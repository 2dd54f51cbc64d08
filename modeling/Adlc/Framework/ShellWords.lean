import Adlc.Framework.ShellText

namespace Adlc.Framework.Shell

open Adlc.Framework

def dollar : UInt16 := 36
def asterisk : UInt16 := 42
def equals : UInt16 := 61
def question : UInt16 := 63
def openBracket : UInt16 := 91
def backquote : UInt16 := 96
def tilde : UInt16 := 126

/-! ## Words and operators -/

/-- What quotes a unit: nothing, double quotes, or single quotes or a backslash. -/
inductive Quoting where
  | bare
  | soft
  | hard
  deriving DecidableEq

/-- A word without its quotes. -/
abbrev Word := List (UInt16 × Quoting)

inductive Token where
  | word (word : Word)
  | operator
  deriving DecidableEq

/-- What a unit of the text is to its words. -/
inductive Share where
  | units (units : Word)
  | blank
  | operator
  | nothing
  deriving DecidableEq

def sharePlain (wordStart : Bool) (c : UInt16) : Share :=
  match (stepPlain wordStart c).2 with
  | .comment => .nothing
  | .part =>
    if c = escape then .nothing
    else if c = singleQuote || c = doubleQuote then .units []
    else if isBlank c then .blank
    else .units [(c, .bare)]
  | _ => .operator

def Lex.share (state : Lex) (c : UInt16) : Share :=
  match state with
  | .plain wordStart => sharePlain wordStart c
  -- a backslash before a line feed is no part of a word
  | .escaped _ => if c = lineFeed then .nothing else .units [(c, .hard)]
  | .single => if c = singleQuote then .units [] else .units [(c, .hard)]
  | .double => if c = escape || c = doubleQuote then .units [] else .units [(c, .soft)]
  | .doubleEscaped =>
    if c = dollar || c = backquote || c = doubleQuote || c = escape then .units [(c, .hard)]
    else if c = lineFeed then .units []
    else .units [(escape, .soft), (c, .soft)]
  | .comment => if c = lineFeed then .operator else .nothing
  | .redirect output =>
    if c = ampersand || (c = pipe && output) || c = greater || c = less then .operator
    else sharePlain true c

/-- The text may end here. -/
def Lex.closed : Lex → Bool
  | .single | .double | .doubleEscaped => false
  | _ => true

def wordTokens (word : Option Word) : List Token := word.toList.map .word

def tokensFrom (state : Lex) (word : Option Word) : JsString → Option (List Token)
  | [] => if state.closed then some (wordTokens word) else none
  | c :: rest =>
    match state.share c with
    | .units units => tokensFrom (state.step c).1 (some (word.getD [] ++ units)) rest
    | .blank => (tokensFrom (state.step c).1 none rest).map (wordTokens word ++ ·)
    | .operator => (tokensFrom (state.step c).1 none rest).map (wordTokens word ++ .operator :: ·)
    | .nothing => tokensFrom (state.step c).1 word rest

/-- The tokens of a text whose quotes are closed. -/
def tokens (text : JsString) : Option (List Token) := tokensFrom (.plain true) none text

/-! ## Commands that are their words -/

def Token.word? : Token → Option Word
  | .word w => some w
  | .operator => none

def Word.value (word : Word) : JsString := word.map Prod.fst

/-- The units that begin an expansion: of a parameter, a command or an arithmetic expression, of a home
directory, or of a pattern. -/
def expansionUnits : List UInt16 := [dollar, backquote, tilde, asterisk, question, openBracket]

def Word.expands (word : Word) : Bool :=
  word.any fun (c, quoting) =>
    match quoting with
    | .bare => expansionUnits.contains c
    | .soft => c = dollar || c = backquote
    | .hard => false

def isNameUnit (c : UInt16) : Bool :=
  let n := c.toNat
  (48 ≤ n && n ≤ 57) || (65 ≤ n && n ≤ 90) || n = 95 || (97 ≤ n && n ≤ 122)

def isDigit (c : UInt16) : Bool := 48 ≤ c.toNat && c.toNat ≤ 57

/-- `name=…`, where the name and the sign are not quoted. -/
def Word.isAssignment (word : Word) : Bool :=
  let name := word.takeWhile fun (c, quoting) => quoting = .bare && isNameUnit c
  name ≠ [] && !(name.head?.any fun u => isDigit u.1) &&
    (word.drop name.length).head? = some (equals, .bare)

def reservedWords : List JsString :=
  [js "!", js "\x7b", js "\x7d", js "case", js "do", js "done", js "elif", js "else", js "esac",
    js "fi", js "for", js "if", js "in", js "then", js "until", js "while"]

def Word.isReserved (word : Word) : Bool :=
  (word.all fun u => u.2 = .bare) && reservedWords.contains word.value

/-- The words of a text that is one simple command without expansion, substitution, redirection,
operator or assignment. -/
def plainCommand (text : JsString) : Option (List JsString) :=
  match tokens text with
  | none => none
  | some tokens =>
    match tokens.mapM Token.word? with
    | some (command :: arguments) =>
      if command.isAssignment || command.isReserved || (command :: arguments).any Word.expands then none
      else some ((command :: arguments).map Word.value)
    | _ => none

/-! ## Texts that spell one word -/

/-- The units that end a word, quote a unit, or can begin a comment. -/
def specialUnits : List UInt16 :=
  [escape, singleQuote, doubleQuote, hash, semicolon, ampersand, pipe, lineFeed, openParen, closeParen,
    less, greater, space, tab]

def isOrdinary (c : UInt16) : Bool := !specialUnits.contains c

def bareWord (text : JsString) : Word := text.map fun c => (c, .bare)
def hardWord (text : JsString) : Word := text.map fun c => (c, .hard)

/-- Between words the text spells this word and nothing else. -/
def Spells (text : JsString) (word : Word) : Prop :=
  ∀ wordStart rest, ∃ wordStart',
    tokensFrom (.plain wordStart) none (text ++ rest) = tokensFrom (.plain wordStart') (some word) rest

theorem step_ordinary {c : UInt16} (h : isOrdinary c = true) (wordStart : Bool) :
    (Lex.plain wordStart).step c = (.plain false, .part) ∧
      (Lex.plain wordStart).share c = .units [(c, .bare)] := by
  have hmem : c ∉ specialUnits := by simpa [isOrdinary] using h
  simp only [specialUnits, List.mem_cons, List.not_mem_nil, or_false, not_or] at hmem
  obtain ⟨h1, h2, h3, h4, h5, h6, h7, h8, h9, h10, h11, h12, h13, h14⟩ := hmem
  have hcontrol : isControl c = false := by simp [isControl, h5, h6, h7, h8]
  have hblank : isBlank c = false := by simp [isBlank, h13, h14]
  have hstep : stepPlain wordStart c = (.plain false, .part) := by
    simp [stepPlain, h1, h2, h3, h4, hcontrol, h9, h10, h11, h12, hblank]
  refine ⟨hstep, ?_⟩
  simp [Lex.share, sharePlain, hstep, h1, h2, h3, hblank]

theorem tokensFrom_ordinary {text : JsString} (h : ∀ c ∈ text, isOrdinary c = true)
    (wordStart : Bool) (word : Word) (rest : JsString) :
    ∃ wordStart', tokensFrom (.plain wordStart) (some word) (text ++ rest) =
      tokensFrom (.plain wordStart') (some (word ++ bareWord text)) rest := by
  induction text generalizing wordStart word with
  | nil => exact ⟨wordStart, by rw [bareWord, List.map_nil, List.append_nil, List.nil_append]⟩
  | cons c text ih =>
    obtain ⟨hstep, hshare⟩ := step_ordinary (h c List.mem_cons_self) wordStart
    have htext : ∀ d ∈ text, isOrdinary d = true := fun d hd => h d (List.mem_cons_of_mem _ hd)
    obtain ⟨wordStart', htokens⟩ := ih htext false (word ++ [(c, .bare)])
    refine ⟨wordStart', ?_⟩
    rw [List.cons_append, tokensFrom, hshare, hstep]
    simpa [bareWord] using htokens

theorem spells_bare {text : JsString} (hne : text ≠ []) (h : ∀ c ∈ text, isOrdinary c = true) :
    Spells text (bareWord text) := by
  intro wordStart rest
  obtain ⟨c, text, rfl⟩ := List.exists_cons_of_ne_nil hne
  obtain ⟨hstep, hshare⟩ := step_ordinary (h c List.mem_cons_self) wordStart
  have htext : ∀ d ∈ text, isOrdinary d = true := fun d hd => h d (List.mem_cons_of_mem _ hd)
  obtain ⟨wordStart', htokens⟩ := tokensFrom_ordinary htext false [(c, .bare)] rest
  refine ⟨wordStart', ?_⟩
  rw [List.cons_append, tokensFrom, hshare, hstep]
  simpa [bareWord] using htokens

theorem tokensFrom_single {inner : JsString} (h : ∀ c ∈ inner, c ≠ singleQuote) (word : Word)
    (rest : JsString) : tokensFrom .single (some word) (inner ++ singleQuote :: rest) =
      tokensFrom (.plain false) (some (word ++ hardWord inner)) rest := by
  induction inner generalizing word with
  | nil =>
    rw [List.nil_append, tokensFrom]
    simp [Lex.share, Lex.step, hardWord]
  | cons c inner ih =>
    have hc := h c List.mem_cons_self
    have hinner : ∀ d ∈ inner, d ≠ singleQuote := fun d hd => h d (List.mem_cons_of_mem _ hd)
    have htokens := ih hinner (word ++ [(c, .hard)])
    rw [List.cons_append, tokensFrom]
    simpa [Lex.share, Lex.step, hc, hardWord] using htokens

theorem spells_quoted {inner : JsString} (h : ∀ c ∈ inner, c ≠ singleQuote) :
    Spells (singleQuote :: inner ++ [singleQuote]) (hardWord inner) := by
  intro wordStart rest
  refine ⟨false, ?_⟩
  have hopen : (Lex.plain wordStart).share singleQuote = .units [] := by
    cases wordStart <;> rfl
  have hstep : ((Lex.plain wordStart).step singleQuote).1 = .single := by
    cases wordStart <;> rfl
  have htokens := tokensFrom_single h [] rest
  rw [List.append_assoc, List.cons_append, tokensFrom, hopen, hstep]
  simpa using htokens

theorem tokensFrom_spelled {texts : List JsString} {words : List Word}
    (h : List.Forall₂ Spells texts words) (hne : texts ≠ []) (wordStart : Bool) :
    tokensFrom (.plain wordStart) none ([space].intercalate texts) = some (words.map .word) := by
  induction h generalizing wordStart with
  | nil => exact absurd rfl hne
  | @cons text word texts words hspells hrest ih =>
    cases texts with
    | nil =>
      cases hrest
      obtain ⟨wordStart', htokens⟩ := hspells wordStart []
      rw [List.append_nil] at htokens
      have hsingle : [space].intercalate [text] = text := by simp
      rw [hsingle, htokens]
      rfl
    | cons next texts =>
      have hcons : [space].intercalate (text :: next :: texts) =
          text ++ space :: [space].intercalate (next :: texts) := by
        simp
      obtain ⟨wordStart', htokens⟩ := hspells wordStart (space :: [space].intercalate (next :: texts))
      have hshare : (Lex.plain wordStart').share space = .blank := by
        cases wordStart' <;> rfl
      have hstep : ((Lex.plain wordStart').step space).1 = .plain true := by
        cases wordStart' <;> rfl
      rw [hcons, htokens, tokensFrom, hshare, hstep]
      simp only
      rw [ih (List.cons_ne_nil _ _) true]
      rfl

/-- Texts that each spell a word, with a space between them, are those words. -/
theorem tokens_intercalate {texts : List JsString} {words : List Word}
    (h : List.Forall₂ Spells texts words) (hne : texts ≠ []) :
    tokens ([space].intercalate texts) = some (words.map .word) := tokensFrom_spelled h hne true

theorem mapM_word? (words : List Word) : (words.map Token.word).mapM Token.word? = some words := by
  induction words with
  | nil => rfl
  | cons word words ih =>
    rw [List.map_cons, List.mapM_cons, ih]
    rfl

theorem plainCommand_intercalate {text : JsString} {texts : List JsString} {word : Word}
    {words : List Word} (h : List.Forall₂ Spells (text :: texts) (word :: words))
    (hassignment : word.isAssignment = false) (hreserved : word.isReserved = false)
    (hexpands : ∀ w ∈ word :: words, Word.expands w = false) :
    plainCommand ([space].intercalate (text :: texts)) = some ((word :: words).map Word.value) := by
  have hany : (word :: words).any Word.expands = false := by
    rw [List.any_eq_false]
    intro w hw
    rw [hexpands w hw]
    exact Bool.false_ne_true
  rw [plainCommand, tokens_intercalate h (List.cons_ne_nil _ _)]
  simp only
  rw [mapM_word?]
  simp only
  rw [hassignment, hreserved, hany]
  rfl

theorem value_bareWord (text : JsString) : (bareWord text).value = text := by
  simp [bareWord, Word.value, Function.comp_def]

theorem value_hardWord (text : JsString) : (hardWord text).value = text := by
  simp [hardWord, Word.value, Function.comp_def]

theorem expands_bareWord {text : JsString} (h : ∀ c ∈ text, c ∉ expansionUnits) :
    (bareWord text).expands = false := by
  rw [Word.expands, bareWord, List.any_map, List.any_eq_false]
  intro c hc
  simpa using h c hc

theorem expands_hardWord (text : JsString) : (hardWord text).expands = false := by
  simp [hardWord, Word.expands]

end Adlc.Framework.Shell
