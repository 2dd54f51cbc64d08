import Adlc.Framework.Scan
import Adlc.TicketSync.Validate

namespace Adlc.TicketSync

open Adlc.Framework Adlc.Tickets

variable {ν : Type} [JsNumber ν]

/-! ## Texts -/

/-- `text.replace(/\r\n/g, '\n')` -/
def replaceCrlf : JsString → JsString
  | [] => []
  | [c] => [c]
  | c :: d :: s => if c = 13 ∧ d = 10 then 10 :: replaceCrlf s else c :: replaceCrlf (d :: s)

def normalizeNewlines (text : JsString) : JsString :=
  (replaceCrlf text).map fun c => if c = 13 then 10 else c

/-- A character of `\w`. -/
def isWord (c : UInt16) : Bool :=
  isDigit c || (65 ≤ c.toNat && c.toNat ≤ 90) || (97 ≤ c.toNat && c.toNat ≤ 122) || c = 95

/-- `\b` between a character of `\w` and the text. -/
def boundaryBefore (text : JsString) : Bool := !(text.head?.any isWord)

def lineOf (text : JsString) (index : Nat) : Nat := (splitLines (text.take index)).length

/-! ## The sentinels -/

/-- `([^>]*?)-->` -/
def untilArrow : JsString → Option (JsString × JsString)
  | [] => none
  | c :: s =>
    match (js "-->").isPrefixOf? (c :: s) with
    | some rest => some ([], rest)
    | none => if c = 62 then none else (untilArrow s).map fun p => (c :: p.1, p.2)

/-- `<!--\s*adlc:begin\b([^>]*?)-->` -/
def beginSentinel : Pattern UInt16 JsString := fun text =>
  match (js "<!--").isPrefixOf? text with
  | none => none
  | some text =>
    match (js "adlc:begin").isPrefixOf? (text.dropWhile isTrimmed) with
    | none => none
    | some text => if boundaryBefore text then untilArrow text else none

/-- `<!--\s*adlc:end\s*-->` -/
def endSentinel : Pattern UInt16 Unit := fun text =>
  match (js "<!--").isPrefixOf? text with
  | none => none
  | some text =>
    match (js "adlc:end").isPrefixOf? (text.dropWhile isTrimmed) with
    | none => none
    | some text => ((js "-->").isPrefixOf? (text.dropWhile isTrimmed)).map fun rest => ((), rest)

def matchAll {β : Type} (pattern : Pattern UInt16 β) (text : JsString) : List (Match β) :=
  scan pattern 0 0 text

/-! ## The attributes and the fence -/

/-- The first match that starts at the beginning of a word, after a character of `\w` or not. -/
def firstAtWord {β : Type} (pattern : JsString → Option β) : Bool → JsString → Option β
  | _, [] => none
  | afterWord, c :: s =>
    match if afterWord then none else pattern (c :: s) with
    | some x => some x
    | none => firstAtWord pattern (isWord c) s

/-- `v=(\d+)\b` -/
def versionAttr (text : JsString) : Option JsString :=
  match (js "v=").isPrefixOf? text with
  | none => none
  | some text =>
    let digits := text.takeWhile isDigit
    if digits ≠ [] ∧ boundaryBefore (text.dropWhile isDigit) = true then some digits else none

/-- `key=(\S+)` -/
def keyAttr (text : JsString) : Option JsString :=
  match (js "key=").isPrefixOf? text with
  | none => none
  | some text =>
    let token := text.takeWhile fun c => !isTrimmed c
    if token ≠ [] then some token else none

/-- `\r?\n` -/
def lineEnd : JsString → Option JsString
  | 13 :: 10 :: s => some s
  | 10 :: s => some s
  | _ => none

/-- `([\s\S]*?)\r?\n` and three backticks. -/
def untilFence : JsString → Option JsString
  | [] => none
  | c :: s =>
    match (lineEnd (c :: s)).bind (js "```").isPrefixOf? with
    | some _ => some []
    | none => (untilFence s).map (c :: ·)

/-- `FENCE_RE`, at the head of a text. -/
def fenceAt (text : JsString) : Option JsString :=
  match (js "```").isPrefixOf? text with
  | none => none
  | some text =>
    let text := ((js "json").isPrefixOf? text).getD (((js "adlc").isPrefixOf? text).getD text)
    (lineEnd (text.dropWhile fun c => c = 32 ∨ c = 9)).bind untilFence

def fenced : JsString → Option JsString
  | [] => none
  | c :: s =>
    match fenceAt (c :: s) with
    | some content => some content
    | none => fenced s

/-! ## The codec -/

def supportedBlockVersion : Nat := 1

structure ParsedBlock (ν : Type) where
  ok : Bool
  fields : Option (Members ν)
  prefixText : JsString
  suffixText : JsString
  version : Option Nat
  key : Option JsString
  errors : List JsString

/-- The result of an ambiguous body. -/
def failBlock (body : JsString) (errors : List JsString) : ParsedBlock ν :=
  ⟨false, none, body, [], none, none, errors⟩

def countErrors {β : Type} (name body : JsString) (found : List (Match β)) : List JsString :=
  if found.length = 1 then []
  else [js "expected exactly one '" ++ name ++ js "' sentinel, found " ++ natText found.length ++
    (match found[1]? with
    | some second => js " (duplicate at line " ++ natText (lineOf body second.index) ++ js ")"
    | none => [])]

/-- The fields of a block's text; `syntaxError` is the engine's message for a text that is no
JSON. -/
def blockFields (syntaxError : JsString → JsString) (inner : JsString) (line : Nat) :
    Except (List JsString) (Members ν) :=
  let jsonText := trim ((fenced inner).getD inner)
  if jsonText = [] then
    .error [js "no JSON found between the adlc sentinels (line " ++ natText line ++ js ")"]
  else
    match parseJson jsonText with
    | none => .error [js "invalid JSON in the adlc block (line " ++ natText line ++ js "): " ++
        syntaxError jsonText]
    | some (.obj fields) =>
      match validateBlock (.obj fields) with
      | [] => .ok fields
      | fieldErrors => .error (fieldErrors.map (js "block field " ++ ·))
    | some _ => .error [js "the adlc block must be a JSON object (line " ++ natText line ++ js ")"]

/-- The version and the key of a begin sentinel, or what is wrong with it. -/
def blockAttrs (attrs : JsString) (line : Nat) : Except (List JsString) (Nat × Option JsString) :=
  match firstAtWord versionAttr false attrs with
  | none => .error [js "'adlc:begin' (line " ++ natText line ++
      js ") is missing the required v=<n> version"]
  | some digits =>
    let version := readNat digits
    if supportedBlockVersion < version then
      .error [js "block version v=" ++ natText version ++ js " (line " ++ natText line ++
        js ") is newer than supported (max " ++ natText supportedBlockVersion ++
        js ") — upgrade @adlc/ticket-sync"]
    else .ok (version, firstAtWord keyAttr false attrs)

def parseBlock (syntaxError : JsString → JsString) (rawBody : JsString) : ParsedBlock ν :=
  let body := normalizeNewlines rawBody
  match matchAll beginSentinel body, matchAll endSentinel body with
  | [], [] => ⟨true, none, body, [], none, none, []⟩
  | [begins], [ends] =>
    if ends.index < begins.index then
      failBlock body [js "'adlc:end' (line " ++ natText (lineOf body ends.index) ++
        js ") appears before 'adlc:begin' (line " ++ natText (lineOf body begins.index) ++ js ")"]
    else
      match blockAttrs begins.groups (lineOf body begins.index) with
      | .error errors => failBlock body errors
      | .ok (version, key) =>
        let inner := (body.take ends.index).drop begins.stop
        match blockFields syntaxError inner (lineOf body begins.stop) with
        | .error errors => failBlock body errors
        | .ok fields => ⟨true, some fields, body.take begins.index, body.drop ends.stop, some version,
            key, []⟩
  | begins, ends =>
    failBlock body (countErrors (js "adlc:begin") body begins ++ countErrors (js "adlc:end") body ends)

/-- `<!-- adlc:begin v=1 key=… -->`, at the version that is supported. -/
def openingText (key : Option JsString) : JsString :=
  js "<!-- adlc:begin v=" ++ natText supportedBlockVersion ++
    ((key.filter (· ≠ [])).elim [] fun key => js " key=" ++ key) ++ js " -->"

def closingText : JsString := js "<!-- adlc:end -->"

def fenceOpen : JsString := js "\n```json\n"
def fenceClose : JsString := js "\n```\n"

def blockText (fields : Json ν) (key : Option JsString) : JsString :=
  openingText key ++ (fenceOpen ++ (stringify2 fields ++ (fenceClose ++ closingText)))

def serializeBlock (prefixText suffixText : JsString) (fields : Json ν) (key : Option JsString) :
    JsString :=
  prefixText ++ (blockText fields key ++ suffixText)

end Adlc.TicketSync
