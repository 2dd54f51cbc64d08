import Adlc.Framework.IntNumber
import Adlc.Framework.Lines
import Adlc.Tickets.Errors

namespace Adlc.Core

open Adlc.Framework Adlc.Tickets

variable {ν : Type} [JsNumber ν]

/-! ## Reading -/

/-- `{ entries, skipped, rawLines, lastRawLine }`; a skipped line is its number. -/
structure LedgerState (ν : Type) where
  entries : List (Json ν)
  skipped : List Nat
  rawLines : List JsString

def LedgerState.lastRawLine (state : LedgerState ν) : Option JsString := state.rawLines.getLast?

def parseLedger (content : JsString) : LedgerState ν :=
  let numbered := numberedLines content
  ⟨numbered.filterMap fun p => parseJson p.1,
    (numbered.filter fun p => (parseJson (ν := ν) p.1).isNone).map Prod.snd,
    numbered.map Prod.fst⟩

/-! ## What may be published -/

/-- The secret shapes: each pattern with what it finds, and the test for random tokens. -/
structure SecretShapes where
  patterns : List ((JsString → Bool) × JsString)
  looksLikeRandomSecret : JsString → Bool

def findingsLedger : JsString := js "findings"
def maxFindingDesc : Nat := 600
def maxFindingEntry : Nat := 4000
def maxFindingLines : Nat := 10

def isLineEnd (c : UInt16) : Bool := c = 13 || c = 10

mutual
/-- The line ends of all the strings in a value. -/
def countEntryNewlines : Json ν → Nat
  | .str s => s.countP isLineEnd
  | .arr xs => countElems xs
  | .obj ms => countMembers ms
  | _ => 0

def countElems : List (Json ν) → Nat
  | [] => 0
  | x :: xs => countEntryNewlines x + countElems xs

def countMembers : List (JsString × Json ν) → Nat
  | [] => 0
  | (_, v) :: ms => countEntryNewlines v + countMembers ms
end

def refuseFinding (message : JsString) : Except TicketStoreError Unit :=
  .error (unexpected (js "findings ledger: " ++ message))

def assertPublishableFinding (shapes : SecretShapes) (entry : Json ν) :
    Except TicketStoreError Unit :=
  match entry with
  | .obj ms =>
    match ms.lookup (js "desc") with
    | some (.str desc) =>
      let serialized := stringify entry
      if trim desc = [] then unclustered
      else
        match shapes.patterns.find? fun p => p.1 serialized with
        | some (_, what) => refuseFinding (js "refusing to record — the entry appears to contain " ++
            what ++ js ". This ledger is committed to git; describe the failure class instead of quoting the value (ADR 0014)")
        | none =>
          if shapes.looksLikeRandomSecret serialized then
            refuseFinding (js "refusing to record — the entry contains a long, high-entropy token that looks like a key or secret. This ledger is committed to git; describe the failure class instead of quoting the value (ADR 0014)")
          else if desc.any isLineEnd then
            refuseFinding (js "desc must be a single line of curated prose — raw multi-line tool output is not recordable (ADR 0014)")
          else if maxFindingDesc < desc.length then
            refuseFinding (js "desc is " ++ natText desc.length ++
              js " chars; curated descriptions are capped at " ++ natText maxFindingDesc ++
              js " to keep dumps out of the committed ledger (ADR 0014)")
          else if maxFindingEntry < serialized.length then
            refuseFinding (js "entry is " ++ natText serialized.length ++
              js " bytes serialized; curated findings are capped at " ++ natText maxFindingEntry ++
              js " to keep raw dumps out of the committed, append-only ledger (ADR 0014)")
          else if maxFindingLines < countEntryNewlines entry then
            refuseFinding (js "entry spans " ++ natText (countEntryNewlines entry) ++
              js " lines across its fields; a curated finding is near-single-line, so this looks like a raw multi-line dump (transcript, diff hunk, stack trace, log paste) — describe the failure class instead (ADR 0014)")
          else .ok ()
    | _ => unclustered
  | _ => refuseFinding (js "entry must be a finding object (a non-null, non-array object) — a bare null/scalar/array crashes the distillation pipeline (ADR 0014)")
where
  unclustered := refuseFinding (js "entry must carry a non-empty string \x60desc\x60 (the clustering key) — an entry without it starves lesson-foundry (ADR 0014)")

/-! ## Appending -/

/-- The file with the entries' lines at its end. -/
def appendAll (file : Option Bytes) (additions : List (Json ν)) : Bytes :=
  file.getD [] ++ utf8Encode (unlines (additions.map stringify))

/-- A batch under one lock; the entries are made from what the file holds. -/
def appendEntries (shapes : SecretShapes) (name : JsString)
    (entriesOrFactory : LedgerState ν → Except TicketStoreError (List (Json ν)))
    (file : Option Bytes) : Except TicketStoreError (List (Json ν) × Option Bytes) := do
  let state := parseLedger (utf8Decode (file.getD []))
  let additions ← entriesOrFactory state
  if additions = [] then return ([], file)
  if name = findingsLedger then additions.forM (assertPublishableFinding shapes)
  return (additions, some (appendAll file additions))

def appendEntry (shapes : SecretShapes) (name : JsString) (entry : Json ν) (file : Option Bytes) :
    Except TicketStoreError (Json ν × Option Bytes) :=
  (appendEntries shapes name (fun _ => .ok [entry]) file).map fun appended => (entry, appended.2)

theorem appendEntry_file {shapes : SecretShapes} {name : JsString} {entry result : Json ν}
    {file file' : Option Bytes} (h : appendEntry shapes name entry file = .ok (result, file')) :
    result = entry ∧ file' = some (appendLine file (stringify entry)) := by
  obtain ⟨⟨additions, appended⟩, ha, e⟩ := map_eq_ok.mp h
  obtain ⟨rfl, rfl⟩ := Prod.mk.inj e
  refine ⟨rfl, ?_⟩
  unfold appendEntries at ha
  obtain ⟨made, hm, ha⟩ := bind_eq_ok.mp ha
  obtain rfl := Except.ok.inj hm
  rw [if_neg (by simp)] at ha
  have hfile : appended = some (appendAll file [entry]) := by
    split_ifs at ha
    · obtain ⟨_, -, ha⟩ := bind_eq_ok.mp ha
      exact (Prod.mk.inj (Except.ok.inj ha)).2.symm
    · exact (Prod.mk.inj (Except.ok.inj ha)).2.symm
  rw [hfile, appendAll, appendLine]
  simp [unlines]

end Adlc.Core
