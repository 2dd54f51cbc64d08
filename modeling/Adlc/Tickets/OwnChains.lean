import Adlc.Framework.TornLines
import Adlc.Tickets.Evidence

namespace Adlc.Tickets

open Adlc.Framework

variable {ν : Type} [JsNumber ν]

/-! ## The chains of this checkout -/

/-- `parseLines(lines)`: the values that are truthy. -/
def parseTruthy (lines : List JsString) : List (Json ν) :=
  lines.filterMap fun line => (parseJson line).filter truthy

/-- The lines whose entries carry the key's signature. -/
def signedEntriesOnly (ν : Type) [JsNumber ν] (key : JsString) : List JsString →
    Except TicketStoreError (List JsString)
  | [] => .ok []
  | line :: lines =>
    match parseJson (ν := ν) line with
    | none => .error (unexpected (js "Unexpected token in JSON"))
    | some entry => do
      let valid ← entrySigValid key entry
      let rest ← signedEntriesOnly ν key lines
      return if valid then line :: rest else rest

/-- The signed lines of a chain that is intact; `unsigned` is the refusal of one that has lines, but
none of them signed. -/
def authenticatedLines (ν : Type) [JsNumber ν] (key : JsString) (broken unsigned : TicketStoreError)
    (mayBeEmpty : Bool) (lines : List JsString) : Except TicketStoreError (List JsString) := do
  if !(← chainIsIntactFrom (some key) none (JsNumber.ofNat 0 : ν) false lines) then .error broken
  else
    let signed ← signedEntriesOnly ν key lines
    if signed = [] ∧ ¬(mayBeEmpty ∧ lines = []) then .error unsigned
    else return signed

def distrust (what why : JsString) : TicketStoreError :=
  unexpected (what ++ why ++ js "refusing to trust it")

def rootChain (files : ManifestFiles) (key : Option JsString) :
    Except TicketStoreError (List (Json ν)) :=
  let lines := linesOf files.root
  match key with
  | none => .ok (parseTruthy lines)
  | some key => (authenticatedLines ν key
      (distrust (js "root manifest") (js " failed chain or signature verification — "))
      (distrust (js "root manifest") (js " has no signed entries — cannot authenticate it with the available key, "))
      true lines).map parseTruthy

/-- The chain that the lineage token names. -/
def peekedChain (files : ManifestFiles) (key : Option JsString) (name : JsString) :
    Except TicketStoreError (List (Json ν)) :=
  let lines := linesOf (files.segmentFile name)
  let what := js "segment " ++ name
  if lines = [] then
    .error (distrust what (js " is empty — a real segment always has a first entry, "))
  else
    match key with
    | none => .ok (parseTruthy lines)
    | some key => (authenticatedLines ν key
        (distrust what (js " failed chain or signature verification — "))
        (distrust what (js " has no signed entries — cannot authenticate it with the available key, "))
        false lines).map parseTruthy

/-- The chain found by its first entry's branch. -/
def recoveredChain (files : ManifestFiles) (key name : JsString) :
    Except TicketStoreError (List (Json ν)) :=
  let refusal := distrust (js "recovered segment " ++ name)
    (js " failed chain or signature verification — ")
  (authenticatedLines ν key refusal refusal false (linesOf (files.segmentFile name))).map parseTruthy

def detachedHead : TicketStoreError :=
  unexpected (js "cannot identify this checkout's own segment: detached HEAD has no branch identity to recover by, and committed segments exist — refusing to treat them as absent")

def unverifiableCandidate : TicketStoreError :=
  unexpected (js "a candidate segment for this branch exists but cannot be verified without a signing key — refusing to treat it as absent")

variable [Unicode]

/-- Root's chain, then the checkout's own, when there is one; `branch` is its current branch. -/
def readOwnChains (files : ManifestFiles) (branch : Option JsString) (allowRecovery : Bool)
    (key : Option JsString) : Except TicketStoreError (List (List (Json ν))) := do
  let root ← rootChain files key
  if !isSegmentedRepo ν files then return [root]
  else
    match peekOpenSegment ν files branch with
    | some peeked => return [root, ← peekedChain files key peeked]
    | none =>
      if !allowRecovery then return [root]
      else
        match branch, key with
        | none, _ =>
          if (discoverSegments ν files).valid ≠ [] then .error detachedHead else return [root]
        | some _, none =>
          match recoverOpenSegment ν files branch with
          | .ok none => return [root]
          | _ => .error unverifiableCandidate
        | some _, some key =>
          match ← recoverOpenSegment ν files branch with
          | none => return [root]
          | some recovered => return [root, ← recoveredChain files key recovered]

/-! ## The first entry of a segment -/

omit [JsNumber ν] [Unicode] in
/-- A bounded read that meets a line feed, or the end of the file, has the first line whole. -/
theorem splitLines_chunk {bytes : Bytes}
    (h : ¬(10 ∉ utf8Decode (bytes.take 65536) ∧ 65536 ≤ bytes.length)) :
    ∃ rest, splitLines (utf8Decode bytes) =
      (utf8Decode (bytes.take 65536)).takeWhile (fun c => c ≠ 10) :: rest := by
  by_cases hm : 10 ∈ utf8Decode (bytes.take 65536)
  · have h10 : 10 ∈ bytes.take 65536 := by
      by_contra hn
      exact lineFeed_mem_utf8Decode hn hm
    obtain ⟨pre, post, e, hpre⟩ := List.eq_append_cons_of_mem h10
    have hline : ∀ c ∈ utf8Decode pre, c ≠ 10 := by
      rintro c hc rfl
      exact lineFeed_mem_utf8Decode hpre hc
    have hall : bytes = pre ++ 10 :: (post ++ bytes.drop 65536) := by
      conv_lhs => rw [← List.take_append_drop 65536 bytes, e]
      simp
    have hascii : (10 : UInt8).toNat < 0x80 := by decide
    have hone : ∀ r, utf8Decode (10 :: r) = 10 :: utf8Decode r := fun r => utf8Decode_one r hascii
    refine ⟨splitLines (utf8Decode (post ++ bytes.drop 65536)), ?_⟩
    have htake : (utf8Decode (bytes.take 65536)).takeWhile (fun c => c ≠ 10) = utf8Decode pre := by
      rw [e, utf8Decode_append_ascii _ hascii, hone,
        List.takeWhile_append_of_pos (by simpa using hline)]
      simp
    rw [htake]
    conv_lhs => rw [hall]
    rw [utf8Decode_append_ascii _ hascii, hone, splitLines_append hline]
  · have hlen : bytes.length < 65536 := by
      by_contra hn
      exact h ⟨hm, by omega⟩
    rw [List.take_of_length_le (by omega)] at hm ⊢
    have htake : (utf8Decode bytes).takeWhile (fun c => c ≠ 10) = utf8Decode bytes := by
      apply List.takeWhile_eq_self_iff.mpr
      intro c hc
      have hne : c ≠ 10 := by
        rintro rfl
        exact hm hc
      simpa using hne
    rw [htake]
    exact ⟨[], splitLines_of_no_break hm⟩

omit [Unicode] in
/-- The entry that a bounded read finds first is that of the segment's first line. -/
theorem firstEntryOf_entry {file : Option Bytes} {first : Json ν}
    (h : firstEntryOf file = .entry first) :
    ∃ line rest, linesOf file = line :: rest ∧ parseJson line = some first := by
  cases file with
  | none => cases h
  | some bytes =>
    unfold firstEntryOf at h
    simp only at h
    split_ifs at h with hcap hblank
    obtain ⟨rest, hs⟩ := splitLines_chunk hcap
    refine ⟨(utf8Decode (bytes.take 65536)).takeWhile (fun c => c ≠ 10), rest.filter notBlank, ?_, ?_⟩
    · rw [linesOf, rawLines, hs, List.filter_cons_of_pos hblank]
    · cases hp : parseJson (ν := ν) ((utf8Decode (bytes.take 65536)).takeWhile fun c => c ≠ 10) with
      | none =>
        rw [hp] at h
        cases h
      | some value =>
        rw [hp] at h
        cases h
        rfl

end Adlc.Tickets
