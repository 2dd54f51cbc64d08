import Adlc.Tickets.ManifestPrimitives

namespace Adlc.GateManifest

open Adlc.Framework Adlc.Tickets

variable {ν : Type} [JsNumber ν]

/-! ## Anchors -/

/-- `new Map(seq -> line)`: a later line replaces an earlier one of the same `seq`. -/
def seqMap (lines : List JsString) : List (ν × JsString) :=
  lines.foldl (fun m line =>
    match (parseJson (ν := ν) line).bind fun entry => entry.get? (js "seq") with
    | some (.num n) => if JsNumber.isInteger n then (n, line) :: m else m
    | _ => m) []

/-- The chains of a forest, by segment name or `root`. -/
abbrev Chains (ν : Type) := List (JsString × List (ν × JsString))

def rootLabel : JsString := js "root"

def resolveAnchor (anchor : Json ν) (chainsBySeq : Chains ν) (rootExists : Bool) :
    Except JsString Unit :=
  match anchor with
  | .null =>
    if rootExists then .error (js "anchor: null is not permitted once a root exists") else .ok ()
  | .obj _ =>
    match anchor.get? (js "segment") with
    | some (.str segment) =>
      if segment = [] then .error (js "anchor.segment must be a non-empty string")
      else
        match anchor.get? (js "seq") with
        | some (.num seq) =>
          if !JsNumber.isInteger seq || JsNumber.lt seq (JsNumber.ofNat 1) then
            .error (js "anchor.seq must be a positive integer")
          else
            match anchor.get? (js "lineHash") with
            | some (.str lineHash) =>
              if lineHash = [] then .error (js "anchor.lineHash must be a non-empty string")
              else
                match chainsBySeq.lookup segment with
                | none => .error (js "dangling anchor: no such segment '" ++ segment ++
                    js "' in the forest")
                | some target =>
                  match target.lookup seq with
                  | none => .error (js "dangling anchor: segment '" ++ segment ++
                      js "' has no entry with seq " ++ JsNumber.text seq)
                  | some rawLine =>
                    if sha256 rawLine = lineHash then .ok ()
                    else .error (js "anchor lineHash mismatch for '" ++ segment ++ js "' seq " ++
                      JsNumber.text seq)
            | _ => .error (js "anchor.lineHash must be a non-empty string")
        | _ => .error (js "anchor.seq must be a positive integer")
    | _ => .error (js "anchor.segment must be a non-empty string")
  | _ => .error (js "anchor must be an object or null")

/-- `anchor === null ? undefined : anchor.segment` -/
def anchorTarget (anchor : Json ν) : Option JsString := str? anchor (js "segment")

/-- The walk of `detectAnchorCycle` from one segment: the segments walked, or the one met again.
`done` are those of the walks before. -/
def walkAnchors (anchorBySegment : List (JsString × Json ν)) (done : List JsString) :
    Nat → List JsString → Option JsString → Except JsString (List JsString)
  | 0, path, _ => .ok path
  | fuel + 1, path, current =>
    match current with
    | none => .ok path
    | some current =>
      if current ∈ path then .error current
      else if current ∈ done then .ok path
      else
        match anchorBySegment.lookup current with
        | none => .ok path
        | some anchor => walkAnchors anchorBySegment done fuel (current :: path) (anchorTarget anchor)

def detectAnchorCycleFrom (anchorBySegment : List (JsString × Json ν)) :
    List JsString → List JsString → Except JsString Unit
  | _, [] => .ok ()
  | done, start :: starts =>
    if start ∈ done then detectAnchorCycleFrom anchorBySegment done starts
    else
      match walkAnchors anchorBySegment done (anchorBySegment.length + 1) [] (some start) with
      | .error segment => .error segment
      | .ok path => detectAnchorCycleFrom anchorBySegment (path ++ done) starts

/-- The segment where a cycle of anchors was met first, if there is one. -/
def detectAnchorCycle (anchorBySegment : List (JsString × Json ν)) : Except JsString Unit :=
  detectAnchorCycleFrom anchorBySegment [] (anchorBySegment.map Prod.fst)

/-! ## Anchors at the root -/

/-- The anchor of a segment that forked off the last of the root's lines, or off nothing while there
was no root. -/
inductive AtRoot (rootLines : List JsString) : Json ν → Prop where
  | rootless : rootLines = [] → AtRoot rootLines .null
  | last (line : JsString) (entry : Json ν) (seq : ν) : rootLines.getLast? = some line →
      parseJson line = some entry → entry.get? (js "seq") = some (.num seq) →
      JsNumber.isInteger seq = true → JsNumber.lt seq (JsNumber.ofNat 1) = false →
      AtRoot rootLines (.obj [(js "segment", .str rootLabel), (js "seq", .num seq),
        (js "lineHash", .str (sha256 line))])

theorem seqMap_snoc {lines : List JsString} {line : JsString} {entry : Json ν} {seq : ν}
    (hp : parseJson line = some entry) (hs : entry.get? (js "seq") = some (.num seq))
    (hi : JsNumber.isInteger seq = true) :
    seqMap (lines ++ [line]) = (seq, line) :: seqMap lines := by
  simp only [seqMap, List.foldl_append, List.foldl_cons, List.foldl_nil, hp, Option.bind_some, hs,
    hi, if_true]

theorem sha256_ne_nil (line : JsString) : sha256 line ≠ [] := by
  intro h
  have hl := (sha256Hex_spec (utf8Encode line)).1
  rw [sha256] at h
  rw [h] at hl
  cases hl

theorem resolveAnchor_atRoot {rootLines : List JsString} {anchor : Json ν} {chains : Chains ν}
    (h : AtRoot rootLines anchor) (hc : chains.lookup rootLabel = some (seqMap rootLines)) :
    resolveAnchor anchor chains (decide (rootLines ≠ [])) = .ok () := by
  cases h with
  | rootless he =>
    subst he
    rfl
  | last line entry seq hl hp hs hi hpos =>
    obtain ⟨init, e⟩ := List.getLast?_eq_some_iff.mp hl
    have hm : (seqMap rootLines).lookup seq = some line := by
      rw [e, seqMap_snoc hp hs hi, List.lookup_cons_self]
    have g1 : (Json.obj [(js "segment", .str rootLabel), (js "seq", .num seq),
        (js "lineHash", .str (sha256 line))]).get? (js "segment") = some (.str rootLabel) := rfl
    have g2 : (Json.obj [(js "segment", .str rootLabel), (js "seq", .num seq),
        (js "lineHash", .str (sha256 line))]).get? (js "seq") = some (.num seq) := rfl
    have g3 : (Json.obj [(js "segment", .str rootLabel), (js "seq", .num seq),
        (js "lineHash", .str (sha256 line))] : Json ν).get? (js "lineHash") =
          some (.str (sha256 line)) := rfl
    have hne : ¬rootLabel = [] := by decide
    simp only [resolveAnchor, g1, g2, g3, if_neg hne, hi, hpos, hc, hm, if_neg (sha256_ne_nil line)]
    rfl

theorem anchorTarget_atRoot {rootLines : List JsString} {anchor : Json ν}
    (h : AtRoot rootLines anchor) : anchorTarget anchor = none ∨ anchorTarget anchor = some rootLabel := by
  cases h with
  | rootless => exact Or.inl rfl
  | last => exact Or.inr rfl

omit [JsNumber ν] in
/-- Segments anchored at the root, or at nothing, form no cycle. -/
theorem detectAnchorCycle_atRoot {anchors : List (JsString × Json ν)}
    (hn : rootLabel ∉ anchors.map Prod.fst)
    (h : ∀ p ∈ anchors, anchorTarget p.2 = none ∨ anchorTarget p.2 = some rootLabel) :
    detectAnchorCycle anchors = .ok () := by
  have hroot : anchors.lookup rootLabel = none := by
    rw [List.lookup_eq_none_iff]
    intro p hp
    have hne : ¬rootLabel = p.1 := fun e => hn (e ▸ List.mem_map_of_mem hp)
    simpa using hne
  have walk : ∀ done start anchor, start ∉ done → anchors.lookup start = some anchor →
      walkAnchors anchors done (anchors.length + 1) [] (some start) = .ok [start] := by
    intro done start anchor hd hl
    have hpos : 0 < anchors.length := by
      cases anchors with
      | nil => cases hl
      | cons => simp
    obtain ⟨n, hlen⟩ := Nat.exists_eq_succ_of_ne_zero hpos.ne'
    have hmem : (start, anchor) ∈ anchors := by
      obtain ⟨l1, l2, e, -⟩ := List.lookup_eq_some_iff.mp hl
      rw [e]
      simp
    have hstart : start ≠ rootLabel := by
      intro e
      rw [e, hroot] at hl
      cases hl
    rw [walkAnchors]
    simp only [List.not_mem_nil, if_false, if_neg hd, hl, hlen]
    rcases h _ hmem with ht | ht
    · rw [ht, walkAnchors]
    · rw [ht, walkAnchors]
      have h1 : rootLabel ∉ [start] := by
        intro hm
        exact hstart (List.mem_singleton.mp hm).symm
      simp only [if_neg h1, hroot]
      split_ifs <;> rfl
  have from_ : ∀ starts done, (∀ s ∈ starts, s ∈ anchors.map Prod.fst) →
      detectAnchorCycleFrom anchors done starts = .ok () := by
    intro starts
    induction starts with
    | nil => intro done _; rfl
    | cons start starts ih =>
      intro done hs
      have hrest := fun s hm => hs s (List.mem_cons_of_mem start hm)
      rw [detectAnchorCycleFrom]
      by_cases hd : start ∈ done
      · rw [if_pos hd]
        exact ih done hrest
      · rw [if_neg hd]
        cases hl : anchors.lookup start with
        | none =>
          obtain ⟨p, hp, e⟩ := List.mem_map.mp (hs start List.mem_cons_self)
          have hx := List.lookup_eq_none_iff.mp hl p hp
          simp [e] at hx
        | some anchor =>
          rw [walk done start anchor hd hl]
          exact ih _ hrest
  exact from_ _ _ fun s hs => hs

/-! ## Reading -/

/-- A line that could not be read as an entry. -/
structure Skipped where
  segment : JsString
  line : Option Nat
  error : JsString

structure Parsed (ν : Type) where
  entries : List (Json ν)
  skipped : List Skipped

/-- `{ ...entry, segment: label }` -/
def annotate (segmentLabel : JsString) (ms : Members ν) : Json ν :=
  .obj (Members.set ms (js "segment") (.str segmentLabel))

def parseLenient (segmentLabel : JsString) : List (JsString × Nat) → Parsed ν
  | [] => ⟨[], []⟩
  | (line, lineNo) :: rawLines =>
    let rest := parseLenient segmentLabel rawLines
    match parseJson (ν := ν) line with
    | some (.obj ms) => { rest with entries := annotate segmentLabel ms :: rest.entries }
    | some _ =>
      { rest with skipped := ⟨segmentLabel, some lineNo, js "entry must be an object"⟩ :: rest.skipped }
    | none => { rest with skipped := ⟨segmentLabel, some lineNo, js "malformed JSON"⟩ :: rest.skipped }

def readRawLines (file : Option Bytes) : List (JsString × Nat) :=
  match file with
  | none => []
  | some bytes => numberedLines (utf8Decode bytes)

theorem map_fst_readRawLines (file : Option Bytes) :
    (readRawLines file).map Prod.fst = linesOf file := by
  cases file with
  | none => rfl
  | some bytes => exact map_fst_numberedLines _

/-- A segment's entries and the anchor of the first. -/
structure SegmentEntries (ν : Type) where
  name : JsString
  entries : List (Json ν)
  anchor : Json ν

def SegmentEntries.of (name : JsString) (parsed : Parsed ν) : SegmentEntries ν :=
  ⟨name, parsed.entries, (parsed.entries.head?.bind fun e => e.get? (js "anchor")).getD .null⟩

/-- Steps from a segment to one anchored at the root or at nothing; 0 at a segment met again. -/
def depthOf (bySegment : List (SegmentEntries ν)) : Nat → JsString → Nat
  | 0, _ => 0
  | fuel + 1, name =>
    match bySegment.find? fun s => s.name = name with
    | none => 0
    | some s =>
      match anchorTarget s.anchor with
      | none => 0
      | some target =>
        if target ≠ [] ∧ target ≠ rootLabel ∧ target ∈ bySegment.map SegmentEntries.name then
          depthOf bySegment fuel target + 1
        else 0

/-- The order of the segments: by depth, by the entry anchored to, by ULID, by name. -/
def segmentLe (bySegment : List (SegmentEntries ν)) (a b : SegmentEntries ν) : Bool :=
  let da := depthOf bySegment (bySegment.length + 1) a.name
  let db := depthOf bySegment (bySegment.length + 1) b.name
  let aSeg := (anchorTarget a.anchor).getD []
  let bSeg := (anchorTarget b.anchor).getD []
  let seqOf : Json ν → ν := fun anchor =>
    match anchor.get? (js "seq") with
    | some (.num n) => n
    | _ => JsNumber.ofNat 0
  if da ≠ db then decide (da < db)
  else if aSeg ≠ bSeg then unitLe aSeg bSeg
  else if seqOf a.anchor ≠ seqOf b.anchor then JsNumber.lt (seqOf a.anchor) (seqOf b.anchor)
  else if ulidOf a.name ≠ ulidOf b.name then unitLe (ulidOf a.name) (ulidOf b.name)
  else unitLe a.name b.name

/-- Every entry of the root and of the segments, each with the name of its chain. -/
def readManifestForest [Unicode] (files : ManifestFiles) : Parsed ν :=
  let root : Parsed ν := parseLenient rootLabel (readRawLines files.root)
  let found := discoverSegments ν files
  let parsed : List (JsString × Parsed ν) := found.valid.map fun name =>
    (name, parseLenient name (readRawLines (files.segmentFile name)))
  let bySegment := parsed.map fun p => SegmentEntries.of p.1 p.2
  ⟨root.entries ++ (bySegment.mergeSort (segmentLe bySegment)).flatMap SegmentEntries.entries,
    root.skipped ++ found.invalid.map (fun i => ⟨i.1, none, i.2⟩) ++
      parsed.flatMap fun p => p.2.skipped⟩

end Adlc.GateManifest
