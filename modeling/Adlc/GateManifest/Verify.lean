import Adlc.GateManifest.Forest

namespace Adlc.GateManifest

open Adlc.Framework Adlc.Tickets

variable {ν : Type} [JsNumber ν]

/-- `{ seq, lineNo, reason }` -/
structure Break (ν : Type) where
  seq : Json ν
  lineNo : Option Nat
  reason : JsString
  segment : JsString

structure ChainOptions where
  key : Option JsString
  requireSignatures : Bool
  anchorOnFirst : Bool

/-- What `verifyChain` carries from one entry to the next. -/
structure ChainState (ν : Type) where
  prevRawLine : Option JsString
  prevSeq : ν
  firstAnchor : Option (Json ν)
  seenSignedEntry : Bool

def ChainState.init : ChainState ν := ⟨none, JsNumber.ofNat 0, none, false⟩

/-- A chain that does not verify: the entries counted, the break and the message. -/
structure ChainFailure (ν : Type) where
  count : Nat
  break_ : Break ν
  message : JsString

def failAt (count : Nat) (seq : Json ν) (lineNo : Nat) (reason text : JsString) : ChainFailure ν :=
  let at_ := match seq with
    | .null => js "chain broken at line " ++ natText lineNo
    | _ => js "chain broken at seq " ++ toText seq ++ js " (line " ++ natText lineNo ++ js ")"
  ⟨count, ⟨seq, some lineNo, reason, rootLabel⟩, at_ ++ js ": " ++ text⟩

/-- The checks on an entry that no key takes part in. -/
def checkLinks (opts : ChainOptions) (state : ChainState ν) (lineNo : Nat) (entry : Json ν)
    (seq : ν) : Option (ChainFailure ν) :=
  let isFirst := state.prevRawLine.isNone
  let fail (count : Nat) (reason text : JsString) := some (failAt count (.num seq) lineNo reason text)
  let hasAnchor := (entry.get? (js "anchor")).isSome
  if !linksTo (entry.get? (js "prev")) state.prevRawLine then
    if isFirst then fail 0 (js "first entry prev must be null") (js "first entry prev must be null")
    else fail (lineNo - 1) (js "prev hash mismatch") (js "prev hash mismatch")
  else if isFirst && decide (seq ≠ JsNumber.ofNat 1) then
    fail 0 (js "first entry seq must be 1") (js "first entry seq must be 1")
  else if !isFirst && decide (seq ≠ JsNumber.add state.prevSeq (JsNumber.ofNat 1)) then
    fail (lineNo - 1) (js "seq not contiguous") (js "seq must be contiguous (+1 from previous)")
  else if isFirst && opts.anchorOnFirst && !hasAnchor then
    let reason := js "segment first entry missing required anchor field"
    fail (lineNo - 1) reason reason
  else if isFirst && !opts.anchorOnFirst && hasAnchor then
    let reason := js "root entry must not carry an anchor field"
    fail (lineNo - 1) reason reason
  else if !isFirst && hasAnchor then
    let reason := js "only a segment's first entry may carry an anchor field"
    fail (lineNo - 1) reason reason
  else none

def hasSig (entry : Json ν) : Bool :=
  match entry.get? (js "sig") with
  | none | some .null => false
  | _ => true

/-- Whether the entry is a signed one, or the failure that it is not. -/
def checkSignature (opts : ChainOptions) (state : ChainState ν) (lineNo : Nat) (entry : Json ν)
    (seq : ν) : Except TicketStoreError (Except (ChainFailure ν) Bool) :=
  match opts.key with
  | none => .ok (.ok state.seenSignedEntry)
  | some key =>
    if hasSig entry then
      (entrySigValid key entry).map fun valid =>
        if valid then .ok true
        else .error (failAt (lineNo - 1) (.num seq) lineNo (js "signature invalid")
          (js "signature invalid"))
    else if !opts.requireSignatures && !state.seenSignedEntry then .ok (.ok state.seenSignedEntry)
    else .ok (.error (failAt (lineNo - 1) (.num seq) lineNo (js "unsigned entry")
      (js "unsigned entry")))

/-- One line of a chain: the next state, or the failure. -/
def checkLine (opts : ChainOptions) (state : ChainState ν) (line : JsString) (lineNo : Nat) :
    Except TicketStoreError (Except (ChainFailure ν) (ChainState ν)) :=
  match parseJson (ν := ν) line with
  | none => .ok (.error (failAt (lineNo - 1) .null lineNo (js "malformed JSON") (js "malformed JSON")))
  | some (.obj ms) =>
    let entry : Json ν := .obj ms
    match entry.get? (js "seq") with
    | some (.num seq) =>
      if !JsNumber.isInteger seq || JsNumber.lt seq (JsNumber.ofNat 1) then
        .ok (.error (invalidSeq entry lineNo))
      else
        match checkLinks opts state lineNo entry seq with
        | some failure => .ok (.error failure)
        | none =>
          match checkSignature opts state lineNo entry seq with
          | .error e => .error e
          | .ok (.error failure) => .ok (.error failure)
          | .ok (.ok signed) => .ok (.ok ⟨some line, seq,
              if state.prevRawLine.isNone then entry.get? (js "anchor") else state.firstAnchor, signed⟩)
    | _ => .ok (.error (invalidSeq entry lineNo))
  | some _ => .ok (.error (failAt (lineNo - 1) .null lineNo (js "entry must be an object")
      (js "entry must be an object")))
where
  invalidSeq (entry : Json ν) (lineNo : Nat) : ChainFailure ν :=
    ⟨lineNo - 1, ⟨(entry.get? (js "seq")).getD .null, some lineNo, js "invalid seq", rootLabel⟩,
      js "chain broken at line " ++ natText lineNo ++ js ": seq must be a positive integer"⟩

def checkLines (opts : ChainOptions) : ChainState ν → List (JsString × Nat) →
    Except TicketStoreError (Except (ChainFailure ν) (ChainState ν))
  | state, [] => .ok (.ok state)
  | state, (line, lineNo) :: lines =>
    match checkLine opts state line lineNo with
    | .ok (.ok state') => checkLines opts state' lines
    | other => other

/-! ## What a chain that verifies is -/

/-- The `prev` an entry after the line has. -/
def linkValue (ν : Type) [JsNumber ν] (line : Option JsString) : Option (Json ν) :=
  some (line.elim .null fun line => .str (sha256 line))

theorem linksTo_iff {prev : Option (Json ν)} {prevRawLine : Option JsString} :
    linksTo prev prevRawLine = true ↔ prev = linkValue ν prevRawLine := by
  cases prevRawLine with
  | none =>
    cases prev with
    | none => simp [linksTo, linkValue]
    | some v => cases v <;> simp [linksTo, linkValue]
  | some line => exact eqStr_iff

/-- An entry's signature as the options ask for it; `signed` says whether a signature has been seen
in the chain so far. -/
def SignatureOk (opts : ChainOptions) (seen : Bool) (entry : Json ν) (signed : Bool) : Prop :=
  match opts.key with
  | none => signed = seen
  | some key => (entrySigValid key entry = .ok true ∧ signed = true) ∨
      (hasSig entry = false ∧ opts.requireSignatures = false ∧ seen = false ∧ signed = false)

/-- `ms` is the entry on the line, `verifyChain` takes it after `state`, and `next` is the state it
leaves. -/
structure Accepts (opts : ChainOptions) (state : ChainState ν) (line : JsString) (ms : Members ν)
    (next : ChainState ν) : Prop where
  parsed : parseJson line = some (.obj ms)
  seq : ms.lookup (js "seq") = some (.num next.prevSeq)
  integer : JsNumber.isInteger next.prevSeq = true
  positive : JsNumber.lt next.prevSeq (JsNumber.ofNat 1) = false
  prev : linksTo (ms.lookup (js "prev")) state.prevRawLine = true
  contiguous : next.prevSeq = if state.prevRawLine.isNone then JsNumber.ofNat 1
    else JsNumber.add state.prevSeq (JsNumber.ofNat 1)
  anchor : (ms.lookup (js "anchor")).isSome = (state.prevRawLine.isNone && opts.anchorOnFirst)
  firstAnchor : next.firstAnchor =
    if state.prevRawLine.isNone then ms.lookup (js "anchor") else state.firstAnchor
  signature : SignatureOk opts state.seenSignedEntry (.obj ms : Json ν) next.seenSignedEntry
  line : next.prevRawLine = some line

theorem checkLinks_eq_none_iff {opts : ChainOptions} {state : ChainState ν} {lineNo : Nat}
    {entry : Json ν} {seq : ν} :
    checkLinks opts state lineNo entry seq = none ↔
      linksTo (entry.get? (js "prev")) state.prevRawLine = true ∧
      (seq = if state.prevRawLine.isNone then JsNumber.ofNat 1
        else JsNumber.add state.prevSeq (JsNumber.ofNat 1)) ∧
      (entry.get? (js "anchor")).isSome = (state.prevRawLine.isNone && opts.anchorOnFirst) := by
  unfold checkLinks
  cases hl : linksTo (entry.get? (js "prev")) state.prevRawLine
  · cases state.prevRawLine.isNone <;> simp
  · cases hf : state.prevRawLine.isNone
    · by_cases hs : seq = JsNumber.add state.prevSeq (JsNumber.ofNat 1)
      · cases (entry.get? (js "anchor")).isSome <;> simp [hs]
      · simp [hs]
    · by_cases hs : seq = JsNumber.ofNat 1
      · cases (entry.get? (js "anchor")).isSome <;> cases opts.anchorOnFirst <;> simp [hs]
      · simp [hs]

theorem hasSig_of_valid {key : JsString} {entry : Json ν} (h : entrySigValid key entry = .ok true) :
    hasSig entry = true := by
  unfold entrySigValid at h
  unfold hasSig
  split at h
  · rename_i sig hs
    rw [hs]
  · cases h

theorem checkSignature_ok_iff {opts : ChainOptions} {state : ChainState ν} {lineNo : Nat}
    {entry : Json ν} {seq : ν} {signed : Bool} :
    checkSignature opts state lineNo entry seq = .ok (.ok signed) ↔
      SignatureOk opts state.seenSignedEntry entry signed := by
  unfold checkSignature SignatureOk
  cases opts.key with
  | none => simp [eq_comm]
  | some key =>
    simp only
    cases hs : hasSig entry
    · have hv : ¬entrySigValid key entry = .ok true := by
        intro h
        rw [hasSig_of_valid h] at hs
        cases hs
      cases opts.requireSignatures <;> cases state.seenSignedEntry <;> simp [hv, eq_comm]
    · cases entrySigValid key entry with
      | error e => simp [Except.map]
      | ok b => cases b <;> cases signed <;> simp [Except.map]

/-- `verifyChain` takes a line exactly when it is an entry that links to the ones before. -/
theorem checkLine_ok_iff {opts : ChainOptions} {state next : ChainState ν} {line : JsString}
    {lineNo : Nat} :
    checkLine opts state line lineNo = .ok (.ok next) ↔ ∃ ms, Accepts opts state line ms next := by
  constructor
  · intro h
    unfold checkLine at h
    split at h
    · cases h
    · rename_i ms hp
      simp only at h
      split at h
      · rename_i seq hs
        by_cases hi : (!JsNumber.isInteger seq || JsNumber.lt seq (JsNumber.ofNat 1)) = true
        · rw [if_pos hi] at h
          cases h
        rw [if_neg hi] at h
        rw [Bool.not_eq_true, Bool.or_eq_false_iff, Bool.not_eq_false'] at hi
        cases hc : checkLinks opts state lineNo (.obj ms) seq with
        | some failure =>
          rw [hc] at h
          cases h
        | none =>
          rw [hc] at h
          simp only at h
          cases hg : checkSignature opts state lineNo (.obj ms) seq with
          | error e =>
            rw [hg] at h
            cases h
          | ok r =>
            cases r with
            | error failure =>
              rw [hg] at h
              cases h
            | ok signed =>
              rw [hg] at h
              have e := Except.ok.inj (Except.ok.inj h)
              obtain ⟨hl, hq, ha⟩ := checkLinks_eq_none_iff.mp hc
              have hsig := checkSignature_ok_iff.mp hg
              rw [← e]
              exact ⟨ms, hp, hs, hi.1, hi.2, hl, hq, ha, rfl, hsig, rfl⟩
      · cases h
    · cases h
  · rintro ⟨ms, h⟩
    have hi : (!JsNumber.isInteger next.prevSeq ||
        JsNumber.lt next.prevSeq (JsNumber.ofNat 1)) = false := by
      rw [h.integer, h.positive]
      rfl
    have hc : checkLinks opts state lineNo (.obj ms) next.prevSeq = none :=
      checkLinks_eq_none_iff.mpr ⟨h.prev, h.contiguous, h.anchor⟩
    have hg : checkSignature opts state lineNo (.obj ms) next.prevSeq =
        .ok (.ok next.seenSignedEntry) := checkSignature_ok_iff.mpr h.signature
    have hs : (Json.obj ms).get? (js "seq") = some (.num next.prevSeq) := h.seq
    have hf := h.firstAnchor
    have hl := h.line
    obtain ⟨prevRawLine, prevSeq, firstAnchor, seenSignedEntry⟩ := next
    simp only at hi hc hg hs hf hl
    unfold checkLine
    rw [h.parsed]
    simp only
    rw [hs]
    simp only [hi, hc, hg]
    rw [hf, hl]
    rfl

/-- A chain, from one state to another. -/
def AcceptsAll (opts : ChainOptions) : ChainState ν → List JsString → ChainState ν → Prop
  | state, [], last => last = state
  | state, line :: lines, last =>
    ∃ ms next, Accepts opts state line ms next ∧ AcceptsAll opts next lines last

theorem checkLines_ok_iff {opts : ChainOptions} {state last : ChainState ν}
    {lines : List (JsString × Nat)} :
    checkLines opts state lines = .ok (.ok last) ↔
      AcceptsAll opts state (lines.map Prod.fst) last := by
  induction lines generalizing state with
  | nil => simp [checkLines, AcceptsAll, eq_comm]
  | cons p lines ih =>
    obtain ⟨line, lineNo⟩ := p
    rw [List.map_cons, AcceptsAll, checkLines]
    constructor
    · intro h
      split at h
      · rename_i next hn
        obtain ⟨ms, ha⟩ := checkLine_ok_iff.mp hn
        exact ⟨ms, next, ha, ih.mp h⟩
      · rename_i hne
        exact absurd h (hne last)
    · rintro ⟨ms, next, ha, hrest⟩
      rw [checkLine_ok_iff.mpr ⟨ms, ha⟩]
      exact ih.mpr hrest

theorem AcceptsAll.snoc {opts : ChainOptions} {state last next : ChainState ν}
    {lines : List JsString} {line : JsString} {ms : Members ν}
    (h : AcceptsAll opts state lines last) (ha : Accepts opts last line ms next) :
    AcceptsAll opts state (lines ++ [line]) next := by
  induction lines generalizing state with
  | nil =>
    rw [AcceptsAll] at h
    subst h
    exact ⟨ms, next, ha, rfl⟩
  | cons l lines ih =>
    obtain ⟨ms', mid, hm, hrest⟩ := h
    exact ⟨ms', mid, hm, ih hrest⟩

/-- After a chain that is not empty: its last line, that line's entry, and the first one's anchor. -/
theorem AcceptsAll.last {opts : ChainOptions} {state last : ChainState ν} {lines : List JsString}
    {line : JsString} (h : AcceptsAll opts state (lines ++ [line]) last) :
    ∃ mid ms, AcceptsAll opts state lines mid ∧ Accepts opts mid line ms last := by
  induction lines generalizing state with
  | nil =>
    obtain ⟨ms, next, ha, e⟩ := h
    rw [AcceptsAll] at e
    subst e
    exact ⟨state, ms, rfl, ha⟩
  | cons l lines ih =>
    obtain ⟨ms, next, ha, hrest⟩ := h
    obtain ⟨mid, ms', hm, hl⟩ := ih hrest
    exact ⟨mid, ms', ⟨ms, next, ha, hm⟩, hl⟩

structure VerifyResult (ν : Type) where
  valid : Bool
  message : JsString
  count : Nat
  segments : Nat
  signed : Bool
  break_ : Option (Break ν)

/-- The result for one chain, with the anchor of its first entry. -/
structure ChainResult (ν : Type) extends VerifyResult ν where
  firstAnchor : Option (Json ν)

def verifyChain (nonEmpty : List (JsString × Nat)) (opts : ChainOptions) :
    Except TicketStoreError (ChainResult ν) :=
  if nonEmpty = [] then
    if opts.anchorOnFirst then
      .ok ⟨⟨false, js "empty segment file has no first entry to carry the required anchor", 0, 0, false,
        some ⟨.null, none, js "empty segment file", rootLabel⟩⟩, none⟩
    else .ok ⟨⟨true, js "empty manifest", 0, 0, false, none⟩, none⟩
  else
    (checkLines opts .init nonEmpty).map fun checked =>
      match checked with
      | .error failure => ⟨⟨false, failure.message, failure.count, 0, false, some failure.break_⟩, none⟩
      | .ok state =>
        let signed := opts.key.isSome && opts.requireSignatures
        let counted := js " (" ++ natText nonEmpty.length ++ js " entries)"
        ⟨⟨true, (if signed then js "manifest ok, signed" else js "manifest ok") ++ counted,
          nonEmpty.length, 0, signed, none⟩, state.firstAnchor⟩

/-- What `verify` has gathered after some segments: the chains, the anchors, the count and whether
all of it is signed. -/
structure ForestState (ν : Type) where
  chainsBySeq : Chains ν
  anchorBySegment : List (JsString × Json ν)
  totalCount : Nat
  allSigned : Bool

/-- The segments' own chains. -/
def verifySegments (files : ManifestFiles) (key : Option JsString) (requireSignatures : Bool)
    (segments : Nat) : ForestState ν → List JsString →
    Except TicketStoreError (Except (VerifyResult ν) (ForestState ν))
  | state, [] => .ok (.ok state)
  | state, name :: names =>
    let raw := readRawLines (files.segmentFile name)
    match verifyChain (ν := ν) raw ⟨key, requireSignatures, true⟩ with
    | .error e => .error e
    | .ok result =>
      if result.valid then
        verifySegments files key requireSignatures segments
          { chainsBySeq := (name, seqMap (raw.map Prod.fst)) :: state.chainsBySeq
            anchorBySegment := state.anchorBySegment ++ [(name, result.firstAnchor.getD .null)]
            totalCount := state.totalCount + result.count
            allSigned := state.allSigned && (result.count = 0 || result.signed) } names
      else
        .ok (.error ⟨false, js "manifest.d/" ++ name ++ js ": " ++ result.message,
          state.totalCount + result.count, segments, false,
          result.break_.map fun b => { b with segment := name }⟩)

/-- The first segment whose anchor does not resolve, with the reason. -/
def danglingAnchor (chainsBySeq : Chains ν) (rootExists : Bool) :
    List (JsString × Json ν) → Option (JsString × JsString)
  | [] => none
  | (name, anchor) :: anchors =>
    match resolveAnchor anchor chainsBySeq rootExists with
    | .error reason => some (name, reason)
    | .ok () => danglingAnchor chainsBySeq rootExists anchors

/-- The checks that span the forest. -/
def verifyAnchors (segments : Nat) (rootExists : Bool) (state : ForestState ν) : VerifyResult ν :=
  match danglingAnchor state.chainsBySeq rootExists state.anchorBySegment with
  | some (name, reason) =>
    ⟨false, js "manifest.d/" ++ name ++ js ": " ++ reason, state.totalCount, segments, false,
      some ⟨.null, none, reason, name⟩⟩
  | none =>
    match detectAnchorCycle state.anchorBySegment with
    | .error name =>
      ⟨false, js "manifest.d/" ++ name ++ js ": anchor cycle detected", state.totalCount, segments,
        false, some ⟨.null, none, js "anchor cycle", name⟩⟩
    | .ok () =>
      let counted := js " (" ++ natText state.totalCount ++ js " entries, " ++ natText segments ++
        js " segments)"
      ⟨true, (if state.allSigned then js "manifest ok, signed" else js "manifest ok") ++ counted,
        state.totalCount, segments, state.allSigned, none⟩

def verify [Unicode] (files : ManifestFiles) (requireSignatures requireEntries : Bool)
    (keyParam : Option JsString) : Except TicketStoreError (VerifyResult ν) := do
  let key ← validateKeyParam keyParam
  let rootRaw := readRawLines files.root
  let found := discoverSegments ν files
  let segments := found.valid.length
  match found.invalid with
  | (name, reason) :: _ =>
    return ⟨false, js "manifest.d/" ++ name ++ js ": " ++ reason, 0, segments, false,
      some ⟨.null, none, reason, name⟩⟩
  | [] =>
    if found.valid = [] ∧ requireEntries = true ∧ rootRaw = [] then
      let reason := js "empty manifest (--require-entries requires at least one entry)"
      return ⟨false, reason, 0, 0, false, some ⟨.null, none, reason, rootLabel⟩⟩
    let rootResult ← verifyChain (ν := ν) rootRaw ⟨key, requireSignatures, false⟩
    if found.valid = [] ∨ rootResult.valid = false then
      return { rootResult.toVerifyResult with segments := segments }
    else
      let init : ForestState ν := ⟨[(rootLabel, seqMap (rootRaw.map Prod.fst))], [], rootResult.count,
        rootResult.count = 0 || rootResult.signed⟩
      match ← verifySegments files key requireSignatures segments init found.valid with
      | .error result => return result
      | .ok state => return verifyAnchors segments (0 < rootResult.count) state

/-! ## A forest that verifies -/

theorem verifyChain_ok {raw : List (JsString × Nat)} {opts : ChainOptions} {last : ChainState ν}
    (h : AcceptsAll opts .init (raw.map Prod.fst) last) (hne : opts.anchorOnFirst = true → raw ≠ []) :
    ∃ result, verifyChain raw opts = .ok result ∧ result.valid = true ∧
      result.count = raw.length ∧ result.firstAnchor = last.firstAnchor := by
  by_cases he : raw = []
  · subst he
    rw [List.map_nil, AcceptsAll] at h
    subst h
    have ha : ¬opts.anchorOnFirst = true := fun ha => hne ha rfl
    rw [verifyChain, if_pos rfl, if_neg ha]
    exact ⟨_, rfl, rfl, rfl, rfl⟩
  · rw [verifyChain, if_neg he, checkLines_ok_iff.mpr h]
    exact ⟨_, rfl, rfl, rfl, rfl⟩

/-- What `verify` asks of one segment, when all anchor at the root. -/
structure SegmentOk (files : ManifestFiles) (key : Option JsString) (requireSignatures : Bool)
    (name : JsString) (last : ChainState ν) (anchor : Json ν) : Prop where
  chain : AcceptsAll ⟨key, requireSignatures, true⟩ .init
    ((readRawLines (files.segmentFile name)).map Prod.fst) last
  nonempty : readRawLines (files.segmentFile name) ≠ []
  anchored : last.firstAnchor = some anchor
  atRoot : AtRoot ((readRawLines files.root).map Prod.fst) anchor

/-- The state after the segments' own chains: their anchors, over the chains with the root among
them. -/
theorem verifySegments_ok {files : ManifestFiles} {key : Option JsString} {requireSignatures : Bool}
    (segments : Nat) {rootChain : List (ν × JsString)} (names : List JsString) (state : ForestState ν)
    (hroot : rootLabel ∉ names)
    (hchains : state.chainsBySeq.lookup rootLabel = some rootChain)
    (hok : ∀ name ∈ names, ∃ last anchor,
      SegmentOk (ν := ν) files key requireSignatures name last anchor) :
    ∃ next, verifySegments files key requireSignatures segments state names = .ok (.ok next) ∧
      next.chainsBySeq.lookup rootLabel = some rootChain ∧
      next.anchorBySegment.map Prod.fst = state.anchorBySegment.map Prod.fst ++ names ∧
      ∀ p ∈ next.anchorBySegment, p ∈ state.anchorBySegment ∨
        AtRoot ((readRawLines files.root).map Prod.fst) p.2 := by
  induction names generalizing state with
  | nil => exact ⟨state, rfl, hchains, by simp, fun p hp => Or.inl hp⟩
  | cons name names ih =>
    obtain ⟨last, anchor, hs⟩ := hok name List.mem_cons_self
    obtain ⟨result, hr, hv, -, ha⟩ := verifyChain_ok hs.chain fun _ => hs.nonempty
    have hne : ¬rootLabel = name := fun e => hroot (e ▸ List.mem_cons_self)
    rw [verifySegments]
    simp only [hr, hv, if_true]
    obtain ⟨next, hn, hc, hk, hp⟩ := ih
      { chainsBySeq := (name, seqMap ((readRawLines (files.segmentFile name)).map Prod.fst)) ::
          state.chainsBySeq
        anchorBySegment := state.anchorBySegment ++ [(name, result.firstAnchor.getD .null)]
        totalCount := state.totalCount + result.count
        allSigned := state.allSigned && (result.count = 0 || result.signed) }
      (fun hm => hroot (List.mem_cons_of_mem _ hm))
      (by rw [List.lookup_cons, beq_eq_false_iff_ne.mpr hne]; exact hchains)
      (fun n hn => hok n (List.mem_cons_of_mem _ hn))
    refine ⟨next, hn, hc, by rw [hk]; simp, ?_⟩
    intro p hm
    rcases hp p hm with hm | hm
    · rcases List.mem_append.mp hm with hm | hm
      · exact Or.inl hm
      · right
        rw [List.mem_singleton.mp hm, ha, hs.anchored]
        exact hs.atRoot
    · exact Or.inr hm

theorem danglingAnchor_atRoot {rootLines : List JsString} {chains : Chains ν}
    {anchors : List (JsString × Json ν)} (h : ∀ p ∈ anchors, AtRoot rootLines p.2)
    (hc : chains.lookup rootLabel = some (seqMap rootLines)) :
    danglingAnchor chains (decide (rootLines ≠ [])) anchors = none := by
  induction anchors with
  | nil => rfl
  | cons p anchors ih =>
    obtain ⟨name, anchor⟩ := p
    have ha : AtRoot rootLines anchor := h (name, anchor) List.mem_cons_self
    rw [danglingAnchor, resolveAnchor_atRoot ha hc]
    exact ih fun p hp => h p (List.mem_cons_of_mem _ hp)

/-- A forest verifies when discovery rejects nothing, the root is a chain, and each segment is a
chain anchored at the root. -/
theorem verify_valid [Unicode] {files : ManifestFiles} {key : Option JsString}
    {requireSignatures : Bool} {rootLast : ChainState ν} (hkey : key ≠ some [])
    (hd : (discoverSegments ν files).invalid = [])
    (hlabel : rootLabel ∉ (discoverSegments ν files).valid)
    (hroot : AcceptsAll ⟨key, requireSignatures, false⟩ .init
      ((readRawLines files.root).map Prod.fst) rootLast)
    (hsegments : ∀ name ∈ (discoverSegments ν files).valid, ∃ last anchor,
      SegmentOk (ν := ν) files key requireSignatures name last anchor) :
    ∃ result : VerifyResult ν, verify files requireSignatures false key = .ok result ∧
      result.valid = true := by
  obtain ⟨r, hr, hv, hcount, -⟩ := verifyChain_ok hroot
    (fun h => by cases h)
  have hk : validateKeyParam key = .ok key := by rw [validateKeyParam, if_neg hkey]
  unfold verify
  simp only [hk, bind, Except.bind, hd, hr, pure, Except.pure, Bool.false_eq_true, false_and,
    and_false, if_false, hv]
  by_cases he : (discoverSegments ν files).valid = []
  · rw [if_pos (Or.inl he)]
    exact ⟨_, rfl, rfl⟩
  · rw [if_neg (by simp [he])]
    obtain ⟨state, hs, hc, hkeys, hat⟩ := verifySegments_ok
      (discoverSegments ν files).valid.length (discoverSegments ν files).valid
      ⟨[(rootLabel, seqMap ((readRawLines files.root).map Prod.fst))], [], r.count,
        r.count = 0 || r.signed⟩ hlabel (List.lookup_cons_self) hsegments
    have hat' : ∀ p ∈ state.anchorBySegment,
        AtRoot ((readRawLines files.root).map Prod.fst) p.2 := by
      intro p hp
      rcases hat p hp with h | h
      · cases h
      · exact h
    rw [hs]
    refine ⟨_, rfl, ?_⟩
    have hexists : decide (0 < r.count) = decide ((readRawLines files.root).map Prod.fst ≠ []) := by
      apply decide_eq_decide.mpr
      rw [hcount, List.length_pos_iff, ne_eq, ne_eq, List.map_eq_nil_iff]
    have hcycle : detectAnchorCycle state.anchorBySegment = .ok () := by
      apply detectAnchorCycle_atRoot
      · rw [hkeys]
        exact hlabel
      · intro p hp
        exact anchorTarget_atRoot (hat' p hp)
    simp only [verifyAnchors, hexists, danglingAnchor_atRoot hat' hc, hcycle]

end Adlc.GateManifest
