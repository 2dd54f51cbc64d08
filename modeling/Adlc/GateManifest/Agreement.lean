import Adlc.GateManifest.Valid
import Adlc.Tickets.Evidence

namespace Adlc.GateManifest

open Adlc.Framework Adlc.Tickets

variable {ν : Type} [JsNumber ν]

/-! ## The law of a chain -/

/-- Entries that link and count on from `prevLine` and `prevSeq`; with a key each signature is the
key's, and no unsigned entry follows a signed one. -/
def LinkedChain (key : Option JsString) : Option JsString → ν → Bool → List JsString → Prop
  | _, _, _, [] => True
  | prevLine, prevSeq, seen, line :: lines =>
    ∃ (ms : Members ν) (signed : Bool), parseJson line = some (.obj ms) ∧
      linksTo (ms.lookup (js "prev")) prevLine = true ∧
      ms.lookup (js "seq") = some (.num (JsNumber.add prevSeq (JsNumber.ofNat 1))) ∧
      SignatureOk ⟨key, false, false⟩ seen (.obj ms : Json ν) signed ∧
      LinkedChain key (some line) (JsNumber.add prevSeq (JsNumber.ofNat 1)) signed lines

/-- No entry has a member `sig` that is null. -/
def NoNullSig (ν : Type) [JsNumber ν] (lines : List JsString) : Prop :=
  ∀ line ∈ lines, fieldOf ν line (js "sig") ≠ some .null

/-- The first entry has an anchor when it is to have one, and no other entry has. -/
def AnchorPlaced (ν : Type) [JsNumber ν] (anchorOnFirst : Bool) : List JsString → Prop
  | [] => True
  | line :: lines => (fieldOf ν line (js "anchor")).isSome = anchorOnFirst ∧
      ∀ l ∈ lines, (fieldOf ν l (js "anchor")).isSome = false

/-- What `chainIsIntact` asks of the signature of an entry that links and counts on. -/
def SignedAs (key : Option JsString) (ms : Members ν) (seen signed : Bool) : Prop :=
  match key, ms.lookup (js "sig") with
  | none, _ => signed = seen
  | some key, some _ => entrySigValid key (.obj ms) = .ok true ∧ signed = true
  | some _, none => seen = false ∧ signed = false

theorem signatureOk_iff {key : Option JsString} {seen signed : Bool} {ms : Members ν}
    (hn : key.isSome → ms.lookup (js "sig") ≠ some .null) :
    SignatureOk ⟨key, false, false⟩ seen (.obj ms : Json ν) signed ↔
      SignedAs key ms seen signed := by
  unfold SignatureOk SignedAs
  cases key with
  | none => rfl
  | some key =>
    have hget : (Json.obj ms).get? (js "sig") = ms.lookup (js "sig") := rfl
    cases hs : ms.lookup (js "sig") with
    | none =>
      have hv : ¬entrySigValid key (.obj ms) = .ok true := by
        unfold entrySigValid
        rw [hget, hs]
        simp
      have hh : hasSig (.obj ms) = false := by
        rw [hasSig, hget, hs]
      simp [hv, hh]
    | some v =>
      have hh : hasSig (.obj ms) = true := by
        have hne := hn rfl
        rw [hs] at hne
        unfold hasSig
        rw [hget, hs]
        cases v with
        | null => exact absurd rfl hne
        | _ => rfl
      simp [hh]

/-- `chainIsIntact` asks the law of a chain, and besides that no entry has a null signature. -/
theorem chainIsIntactFrom_iff {key : Option JsString} {prevLine : Option JsString} {prevSeq : ν}
    {seen : Bool} {lines : List JsString} :
    chainIsIntactFrom key prevLine prevSeq seen lines = .ok true ↔
      LinkedChain key prevLine prevSeq seen lines ∧ (key.isSome → NoNullSig ν lines) := by
  induction lines generalizing prevLine prevSeq seen with
  | nil => simp [chainIsIntactFrom, LinkedChain, NoNullSig]
  | cons line lines ih =>
    have hcons : NoNullSig ν (line :: lines) ↔
        fieldOf ν line (js "sig") ≠ some .null ∧ NoNullSig ν lines := by
      simp [NoNullSig]
    rw [chainIsIntactFrom, LinkedChain, hcons]
    cases hp : parseJson (ν := ν) line with
    | none => simp
    | some entry =>
      simp only
      by_cases hl : (!linksTo (entry.get? (js "prev")) prevLine ||
          !eqNum (entry.get? (js "seq")) (JsNumber.add prevSeq (JsNumber.ofNat 1))) = true
      · rw [if_pos hl]
        constructor
        · intro h
          cases h
        · rintro ⟨⟨ms, signed, e, h1, h2, -⟩, -⟩
          obtain rfl := Option.some.inj e
          have g2 := eqNum_iff.mpr h2
          simp only [Json.get?] at hl
          rw [h1, g2] at hl
          cases hl
      · rw [if_neg hl]
        rw [Bool.not_eq_true, Bool.or_eq_false_iff, Bool.not_eq_false', Bool.not_eq_false'] at hl
        obtain ⟨h1, h2⟩ := hl
        cases entry with
        | obj ms =>
          have hf : fieldOf ν line (js "sig") = ms.lookup (js "sig") := fieldOf_eq hp
          have hget : ∀ k, (Json.obj ms).get? k = ms.lookup k := fun _ => rfl
          rw [hget] at h1 h2
          have hlaw : (∃ (ms' : Members ν) (signed : Bool), some (Json.obj ms) = some (.obj ms') ∧
              linksTo (ms'.lookup (js "prev")) prevLine = true ∧
              ms'.lookup (js "seq") = some (.num (JsNumber.add prevSeq (JsNumber.ofNat 1))) ∧
              SignatureOk ⟨key, false, false⟩ seen (.obj ms' : Json ν) signed ∧
              LinkedChain key (some line) (JsNumber.add prevSeq (JsNumber.ofNat 1)) signed lines) ↔
              ∃ signed, SignatureOk ⟨key, false, false⟩ seen (.obj ms : Json ν) signed ∧
                LinkedChain key (some line) (JsNumber.add prevSeq (JsNumber.ofNat 1)) signed lines := by
            constructor
            · rintro ⟨ms', signed, e, -, -, hs, hr⟩
              obtain rfl := Json.obj.inj (Option.some.inj e)
              exact ⟨signed, hs, hr⟩
            · rintro ⟨signed, hs, hr⟩
              exact ⟨ms, signed, rfl, h1, eqNum_iff.mp h2, hs, hr⟩
          rw [hlaw, hf, hget]
          by_cases hn : key.isSome → ms.lookup (js "sig") ≠ some .null
          · simp only [signatureOk_iff hn, SignedAs]
            cases key with
            | none => simp [ih]
            | some key =>
              have hn := hn rfl
              cases hs : ms.lookup (js "sig") with
              | none => cases seen <;> simp [ih]
              | some v =>
                rw [hs] at hn
                cases hv : entrySigValid key (Json.obj ms) with
                | error e => simp [hv]
                | ok b => cases b <;> simp [ih, hn, hv]
          · push Not at hn
            obtain ⟨hk, hs⟩ := hn
            obtain ⟨key, rfl⟩ := Option.isSome_iff_exists.mp hk
            have hv : entrySigValid key (Json.obj ms) = .ok false := by
              unfold entrySigValid
              rw [hget, hs]
            simp [hs, hv]
        | _ => simp [Json.get?, eqNum] at h2

/-- After the first entry, `verifyChain` asks the law of a chain and that no entry has an anchor. -/
theorem acceptsAll_rest_iff {key : Option JsString} {anchorOnFirst : Bool} {state : ChainState ν}
    {lines : List JsString} (hn : state.prevRawLine.isNone = false)
    (hi : JsNumber.isInteger state.prevSeq = true)
    (hpos : JsNumber.lt state.prevSeq (JsNumber.ofNat 1) = false) :
    (∃ last, AcceptsAll ⟨key, false, anchorOnFirst⟩ state lines last) ↔
      LinkedChain key state.prevRawLine state.prevSeq state.seenSignedEntry lines ∧
        ∀ line ∈ lines, (fieldOf ν line (js "anchor")).isSome = false := by
  induction lines generalizing state with
  | nil => simp [AcceptsAll, LinkedChain]
  | cons line lines ih =>
    have hi' := JsNumber.integer_succ _ hi
    have hpos' := JsNumber.succ_pos _ hi hpos
    rw [List.forall_mem_cons]
    constructor
    · rintro ⟨last, ms, next, ha, hrest⟩
      have hnext : next.prevRawLine.isNone = false := by
        rw [ha.line]
        rfl
      have hseq : next.prevSeq = JsNumber.add state.prevSeq (JsNumber.ofNat 1) := by
        have hc := ha.contiguous
        rw [hn] at hc
        exact hc
      have hrest := (ih hnext ha.integer ha.positive).mp ⟨last, hrest⟩
      rw [ha.line, hseq] at hrest
      have hq := ha.seq
      rw [hseq] at hq
      have hanchor : (fieldOf ν line (js "anchor")).isSome = false := by
        rw [fieldOf_eq ha.parsed, ha.anchor, hn]
        rfl
      exact ⟨⟨ms, next.seenSignedEntry, ha.parsed, ha.prev, hq, ha.signature, hrest.1⟩, hanchor,
        hrest.2⟩
    · rintro ⟨⟨ms, signed, hp, hprev, hseq, hs, hrest⟩, hanchor, hnone⟩
      rw [fieldOf_eq hp] at hanchor
      let next : ChainState ν := ⟨some line, JsNumber.add state.prevSeq (JsNumber.ofNat 1),
        state.firstAnchor, signed⟩
      obtain ⟨last, hlast⟩ := (@ih next rfl hi' hpos').mpr ⟨hrest, hnone⟩
      refine ⟨last, ms, next, ⟨hp, hseq, hi', hpos', hprev, ?_, ?_, ?_, hs, rfl⟩, hlast⟩
      · rw [hn]
        rfl
      · rw [hanchor, hn]
        rfl
      · rw [hn]
        rfl

/-- `verifyChain` asks the law of a chain, and that the anchor stands where it is to stand. -/
theorem acceptsAll_iff {key : Option JsString} {anchorOnFirst : Bool} {lines : List JsString} :
    (∃ last : ChainState ν, AcceptsAll ⟨key, false, anchorOnFirst⟩ .init lines last) ↔
      LinkedChain key none (JsNumber.ofNat 0 : ν) false lines ∧
        AnchorPlaced ν anchorOnFirst lines := by
  have h01 : JsNumber.add (JsNumber.ofNat 0 : ν) (JsNumber.ofNat 1) = JsNumber.ofNat 1 :=
    JsNumber.add_ofNat 0 1 (by decide)
  have hi : JsNumber.isInteger (JsNumber.ofNat 1 : ν) = true := JsNumber.integer_ofNat 1 (by decide)
  have hpos : JsNumber.lt (JsNumber.ofNat 1 : ν) (JsNumber.ofNat 1) = false := by
    rw [JsNumber.lt_ofNat 1 1 (by decide) (by decide)]
    rfl
  cases lines with
  | nil => simp [AcceptsAll, LinkedChain, AnchorPlaced]
  | cons line lines =>
    rw [LinkedChain, AnchorPlaced, h01]
    constructor
    · rintro ⟨last, ms, next, ha, hrest⟩
      have hnext : next.prevRawLine.isNone = false := by
        rw [ha.line]
        rfl
      have hseq : next.prevSeq = JsNumber.ofNat 1 := ha.contiguous
      have hrest := (acceptsAll_rest_iff hnext ha.integer ha.positive).mp ⟨last, hrest⟩
      rw [ha.line, hseq] at hrest
      have hq := ha.seq
      rw [hseq] at hq
      have hanchor : (fieldOf ν line (js "anchor")).isSome = anchorOnFirst := by
        rw [fieldOf_eq ha.parsed]
        exact ha.anchor
      exact ⟨⟨ms, next.seenSignedEntry, ha.parsed, ha.prev, hq, ha.signature, hrest.1⟩, hanchor,
        hrest.2⟩
    · rintro ⟨⟨ms, signed, hp, hprev, hseq, hs, hrest⟩, hanchor, hnone⟩
      rw [fieldOf_eq hp] at hanchor
      let next : ChainState ν := ⟨some line, JsNumber.ofNat 1, ms.lookup (js "anchor"), signed⟩
      obtain ⟨last, hlast⟩ := (@acceptsAll_rest_iff ν _ key anchorOnFirst next lines rfl hi hpos).mpr
        ⟨hrest, hnone⟩
      exact ⟨last, ms, next, ⟨hp, hseq, hi, hpos, hprev, rfl, hanchor, rfl, hs, rfl⟩, hlast⟩

/-! ## The law of a forest -/

/-- Nothing in the directory is out of place, and each file holds a chain. -/
structure ChainsLinked (ν : Type) [JsNumber ν] [Unicode] (files : ManifestFiles)
    (key : Option JsString) : Prop where
  discovered : (discoverSegments ν files).invalid = []
  root : LinkedChain key none (JsNumber.ofNat 0 : ν) false (linesOf files.root)
  segments : ∀ name ∈ (discoverSegments ν files).valid,
    LinkedChain key none (JsNumber.ofNat 0 : ν) false (linesOf (files.segmentFile name))

/-- No entry of the forest has a null signature. -/
def NoNullSigs (ν : Type) [JsNumber ν] [Unicode] (files : ManifestFiles) : Prop :=
  NoNullSig ν (linesOf files.root) ∧
    ∀ name ∈ (discoverSegments ν files).valid, NoNullSig ν (linesOf (files.segmentFile name))

/-- Each segment has a first entry; the first entries of segments, and no others, have anchors; and
the anchors resolve without a cycle. -/
structure AnchorsInOrder (ν : Type) [JsNumber ν] [Unicode] (files : ManifestFiles) : Prop where
  root : AnchorPlaced ν false (linesOf files.root)
  nonempty : ∀ name ∈ (discoverSegments ν files).valid, linesOf (files.segmentFile name) ≠ []
  segments : ∀ name ∈ (discoverSegments ν files).valid,
    AnchorPlaced ν true (linesOf (files.segmentFile name))
  anchors : AnchorsResolve ν files (discoverSegments ν files).valid

theorem everyChainIsIntact_iff {files : ManifestFiles} {key : Option JsString}
    {names : List JsString} :
    everyChainIsIntact ν files key names = .ok true ↔
      ∀ name ∈ names, chainIsIntact ν (files.segmentFile name) key = .ok true := by
  induction names with
  | nil => simp [everyChainIsIntact]
  | cons name names ih =>
    rw [everyChainIsIntact, List.forall_mem_cons]
    cases chainIsIntact ν (files.segmentFile name) key with
    | error e => simp
    | ok b => cases b <;> simp [ih]

section

variable [Unicode]

theorem forestChainsIntact_iff {files : ManifestFiles} {key : Option JsString} :
    forestChainsIntact ν files key = .ok true ↔
      ChainsLinked ν files key ∧ (key.isSome → NoNullSigs ν files) := by
  have hroot : chainIsIntact ν files.root key = .ok true ↔ _ := chainIsIntactFrom_iff
  have hsegs : everyChainIsIntact ν files key (discoverSegments ν files).valid = .ok true ↔
      ∀ name ∈ (discoverSegments ν files).valid,
        LinkedChain key none (JsNumber.ofNat 0 : ν) false (linesOf (files.segmentFile name)) ∧
          (key.isSome → NoNullSig ν (linesOf (files.segmentFile name))) := by
    rw [everyChainIsIntact_iff]
    exact forall₂_congr fun name _ => chainIsIntactFrom_iff
  have hsplit : forestChainsIntact ν files key = .ok true ↔
      chainIsIntact ν files.root key = .ok true ∧ (discoverSegments ν files).invalid = [] ∧
        everyChainIsIntact ν files key (discoverSegments ν files).valid = .ok true := by
    rw [forestChainsIntact]
    cases chainIsIntact ν files.root key with
    | error e => simp
    | ok b =>
      cases b
      · simp
      · by_cases hd : (discoverSegments ν files).invalid = [] <;> simp [hd]
  rw [hsplit, hroot, hsegs]
  constructor
  · rintro ⟨⟨hr, hrn⟩, hd, hs⟩
    exact ⟨⟨hd, hr, fun name hm => (hs name hm).1⟩,
      fun hk => ⟨hrn hk, fun name hm => (hs name hm).2 hk⟩⟩
  · rintro ⟨h, hn⟩
    exact ⟨⟨h.root, fun hk => (hn hk).1⟩, h.discovered,
      fun name hm => ⟨h.segments name hm, fun hk => (hn hk).2 name hm⟩⟩

theorem forestOk_iff {files : ManifestFiles} {key : Option JsString} :
    ForestOk ν files key false ↔
      ChainsLinked ν files key ∧ AnchorsInOrder ν files ∧ key ≠ some [] := by
  constructor
  · intro h
    have hr := acceptsAll_iff.mp h.root.2
    have hs := fun name hm => acceptsAll_iff.mp (h.segments name hm).2
    exact ⟨⟨h.discovered, hr.1, fun name hm => (hs name hm).1⟩,
      ⟨hr.2, fun name hm => (h.segments name hm).1 rfl, fun name hm => (hs name hm).2, h.anchors⟩,
      h.keyed⟩
  · rintro ⟨hl, ha, hk⟩
    refine ⟨hk, hl.discovered, ⟨(fun h => by cases h), acceptsAll_iff.mpr ⟨hl.root, ha.root⟩⟩, ?_,
      ha.anchors⟩
    intro name hm
    exact ⟨fun _ => ha.nonempty name hm,
      acceptsAll_iff.mpr ⟨hl.segments name hm, ha.segments name hm⟩⟩

/-- The two verifiers agree on a forest exactly when, if its chains are linked, its signatures are
none of them null just when its anchors are in order (and the key is one). -/
theorem forestChainsIntact_agrees_iff (files : ManifestFiles) (key : Option JsString) :
    (forestChainsIntact ν files key = .ok true ↔
      ∃ result : VerifyResult ν, verify files false false key = .ok result ∧ result.valid = true) ↔
    (ChainsLinked ν files key →
      ((key.isSome → NoNullSigs ν files) ↔ AnchorsInOrder ν files ∧ key ≠ some [])) := by
  rw [forestChainsIntact_iff, verify_valid_iff, forestOk_iff]
  tauto

end

/-- A segment file of no bytes. -/
def emptySegmentName : JsString := js "main-01ARZ3NDEKTSV4RRFFQ69G5FAV.jsonl"

def emptySegment : ManifestFiles := ⟨none, some (AList.singleton emptySegmentName [])⟩

/-- A segment that lost its entries is a chain to one verifier and none to the other. -/
theorem empty_segment_disagrees :
    @forestChainsIntact Int _ asciiUnicode emptySegment none = .ok true ∧
      ¬∃ result : VerifyResult Int,
        @verify Int _ asciiUnicode emptySegment false false none = .ok result ∧
          result.valid = true := by
  have hname : isSegmentName emptySegmentName = true := by decide
  have hdir : SegmentDir (AList.singleton emptySegmentName [] : Dir) := by
    intro name hm
    have hm : name ∈ [emptySegmentName] := hm
    rw [List.mem_singleton.mp hm]
    exact Or.inr (Or.inr hname)
  have hd : @discoverSegments Int _ asciiUnicode emptySegment = ⟨[emptySegmentName], []⟩ := by
    have hkeys : (AList.singleton emptySegmentName [] : Dir).keys = [emptySegmentName] := rfl
    rw [@discoverSegments_eq Int _ asciiUnicode _ _ rfl hdir, hkeys, List.mergeSort_singleton,
      List.filter_cons_of_pos hname]
    rfl
  have hlines : linesOf (emptySegment.segmentFile emptySegmentName) = [] := by decide
  constructor
  · have hl : @ChainsLinked Int _ asciiUnicode emptySegment none := by
      apply @ChainsLinked.mk Int _ asciiUnicode emptySegment none
      · rw [hd]
      · exact trivial
      · rw [hd]
        intro name hm
        rw [List.mem_singleton.mp hm, hlines]
        exact trivial
    exact (@forestChainsIntact_iff Int _ asciiUnicode _ _).mpr ⟨hl, fun h => by cases h⟩
  · rw [@verify_valid_iff Int _ asciiUnicode]
    intro h
    have hm : emptySegmentName ∈ (@discoverSegments Int _ asciiUnicode emptySegment).valid := by
      rw [hd]
      exact List.mem_singleton_self _
    have hs := @ForestOk.segments Int _ asciiUnicode _ _ _ h emptySegmentName hm
    exact hs.1 rfl hlines

end Adlc.GateManifest
