import Adlc.GateManifest.Verify

namespace Adlc.GateManifest

open Adlc.Framework Adlc.Tickets

variable {ν : Type} [JsNumber ν]

/-! ## The chains and the anchors of a forest -/

/-- A field of the entry on a line. -/
def fieldOf (ν : Type) [JsNumber ν] (line field : JsString) : Option (Json ν) :=
  (parseJson (ν := ν) line).bind fun entry => entry.get? field

theorem fieldOf_eq {line field : JsString} {ms : Members ν} (h : parseJson line = some (.obj ms)) :
    fieldOf ν line field = ms.lookup field := by
  rw [fieldOf, h]
  rfl

/-- The anchor of a chain's first entry. -/
def firstAnchor (ν : Type) [JsNumber ν] (lines : List JsString) : Json ν :=
  (lines.head?.bind fun line => fieldOf ν line (js "anchor")).getD .null

def forestChains (ν : Type) [JsNumber ν] (files : ManifestFiles) (names : List JsString) : Chains ν :=
  (names.map fun name => (name, seqMap (linesOf (files.segmentFile name)))).reverse ++
    [(rootLabel, seqMap (linesOf files.root))]

def forestAnchors (ν : Type) [JsNumber ν] (files : ManifestFiles) (names : List JsString) :
    List (JsString × Json ν) :=
  names.map fun name => (name, firstAnchor ν (linesOf (files.segmentFile name)))

/-- A chain that `verifyChain` takes. -/
def ChainOk (ν : Type) [JsNumber ν] (opts : ChainOptions) (lines : List JsString) : Prop :=
  (opts.anchorOnFirst = true → lines ≠ []) ∧ ∃ last : ChainState ν, AcceptsAll opts .init lines last

/-- Every anchor resolves to an entry of the forest, and none leads back to itself. -/
structure AnchorsResolve (ν : Type) [JsNumber ν] (files : ManifestFiles) (names : List JsString) :
    Prop where
  resolved : danglingAnchor (forestChains ν files names) (decide (linesOf files.root ≠ []))
    (forestAnchors ν files names) = none
  acyclic : detectAnchorCycle (forestAnchors ν files names) = .ok ()

/-- What `verify` asks of a forest. -/
structure ForestOk (ν : Type) [JsNumber ν] [Unicode] (files : ManifestFiles)
    (key : Option JsString) (requireSignatures : Bool) : Prop where
  keyed : key ≠ some []
  discovered : (discoverSegments ν files).invalid = []
  root : ChainOk ν ⟨key, requireSignatures, false⟩ (linesOf files.root)
  segments : ∀ name ∈ (discoverSegments ν files).valid,
    ChainOk ν ⟨key, requireSignatures, true⟩ (linesOf (files.segmentFile name))
  anchors : AnchorsResolve ν files (discoverSegments ν files).valid

/-! ## `verify` -/

theorem AcceptsAll.firstAnchor {opts : ChainOptions} {lines : List JsString} {last : ChainState ν}
    (h : AcceptsAll opts .init lines last) :
    last.firstAnchor.getD .null = firstAnchor ν lines := by
  have hkeep : ∀ (lines : List JsString) (state last : ChainState ν), state.prevRawLine.isNone = false →
      AcceptsAll opts state lines last → last.firstAnchor = state.firstAnchor := by
    intro lines
    induction lines with
    | nil =>
      intro state last _ h
      rw [AcceptsAll] at h
      rw [h]
    | cons line lines ih =>
      rintro state last hs ⟨ms, next, ha, hrest⟩
      have hn : next.prevRawLine.isNone = false := by
        rw [ha.line]
        rfl
      rw [ih next last hn hrest, ha.firstAnchor, hs]
      rfl
  cases lines with
  | nil =>
    rw [AcceptsAll] at h
    rw [h]
    rfl
  | cons line lines =>
    obtain ⟨ms, next, ha, hrest⟩ := h
    have hn : next.prevRawLine.isNone = false := by
      rw [ha.line]
      rfl
    have hf : fieldOf ν line (js "anchor") = ms.lookup (js "anchor") := fieldOf_eq ha.parsed
    rw [hkeep lines next last hn hrest, ha.firstAnchor, GateManifest.firstAnchor, List.head?_cons,
      Option.bind_some, hf]
    rfl

/-- `verifyChain` calls a chain valid when it takes every line of it. -/
theorem verifyChain_valid_iff {file : Option Bytes} {opts : ChainOptions} :
    (∃ result, verifyChain (ν := ν) (readRawLines file) opts = .ok result ∧ result.valid = true) ↔
      ChainOk ν opts (linesOf file) := by
  rw [← map_fst_readRawLines]
  constructor
  · rintro ⟨result, hr, hv⟩
    unfold verifyChain at hr
    split_ifs at hr with he ha
    · rw [← Except.ok.inj hr] at hv
      cases hv
    · rw [he]
      exact ⟨fun h => absurd h ha, .init, rfl⟩
    · obtain ⟨checked, hc, e⟩ := map_eq_ok.mp hr
      cases checked with
      | error failure =>
        rw [← e] at hv
        cases hv
      | ok last =>
        refine ⟨fun _ h => he (List.map_eq_nil_iff.mp h), last, checkLines_ok_iff.mp hc⟩
  · rintro ⟨hne, last, h⟩
    obtain ⟨result, hr, hv, -⟩ := verifyChain_ok h fun ha h => hne ha (List.map_eq_nil_iff.mpr h)
    exact ⟨result, hr, hv⟩

/-- The result for a valid chain. -/
theorem verifyChain_result {file : Option Bytes} {opts : ChainOptions} {result : ChainResult ν}
    (h : verifyChain (readRawLines file) opts = .ok result) (hv : result.valid = true) :
    result.count = (linesOf file).length ∧
      result.firstAnchor.getD .null = firstAnchor ν (linesOf file) := by
  obtain ⟨hne, last, ha⟩ := verifyChain_valid_iff.mp ⟨result, h, hv⟩
  rw [← map_fst_readRawLines] at hne ha ⊢
  obtain ⟨result', hr, -, hcount, hf⟩ := verifyChain_ok ha fun hf h => hne hf (List.map_eq_nil_iff.mpr h)
  rw [h] at hr
  obtain rfl := Except.ok.inj hr
  rw [hcount, hf, List.length_map]
  exact ⟨rfl, ha.firstAnchor⟩

/-- The segments' own chains are valid exactly when each is, and then the chains and the anchors
are gathered in order. -/
theorem verifySegments_iff {files : ManifestFiles} {key : Option JsString} {requireSignatures : Bool}
    {segments : Nat} {names : List JsString} {state : ForestState ν} :
    (∃ next, verifySegments files key requireSignatures segments state names = .ok (.ok next)) ↔
      ∀ name ∈ names, ChainOk ν ⟨key, requireSignatures, true⟩ (linesOf (files.segmentFile name)) := by
  induction names generalizing state with
  | nil => simp [verifySegments]
  | cons name names ih =>
    rw [List.forall_mem_cons, ← verifyChain_valid_iff, verifySegments]
    cases hr : verifyChain (ν := ν) (readRawLines (files.segmentFile name))
        ⟨key, requireSignatures, true⟩ with
    | error e => simp
    | ok result =>
      cases hv : result.valid
      · simp [hv]
      · simp only [hv, if_true, ih]
        constructor
        · intro h
          exact ⟨⟨result, rfl, hv⟩, h⟩
        · exact fun h => h.2

theorem verifySegments_state {files : ManifestFiles} {key : Option JsString}
    {requireSignatures : Bool} {segments : Nat} {names : List JsString} {state next : ForestState ν}
    (h : verifySegments files key requireSignatures segments state names = .ok (.ok next)) :
    next.chainsBySeq = (names.map fun name =>
        (name, seqMap (linesOf (files.segmentFile name)))).reverse ++ state.chainsBySeq ∧
      next.anchorBySegment = state.anchorBySegment ++ forestAnchors ν files names := by
  induction names generalizing state with
  | nil =>
    rw [verifySegments] at h
    rw [← Except.ok.inj (Except.ok.inj h)]
    simp [forestAnchors]
  | cons name names ih =>
    rw [verifySegments] at h
    cases hr : verifyChain (ν := ν) (readRawLines (files.segmentFile name))
        ⟨key, requireSignatures, true⟩ with
    | error e =>
      rw [hr] at h
      cases h
    | ok result =>
      rw [hr] at h
      cases hv : result.valid
      · simp only [hv] at h
        cases h
      · simp only [hv, if_true] at h
        obtain ⟨hc, ha⟩ := ih h
        obtain ⟨-, hf⟩ := verifyChain_result hr hv
        rw [hc, ha, map_fst_readRawLines, hf]
        simp [forestAnchors]

theorem verifySegments_error {files : ManifestFiles} {key : Option JsString}
    {requireSignatures : Bool} {segments : Nat} {names : List JsString} {state : ForestState ν}
    {result : VerifyResult ν}
    (h : verifySegments files key requireSignatures segments state names = .ok (.error result)) :
    result.valid = false := by
  induction names generalizing state with
  | nil =>
    rw [verifySegments] at h
    cases h
  | cons name names ih =>
    rw [verifySegments] at h
    cases hr : verifyChain (ν := ν) (readRawLines (files.segmentFile name))
        ⟨key, requireSignatures, true⟩ with
    | error e =>
      rw [hr] at h
      cases h
    | ok chain =>
      rw [hr] at h
      cases hv : chain.valid
      · simp only [hv] at h
        rw [← Except.error.inj (Except.ok.inj h)]
      · simp only [hv, if_true] at h
        exact ih h

theorem verifyAnchors_valid_iff {segments : Nat} {rootExists : Bool} {state : ForestState ν} :
    (verifyAnchors segments rootExists state).valid = true ↔
      danglingAnchor state.chainsBySeq rootExists state.anchorBySegment = none ∧
        detectAnchorCycle state.anchorBySegment = .ok () := by
  unfold verifyAnchors
  cases danglingAnchor state.chainsBySeq rootExists state.anchorBySegment with
  | some p => simp
  | none =>
    cases detectAnchorCycle state.anchorBySegment <;> simp

/-- `verify` calls a forest valid exactly when it is one. -/
theorem verify_valid_iff [Unicode] {files : ManifestFiles} {key : Option JsString}
    {requireSignatures : Bool} :
    (∃ result : VerifyResult ν, verify files requireSignatures false key = .ok result ∧
      result.valid = true) ↔ ForestOk ν files key requireSignatures := by
  by_cases hkey : key = some []
  · constructor
    · rintro ⟨result, h, -⟩
      unfold verify at h
      rw [validateKeyParam, if_pos hkey] at h
      cases h
    · exact fun h => absurd hkey h.keyed
  have hk : validateKeyParam key = .ok key := by rw [validateKeyParam, if_neg hkey]
  unfold verify
  simp only [hk, bind, Except.bind, pure, Except.pure, Bool.false_eq_true, false_and, and_false,
    if_false]
  cases hd : (discoverSegments ν files).invalid with
  | cons p rest =>
    obtain ⟨name, reason⟩ := p
    simp only [Except.ok.injEq]
    constructor
    · rintro ⟨result, rfl, h⟩
      cases h
    · intro h
      rw [h.discovered] at hd
      cases hd
  | nil =>
    simp only
    cases hr : verifyChain (ν := ν) (readRawLines files.root) ⟨key, requireSignatures, false⟩ with
    | error e =>
      constructor
      · rintro ⟨result, h, -⟩
        cases h
      intro h
      obtain ⟨result, hok, -⟩ := verifyChain_valid_iff.mpr h.root
      rw [hr] at hok
      cases hok
    | ok rootResult =>
      have hroot : rootResult.valid = true ↔
          ChainOk ν ⟨key, requireSignatures, false⟩ (linesOf files.root) := by
        rw [← verifyChain_valid_iff]
        constructor
        · exact fun h => ⟨rootResult, hr, h⟩
        · rintro ⟨result, h, hv⟩
          rw [hr] at h
          rw [Except.ok.inj h]
          exact hv
      simp only
      by_cases hv : rootResult.valid = true
      swap
      · rw [if_pos (Or.inr (Bool.not_eq_true _ ▸ hv))]
        constructor
        · rintro ⟨result, e, h⟩
          rw [← Except.ok.inj e] at h
          exact absurd h hv
        · exact fun h => absurd (hroot.mpr h.root) hv
      by_cases he : (discoverSegments ν files).valid = []
      · rw [if_pos (Or.inl he)]
        constructor
        · intro _
          refine ⟨hkey, hd, hroot.mp hv, ?_, ?_⟩
          · rw [he]
            exact fun name hm => absurd hm List.not_mem_nil
          · rw [he]
            exact ⟨rfl, rfl⟩
        · exact fun _ => ⟨_, rfl, hv⟩
      · rw [if_neg (by simp [he, hv])]
        have hcount : decide (0 < rootResult.count) = decide (linesOf files.root ≠ []) := by
          apply decide_eq_decide.mpr
          rw [(verifyChain_result hr hv).1, List.length_pos_iff]
        generalize hinit : (⟨[(rootLabel, seqMap ((readRawLines files.root).map Prod.fst))], [],
          rootResult.count, rootResult.count = 0 || rootResult.signed⟩ : ForestState ν) = init
        have hsegs : (∃ next, verifySegments files key requireSignatures
            (discoverSegments ν files).valid.length init (discoverSegments ν files).valid =
              .ok (.ok next)) ↔ _ := verifySegments_iff
        cases hs : verifySegments files key requireSignatures (discoverSegments ν files).valid.length
            init (discoverSegments ν files).valid with
        | error e =>
          rw [hs] at hsegs
          constructor
          · rintro ⟨result, h, -⟩
            cases h
          · intro h
            obtain ⟨next, hn⟩ := hsegs.mpr h.segments
            cases hn
        | ok checked =>
          rw [hs] at hsegs
          cases checked with
          | error failed =>
            constructor
            · rintro ⟨result, h, hvalid⟩
              rw [← Except.ok.inj h, verifySegments_error hs] at hvalid
              cases hvalid
            · intro h
              obtain ⟨next, hn⟩ := hsegs.mpr h.segments
              cases hn
          | ok state =>
            have hall := hsegs.mp ⟨state, rfl⟩
            obtain ⟨hc, ha⟩ := verifySegments_state hs
            rw [← hinit, map_fst_readRawLines] at hc
            rw [← hinit, List.nil_append] at ha
            simp only [hcount, Except.ok.injEq, exists_eq_left', verifyAnchors_valid_iff, hc, ha]
            constructor
            · rintro ⟨hdangling, hcycle⟩
              exact ⟨hkey, hd, hroot.mp hv, hall, ⟨hdangling, hcycle⟩⟩
            · exact fun h => ⟨h.anchors.resolved, h.anchors.acyclic⟩

end Adlc.GateManifest
