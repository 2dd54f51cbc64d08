import Adlc.Framework.CutText
import Adlc.GateManifest.Recording
import Adlc.GateManifest.Valid

namespace Adlc.GateManifest

open Adlc.Framework Adlc.Tickets

variable {ν : Type} [JsNumber ν]

/-! ## The evidence of a transaction's action -/

def isEvidenceOf (transactionId action : JsString) (entry : Json ν) : Bool :=
  (entry.get? (js "data")).any fun data =>
    eqStr (data.get? (js "transactionId")) transactionId && eqStr (data.get? (js "action")) action

/-- The entry is evidence of the transaction's action, on the line of that number in the chain of that
name. -/
def EvidenceAt (transactionId action : JsString) (files : ManifestFiles) (place : JsString × Nat)
    (entry : Json ν) : Prop :=
  ∃ line, (linesIn files place.1)[place.2]? = some line ∧ parseJson line = some entry ∧
    isEvidenceOf transactionId action entry = true

section Place

variable {transactionId action : JsString} {before after : ManifestFiles} {label line : JsString}
  {place : JsString × Nat} {entry : Json ν}

theorem Quiet.evidenceAt (h : Quiet before after) :
    EvidenceAt transactionId action after place entry ↔
      EvidenceAt transactionId action before place entry := by
  rw [EvidenceAt, EvidenceAt, h.linesIn]

theorem EvidenceAt.eq {other : Json ν} (h : EvidenceAt transactionId action before place entry)
    (h' : EvidenceAt transactionId action before place other) : entry = other := by
  obtain ⟨line, hline, hp, -⟩ := h
  obtain ⟨line', hline', hp', -⟩ := h'
  obtain rfl := Option.some.inj (hline.symm.trans hline')
  exact Option.some.inj (hp.symm.trans hp')

/-- A line more is a place more, if it is evidence. -/
theorem OneMore.evidenceAt (h : OneMore before after label line) :
    EvidenceAt transactionId action after place entry ↔
      EvidenceAt transactionId action before place entry ∨
        (place = (label, (linesIn before label).length) ∧ parseJson line = some entry ∧
          isEvidenceOf transactionId action entry = true) := by
  obtain ⟨l, i⟩ := place
  unfold EvidenceAt
  simp only [Prod.mk.injEq]
  by_cases hl : l = label
  · subst hl
    rw [h.own]
    constructor
    · rintro ⟨x, hx, hentry⟩
      rw [List.getElem?_append] at hx
      split_ifs at hx with hi
      · exact .inl ⟨x, hx, hentry⟩
      · right
        obtain ⟨h0, hsingle⟩ := List.getElem?_eq_some_iff.1 hx
        rw [List.length_singleton] at h0
        rw [List.getElem_singleton] at hsingle
        subst hsingle
        exact ⟨⟨rfl, by omega⟩, hentry⟩
    · rintro (⟨x, hx, hentry⟩ | ⟨⟨-, rfl⟩, hentry⟩)
      · obtain ⟨hi, -⟩ := List.getElem?_eq_some_iff.1 hx
        exact ⟨x, by rw [List.getElem?_append_left hi, hx], hentry⟩
      · exact ⟨line, by simp, hentry⟩
  · rw [h.others l hl]
    simp [hl]

end Place

/-- A candidate that is not taken has no valid signature. -/
theorem not_evidence_of_examine {key : Option JsString} {e : Evidence ν} {entry : Json ν}
    (h : examineEntry key e entry = .ok none)
    (hsig : ∀ k ∈ key, entrySigValid k entry = .ok true) :
    isEvidenceOf e.transactionId e.action entry = false := by
  unfold examineEntry at h
  unfold isEvidenceOf
  cases hd : entry.get? (js "data") with
  | none => rfl
  | some data =>
    rw [hd] at h
    simp only at h
    split_ifs at h with hc
    · have hvalid : key.elim (.ok true) (fun key => entrySigValid key entry) = .ok true := by
        cases key with
        | none => rfl
        | some k => exact hsig k rfl
      rw [hvalid] at h
      simp only at h
      split at h <;> cases h
    · simpa [isCandidate] using hc

theorem evidence_of_examine {key : Option JsString} {e : Evidence ν} {entry found : Json ν}
    (h : examineEntry key e entry = .ok (some found)) :
    isEvidenceOf e.transactionId e.action entry = true := by
  unfold examineEntry at h
  unfold isEvidenceOf
  cases hd : entry.get? (js "data") with
  | none =>
    rw [hd] at h
    cases h
  | some data =>
    rw [hd] at h
    simp only at h
    split_ifs at h with hc
    · simpa [isCandidate] using hc
    · cases h

/-! ## The content of a record -/

/-- The fields of `data` that are compared as they are. -/
def contentNames : List JsString :=
  [js "operation", js "ticketHash", js "storeHash", js "archiveHash", js "bindingScope"]

/-- The entry is what the call would write, but for its number, its time, its links, its signature and
its revision. Of an audit field the canonical text is compared; a call that replays an old recovery
takes an entry that has none of them. -/
structure SameContent (e : Evidence ν) (entry : Json ν) : Prop where
  entryFields : ∀ k ∈ [js "gate", js "ticket"], entry.get? k = (Json.obj (ownFields e [])).get? k
  dataFields : ∃ data, entry.get? (js "data") = some data ∧
    (∀ k ∈ contentNames, data.get? k = e.data.get? k) ∧
    ((∀ k ∈ auditFieldNames,
        canonicalJson (orNull (data.get? k)) = canonicalJson (orNull (e.data.get? k))) ∨
      (e.acceptLegacyMatch = true ∧ ∀ k ∈ auditFieldNames, data.get? k = none))

theorem eq_of_strictEq {a b : Option (Json ν)} (h : strictEq a b = true) : a = b := by
  unfold strictEq at h
  split at h <;> simp_all

theorem auditFieldsAgree_ok {found data : Json ν} {fields : List JsString}
    (h : auditFieldsAgree found data fields = .ok true) : ∀ k ∈ fields,
    canonicalJson (orNull (found.get? k)) = canonicalJson (orNull (data.get? k)) := by
  induction fields with
  | nil => simp
  | cons field fields ih =>
    rw [auditFieldsAgree] at h
    split at h
    · rename_i a b ha hb
      split_ifs at h with hab
      · intro k hk
        rcases List.mem_cons.1 hk with rfl | hk
        · rw [ha, hb, hab]
        · exact ih h k hk
      · cases h
    · cases h
    · cases h

theorem lookup_data {e : Evidence ν} {k : JsString} {v : Option (Json ν)} (h : (k, v) ∈ e.fields) :
    e.data.get? k = v := by
  have hnames : dataNames.Nodup := by decide
  exact lookup_definedFields (hnames.sublist (fields_sublist e)) h

theorem lookup_archiveHash (e : Evidence ν) : e.data.get? (js "archiveHash") =
    if truthy e.archiveHash then some e.archiveHash else none := by
  split_ifs with h
  · exact lookup_data (by simp [Evidence.fields, h])
  · apply lookup_definedFields_none
    unfold Evidence.fields Evidence.auditFields
    split_ifs <;> simp only [List.map_cons, List.map_nil, List.cons_append, List.nil_append,
      List.append_nil] <;> decide

theorem lookup_own (e : Evidence ν) (isoNow : JsString) :
    (ownFields e isoNow).lookup (js "gate") = some (.str e.gate) ∧
      (ownFields e isoNow).lookup (js "ticket") =
        (if truthy e.ticketId then some e.ticketId else none) ∧
      (ownFields e isoNow).lookup (js "data") = some e.data := by
  unfold ownFields
  split_ifs <;> exact ⟨rfl, rfl, rfl⟩

/-- An optional value that is recorded when it is truthy, and compared to `null` when it is not
there. -/
theorem optional_eq {recorded value : Json ν} {field : Option (Json ν)}
    (hfield : field = if truthy recorded then some recorded else none)
    (h : strictEq (some (orNull field)) (some value) = true) :
    field = if truthy value then some value else none := by
  have heq := Option.some.inj (eq_of_strictEq h)
  subst heq
  rw [hfield]
  by_cases ht : truthy recorded = true
  · rw [if_pos ht, orNull, Option.getD_some, if_pos ht]
  · rw [if_neg ht, orNull, Option.getD_none]
    rfl

theorem sameContent_of_examine {key : Option JsString} {e e0 : Evidence ν} {isoNow : JsString}
    {extra ms : Members ν} {seq : ν} {prevRawLine : Option JsString} {found : Json ν}
    (hw : Written key (ownFields e0 isoNow) extra seq prevRawLine ms)
    (h : examineEntry key e (.obj ms) = .ok (some found)) : SameContent e (.obj ms) := by
  obtain ⟨hgate0, hticket0, hdata0⟩ := lookup_own e0 isoNow
  obtain ⟨hgate1, hticket1, -⟩ := lookup_own e []
  have hgate : (Json.obj ms).get? (js "gate") = some (.str e0.gate) :=
    (hw.rest _ (by decide)).trans hgate0
  have hticket : (Json.obj ms).get? (js "ticket") =
      if truthy e0.ticketId then some e0.ticketId else none :=
    (hw.rest _ (by decide)).trans hticket0
  have hdata : (Json.obj ms).get? (js "data") = some e0.data :=
    (hw.rest _ (by decide)).trans hdata0
  have hmatches : matchesEvidence e (.obj ms) e0.data = .ok true := by
    unfold examineEntry at h
    rw [hdata] at h
    simp only at h
    split_ifs at h
    · split at h
      · cases h
      · cases h
      · split at h
        · cases h
        · cases h
        · assumption
    · cases h
  unfold matchesEvidence at hmatches
  split_ifs at hmatches with hsame
  · simp only [Bool.and_eq_true] at hsame
    obtain ⟨⟨⟨⟨⟨⟨hg, ht⟩, hop⟩, hth⟩, hsh⟩, hah⟩, hscope⟩ := hsame
    have hticketHash : e0.data.get? (js "ticketHash") = some e0.ticketHash :=
      lookup_data (by simp [Evidence.fields])
    refine ⟨?_, e0.data, hdata, ?_, ?_⟩
    · intro k hk
      simp only [List.mem_cons, List.not_mem_nil, or_false] at hk
      rcases hk with rfl | rfl
      · rw [hgate, eqStr, decide_eq_true_eq] at hg
        rw [hgate, hg]
        exact hgate1.symm
      · exact (optional_eq hticket ht).trans hticket1.symm
    · intro k hk
      simp only [contentNames, List.mem_cons, List.not_mem_nil, or_false] at hk
      rcases hk with rfl | rfl | rfl | rfl | rfl
      · exact (eq_of_strictEq hop).trans (lookup_data (by simp [Evidence.fields])).symm
      · rw [hticketHash] at hth ⊢
        exact (eq_of_strictEq hth).trans (lookup_data (by simp [Evidence.fields])).symm
      · exact (eq_of_strictEq hsh).trans (lookup_data (by simp [Evidence.fields])).symm
      · exact (optional_eq (lookup_archiveHash e0) hah).trans (lookup_archiveHash e).symm
      · have h0 : e0.data.get? (js "bindingScope") = some (.str e0.bindingScope) :=
          lookup_data (by simp [Evidence.fields])
        have h1 : e.data.get? (js "bindingScope") = some (.str e.bindingScope) :=
          lookup_data (by simp [Evidence.fields])
        rw [h0, eqStr, decide_eq_true_eq] at hscope
        rw [h0, h1, hscope]
    · unfold auditFieldsMatch at hmatches
      split_ifs at hmatches with hlegacy
      · exact .inr hlegacy
      · exact .inl (auditFieldsAgree_ok hmatches)
  · cases hmatches

/-! ## A torn line -/

/-- A line of the root, or of a segment of a segmented repository, is no JSON. -/
structure Torn (ν : Type) [JsNumber ν] (files : ManifestFiles) : Prop where
  names : ∀ dir ∈ files.segments, SegmentDir dir
  line : ∃ label, ∃ line ∈ linesIn files label, parseJson (ν := ν) line = none ∧
    (label = rootLabel ∨ isSegmentedRepo ν files = true)

theorem Torn.quiet {before after : ManifestFiles} (h : Torn ν before) (hq : Quiet before after) :
    Torn ν after := by
  obtain ⟨label, line, hline, hp, hwhere⟩ := h.line
  refine ⟨hq.names h.names, label, line, ?_, hp, ?_⟩
  · rwa [hq.linesIn]
  · rwa [hq.isSegmentedRepo]

/-- The chain of the torn line: the root, or a segment that is found. -/
theorem Torn.chain [Unicode] {files : ManifestFiles} (h : Torn ν files) :
    (∃ line ∈ linesOf files.root, parseJson (ν := ν) line = none) ∨
      (isSegmentedRepo ν files = true ∧ ∃ name ∈ (discoverSegments ν files).valid,
        ∃ line ∈ linesOf (files.segmentFile name), parseJson (ν := ν) line = none) := by
  obtain ⟨label, line, hline, hp, hwhere⟩ := h.line
  unfold linesIn at hline
  split_ifs at hline with hroot hname
  · exact .inl ⟨line, hline, hp⟩
  · refine .inr ⟨hwhere.resolve_left hroot, label, ?_, line, hline, hp⟩
    refine mem_discoverSegments.2 ⟨?_, hname⟩
    cases hf : files.segmentFile label with
    | none =>
      rw [hf] at hline
      cases hline
    | some bytes => rfl
  · cases hline

theorem parsed_of_chainOk {opts : ChainOptions} {lines : List JsString} (h : ChainOk ν opts lines)
    {line : JsString} (hline : line ∈ lines) : parseJson (ν := ν) line ≠ none := by
  obtain ⟨-, last, haccepts⟩ := h
  obtain ⟨state, ms, next, ha⟩ := haccepts.each hline
  rw [ha.parsed]
  exact Option.some_ne_none _

theorem chainIsIntactFrom_parsed {key : Option JsString} {prevLine : Option JsString} {prevSeq : ν}
    {seen : Bool} {lines : List JsString}
    (h : chainIsIntactFrom key prevLine prevSeq seen lines = .ok true) {line : JsString}
    (hline : line ∈ lines) : parseJson (ν := ν) line ≠ none := by
  induction lines generalizing prevLine prevSeq seen with
  | nil => cases hline
  | cons l lines ih =>
    rw [chainIsIntactFrom] at h
    cases hp : parseJson (ν := ν) l with
    | none =>
      rw [hp] at h
      cases h
    | some entry =>
      rw [hp] at h
      simp only at h
      have hrest : ∃ prevLine prevSeq seen,
          chainIsIntactFrom (ν := ν) key prevLine prevSeq seen lines = .ok true := by
        split at h
        · cases h
        · split at h
          · exact ⟨_, _, _, h⟩
          · split at h
            · cases h
            · cases h
            · exact ⟨_, _, _, h⟩
          · split_ifs at h
            · cases h
            · exact ⟨_, _, _, h⟩
      rcases List.mem_cons.1 hline with rfl | hline
      · rw [hp]
        exact Option.some_ne_none _
      · obtain ⟨_, _, _, hrest⟩ := hrest
        exact ih hrest hline

theorem everyChainIsIntact_ok {key : Option JsString} {files : ManifestFiles} {names : List JsString}
    (h : everyChainIsIntact ν files key names = .ok true) {name : JsString} (hname : name ∈ names) :
    chainIsIntact ν (files.segmentFile name) key = .ok true := by
  induction names with
  | nil => cases hname
  | cons n names ih =>
    rw [everyChainIsIntact] at h
    split at h
    · cases h
    · cases h
    · rename_i hfirst
      rcases List.mem_cons.1 hname with rfl | hname
      · exact hfirst
      · exact ih h hname

variable [Unicode] {key : Option JsString} {files : ManifestFiles}

theorem Torn.not_intact (h : Torn ν files) : forestChainsIntact ν files key ≠ .ok true := by
  intro hintact
  unfold forestChainsIntact at hintact
  split at hintact
  · cases hintact
  · cases hintact
  · rename_i hroot
    simp only at hintact
    split_ifs at hintact
    · cases hintact
    · rcases h.chain with ⟨line, hline, hp⟩ | ⟨-, name, hname, line, hline, hp⟩
      · exact chainIsIntactFrom_parsed hroot hline hp
      · exact chainIsIntactFrom_parsed (everyChainIsIntact_ok hintact hname) hline hp

theorem Torn.not_valid (h : Torn ν files) {requireSignatures : Bool} {result : VerifyResult ν}
    (hr : verify files requireSignatures false key = .ok result) : result.valid = false := by
  cases hv : result.valid with
  | false => rfl
  | true =>
    have hok := verify_valid_iff.1 ⟨result, hr, hv⟩
    rcases h.chain with ⟨line, hline, hp⟩ | ⟨-, name, hname, line, hline, hp⟩
    · exact absurd hp (parsed_of_chainOk hok.root hline)
    · exact absurd hp (parsed_of_chainOk (hok.segments name hname) hline)

/-- A call on a torn forest writes no line; one that returns found an entry before the torn line. -/
theorem Torn.record (h : Torn ν files) (checkout : Checkout) (e : Evidence ν) :
    Quiet files (recordTicketEvidence key checkout e files).2 ∧
      ∀ entry, (recordTicketEvidence key checkout e files).1 = .ok entry →
        ∃ place, EvidenceAt e.transactionId e.action files place entry := by
  have refused : ∀ (err : TicketStoreError) (after : ManifestFiles), Quiet files after →
      Quiet files after ∧ ∀ entry, (Except.error err : Except TicketStoreError (Json ν)) = .ok entry →
        ∃ place, EvidenceAt e.transactionId e.action files place entry :=
    fun err after hq => ⟨hq, fun entry he => by cases he⟩
  unfold recordTicketEvidence
  by_cases hk : key = some []
  · rw [validateKeyParam, if_pos hk]
    exact refused _ _ (.refl _)
  · rw [validateKeyParam, if_neg hk]
    simp only
    split_ifs with hseg
    · have hq := quiet_withDirectory files
      have hnot : forestChainsIntact ν (withDirectory files) key ≠ .ok true :=
        (h.quiet hq).not_intact
      unfold recordSegmentedTicketEvidence
      simp only
      split
      · exact refused _ _ hq
      · exact refused _ _ hq
      · rename_i hintact
        exact absurd hintact hnot
    · rcases h.chain with ⟨line, hline, hp⟩ | ⟨hs, -⟩
      · unfold recordRootTicketEvidence
        simp only
        cases hfind : findRootEvidence key e (linesOf files.root) with
        | error err => exact refused _ _ (.refl _)
        | ok found =>
          rcases findRootEvidence_ok hfind with ⟨rfl, hall⟩ | ⟨l, hl, entry, hpl, rfl, hx⟩
          · obtain ⟨entry, hentry, -⟩ := hall line hline
            rw [hp] at hentry
            cases hentry
          · refine ⟨.refl _, ?_⟩
            intro result he
            obtain rfl := Except.ok.inj he
            obtain ⟨i, hi⟩ := List.mem_iff_getElem?.1 hl
            refine ⟨(rootLabel, i), l, ?_, hpl, evidence_of_examine hx⟩
            rwa [linesIn, if_pos rfl]
      · exact absurd hs hseg

omit [Unicode] in
theorem parseLines_parsed {label : JsString} {lines : List (JsString × Nat)} {entries : List (Json ν)}
    (h : parseLines label lines = .ok entries) {line : JsString} (hline : line ∈ lines.map Prod.fst) :
    parseJson (ν := ν) line ≠ none := by
  induction lines generalizing entries with
  | nil => cases hline
  | cons p lines ih =>
    obtain ⟨l, lineNo⟩ := p
    rw [parseLines] at h
    cases hp : parseJson (ν := ν) l with
    | none =>
      rw [hp] at h
      cases h
    | some entry =>
      rw [hp] at h
      obtain ⟨rest, hrest, -⟩ := map_eq_ok.1 h
      rcases List.mem_cons.1 hline with rfl | hline
      · rw [hp]
        exact Option.some_ne_none _
      · exact ih hrest hline

theorem Torn.append (h : Torn ν files) (call : AppendCall ν) :
    Quiet files (appendManifestEntry key call files).2 := by
  unfold appendManifestEntry
  split
  · exact .refl _
  · split
    · exact .refl _
    · split_ifs with hseg
      · have hq := quiet_withDirectory files
        unfold appendToSegment
        simp only
        split
        · exact hq
        · rename_i result hr
          rw [if_pos ((h.quiet hq).not_valid hr)]
          exact hq
      · split
        · exact .refl _
        · rename_i key' payload _ _ _ r entry after ha
          unfold appendToRoot at ha
          obtain ⟨entries, hparsed, -⟩ := bind_eq_ok.1 ha
          rcases h.chain with ⟨line, hline, hp⟩ | ⟨hs, -⟩
          · rw [← map_fst_readRawLines] at hline
            exact absurd hp (parseLines_parsed hparsed hline)
          · exact absurd hs hseg
  · exact .refl _

omit [Unicode] in
theorem linesIn_activate (auth : AuthMode) (files : ManifestFiles) (label : JsString) :
    linesIn (activate ν auth files) label = linesIn files label := by
  unfold linesIn
  split_ifs with hroot hname
  · rfl
  · rw [activate, segmentFile_writeSegmentFile, if_neg (isSegmentName_ne hname).1]
  · rfl

omit [Unicode] in
theorem evidenceAt_activate {transactionId action : JsString} {auth : AuthMode}
    {place : JsString × Nat} {entry : Json ν} :
    EvidenceAt transactionId action (activate ν auth files) place entry ↔
      EvidenceAt transactionId action files place entry := by
  rw [EvidenceAt, EvidenceAt, linesIn_activate]

omit [Unicode] in
theorem Torn.activate (h : Torn ν files) (auth : AuthMode) : Torn ν (activate ν auth files) := by
  obtain ⟨label, line, hline, hp, -⟩ := h.line
  refine ⟨segmentDir_writeSegmentFile _ (Or.inl rfl) h.names, label, line, ?_, hp,
    .inr (activate_segmented auth files)⟩
  rwa [linesIn_activate]

/-! ## Calls that are interrupted -/

/-- The file with the first bytes of a line at its end. -/
def cutLine (file : Option Bytes) (line : JsString) (n : Nat) : Bytes :=
  file.getD [] ++ (utf8Encode line).take n

/-- The files as a call leaves them that is interrupted: before it writes its entry, when the
directory is made and the lineage token written at most; with part of the entry's line in the root, or
in a segment; or after its line. -/
inductive Interrupted (key : Option JsString) (checkout : Checkout) (e : Evidence ν)
    (before : ManifestFiles) : ManifestFiles → Prop where
  | resolving {middle : ManifestFiles} : Quiet before middle →
      Interrupted key checkout e before middle
  | writingRoot {ms : Members ν} {n : Nat} : isSegmentedRepo ν before = false →
      recordTicketEvidence key checkout e before = (.ok (.obj ms),
        { before with root := some (appendLine before.root (stringify (.obj ms))) }) →
      n < (utf8Encode (stringify (.obj ms))).length →
      Interrupted key checkout e before
        { before with root := some (cutLine before.root (stringify (.obj ms)) n) }
  | writingSegment {middle : ManifestFiles} {name : JsString} {ms : Members ν} {n : Nat} :
      isSegmentedRepo ν before = true → Quiet before middle → isSegmentName name = true →
      recordTicketEvidence key checkout e before = (.ok (.obj ms),
        middle.writeSegmentFile name (appendLine (middle.segmentFile name) (stringify (.obj ms)))) →
      0 < n → n < (utf8Encode (stringify (.obj ms))).length →
      Interrupted key checkout e before
        (middle.writeSegmentFile name (cutLine (middle.segmentFile name) (stringify (.obj ms)) n))
  | written {entry : Json ν} {after : ManifestFiles} :
      recordTicketEvidence key checkout e before = (.ok entry, after) →
      Interrupted key checkout e before after

omit [Unicode] in
theorem linesOf_cutLine {opts : ChainOptions} {file : Option Bytes} {lines : List JsString}
    {last : ChainState ν} (h : ChainFile opts file lines last) {ms : Members ν}
    (hj : (Json.obj ms).IsJson) {n : Nat} (hn : 0 < n)
    (hlt : n < (utf8Encode (stringify (.obj ms))).length) :
    ∃ t, linesOf (some (cutLine file (stringify (.obj ms)) n)) = linesOf file ++ [t] ∧
      parseJson (ν := ν) t = none := by
  obtain ⟨t, hlines, hp⟩ := rawLines_cutLine h.lineOk hj hn hlt
  refine ⟨t, ?_, hp⟩
  rw [h.linesOf, ← hlines, ← h.bytes]
  rfl

omit [Unicode] in
theorem appendLine_ne {line : JsString} (h : LineOk line) (file : Option Bytes) :
    some (appendLine file line) ≠ file := by
  intro heq
  have hlength := congrArg (fun f : Option Bytes => (f.getD []).length) heq
  have hfeed : (utf8Encode [10]).length = 1 := by decide
  simp only [Option.getD_some, appendLine, List.length_append, utf8Encode_append h.wellFormed,
    hfeed] at hlength
  omega

/-! ## A run -/

/-- The files, and whether a call for the transaction's action has returned. -/
structure RecordRun where
  files : ManifestFiles
  returned : Bool

def isFor (e : Evidence ν) (transactionId action : JsString) : Bool :=
  decide (e.transactionId = transactionId) && decide (e.action = action)

def RecordRun.call (run : RecordRun) (key : Option JsString) (transactionId action : JsString)
    (checkout : Checkout) (e : Evidence ν) : RecordRun :=
  let (result, files) := recordTicketEvidence key checkout e run.files
  ⟨files, run.returned || (isFor e transactionId action && result.isOk)⟩

/-- The runs from an empty repository, under one key or none: calls that return or are refused, calls
for the transaction's action that are interrupted, appends of other entries, and the cutover. -/
inductive Reaches (ν : Type) [JsNumber ν] [Unicode] (key : Option JsString)
    (transactionId action : JsString) : RecordRun → Prop where
  | empty : Reaches ν key transactionId action ⟨emptyRepository, false⟩
  | call {run : RecordRun} (checkout : Checkout) (e : Evidence ν) :
      Reaches ν key transactionId action run → JsonEvidence e →
      Reaches ν key transactionId action (run.call key transactionId action checkout e)
  | interrupted {run : RecordRun} {left : ManifestFiles} (checkout : Checkout) (e : Evidence ν) :
      Reaches ν key transactionId action run → JsonEvidence e →
      isFor e transactionId action = true → Interrupted key checkout e run.files left →
      Reaches ν key transactionId action ⟨left, run.returned⟩
  | append {run : RecordRun} (call : AppendCall ν) :
      Reaches ν key transactionId action run → call.payload.IsJson →
      isEvidenceOf transactionId action call.payload = false →
      Reaches ν key transactionId action ⟨(appendManifestEntry key call run.files).2, run.returned⟩
  | activate {run : RecordRun} (auth : AuthMode) :
      Reaches ν key transactionId action run →
      Reaches ν key transactionId action ⟨activate ν auth run.files, run.returned⟩

/-! ## What every run keeps -/

/-- The entry is one that a call makes. -/
def FromCall (key : Option JsString) (entry : Json ν) : Prop :=
  ∃ (e : Evidence ν) (isoNow : JsString) (extra : Members ν) (seq : ν)
    (prevRawLine : Option JsString) (ms : Members ν), entry = .obj ms ∧
      Written key (ownFields e isoNow) extra seq prevRawLine ms

/-- The manifest is good, and the action's evidence stands in it once at most. -/
structure Settled (ν : Type) [JsNumber ν] (key : Option JsString) (transactionId action : JsString)
    (run : RecordRun) : Prop where
  good : Good ν key run.files
  unique : ∀ p q, ∀ a b : Json ν, EvidenceAt transactionId action run.files p a →
    EvidenceAt transactionId action run.files q b → p = q
  fromCall : ∀ p, ∀ a : Json ν, EvidenceAt transactionId action run.files p a → FromCall key a
  returned : run.returned = true →
    key ≠ some [] ∧ ∃ p, ∃ a : Json ν, EvidenceAt transactionId action run.files p a

/-- A line is torn, so that the manifest no longer grows, and no call has returned. -/
structure Stuck (ν : Type) [JsNumber ν] (transactionId action : JsString) (run : RecordRun) :
    Prop where
  torn : Torn ν run.files
  none : ∀ p, ∀ a : Json ν, ¬EvidenceAt transactionId action run.files p a
  returned : run.returned = false

section Step

variable {transactionId action : JsString} {run : RecordRun} {checkout : Checkout} {e : Evidence ν}

omit [JsNumber ν] [Unicode] in
theorem isFor_iff :
    isFor e transactionId action = true ↔ e.transactionId = transactionId ∧ e.action = action := by
  simp [isFor]

omit [Unicode] in
/-- A step after which the same evidence stands in a good manifest. -/
theorem Settled.same {after : ManifestFiles} (h : Settled ν key transactionId action run)
    (hg : Good ν key after) (hsame : ∀ p, ∀ a : Json ν,
      EvidenceAt transactionId action after p a ↔ EvidenceAt transactionId action run.files p a) :
    Settled ν key transactionId action ⟨after, run.returned⟩ := by
  refine ⟨hg, ?_, ?_, ?_⟩
  · intro p q a b hp hq
    exact h.unique p q a b ((hsame p a).1 hp) ((hsame q b).1 hq)
  · intro p a hp
    exact h.fromCall p a ((hsame p a).1 hp)
  · intro hr
    obtain ⟨hkey, p, a, hp⟩ := h.returned hr
    exact ⟨hkey, p, a, (hsame p a).2 hp⟩

omit [Unicode] in
theorem Settled.quiet {after : ManifestFiles}
    (h : Settled ν key transactionId action run) (hq : Quiet run.files after) :
    Settled ν key transactionId action ⟨after, run.returned⟩ :=
  h.same (h.good.quiet hq) fun _ _ => hq.evidenceAt

omit [Unicode] in
/-- Another entry is appended. -/
theorem Settled.other {after : ManifestFiles} {label : JsString} {ms : Members ν}
    (h : Settled ν key transactionId action run) (hg : Good ν key after)
    (hone : OneMore run.files after label (stringify (.obj ms))) (hj : (Json.obj ms).IsJson)
    (hother : isEvidenceOf transactionId action (.obj ms) = false) :
    Settled ν key transactionId action ⟨after, run.returned⟩ := by
  refine h.same hg ?_
  intro p a
  rw [hone.evidenceAt]
  refine or_iff_left ?_
  rintro ⟨-, hp, hentry⟩
  rw [parseJson_stringify hj] at hp
  rw [← Option.some.inj hp, hother] at hentry
  cases hentry

omit [Unicode] in
/-- The first evidence is appended. -/
theorem Settled.first {after : ManifestFiles} {label : JsString} {ms : Members ν} {returned : Bool}
    (hnone : ∀ p, ∀ a : Json ν, ¬EvidenceAt transactionId action run.files p a)
    (hg : Good ν key after) (hone : OneMore run.files after label (stringify (.obj ms)))
    (hj : (Json.obj ms).IsJson) (hfrom : FromCall key (.obj ms))
    (hentry : isEvidenceOf transactionId action (.obj ms) = true) (hkey : key ≠ some []) :
    Settled ν key transactionId action ⟨after, returned⟩ := by
  have honly : ∀ p, ∀ a : Json ν, EvidenceAt transactionId action after p a →
      p = (label, (linesIn run.files label).length) ∧ a = .obj ms := by
    intro p a hp
    rcases hone.evidenceAt.1 hp with hold | ⟨hplace, hparse, -⟩
    · exact absurd hold (hnone p a)
    · rw [parseJson_stringify hj] at hparse
      exact ⟨hplace, (Option.some.inj hparse).symm⟩
  refine ⟨hg, ?_, ?_, ?_⟩
  · intro p q a b hp hq
    rw [(honly p a hp).1, (honly q b hq).1]
  · intro p a hp
    rwa [(honly p a hp).2]
  · intro _
    exact ⟨hkey, _, .obj ms, hone.evidenceAt.2 (.inr ⟨rfl, parseJson_stringify hj, hentry⟩)⟩

omit [Unicode] in
theorem Stuck.quiet {after : ManifestFiles} (h : Stuck ν transactionId action run)
    (hq : Quiet run.files after) : Stuck ν transactionId action ⟨after, run.returned⟩ :=
  ⟨h.torn.quiet hq, fun p a hp => h.none p a (hq.evidenceAt.1 hp), h.returned⟩

omit [Unicode] in
/-- Where no evidence was found none stands. -/
theorem no_evidence (hg : Good ν key files)
    (h : ∀ l, ∀ line ∈ linesIn files l, ∀ entry, parseJson line = some entry →
      examineEntry key e entry = .ok none) :
    ∀ p, ∀ a : Json ν, ¬EvidenceAt e.transactionId e.action files p a := by
  rintro p a ⟨line, hline, hp, hentry⟩
  have hmem := List.mem_of_getElem? hline
  have hsig : ∀ k ∈ key, entrySigValid k a = .ok true := by
    intro k hk
    obtain rfl := Option.mem_def.1 hk
    exact hg.signed hmem hp
  rw [not_evidence_of_examine (h _ line hmem a hp) hsig] at hentry
  cases hentry

omit [Unicode] in
theorem Written.isEvidenceOf {isoNow : JsString} {extra ms : Members ν} {seq : ν}
    {prevRawLine : Option JsString} (h : Written key (ownFields e isoNow) extra seq prevRawLine ms) :
    isEvidenceOf transactionId action (.obj ms) = isFor e transactionId action := by
  have hdata : (Json.obj ms).get? (js "data") = some e.data :=
    (h.rest _ (by decide)).trans (lookup_own e isoNow).2.2
  have htransaction : e.data.get? (js "transactionId") = some (.str e.transactionId) :=
    lookup_data (by simp [Evidence.fields])
  have haction : e.data.get? (js "action") = some (.str e.action) :=
    lookup_data (by simp [Evidence.fields])
  rw [GateManifest.isEvidenceOf, hdata, Option.any_some, htransaction, haction]
  rfl

theorem key_of_recorded {entry : Json ν} {after : ManifestFiles}
    (h : recordTicketEvidence key checkout e files = (.ok entry, after)) : key ≠ some [] := by
  rintro rfl
  unfold recordTicketEvidence at h
  rw [validateKeyParam, if_pos rfl] at h
  cases h

/-- A call that adds to the manifest found no evidence of its own. -/
theorem no_evidence_of_grown {ms : Members ν} {after : ManifestFiles} (hg : Good ν key files)
    (he : JsonEvidence e)
    (h : recordTicketEvidence key checkout e files = (.ok (.obj ms), after))
    (hgrown : ¬Quiet files after) :
    (∀ p, ∀ a : Json ν, ¬EvidenceAt e.transactionId e.action files p a) ∧ (Json.obj ms).IsJson := by
  have hout : RecordOutcome key e checkout.isoNow files
      (recordTicketEvidence key checkout e files) := recordTicketEvidence_outcome hg he
  rw [h] at hout
  cases hout with
  | found hq => exact absurd hq hgrown
  | appended hnone _ _ hw => exact ⟨no_evidence hg hnone, hw.isJson⟩

/-- A call keeps the manifest settled, whether it returns, is refused or, after its line, is
interrupted. -/
theorem Settled.recorded {result : Except TicketStoreError (Json ν)} {after : ManifestFiles}
    (h : Settled ν key transactionId action run) (he : JsonEvidence e)
    (hr : recordTicketEvidence key checkout e run.files = (result, after)) {returned : Bool}
    (hreturned : returned = true →
      run.returned = true ∨ (isFor e transactionId action = true ∧ result.isOk = true)) :
    Settled ν key transactionId action ⟨after, returned⟩ := by
  have hout : RecordOutcome key e checkout.isoNow run.files
      (recordTicketEvidence key checkout e run.files) := recordTicketEvidence_outcome h.good he
  rw [hr] at hout
  cases hout with
  | refused hq =>
    have hs := h.quiet hq
    refine ⟨hs.good, hs.unique, hs.fromCall, ?_⟩
    intro ht
    rcases hreturned ht with ht | ⟨-, ht⟩
    · exact hs.returned ht
    · cases ht
  | found hq hline hp hx =>
    have hs := h.quiet hq
    refine ⟨hs.good, hs.unique, hs.fromCall, ?_⟩
    intro ht
    rcases hreturned ht with ht | ⟨hfor, -⟩
    · exact hs.returned ht
    · obtain ⟨i, hi⟩ := List.mem_iff_getElem?.1 hline
      obtain ⟨rfl, rfl⟩ := isFor_iff.1 hfor
      exact ⟨key_of_recorded hr, (_, i), _,
        hq.evidenceAt.2 ⟨_, hi, hp, evidence_of_examine hx⟩⟩
  | appended hnone hg hone hw =>
    cases hfor : isFor e transactionId action with
    | true =>
      obtain ⟨rfl, rfl⟩ := isFor_iff.1 hfor
      have hfrom : FromCall key (.obj _) := ⟨e, _, _, _, _, _, rfl, hw⟩
      exact .first (no_evidence h.good hnone) hg hone hw.isJson hfrom
        (hw.isEvidenceOf.trans hfor) (key_of_recorded hr)
    | false =>
      have hs := h.other hg hone hw.isJson (hw.isEvidenceOf.trans hfor)
      refine ⟨hs.good, hs.unique, hs.fromCall, ?_⟩
      intro ht
      rcases hreturned ht with ht | ⟨ht, -⟩
      · exact hs.returned ht
      · rw [hfor] at ht
        cases ht

omit [Unicode] in
theorem isSegmentedRepo_writeSegmentFile {name : JsString} (hn : isSegmentName name = true)
    (files : ManifestFiles) (bytes : Bytes) :
    isSegmentedRepo ν (files.writeSegmentFile name bytes) = isSegmentedRepo ν files := by
  have hm : (files.writeSegmentFile name bytes).segmentFile storeMarker =
      files.segmentFile storeMarker := by
    rw [segmentFile_writeSegmentFile, if_neg (isSegmentName_ne hn).1.symm]
  simp only [isSegmentedRepo, hasActivationMarker, hm]
  rfl

omit [Unicode] in
/-- The file of a segment that is there or not. -/
theorem Good.segmentChain {name : JsString} (hg : Good ν key files) (hn : isSegmentName name = true) :
    ∃ (lines : List JsString) (last : ChainState ν),
      ChainFile ⟨key, true, true⟩ (files.segmentFile name) lines last := by
  cases hf : files.segmentFile name with
  | none => exact ⟨[], .init, rfl, by simp, rfl⟩
  | some bytes =>
    obtain ⟨lines, last, anchor, hc, -⟩ := hg.segments name hn (by rw [hf]; rfl)
    rw [hf] at hc
    exact ⟨lines, last, hc⟩

omit [Unicode] in
/-- Part of a line is written where no evidence was. -/
theorem Settled.cut {after : ManifestFiles} {label t : JsString}
    (h : Settled ν key transactionId action run)
    (hnone : ∀ p, ∀ a : Json ν, ¬EvidenceAt transactionId action run.files p a)
    (hone : OneMore run.files after label t) (ht : parseJson (ν := ν) t = none)
    (hnames : ∀ dir ∈ after.segments, SegmentDir dir)
    (hwhere : label = rootLabel ∨ isSegmentedRepo ν after = true) :
    Stuck ν transactionId action ⟨after, run.returned⟩ := by
  refine ⟨⟨hnames, label, t, ?_, ht, hwhere⟩, ?_, ?_⟩
  · rw [hone.own]
    exact List.mem_append_right _ List.mem_cons_self
  · intro p a hp
    rcases hone.evidenceAt.1 hp with hold | ⟨-, hparse, -⟩
    · exact hnone p a hold
    · rw [ht] at hparse
      cases hparse
  · cases hr : run.returned with
    | false => rfl
    | true =>
      obtain ⟨-, p, a, hp⟩ := h.returned hr
      exact absurd hp (hnone p a)

theorem Settled.interrupted {left : ManifestFiles} (h : Settled ν key transactionId action run)
    (he : JsonEvidence e) (hfor : isFor e transactionId action = true)
    (hleft : Interrupted key checkout e run.files left) :
    Settled ν key transactionId action ⟨left, run.returned⟩ ∨
      Stuck ν transactionId action ⟨left, run.returned⟩ := by
  obtain ⟨rfl, rfl⟩ := isFor_iff.1 hfor
  cases hleft with
  | resolving hq => exact .inl (h.quiet hq)
  | written hr => exact .inl (h.recorded he hr .inl)
  | @writingRoot ms n hseg hr hlt =>
    have hgrown : ¬Quiet run.files
        { run.files with root := some (appendLine run.files.root (stringify (.obj ms))) } :=
      fun hq => appendLine_ne (lineOk_stringify _) _ hq.root
    obtain ⟨hnone, hj⟩ := no_evidence_of_grown h.good he hr hgrown
    obtain ⟨lines, last, hroot⟩ := h.good.root
    rcases Nat.eq_zero_or_pos n with rfl | hn
    · left
      have hsame : cutLine run.files.root (stringify (.obj ms)) 0 = run.files.root.getD [] := by
        simp [cutLine]
      have hfile : ChainFile ⟨key, true, false⟩ (some (run.files.root.getD [])) lines last :=
        ⟨hroot.bytes, hroot.lineOk, hroot.chain⟩
      rw [hsame]
      refine h.same (h.good.writeRoot hseg hfile) ?_
      intro p a
      have hlines : linesIn { run.files with root := some (run.files.root.getD []) } p.1 =
          linesIn run.files p.1 := by
        unfold linesIn
        rw [hfile.linesOf, hroot.linesOf]
        rfl
      rw [EvidenceAt, EvidenceAt, hlines]
    · right
      obtain ⟨t, hlines, ht⟩ := linesOf_cutLine hroot hj hn hlt
      exact h.cut hnone (oneMore_root hlines) ht h.good.names (.inl rfl)
  | @writingSegment middle name ms n hseg hq hname hr hn hlt =>
    right
    have hgrown : ¬Quiet run.files (middle.writeSegmentFile name
        (appendLine (middle.segmentFile name) (stringify (.obj ms)))) := by
      intro hquiet
      have hfile := hquiet.file name (isSegmentName_ne hname).2
      rw [segmentFile_writeSegmentFile, if_pos rfl, ← hq.file name (isSegmentName_ne hname).2] at hfile
      exact appendLine_ne (lineOk_stringify _) _ hfile
    obtain ⟨hnone, hj⟩ := no_evidence_of_grown h.good he hr hgrown
    obtain ⟨lines, last, hfile⟩ := (h.good.quiet hq).segmentChain hname
    obtain ⟨t, hlines, ht⟩ := linesOf_cutLine hfile hj hn hlt
    refine h.cut hnone ((oneMore_segment hname hlines).of_quiet hq) ht
      (segmentDir_writeSegmentFile _ (Or.inr (Or.inr hname)) (hq.names h.good.names)) ?_
    rw [isSegmentedRepo_writeSegmentFile hname, hq.isSegmentedRepo]
    exact .inr hseg

theorem Stuck.call (h : Stuck ν transactionId action run) (checkout : Checkout) (e : Evidence ν) :
    Stuck ν transactionId action (run.call key transactionId action checkout e) := by
  have hq : Quiet run.files (recordTicketEvidence key checkout e run.files).2 :=
    (h.torn.record checkout e).1
  have hs := h.quiet hq
  refine ⟨hs.torn, hs.none, ?_⟩
  show (run.returned || (isFor e transactionId action &&
    (recordTicketEvidence key checkout e run.files).1.isOk)) = false
  rw [h.returned, Bool.false_or]
  cases hfor : isFor e transactionId action with
  | false => rfl
  | true =>
    obtain ⟨rfl, rfl⟩ := isFor_iff.1 hfor
    cases hr : (recordTicketEvidence key checkout e run.files).1 with
    | error err => rfl
    | ok entry =>
      obtain ⟨p, hp⟩ := (h.torn.record checkout e).2 entry hr
      exact absurd hp (h.none p entry)

theorem Stuck.interrupted {left : ManifestFiles} (h : Stuck ν transactionId action run)
    (hfor : isFor e transactionId action = true)
    (hleft : Interrupted key checkout e run.files left) :
    Stuck ν transactionId action ⟨left, run.returned⟩ := by
  obtain ⟨rfl, rfl⟩ := isFor_iff.1 hfor
  have hnot : ∀ (entry : Json ν) (after : ManifestFiles),
      recordTicketEvidence key checkout e run.files ≠ (.ok entry, after) := by
    intro entry after hr
    obtain ⟨p, hp⟩ := (h.torn.record checkout e).2 entry (by rw [hr])
    exact h.none p entry hp
  cases hleft with
  | resolving hq => exact h.quiet hq
  | written hr => exact absurd hr (hnot _ _)
  | writingRoot _ hr _ => exact absurd hr (hnot _ _)
  | writingSegment _ _ _ hr _ _ => exact absurd hr (hnot _ _)

theorem Settled.append {call : AppendCall ν} (h : Settled ν key transactionId action run)
    (hj : call.payload.IsJson) (hother : isEvidenceOf transactionId action call.payload = false) :
    Settled ν key transactionId action
      ⟨(appendManifestEntry key call run.files).2, run.returned⟩ := by
  have hout := appendManifestEntry_outcome h.good hj
  have hgood := (appendManifestEntry_step h.good hj).1
  generalize appendManifestEntry key call run.files = outcome at hout hgood
  cases hout with
  | refused hq => exact h.quiet hq
  | appended hone hms hdata =>
    refine h.other hgood hone hms ?_
    rw [isEvidenceOf, Json.get?, hdata]
    exact hother

omit [Unicode] in
theorem Settled.activate (h : Settled ν key transactionId action run) (auth : AuthMode) :
    Settled ν key transactionId action ⟨GateManifest.activate ν auth run.files, run.returned⟩ :=
  h.same (activate_step auth h.good).1 fun _ _ => evidenceAt_activate

omit [Unicode] in
theorem Stuck.activate (h : Stuck ν transactionId action run) (auth : AuthMode) :
    Stuck ν transactionId action ⟨GateManifest.activate ν auth run.files, run.returned⟩ :=
  ⟨h.torn.activate auth, fun p a hp => h.none p a (evidenceAt_activate.1 hp), h.returned⟩

/-- Every run keeps the manifest settled, or stuck behind a torn line. -/
theorem Reaches.kept (h : Reaches ν key transactionId action run) :
    Settled ν key transactionId action run ∨ Stuck ν transactionId action run := by
  induction h with
  | empty =>
    left
    have hnone : ∀ p, ∀ a : Json ν, ¬EvidenceAt transactionId action emptyRepository p a := by
      rintro ⟨label, i⟩ a ⟨line, hline, -⟩
      have hlines : linesIn emptyRepository label = [] := by
        unfold linesIn
        split_ifs <;> rfl
      rw [hlines] at hline
      cases hline
    exact ⟨good_empty key, fun p _ a _ hp => absurd hp (hnone p a),
      fun p a hp => absurd hp (hnone p a), fun hr => by cases hr⟩
  | call checkout e _ he ih =>
    rcases ih with hs | hs
    · left
      refine hs.recorded he rfl ?_
      simp
    · exact .inr (hs.call checkout e)
  | interrupted checkout e _ he hfor hleft ih =>
    rcases ih with hs | hs
    · exact hs.interrupted he hfor hleft
    · exact .inr (hs.interrupted hfor hleft)
  | append call _ hj hother ih =>
    rcases ih with hs | hs
    · exact .inl (hs.append hj hother)
    · exact .inr (hs.quiet (hs.torn.append call))
  | activate auth _ ih =>
    rcases ih with hs | hs
    · exact .inl (hs.activate auth)
    · exact .inr (hs.activate auth)

end Step

/-- Under one key, or none, and whatever calls were interrupted on the way: the action's evidence
stands in the manifest once at most; once and in a valid forest when a call for it has returned; and
then a call with another content is refused and writes nothing. -/
theorem evidence_recorded_once {transactionId action : JsString} {run : RecordRun}
    (h : Reaches ν key transactionId action run) :
    (∀ p q, ∀ a b : Json ν, EvidenceAt transactionId action run.files p a →
      EvidenceAt transactionId action run.files q b → p = q) ∧
    (run.returned = true →
      (∃ p, ∃ a : Json ν, EvidenceAt transactionId action run.files p a) ∧
        ∃ result : VerifyResult ν, verify run.files true false key = .ok result ∧
          result.valid = true) ∧
    ∀ (checkout : Checkout) (e : Evidence ν) (p : JsString × Nat) (a : Json ν), JsonEvidence e →
      isFor e transactionId action = true → EvidenceAt transactionId action run.files p a →
      ¬SameContent e a → ∃ err after,
        recordTicketEvidence key checkout e run.files = (.error err, after) ∧
          Quiet run.files after := by
  rcases h.kept with hs | hs
  · refine ⟨hs.unique, ?_, ?_⟩
    · intro hr
      obtain ⟨hkey, hplace⟩ := hs.returned hr
      exact ⟨hplace, hs.good.verify hkey⟩
    · intro checkout e p a he hfor hp hdifferent
      obtain ⟨rfl, rfl⟩ := isFor_iff.1 hfor
      have hout : RecordOutcome key e checkout.isoNow run.files
          (recordTicketEvidence key checkout e run.files) := recordTicketEvidence_outcome hs.good he
      generalize recordTicketEvidence key checkout e run.files = outcome at hout
      cases hout with
      | refused hq => exact ⟨_, _, rfl, hq⟩
      | @found label line entry after hq hline hparse hx =>
        obtain ⟨i, hi⟩ := List.mem_iff_getElem?.1 hline
        have hfound : EvidenceAt e.transactionId e.action run.files (label, i) entry :=
          ⟨line, hi, hparse, evidence_of_examine hx⟩
        obtain rfl := hs.unique _ _ _ _ hp hfound
        have hentry : a = entry := hp.eq hfound
        obtain ⟨e0, isoNow, extra, seq, prevRawLine, ms, rfl, hw⟩ := hs.fromCall _ _ hp
        rw [← hentry] at hx
        exact absurd (sameContent_of_examine hw hx) hdifferent
      | appended hnone => exact absurd hp (no_evidence hs.good hnone p a)
  · refine ⟨fun p _ a _ hp => absurd hp (hs.none p a), ?_, ?_⟩
    · intro hr
      rw [hs.returned] at hr
      cases hr
    · intro _ _ p a _ _ hp
      exact absurd hp (hs.none p a)

/-! ## An update that is recorded, and recorded again under a key -/

def updateEvidence (ticketHash : JsString) : Evidence Int where
  transactionId := js "t1"
  operation := some (.str (js "update"))
  action := js "apply"
  ticketId := .str (js "T1")
  ticketHash := .str ticketHash
  storeHash := some (.str (js "s"))
  archiveHash := .null
  revision := .null
  gate := js "ticket-update"
  bypass := false
  storeHashBefore := .null
  ticketIds := .null
  acceptLegacyMatch := false

omit [JsNumber ν] [Unicode] in
theorem updateEvidence_isJson (ticketHash : JsString) : JsonEvidence (updateEvidence ticketHash) := by
  refine ⟨trivial, ?_⟩
  intro p hp v hv
  have hcases : v = .null ∨ ∃ s, v = .str s := by
    simp only [Evidence.fields, updateEvidence, truthy, Evidence.bindingScope, List.mem_append,
      List.mem_cons, List.not_mem_nil, or_false, if_false, Bool.false_eq_true] at hp
    rcases hp with (rfl | rfl | rfl | rfl | rfl | rfl) | rfl <;> obtain rfl := Option.some.inj hv <;>
      simp
  rcases hcases with rfl | ⟨s, rfl⟩ <;> trivial

/-- The entry of a call that has no key. -/
def unsignedUpdate : Members Int :=
  evidenceEntry (updateEvidence (js "a")) exampleCheckout.isoNow 1 [] none

def afterUpdate : ManifestFiles :=
  ⟨some (appendLine none (stringify (.obj unsignedUpdate))), none⟩

omit [JsNumber ν] [Unicode] in
theorem unsignedUpdate_written : Written none
    (ownFields (updateEvidence (js "a")) exampleCheckout.isoNow) (mintedFields (.existing [])) 1 none
    unsignedUpdate :=
  evidence_written (updateEvidence_isJson _) rfl (fun _ _ _ h => by cases h) rfl

omit [JsNumber ν] [Unicode] in
theorem linesOf_afterUpdate : linesOf afterUpdate.root = [stringify (.obj unsignedUpdate)] :=
  (keepsLines_appendLine_iff none (Json.obj unsignedUpdate)).2 (by simp [Terminated, utf8Decode])

omit [JsNumber ν] [Unicode] in
theorem unsignedUpdate_at :
    EvidenceAt (js "t1") (js "apply") afterUpdate (rootLabel, 0) (.obj unsignedUpdate) := by
  refine ⟨stringify (.obj unsignedUpdate), ?_, parseJson_stringify unsignedUpdate_written.isJson, rfl⟩
  rw [linesIn, if_pos rfl, linesOf_afterUpdate]
  rfl

omit [JsNumber ν] [Unicode] in
theorem evidence_recorded_once_update :
    (∃ p, ∃ a : Json Int, EvidenceAt (js "t1") (js "apply") afterUpdate p a) ∧
    (∃ result : VerifyResult Int, @verify Int _ asciiUnicode afterUpdate true false none = .ok result ∧
      result.valid = true) ∧
    ∃ err after, @recordTicketEvidence Int _ asciiUnicode none exampleCheckout
      (updateEvidence (js "b")) afterUpdate = (.error err, after) ∧ Quiet afterUpdate after := by
  have hrun : @Reaches Int _ asciiUnicode none (js "t1") (js "apply") ⟨afterUpdate, true⟩ :=
    @Reaches.call Int _ asciiUnicode none (js "t1") (js "apply") ⟨emptyRepository, false⟩
      exampleCheckout (updateEvidence (js "a")) (@Reaches.empty Int _ asciiUnicode none _ _)
      (updateEvidence_isJson _)
  obtain ⟨-, hreturned, hrefused⟩ := @evidence_recorded_once Int _ asciiUnicode none _ _ _ hrun
  refine ⟨(hreturned rfl).1, (hreturned rfl).2, ?_⟩
  refine hrefused exampleCheckout _ _ _ (updateEvidence_isJson (js "b")) rfl unsignedUpdate_at ?_
  rintro ⟨-, data, hdata, hsame, -⟩
  obtain rfl := Option.some.inj hdata
  have hhash := hsame (js "ticketHash") (by decide)
  rw [lookup_data (v := some (.str (js "a"))) (by simp [Evidence.fields, updateEvidence]),
    lookup_data (v := some (.str (js "b"))) (by simp [Evidence.fields, updateEvidence])] at hhash
  cases hhash

/-- The entry of a call that has a key, after that one. -/
def signedUpdate (key : JsString) : Members Int :=
  let entry := evidenceEntry (updateEvidence (js "a")) exampleCheckout.isoNow 2 []
    (some (stringify (.obj unsignedUpdate)))
  entry ++ [(js "sig", .str (signV1 key (.obj entry)))]

omit [JsNumber ν] [Unicode] in
theorem signedUpdate_written (key : JsString) : Written (some key)
    (ownFields (updateEvidence (js "a")) exampleCheckout.isoNow) (mintedFields (.existing [])) 2
    (some (stringify (.obj unsignedUpdate))) (signedUpdate key) :=
  evidence_written (updateEvidence_isJson _) rfl (fun _ _ _ h => by cases h) rfl

omit [JsNumber ν] [Unicode] in
theorem update_recorded_again {key : JsString} (hkey : key ≠ []) :
    @recordTicketEvidence Int _ asciiUnicode (some key) exampleCheckout (updateEvidence (js "a"))
      afterUpdate = (.ok (.obj (signedUpdate key)), ⟨some (appendLine afterUpdate.root
        (stringify (.obj (signedUpdate key)))), none⟩) := by
  have hp := parseJson_stringify unsignedUpdate_written.isJson
  have hseg : isSegmentedRepo Int afterUpdate = false := by
    unfold isSegmentedRepo rootEndsInCutover
    rw [linesOf_afterUpdate, List.getLast?_singleton]
    simp only [hp]
    rfl
  have hvalid : validateKeyParam (some key) = .ok (some key) := by
    rw [validateKeyParam, if_neg (by simpa using hkey)]
  have hx : examineEntry (some key) (updateEvidence (js "a")) (.obj unsignedUpdate) = .ok none := rfl
  have hfind : findRootEvidence (some key) (updateEvidence (js "a"))
      [stringify (.obj unsignedUpdate)] = .ok none := by
    rw [findRootEvidence, hp]
    simp only [hx]
    rfl
  unfold recordTicketEvidence
  simp only [hvalid, hseg]
  unfold recordRootTicketEvidence
  simp only [linesOf_afterUpdate, hfind, List.getLast?_singleton, Option.bind_some, hp]
  rfl

omit [JsNumber ν] [Unicode] in
/-- The entry of a call without a key is not evidence for a call with one: the same content is
recorded a second time. -/
theorem recorded_twice_under_key : ∃ (a b : Json Int) (files : ManifestFiles),
    @recordTicketEvidence Int _ asciiUnicode none exampleCheckout (updateEvidence (js "a"))
      emptyRepository = (.ok a, afterUpdate) ∧
    @recordTicketEvidence Int _ asciiUnicode (some (js "k")) exampleCheckout (updateEvidence (js "a"))
      afterUpdate = (.ok b, files) ∧
    EvidenceAt (js "t1") (js "apply") files (rootLabel, 0) a ∧
    EvidenceAt (js "t1") (js "apply") files (rootLabel, 1) b := by
  have hterminated : Terminated afterUpdate.root := by
    intro c hc
    rw [afterUpdate, Option.getD_some, utf8Decode_appendLine, ← List.append_assoc,
      List.getLast?_concat] at hc
    exact (Option.some.inj hc).symm
  have hlines := (keepsLines_appendLine_iff afterUpdate.root
    (Json.obj (signedUpdate (js "k")))).2 hterminated
  rw [KeepsLines, linesOf_afterUpdate] at hlines
  refine ⟨_, _, _, rfl, update_recorded_again (by decide), ?_, ?_⟩
  · refine ⟨stringify (.obj unsignedUpdate), ?_,
      parseJson_stringify unsignedUpdate_written.isJson, rfl⟩
    rw [linesIn, if_pos rfl, hlines]
    rfl
  · refine ⟨stringify (.obj (signedUpdate (js "k"))), ?_,
      parseJson_stringify (signedUpdate_written _).isJson, ?_⟩
    · rw [linesIn, if_pos rfl, hlines]
      rfl
    · rw [(signedUpdate_written (js "k")).isEvidenceOf]
      rfl

end Adlc.GateManifest
