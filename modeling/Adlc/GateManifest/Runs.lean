import Adlc.GateManifest.Invariant

namespace Adlc.GateManifest

open Adlc.Framework Adlc.Tickets

variable {ν : Type} [JsNumber ν]

/-! ## Growth -/

/-- Bytes and lines of the file are those of before, with more after them. -/
structure FileExtends (before after : Option Bytes) : Prop where
  present : before.isSome = true → after.isSome = true
  bytes : before.getD [] <+: after.getD []
  lines : linesOf before <+: linesOf after

structure Extends (before after : ManifestFiles) : Prop where
  root : FileExtends before.root after.root
  segment : ∀ name, isSegmentName name = true →
    FileExtends (before.segmentFile name) (after.segmentFile name)

theorem FileExtends.refl (file : Option Bytes) : FileExtends file file :=
  ⟨id, List.prefix_rfl, List.prefix_rfl⟩

theorem FileExtends.trans {a b c : Option Bytes} (h1 : FileExtends a b) (h2 : FileExtends b c) :
    FileExtends a c :=
  ⟨fun h => h2.present (h1.present h), h1.bytes.trans h2.bytes, h1.lines.trans h2.lines⟩

theorem Extends.refl (files : ManifestFiles) : Extends files files :=
  ⟨.refl _, fun _ _ => .refl _⟩

theorem Extends.trans {a b c : ManifestFiles} (h1 : Extends a b) (h2 : Extends b c) : Extends a c :=
  ⟨h1.root.trans h2.root, fun name hn => (h1.segment name hn).trans (h2.segment name hn)⟩

theorem Quiet.extends {before after : ManifestFiles} (h : Quiet before after) :
    Extends before after := by
  constructor
  · rw [h.root]
    exact .refl _
  · intro name hn
    rw [h.file name (isSegmentName_ne hn).2]
    exact .refl _

theorem FileExtends.append {opts : ChainOptions} {file : Option Bytes} {lines : List JsString}
    {line : JsString} {last next : ChainState ν} (h : ChainFile opts file lines last)
    (h' : ChainFile opts (some (appendLine file line)) (lines ++ [line]) next) :
    FileExtends file (some (appendLine file line)) := by
  refine ⟨fun _ => rfl, List.prefix_append _ _, ?_⟩
  rw [h.linesOf, h'.linesOf]
  exact List.prefix_append _ _

theorem Extends.root_append {files : ManifestFiles} {file : Option Bytes}
    (h : FileExtends files.root file) : Extends files { files with root := file } :=
  ⟨h, fun _ _ => .refl _⟩

theorem Extends.segment_append {files : ManifestFiles} {name : JsString} {bytes : Bytes}
    (h : FileExtends (files.segmentFile name) (some bytes)) :
    Extends files (files.writeSegmentFile name bytes) := by
  refine ⟨.refl _, ?_⟩
  intro other _
  rw [segmentFile_writeSegmentFile]
  split_ifs with he
  · rw [he]
    exact h
  · exact .refl _

/-! ## Reading back -/

/-- The line stands in the root, or in the segment of that name. -/
def Recorded (files : ManifestFiles) (label line : JsString) : Prop :=
  (label = rootLabel ∧ line ∈ linesOf files.root) ∨
    (isSegmentName label = true ∧ (files.segmentFile label).isSome = true ∧
      line ∈ linesOf (files.segmentFile label))

theorem Recorded.extends {before after : ManifestFiles} {label line : JsString}
    (h : Recorded before label line) (he : Extends before after) : Recorded after label line := by
  rcases h with ⟨hl, hm⟩ | ⟨hn, hs, hm⟩
  · exact Or.inl ⟨hl, he.root.lines.subset hm⟩
  · exact Or.inr ⟨hn, (he.segment label hn).present hs, (he.segment label hn).lines.subset hm⟩

theorem mem_parseLenient {label : JsString} {raw : List (JsString × Nat)} {e : Json ν} :
    e ∈ (parseLenient label raw).entries ↔
      ∃ line ms, line ∈ raw.map Prod.fst ∧ parseJson line = some (.obj ms) ∧
        e = annotate label ms := by
  induction raw with
  | nil => simp [parseLenient]
  | cons p raw ih =>
    obtain ⟨line, lineNo⟩ := p
    rw [parseLenient]
    cases hp : parseJson (ν := ν) line with
    | none => simp [ih, hp]
    | some v =>
      cases v with
      | obj ms => simp [ih, hp]
      | _ => simp [ih, hp]

/-- The forest is read as the objects on its lines, each with the name of its chain. -/
theorem mem_readManifestForest [Unicode] {files : ManifestFiles} {e : Json ν} :
    e ∈ (readManifestForest files).entries ↔
      ∃ label line ms, Recorded files label line ∧ parseJson line = some (.obj ms) ∧
        e = annotate label ms := by
  simp only [readManifestForest, List.mem_append, List.mem_flatMap, List.mem_mergeSort, List.mem_map,
    mem_parseLenient, map_fst_readRawLines]
  constructor
  · rintro (⟨line, ms, hl, hp, rfl⟩ | ⟨s, ⟨p, ⟨name, hn, rfl⟩, rfl⟩, he⟩)
    · exact ⟨rootLabel, line, ms, Or.inl ⟨rfl, hl⟩, hp, rfl⟩
    · simp only [SegmentEntries.of, mem_parseLenient, map_fst_readRawLines] at he
      obtain ⟨line, ms, hl, hp, rfl⟩ := he
      obtain ⟨hs, hg⟩ := mem_discoverSegments.mp hn
      exact ⟨name, line, ms, Or.inr ⟨hg, hs, hl⟩, hp, rfl⟩
  · rintro ⟨label, line, ms, ⟨rfl, hl⟩ | ⟨hg, hs, hl⟩, hp, rfl⟩
    · exact Or.inl ⟨line, ms, hl, hp, rfl⟩
    · right
      have hn := (mem_discoverSegments (ν := ν)).mpr ⟨hs, hg⟩
      refine ⟨_, ⟨_, ⟨label, hn, rfl⟩, rfl⟩, ?_⟩
      simp only [SegmentEntries.of, mem_parseLenient, map_fst_readRawLines]
      exact ⟨line, ms, hl, hp, rfl⟩

/-! ## The payload of an entry -/

/-- The entry has the payload's fields, and of others only those of the writer. A field that is null
and has a default may differ. -/
def CarriesPayload (payload entry : Json ν) : Prop :=
  ∀ k, k ∉ reservedChainFields →
    (k ∉ defaultedFields ∨ ∃ v, payload.get? k = some v ∧ v ≠ .null) →
    entry.get? k = payload.get? k

/-- The entry a call wrote: it stands on a line of the manifest, with the fields of the payload. -/
structure Wrote (call : AppendCall ν) (files : ManifestFiles) (entry : Json ν) : Prop where
  wrote : ∃ label ms, entry = .obj ms ∧ (Json.obj ms).IsJson ∧
    Recorded files label (stringify (.obj ms)) ∧ CarriesPayload call.payload (annotate label ms)

theorem Written.carries {key : Option JsString} {payload extra ms : Members ν} {isoNow : JsString}
    {seq : ν} {prevRawLine : Option JsString} {label : JsString}
    (h : Written key (normalized payload isoNow) extra seq prevRawLine ms) :
    CarriesPayload (.obj payload) (annotate label ms) := by
  intro k hk hd
  have hne : ¬k = js "segment" := by
    rintro rfl
    exact hk (by decide)
  rw [annotate, Json.get?, Members.lookup_set, if_neg hne, h.rest k hk]
  exact lookup_normalized hd

/-! ## One step -/

theorem appendToRoot_step [Unicode] {key : Option JsString} {call : AppendCall ν}
    {payload : Members ν} {files files' : ManifestFiles} {entry : Json ν} (hg : Good ν key files)
    (hseg : isSegmentedRepo ν files = false) (hc : call.payload = .obj payload)
    (hj : (Json.obj payload).IsJson) (hu : Unreserved payload)
    (h : appendToRoot key call payload files = .ok (entry, files')) :
    Good ν key files' ∧ Extends files files' ∧ Wrote call files' entry := by
  obtain ⟨lines, last, hroot⟩ := hg.root
  obtain ⟨ms, seq, next, rfl, hw, rfl, hchain⟩ := appendToRoot_ok hroot hj hu h
  refine ⟨hg.writeRoot hseg hchain, .root_append (FileExtends.append hroot hchain), ?_⟩
  refine ⟨rootLabel, ms, rfl, hw.isJson, Or.inl ⟨rfl, ?_⟩, ?_⟩
  · rw [hchain.linesOf]
    exact List.mem_append_right _ List.mem_cons_self
  · rw [hc]
    exact hw.carries

/-- What stands in the file that a resolved segment names. -/
theorem resolved_file [Unicode] {key : Option JsString} {co : Checkout} {files files' : ManifestFiles}
    {resolved : OpenSegment ν} (hg : Good ν key files)
    (h : resolveOpenSegment co key files = .ok (resolved, files')) :
    Quiet files files' ∧ isSegmentName resolved.name = true ∧
      (∀ name anchor branch, resolved = .minted name anchor branch →
        AtRoot (linesOf files'.root) anchor) ∧
      ∃ (lines : List JsString) (last : ChainState ν),
        ChainFile ⟨key, true, true⟩ (files'.segmentFile resolved.name) lines last ∧
        (lines ≠ [] → ∃ anchor, last.firstAnchor = some anchor ∧
          AtRoot (linesOf files'.root) anchor) := by
  obtain ⟨rootLines, rootLast, hroot⟩ := hg.root
  have hq : Quiet files files' := by
    rcases resolveOpenSegment_ok h with ⟨_, _, -, rfl⟩ | ⟨_, _, -, rfl | ⟨bytes, rfl⟩⟩
    · exact .refl _
    · exact .refl _
    · exact quiet_lineage _ _
  have hg' := hg.quiet hq
  have hname : isSegmentName resolved.name = true := by
    rcases resolveOpenSegment_ok h with ⟨name, hm, rfl, -⟩ | ⟨name, hn, rfl, -⟩
    · exact (mem_discoverSegments.mp hm).2
    · exact hn
  refine ⟨hq, hname, ?_, ?_⟩
  · intro name anchor branch e
    rcases resolveOpenSegment_ok h with ⟨_, _, rfl, -⟩ | ⟨_, _, rfl, -⟩
    · cases e
    · rw [hq.root, hroot.linesOf]
      cases e
      exact rootAnchor_atRoot hroot
  · cases hf : files'.segmentFile resolved.name with
    | none => exact ⟨[], .init, ⟨rfl, by simp, rfl⟩, fun hne => absurd rfl hne⟩
    | some bytes =>
      obtain ⟨lines, last, anchor, hc, -, ha, hat⟩ := hg'.segments _ hname (by rw [hf]; rfl)
      rw [hf] at hc
      exact ⟨lines, last, hc, fun _ => ⟨anchor, ha, hat⟩⟩

theorem appendLockedEntry_step {key : Option JsString} {call : AppendCall ν} {payload : Members ν}
    {resolved : OpenSegment ν} {files files' : ManifestFiles} {lines : List JsString}
    {last : ChainState ν} {entry : Json ν} (hg : Good ν key files)
    (hseg : isSegmentedRepo ν files = true) (hname : isSegmentName resolved.name = true)
    (hminted : ∀ name anchor branch, resolved = .minted name anchor branch →
      AtRoot (linesOf files.root) anchor)
    (hfile : ChainFile ⟨key, true, true⟩ (files.segmentFile resolved.name) lines last)
    (hfirst : lines ≠ [] → ∃ anchor, last.firstAnchor = some anchor ∧
      AtRoot (linesOf files.root) anchor)
    (hc : call.payload = .obj payload) (hj : (Json.obj payload).IsJson) (hu : Unreserved payload)
    (h : appendLockedEntry key call payload resolved files = .ok (entry, files')) :
    Good ν key files' ∧ Extends files files' ∧ Wrote call files' entry := by
  obtain ⟨ms, seq, next, rfl, hw, rfl, hchain, hanchor, hexp⟩ := appendLockedEntry_ok hfile
    (fun name anchor branch e => (hminted name anchor branch e).isJson) hj hu h
  have hprev := hfile.chain.tail.1
  have hgood : SegmentGood ν key files.root
      (some (appendLine (files.segmentFile resolved.name) (stringify (.obj ms)))) := by
    by_cases he : lines = []
    · cases resolved with
      | existing name =>
        rw [expectLines, if_pos he] at hexp
        cases hexp
      | minted name anchor branch =>
        rw [hprev, he] at hanchor
        exact ⟨_, next, anchor, hchain, by simp, hanchor, hminted name anchor branch rfl⟩
    · obtain ⟨anchor, ha, hat⟩ := hfirst he
      have hn : last.prevRawLine.isNone = false := by
        rw [hprev, List.getLast?_eq_some_getLast he]
        rfl
      rw [hn] at hanchor
      exact ⟨_, next, anchor, hchain, by simp, hanchor.trans ha, hat⟩
  refine ⟨hg.writeSegment hname hseg hgood, .segment_append (FileExtends.append hfile hchain), ?_⟩
  refine ⟨resolved.name, ms, rfl, hw.isJson, Or.inr ⟨hname, ?_⟩, ?_⟩
  · rw [segmentFile_writeSegmentFile, if_pos rfl, hchain.linesOf]
    exact ⟨rfl, List.mem_append_right _ List.mem_cons_self⟩
  · rw [hc]
    exact hw.carries

theorem appendToSegment_step [Unicode] {key : Option JsString} {call : AppendCall ν}
    {payload : Members ν} {files : ManifestFiles} (hg : Good ν key files)
    (hseg : isSegmentedRepo ν files = true) (hc : call.payload = .obj payload)
    (hj : (Json.obj payload).IsJson) (hu : Unreserved payload) :
    Good ν key (appendToSegment key call payload files).2 ∧
      Extends files (appendToSegment key call payload files).2 ∧
      ∀ entry, (appendToSegment key call payload files).1 = .ok entry →
        Wrote call (appendToSegment key call payload files).2 entry := by
  have hq := quiet_withDirectory files
  have hg1 := hg.quiet hq
  have hs1 : isSegmentedRepo ν (withDirectory files) = true := by rw [hq.isSegmentedRepo, hseg]
  have refused : ∀ (e : TicketStoreError) (after : ManifestFiles), Quiet files after →
      Good ν key after ∧ Extends files after ∧
        ∀ entry, (Except.error e : Except TicketStoreError (Json ν)) = .ok entry →
          Wrote call after entry := by
    intro e after h
    exact ⟨hg.quiet h, h.extends, fun entry he => by cases he⟩
  unfold appendToSegment
  simp only
  cases verify (ν := ν) (withDirectory files) false false key with
  | error e => exact refused e _ hq
  | ok integrity =>
    by_cases hv : integrity.valid = false
    · simp only [if_pos hv]
      exact refused _ _ hq
    · simp only [if_neg hv]
      cases hr : resolveOpenSegment (ν := ν) call.checkout key (withDirectory files) with
      | error e => exact refused e _ hq
      | ok r =>
        obtain ⟨resolved, mid⟩ := r
        obtain ⟨hq2, hname, hminted, lines, last, hfile, hfirst⟩ := resolved_file hg1 hr
        simp only
        cases ha : appendLockedEntry key call payload resolved mid with
        | error e => exact refused e _ (hq.trans hq2)
        | ok r =>
          obtain ⟨entry, after⟩ := r
          obtain ⟨hgood, hext, hwrote⟩ := appendLockedEntry_step (hg1.quiet hq2)
            (by rw [hq2.isSegmentedRepo, hs1]) hname hminted hfile hfirst hc hj hu ha
          refine ⟨hgood, (hq.trans hq2).extends.trans hext, ?_⟩
          intro e he
          rw [← Except.ok.inj he]
          exact hwrote

omit [JsNumber ν] in
theorem unreserved_of_find {payload : Members ν}
    (h : (reservedChainFields.find? fun field => decide (field ∈ Members.keys payload)) = none) :
    Unreserved payload := by
  intro k hk
  have hx := List.find?_eq_none.mp h k hk
  rw [decide_eq_true_eq] at hx
  rw [List.lookup_eq_none_iff]
  intro p hp
  have hne : ¬k = p.1 := fun e => hx (e ▸ List.mem_map_of_mem hp)
  simpa using hne

/-- An append leaves a good forest whose files only grew, with the entry it returns among its
lines. -/
theorem appendManifestEntry_step [Unicode] {key : Option JsString} {call : AppendCall ν}
    {files : ManifestFiles} (hg : Good ν key files) (hj : call.payload.IsJson) :
    Good ν key (appendManifestEntry key call files).2 ∧
      Extends files (appendManifestEntry key call files).2 ∧
      ∀ entry, (appendManifestEntry key call files).1 = .ok entry →
        Wrote call (appendManifestEntry key call files).2 entry := by
  have refused : ∀ e : TicketStoreError, Good ν key files ∧ Extends files files ∧
      ∀ entry, (Except.error e : Except TicketStoreError (Json ν)) = .ok entry →
        Wrote call files entry :=
    fun e => ⟨hg, .refl _, fun entry he => by cases he⟩
  unfold appendManifestEntry
  by_cases hk : key = some []
  · rw [validateKeyParam, if_pos hk]
    exact refused _
  · rw [validateKeyParam, if_neg hk]
    cases hc : call.payload with
    | obj payload =>
      rw [hc] at hj
      simp only
      cases hf : reservedChainFields.find? fun field => decide (field ∈ Members.keys payload) with
      | some field => exact refused _
      | none =>
        have hu := unreserved_of_find hf
        cases hs : isSegmentedRepo ν files with
        | true => exact appendToSegment_step hg hs hc hj hu
        | false =>
          simp only [Bool.false_eq_true, if_false]
          cases ha : appendToRoot key call payload files with
          | error e => exact refused e
          | ok r =>
            obtain ⟨entry, after⟩ := r
            obtain ⟨hgood, hext, hwrote⟩ := appendToRoot_step hg hs hc hj hu ha
            refine ⟨hgood, hext, ?_⟩
            intro e he
            rw [← Except.ok.inj he]
            exact hwrote
    | _ => exact refused _

/-! ## Cutover and runs -/

inductive AuthMode where
  | keyed | keyless
  deriving DecidableEq

def AuthMode.text : AuthMode → JsString
  | .keyed => js "keyed"
  | .keyless => js "keyless"

/-- `{ ...MARKER, auth }` -/
def markerWithAuth (auth : AuthMode) : Json ν :=
  .obj [(js "format", .str markerFormat), (js "version", .num (JsNumber.ofNat 1)),
    (js "auth", .str auth.text)]

/-- The marker with which `enable` and the cutover ceremony switch a repository to segments. -/
def activate (ν : Type) [JsNumber ν] (auth : AuthMode) (files : ManifestFiles) : ManifestFiles :=
  files.writeSegmentFile storeMarker (utf8Encode (stringify (markerWithAuth auth : Json ν)))

theorem stringify_marker (auth : AuthMode) :
    stringify (markerWithAuth auth : Json ν) =
      js "\x7b\"format\":\"adlc-manifest-segments\",\"version\":1,\"auth\":\"" ++ auth.text ++ js "\"\x7d" := by
  have h1 := JsNumber.text_digit (ν := ν) 1 (by decide)
  have hf := JsNumber.finite_of_integer (ν := ν) _ (JsNumber.integer_ofNat 1 (by decide))
  cases auth <;>
    simp only [stringify, markerWithAuth, Json.write, writeMembers, h1, if_pos hf] <;>
    decide +kernel

theorem markerWithAuth_isJson (auth : AuthMode) : (markerWithAuth auth : Json ν).IsJson := by
  have hk : [js "format", js "version", js "auth"].Nodup := by decide
  have hp : [js "format", js "version", js "auth"].Pairwise fun a b => mustPrecede b a = false := by
    decide
  exact ⟨⟨hk, hp⟩, trivial, JsNumber.finite_of_integer _ (JsNumber.integer_ofNat 1 (by decide)),
    trivial, trivial⟩

/-- The marker is short enough to be read, and is recognized. -/
theorem activate_segmented (auth : AuthMode) (files : ManifestFiles) :
    isSegmentedRepo ν (activate ν auth files) = true := by
  have hfile : (activate ν auth files).segmentFile storeMarker =
      some (utf8Encode (stringify (markerWithAuth auth : Json ν))) := by
    rw [activate, segmentFile_writeSegmentFile, if_pos rfl]
  have hlen : ¬4096 ≤ (utf8Encode (stringify (markerWithAuth auth : Json ν))).length := by
    have hle := utf8Encode_length_le (stringify (markerWithAuth auth : Json ν))
    have hs : (stringify (markerWithAuth auth : Json ν)).length < 1000 := by
      rw [stringify_marker]
      cases auth <;> decide +kernel
    omega
  have hread : (readBoundedJson ((activate ν auth files).segmentFile storeMarker) : Json ν) =
      markerWithAuth auth := by
    have hw : wellFormed (stringify (markerWithAuth auth : Json ν)) = true :=
      (printable_stringify _).1
    rw [hfile, readBoundedJson, if_neg hlen, utf8Decode_encode_of_wellFormed _ hw,
      parseJson_stringify (markerWithAuth_isJson auth)]
    rfl
  have hm : hasActivationMarker ν (activate ν auth files) = true := by
    rw [hasActivationMarker, hread]
    have g1 : (markerWithAuth auth : Json ν).get? (js "format") = some (.str markerFormat) := rfl
    have g2 : (markerWithAuth auth : Json ν).get? (js "version") =
        some (.num (JsNumber.ofNat 1)) := rfl
    rw [g1, g2]
    simp [eqStr, eqNum]
  rw [isSegmentedRepo, hm]
  rfl

theorem activate_step {key : Option JsString} (auth : AuthMode) {files : ManifestFiles}
    (hg : Good ν key files) :
    Good ν key (activate ν auth files) ∧ Extends files (activate ν auth files) := by
  have hsame : ∀ name, isSegmentName name = true →
      (activate ν auth files).segmentFile name = files.segmentFile name := by
    intro name hn
    rw [activate, segmentFile_writeSegmentFile, if_neg (isSegmentName_ne hn).1]
  refine ⟨⟨segmentDir_writeSegmentFile _ (Or.inl rfl) hg.names, hg.root, ?_, ?_⟩, .refl _, ?_⟩
  · intro name hn hs
    rw [hsame name hn] at hs ⊢
    exact hg.segments name hn hs
  · intro _ _ _
    exact activate_segmented auth files
  · intro name hn
    rw [hsame name hn]
    exact .refl _

inductive Op (ν : Type) where
  | append (call : AppendCall ν)
  | activate (auth : AuthMode)

variable [Unicode]

def step (key : Option JsString) (files : ManifestFiles) : Op ν → ManifestFiles
  | .append call => (appendManifestEntry key call files).2
  | .activate auth => activate ν auth files

/-- The files after some operations on an empty repository. -/
def run (key : Option JsString) (ops : List (Op ν)) : ManifestFiles :=
  ops.foldl (step key) emptyRepository

/-- Every payload that is appended is a JSON value. -/
def JsonPayloads (ops : List (Op ν)) : Prop := ∀ call, Op.append call ∈ ops → call.payload.IsJson

theorem foldl_step_good {key : Option JsString} {ops : List (Op ν)} {files : ManifestFiles}
    (hg : Good ν key files) (hj : JsonPayloads ops) :
    Good ν key (ops.foldl (step key) files) ∧ Extends files (ops.foldl (step key) files) := by
  induction ops generalizing files with
  | nil => exact ⟨hg, .refl _⟩
  | cons op ops ih =>
    have hstep : Good ν key (step key files op) ∧ Extends files (step key files op) := by
      cases op with
      | append call =>
        obtain ⟨h1, h2, -⟩ := appendManifestEntry_step hg (hj call List.mem_cons_self)
        exact ⟨h1, h2⟩
      | activate auth => exact activate_step auth hg
    obtain ⟨h1, h2⟩ := ih hstep.1 fun call hm => hj call (List.mem_cons_of_mem _ hm)
    exact ⟨h1, hstep.2.trans h2⟩

theorem run_good {key : Option JsString} {ops : List (Op ν)} (hj : JsonPayloads ops) :
    Good ν key (run key ops) := (foldl_step_good (good_empty key) hj).1

theorem run_append_extends {key : Option JsString} {pre post : List (Op ν)}
    (hj : JsonPayloads (pre ++ post)) : Extends (run key pre) (run key (pre ++ post)) := by
  have hpre : JsonPayloads pre := fun call hm => hj call (List.mem_append_left _ hm)
  have hpost : JsonPayloads post := fun call hm => hj call (List.mem_append_right _ hm)
  have hgood : Good ν key (run key pre) := run_good hpre
  have h := (foldl_step_good hgood hpost).2
  rwa [run, run, List.foldl_append]

/-- The entry is among those the forest is read as, with the fields of the payload. -/
def ReadsBack (payload entry : Json ν) (files : ManifestFiles) : Prop :=
  ∃ label ms, entry = .obj ms ∧ annotate label ms ∈ (readManifestForest files).entries ∧
    CarriesPayload payload (annotate label ms)

def exampleCheckout : Checkout :=
  ⟨some (js "main\n"), .outside, js "2026-01-02T03:04:05.678Z", 0, List.replicate 10 0⟩

def nullGateCall : AppendCall Int := ⟨.obj [(js "gate", .null)], 2, exampleCheckout⟩

def nullGateEntry : Members Int :=
  [(js "seq", .num 1), (js "gate", .str (js "evidence")),
    (js "ts", .str (js "2026-01-02T03:04:05.678Z")), (js "files", .obj []), (js "prev", .null)]

omit [JsNumber ν] [Unicode] in
theorem nullGate_jsonPayloads : JsonPayloads [Op.append nullGateCall] := by
  intro call hc
  cases List.mem_singleton.mp hc
  exact ⟨⟨by decide, by decide⟩, trivial, trivial⟩

omit [JsNumber ν] [Unicode] in
theorem nullGateEntry_isJson : (Json.obj nullGateEntry).IsJson := by
  have hk : OrderedKeys nullGateEntry := ⟨by decide, by decide⟩
  exact ⟨hk, rfl, trivial, trivial, ⟨⟨List.nodup_nil, List.Pairwise.nil⟩, trivial⟩, trivial, trivial⟩

end Adlc.GateManifest
