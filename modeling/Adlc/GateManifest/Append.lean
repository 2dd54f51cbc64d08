import Adlc.GateManifest.Record

namespace Adlc.GateManifest

open Adlc.Framework Adlc.Tickets

variable {ν : Type} [JsNumber ν]

/-! ## The file of a chain -/

/-- A file whose lines form a chain, from its first byte to its last. -/
structure ChainFile (opts : ChainOptions) (file : Option Bytes) (lines : List JsString)
    (last : ChainState ν) : Prop where
  bytes : file.getD [] = utf8Encode (unlines lines)
  lineOk : ∀ line ∈ lines, LineOk line
  chain : AcceptsAll opts .init lines last

theorem ChainFile.linesOf {opts : ChainOptions} {file : Option Bytes} {lines : List JsString}
    {last : ChainState ν} (h : ChainFile opts file lines last) : linesOf file = lines := by
  have hr := rawLines_unlines h.lineOk
  have hb := h.bytes
  have hd := utf8Decode_encode_of_wellFormed _ (unlines_wellFormed h.lineOk)
  cases file with
  | none =>
    rw [Option.getD_none] at hb
    rw [← hb] at hd
    rw [← hd] at hr
    rw [← hr]
    rfl
  | some bytes =>
    rw [Option.getD_some] at hb
    rw [Tickets.linesOf, hb, hd, hr]

theorem ChainFile.append {opts : ChainOptions} {file : Option Bytes} {lines : List JsString}
    {last next : ChainState ν} {line : JsString} {ms : Members ν} (h : ChainFile opts file lines last)
    (hl : LineOk line) (ha : Accepts opts last line ms next) :
    ChainFile opts (some (appendLine file line)) (lines ++ [line]) next := by
  refine ⟨?_, ?_, h.chain.snoc ha⟩
  · have e : unlines [line] = line ++ [10] := by simp [unlines]
    rw [Option.getD_some, appendLine, h.bytes, unlines_append,
      utf8Encode_append (unlines_wellFormed h.lineOk), e]
  · intro l hm
    rcases List.mem_append.mp hm with hm | hm
    · exact h.lineOk l hm
    · rw [List.mem_singleton.mp hm]
      exact hl

/-- The tail of a chain: its last line and that line's entry. -/
theorem AcceptsAll.tail {opts : ChainOptions} {lines : List JsString} {last : ChainState ν}
    (h : AcceptsAll opts .init lines last) :
    last.prevRawLine = lines.getLast? ∧
      ∀ line ∈ lines.getLast?, ∃ ms : Members ν, parseJson line = some (.obj ms) ∧
        ms.lookup (js "seq") = some (.num last.prevSeq) ∧
        JsNumber.isInteger last.prevSeq = true ∧
        JsNumber.lt last.prevSeq (JsNumber.ofNat 1) = false := by
  induction lines using List.reverseRecOn with
  | nil =>
    rw [AcceptsAll] at h
    subst h
    exact ⟨rfl, by simp⟩
  | append_singleton lines line =>
    obtain ⟨mid, ms, -, ha⟩ := h.last
    rw [List.getLast?_concat]
    refine ⟨ha.line, ?_⟩
    intro l hl
    rw [← Option.some.inj hl]
    exact ⟨ms, ha.parsed, ha.seq, ha.integer, ha.positive⟩

theorem getLast?_parseLines {label : JsString} {raw : List (JsString × Nat)} {entries : List (Json ν)}
    (h : parseLines label raw = .ok entries) :
    entries.getLast? = (raw.map Prod.fst).getLast?.bind parseJson := by
  induction raw generalizing entries with
  | nil =>
    rw [parseLines, Except.ok.injEq] at h
    subst h
    rfl
  | cons p raw ih =>
    obtain ⟨line, lineNo⟩ := p
    rw [parseLines] at h
    cases hp : parseJson (ν := ν) line with
    | none =>
      rw [hp] at h
      cases h
    | some entry =>
      rw [hp] at h
      cases hr : parseLines (ν := ν) label raw with
      | error e =>
        rw [hr] at h
        cases h
      | ok rest =>
        rw [hr] at h
        rw [← Except.ok.inj h]
        have ih := ih hr
        cases raw with
        | nil =>
          rw [parseLines, Except.ok.injEq] at hr
          subst hr
          simp [hp]
        | cons q raw =>
          have hne : rest ≠ [] := by
            intro e
            subst e
            rw [parseLines] at hr
            split at hr
            · cases hr
            · rename_i entry' _
              cases hr' : parseLines (ν := ν) label raw with
              | error e =>
                rw [hr'] at hr
                cases hr
              | ok rest' =>
                rw [hr'] at hr
                cases hr
          rw [List.getLast?_cons_of_ne_nil hne, ih]
          simp

/-- The `seq` an append gives to its entry continues the chain. -/
theorem nextSeq_ok {opts : ChainOptions} {raw : List (JsString × Nat)} {last : ChainState ν}
    {entries : List (Json ν)} {label : JsString} {seq : ν}
    (h : AcceptsAll opts .init (raw.map Prod.fst) last) (hp : parseLines label raw = .ok entries)
    (hs : nextSeq entries label = .ok seq) :
    (seq = if last.prevRawLine.isNone then JsNumber.ofNat 1
      else JsNumber.add last.prevSeq (JsNumber.ofNat 1)) ∧
      JsNumber.isInteger seq = true ∧ JsNumber.lt seq (JsNumber.ofNat 1) = false := by
  obtain ⟨hprev, htail⟩ := h.tail
  have hl := getLast?_parseLines hp
  cases hg : (raw.map Prod.fst).getLast? with
  | none =>
    rw [hg, Option.bind_none] at hl
    rw [nextSeq, hl] at hs
    rw [hprev, hg, ← Except.ok.inj hs]
    have h1 := JsNumber.lt_ofNat (ν := ν) 1 1 (by decide) (by decide)
    exact ⟨rfl, JsNumber.integer_ofNat 1 (by decide), by rw [h1]; rfl⟩
  | some line =>
    obtain ⟨ms, hparse, hseq, hi, hpos⟩ := htail line hg
    rw [hg, Option.bind_some, hparse] at hl
    have hget : (Json.obj ms).get? (js "seq") = some (.num last.prevSeq) := hseq
    rw [nextSeq, hl] at hs
    simp only [truthy, if_true, hget, hi, hpos, Bool.not_false, Bool.and_self] at hs
    rw [hprev, hg, ← Except.ok.inj hs]
    exact ⟨rfl, JsNumber.integer_succ _ hi, JsNumber.succ_pos _ hi hpos⟩

/-- An entry the writer wrote is one the verifier takes. -/
theorem Written.accepts {key : Option JsString} {anchorOnFirst : Bool} {last : ChainState ν}
    {fields extra entry : Members ν} {seq : ν}
    (h : Written key fields extra seq last.prevRawLine entry)
    (hseq : seq = if last.prevRawLine.isNone then JsNumber.ofNat 1
      else JsNumber.add last.prevSeq (JsNumber.ofNat 1))
    (hi : JsNumber.isInteger seq = true) (hpos : JsNumber.lt seq (JsNumber.ofNat 1) = false)
    (ha : (extra.lookup (js "anchor")).isSome = (last.prevRawLine.isNone && anchorOnFirst)) :
    Accepts ⟨key, true, anchorOnFirst⟩ last (stringify (.obj entry)) entry
      ⟨some (stringify (.obj entry)), seq,
        if last.prevRawLine.isNone then entry.lookup (js "anchor") else last.firstAnchor,
        if key.isSome then true else last.seenSignedEntry⟩ := by
  refine ⟨parseJson_stringify h.isJson, h.seq, hi, hpos, h.prev, hseq, ?_, rfl, ?_, rfl⟩
  · rw [h.anchor, ha]
  · cases key with
    | none => rfl
    | some k => exact Or.inl ⟨h.sig k rfl, rfl⟩

/-! ## One append -/

omit [JsNumber ν] in
theorem Unreserved.normalized {payload : Members ν} (h : Unreserved payload) (isoNow : JsString) :
    Unreserved (normalized payload isoNow) := by
  intro k hk
  have hnot : k ∉ defaultedFields := by
    revert k
    decide
  rw [lookup_normalized (Or.inl hnot)]
  exact h k hk

theorem appendToRoot_ok [Unicode] {key : Option JsString} {call : AppendCall ν} {payload : Members ν}
    {files files' : ManifestFiles} {lines : List JsString} {last : ChainState ν} {entry : Json ν}
    (hroot : ChainFile ⟨key, true, false⟩ files.root lines last) (hj : (Json.obj payload).IsJson)
    (hu : Unreserved payload) (h : appendToRoot key call payload files = .ok (entry, files')) :
    ∃ (ms : Members ν) (seq : ν) (next : ChainState ν), entry = .obj ms ∧
      Written key (normalized payload call.checkout.isoNow) [] seq last.prevRawLine ms ∧
      files' = { files with root := some (appendLine files.root (stringify entry)) } ∧
      ChainFile ⟨key, true, false⟩ files'.root (lines ++ [stringify entry]) next := by
  have hraw : (readRawLines files.root).map Prod.fst = lines := by
    rw [map_fst_readRawLines, hroot.linesOf]
  have hchain := hroot.chain
  rw [← hraw] at hchain
  unfold appendToRoot at h
  obtain ⟨entries, hp, h⟩ := bind_eq_ok.mp h
  obtain ⟨_, -, h⟩ := bind_eq_ok.mp h
  obtain ⟨seq, hs, h⟩ := bind_eq_ok.mp h
  obtain ⟨ms, hsign, h⟩ := bind_eq_ok.mp h
  obtain ⟨rfl, rfl⟩ := Prod.mk.inj (Except.ok.inj h)
  obtain ⟨hseq, hi, hpos⟩ := nextSeq_ok hchain hp hs
  rw [hraw, ← hroot.chain.tail.1] at hsign
  have hw : Written key (normalized payload call.checkout.isoNow) [] seq last.prevRawLine ms := by
    have hall : (Json.obj ((normalized payload call.checkout.isoNow).setAll [])).IsJson :=
      normalized_isJson hj _
    have hx : ∀ k, ([] : Members ν).lookup k ≠ none → k = js "anchor" ∨ k = js "branch" :=
      fun k hk => absurd rfl hk
    exact sign_written (hu.normalized _) hall List.nodup_nil hx (JsNumber.finite_of_integer _ hi)
      hsign
  have hnone : (([] : Members ν).lookup (js "anchor")).isSome =
      (last.prevRawLine.isNone && false) := by simp
  have ha := hw.accepts hseq hi hpos hnone
  exact ⟨ms, seq, _, rfl, hw, rfl, hroot.append (lineOk_stringify _) ha⟩

theorem AtRoot.isJson {lines : List JsString} {anchor : Json ν} (h : AtRoot lines anchor) :
    anchor.IsJson := by
  cases h with
  | rootless => exact trivial
  | last line entry seq hl hp hs hi hpos =>
    have hkeys : OrderedKeys ([(js "segment", .str rootLabel), (js "seq", .num seq),
        (js "lineHash", .str (sha256 line))] : Members ν) := by
      constructor
      · have hd : [js "segment", js "seq", js "lineHash"].Nodup := by decide
        exact hd
      · have hd : [js "segment", js "seq", js "lineHash"].Pairwise
          fun a b => mustPrecede b a = false := by decide
        exact hd
    exact ⟨hkeys, trivial, JsNumber.finite_of_integer _ hi, trivial, trivial⟩

theorem rootAnchor_atRoot {key : Option JsString} {root : Option Bytes} {lines : List JsString}
    {last : ChainState ν} (h : ChainFile ⟨key, true, false⟩ root lines last) :
    AtRoot lines (rootAnchor root : Json ν) := by
  have htail := h.chain.tail.2
  rw [rootAnchor, h.linesOf]
  cases hg : lines.getLast? with
  | none => exact .rootless (List.getLast?_eq_none_iff.mp hg)
  | some line =>
    obtain ⟨ms, hp, hs, hi, hpos⟩ := htail line hg
    have hget : (Json.obj ms).get? (js "seq") = some (.num last.prevSeq) := hs
    simp only [hp, truthy, if_true, hget]
    exact .last line (.obj ms) last.prevSeq hg hp hget hi hpos

omit [JsNumber ν] in
/-- What the fields of a first entry are. -/
theorem mintedFields_spec (resolved : OpenSegment ν) :
    (Members.keys (mintedFields resolved)).Nodup ∧
      ∀ k, (mintedFields resolved).lookup k ≠ none → k = js "anchor" ∨ k = js "branch" := by
  cases resolved with
  | existing name => exact ⟨List.nodup_nil, fun k hk => absurd rfl hk⟩
  | minted name anchor branch =>
    cases branch with
    | none =>
      refine ⟨by simp [mintedFields, Members.keys], ?_⟩
      intro k hk
      by_contra hc
      rw [not_or] at hc
      exact hk (by simp [mintedFields, List.lookup_cons, beq_eq_false_iff_ne.mpr hc.1])
    | some branch =>
      refine ⟨?_, ?_⟩
      · have hd : [js "anchor", js "branch"].Nodup := by decide
        exact hd
      · intro k hk
        by_contra hc
        rw [not_or] at hc
        exact hk (by simp [mintedFields, List.lookup_cons, beq_eq_false_iff_ne.mpr hc.1,
          beq_eq_false_iff_ne.mpr hc.2])

theorem mintedFields_isJson {resolved : OpenSegment ν}
    (h : ∀ name anchor branch, resolved = .minted name anchor branch → anchor.IsJson) :
    ∀ p ∈ mintedFields resolved, p.2.IsJson := by
  intro p hp
  cases resolved with
  | existing name => cases hp
  | minted name anchor branch =>
    rcases List.mem_cons.mp hp with rfl | hp
    · exact h name anchor branch rfl
    · cases branch with
      | none => cases hp
      | some b =>
        rw [List.mem_singleton.mp hp]
        exact trivial

theorem appendLockedEntry_ok {key : Option JsString} {call : AppendCall ν} {payload : Members ν}
    {resolved : OpenSegment ν} {files files' : ManifestFiles} {lines : List JsString}
    {last : ChainState ν} {entry : Json ν}
    (hfile : ChainFile ⟨key, true, true⟩ (files.segmentFile resolved.name) lines last)
    (hanchor : ∀ name anchor branch, resolved = .minted name anchor branch → anchor.IsJson)
    (hj : (Json.obj payload).IsJson) (hu : Unreserved payload)
    (h : appendLockedEntry key call payload resolved files = .ok (entry, files')) :
    ∃ (ms : Members ν) (seq : ν) (next : ChainState ν), entry = .obj ms ∧
      Written key (normalized payload call.checkout.isoNow) (mintedFields resolved) seq
        last.prevRawLine ms ∧
      files' = files.writeSegmentFile resolved.name
        (appendLine (files.segmentFile resolved.name) (stringify entry)) ∧
      ChainFile ⟨key, true, true⟩
        (some (appendLine (files.segmentFile resolved.name) (stringify entry)))
        (lines ++ [stringify entry]) next ∧
      (next.firstAnchor = if last.prevRawLine.isNone then (mintedFields resolved).lookup (js "anchor")
        else last.firstAnchor) ∧
      expectLines resolved lines = .ok () := by
  have hl := hfile.linesOf
  have hprev := hfile.chain.tail.1
  unfold appendLockedEntry at h
  simp only [hl] at h
  obtain ⟨_, hexp, h⟩ := bind_eq_ok.mp h
  obtain ⟨entries, hp, h⟩ := bind_eq_ok.mp h
  obtain ⟨seq, hs, h⟩ := bind_eq_ok.mp h
  obtain ⟨ms, hsign, h⟩ := bind_eq_ok.mp h
  obtain ⟨rfl, rfl⟩ := Prod.mk.inj (Except.ok.inj h)
  have hchain := hfile.chain
  rw [← List.zipIdx_map_fst 1 lines] at hchain
  obtain ⟨hseq, hi, hpos⟩ := nextSeq_ok hchain hp hs
  rw [← hprev] at hsign
  obtain ⟨hn, hx⟩ := mintedFields_spec resolved
  have hall := (normalized_isJson hj call.checkout.isoNow).setAll (mintedFields_isJson hanchor)
  have hw : Written key (normalized payload call.checkout.isoNow) (mintedFields resolved) seq
      last.prevRawLine ms :=
    sign_written (hu.normalized _) hall hn hx (JsNumber.finite_of_integer _ hi) hsign
  have ha : ((mintedFields resolved).lookup (js "anchor")).isSome =
      (last.prevRawLine.isNone && true) := by
    rw [hprev]
    cases resolved with
    | existing name =>
      rw [expectLines] at hexp
      split_ifs at hexp with he
      have hne := List.getLast?_isSome.mpr he
      cases hg : lines.getLast? with
      | none =>
        rw [hg] at hne
        cases hne
      | some line => rfl
    | minted name anchor branch =>
      rw [expectLines] at hexp
      split_ifs at hexp with he
      rw [he]
      rfl
  refine ⟨ms, seq, _, rfl, hw, rfl, hfile.append (lineOk_stringify _) (hw.accepts hseq hi hpos ha), ?_,
    hexp⟩
  rw [hw.anchor]

end Adlc.GateManifest
