import Adlc.GateManifest.Runs
import Adlc.GateManifest.Framing

namespace Adlc.GateManifest

open Adlc.Framework Adlc.Tickets

variable {ν : Type} [JsNumber ν]

/-! ## The entry of a ticket's evidence -/

/-- What is recorded is made of JSON values. -/
structure JsonEvidence (e : Evidence ν) : Prop where
  ticketId : e.ticketId.IsJson
  fields : ∀ p ∈ e.fields, ∀ v ∈ p.2, v.IsJson

/-- The fields of `data`, in the order in which they are made. -/
def dataNames : List JsString :=
  [js "operation", js "action", js "transactionId", js "revision", js "ticketHash", js "storeHash",
    js "archiveHash", js "bindingScope", js "op", js "ticketId", js "ticketIds",
    js "storeHashBefore", js "storeHashAfter", js "bypass"]

theorem fields_sublist (e : Evidence ν) : (e.fields.map Prod.fst).Sublist dataNames := by
  unfold Evidence.fields Evidence.auditFields
  split_ifs <;> simp only [List.map_cons, List.map_nil, List.cons_append, List.nil_append,
    List.append_nil] <;> decide

omit [JsNumber ν] in
theorem orderedKeys_sublist {ms : Members ν} {names : List JsString} (h : ms.keys.Sublist names)
    (hn : names.Nodup ∧ names.Pairwise fun a b => mustPrecede b a = false) : OrderedKeys ms :=
  ⟨hn.1.sublist h, hn.2.sublist h⟩

omit [JsNumber ν] in
theorem keys_definedFields (fields : List (JsString × Option (Json ν))) :
    (Members.keys (definedFields fields)).Sublist (fields.map Prod.fst) := by
  induction fields with
  | nil => exact List.Sublist.slnil
  | cons p fields ih =>
    obtain ⟨k, v⟩ := p
    cases v with
    | none => exact ih.cons k
    | some v => exact ih.cons_cons k

theorem data_isJson {e : Evidence ν} (h : JsonEvidence e) : e.data.IsJson := by
  have hnames : dataNames.Nodup ∧ dataNames.Pairwise fun a b => mustPrecede b a = false := by
    decide
  refine ⟨orderedKeys_sublist ((keys_definedFields _).trans (fields_sublist e)) hnames, ?_⟩
  rw [membersIsJson_iff]
  intro p hp
  obtain ⟨⟨k, v⟩, hq, hv⟩ := List.mem_filterMap.1 hp
  cases v with
  | none => cases hv
  | some v =>
    obtain rfl := Option.some.inj hv
    exact h.fields _ hq v rfl

omit [JsNumber ν] in
theorem lookup_definedFields {fields : List (JsString × Option (Json ν))}
    (hn : (fields.map Prod.fst).Nodup) {k : JsString} {v : Option (Json ν)} (h : (k, v) ∈ fields) :
    (definedFields fields).lookup k = v := by
  induction fields with
  | nil => cases h
  | cons p fields ih =>
    rw [List.map_cons, List.nodup_cons] at hn
    rcases List.mem_cons.1 h with rfl | hrest
    · cases v with
      | none =>
        rw [List.lookup_eq_none_iff]
        intro q hq
        have hmem := (keys_definedFields fields).subset (List.mem_map_of_mem hq)
        have hne : ¬k = q.1 := fun he => hn.1 (he ▸ hmem)
        simpa using hne
      | some v => simp [definedFields]
    · obtain ⟨k', v'⟩ := p
      have hne : ¬k = k' := by
        rintro rfl
        exact hn.1 (List.mem_map.2 ⟨_, hrest, rfl⟩)
      have htail := ih hn.2 hrest
      cases v' with
      | none => exact htail
      | some v' =>
        show ((k', v') :: definedFields fields).lookup k = v
        rw [List.lookup_cons, beq_eq_false_iff_ne.2 hne]
        exact htail

omit [JsNumber ν] in
theorem lookup_definedFields_none {fields : List (JsString × Option (Json ν))} {k : JsString}
    (h : k ∉ fields.map Prod.fst) : (definedFields fields).lookup k = none := by
  rw [List.lookup_eq_none_iff]
  intro q hq
  have hmem := (keys_definedFields fields).subset (List.mem_map_of_mem hq)
  have hne : ¬k = q.1 := fun he => h (he ▸ hmem)
  simpa using hne

/-- The fields of the entry that are the caller's. -/
def ownFields (e : Evidence ν) (isoNow : JsString) : Members ν :=
  [(js "gate", .str e.gate), (js "ts", .str isoNow)] ++
    (if truthy e.ticketId then [(js "ticket", e.ticketId)] else []) ++
    [(js "data", e.data), (js "files", .obj [])]

section Written

variable {key : Option JsString} {e : Evidence ν} {isoNow : JsString} {seq : ν}
  {resolved : OpenSegment ν} {prevRawLine : Option JsString} {ms : Members ν}

def entryNames : List JsString :=
  [js "seq", js "anchor", js "branch", js "gate", js "ts", js "ticket", js "data", js "files",
    js "prev"]

theorem entryNames_ordered :
    entryNames.Nodup ∧ entryNames.Pairwise fun a b => mustPrecede b a = false := by decide

omit [JsNumber ν] in
theorem mintedFields_eq (resolved : OpenSegment ν) : resolved.carries = mintedFields resolved := by
  cases resolved <;> rfl

theorem evidenceEntry_keys :
    (Members.keys (evidenceEntry e isoNow seq resolved.carries prevRawLine)).Sublist entryNames := by
  have hminted : resolved.carries = [] ∨ (∃ a, resolved.carries = [(js "anchor", a)]) ∨
      ∃ a b, resolved.carries = [(js "anchor", a), (js "branch", b)] := by
    cases resolved with
    | existing name => exact .inl rfl
    | minted name anchor branch =>
      cases branch with
      | none => exact .inr (.inl ⟨anchor, rfl⟩)
      | some b => exact .inr (.inr ⟨anchor, .str b, rfl⟩)
  unfold evidenceEntry Members.keys
  rcases hminted with h | ⟨a, h⟩ | ⟨a, b, h⟩ <;> rw [h] <;> split_ifs <;>
    simp only [List.map_cons, List.map_nil, List.cons_append, List.nil_append, List.append_nil] <;>
    decide

theorem evidenceEntry_isJson (he : JsonEvidence e) (hs : JsNumber.isFinite seq = true)
    (ha : ∀ name anchor branch, resolved = .minted name anchor branch → anchor.IsJson) :
    (Json.obj (evidenceEntry e isoNow seq resolved.carries prevRawLine)).IsJson := by
  refine ⟨orderedKeys_sublist evidenceEntry_keys entryNames_ordered, ?_⟩
  rw [membersIsJson_iff]
  have hminted := mintedFields_isJson ha
  rw [← mintedFields_eq] at hminted
  intro p hp
  simp only [evidenceEntry, List.mem_append, List.mem_cons, List.not_mem_nil, or_false] at hp
  rcases hp with (((rfl | hp) | (rfl | rfl)) | hp) | (rfl | rfl | rfl)
  · exact hs
  · exact hminted p hp
  · exact trivial
  · exact trivial
  · split_ifs at hp
    · rw [List.mem_singleton.1 hp]
      exact he.ticketId
    · cases hp
  · exact data_isJson he
  · exact ⟨⟨List.nodup_nil, List.Pairwise.nil⟩, trivial⟩
  · cases prevRawLine <;> exact trivial

theorem evidenceEntry_eq (minted : Members ν) : evidenceEntry e isoNow seq minted prevRawLine =
    [(js "seq", .num seq)] ++ (minted ++ (ownFields e isoNow ++
      [(js "prev", prevRawLine.elim .null fun line => .str (sha256 line))])) := by
  simp [evidenceEntry, ownFields]

theorem lookup_ownFields {k : JsString} (h : k ∈ reservedChainFields) :
    (ownFields e isoNow).lookup k = none := by
  rw [List.lookup_eq_none_iff]
  intro p hp
  have hmem : p.1 ∈ [js "gate", js "ts", js "ticket", js "data", js "files"] := by
    unfold ownFields at hp
    split_ifs at hp <;> simp only [List.cons_append, List.nil_append, List.mem_cons,
      List.not_mem_nil, or_false] at hp
    · rcases hp with rfl | rfl | rfl | rfl | rfl <;> simp
    · rcases hp with rfl | rfl | rfl | rfl <;> simp
  have hdisjoint : ∀ a ∈ reservedChainFields,
      a ∉ [js "gate", js "ts", js "ticket", js "data", js "files"] := by decide
  have hne : ¬k = p.1 := fun he => hdisjoint k h (he ▸ hmem)
  simpa using hne

omit [JsNumber ν] in
theorem set_last {ms : Members ν} {k : JsString} {names : List JsString}
    (h : ms.keys.Sublist names) (hk : k ∉ names) (hidx : arrayIndex? k = none) (v : Json ν) :
    ms.set k v = ms ++ [(k, v)] := by
  apply Members.set_append (fun hm => hk (h.subset hm))
  intro a _
  rw [mustPrecede, hidx]

theorem signEntry_v1 {k : JsString} (h : isV2 (Json.obj ms) = false) :
    signEntry k (.obj ms) = .ok (signV1 k (.obj ms)) := by
  have hbytes : canonicalEntryBytes (Json.obj ms) = .ok (stringify (v1Object (.obj ms))) := by
    rw [canonicalEntryBytes, h]
    · rfl
    · intro hnull
      cases hnull
  rw [signEntry, hbytes]
  rfl

theorem signEntry_v2 {k : JsString} (h : isV2 (Json.obj ms) = true) :
    signEntry k (.obj ms) = (canonicalJson (signedFields (.obj ms))).map
      fun text => hmacSha256Hex (utf8Encode k) (utf8Encode text) := by
  have hbytes : canonicalEntryBytes (Json.obj ms) = canonicalJson (signedFields (.obj ms)) := by
    rw [canonicalEntryBytes, h]
    · rfl
    · intro hnull
      cases hnull
  rw [signEntry, hbytes]

theorem isV2_entry {entry : Members ν} (h : entry.keys.Sublist entryNames) :
    isV2 (.obj entry) = false := by
  have hnone : entry.lookup (js "sigVersion") = none := by
    rw [List.lookup_eq_none_iff]
    intro p hp
    have hmem := h.subset (List.mem_map_of_mem hp)
    have hnot : js "sigVersion" ∉ entryNames := by decide
    have hne : ¬js "sigVersion" = p.1 := fun he => hnot (he ▸ hmem)
    simpa using hne
  rw [isV2, Json.get?, hnone]
  rfl

/-- Signing the entry is what the gate manifest's writer does. -/
theorem signEvidence_eq_sign {isNew : Bool} {entry : Members ν}
    (hkeys : entry.keys.Sublist entryNames) (h : signEvidence key e isNew entry = .ok ms) :
    sign key (if isNew then 2 else 1) entry = .ok ms := by
  cases key with
  | none => exact h
  | some k =>
    unfold signEvidence at h
    unfold sign
    cases isNew with
    | false =>
      obtain rfl := Except.ok.inj h
      have hone : ¬(if false = true then 2 else 1 : Nat) = 2 := by decide
      simp only [if_neg hone, signEntry_v1 (isV2_entry hkeys), Except.map]
      rw [set_last hkeys (by decide) (by decide)]
    | true =>
      simp only [if_true] at h ⊢
      have hset : entry.set (js "sigVersion") (.num (JsNumber.ofNat 2)) =
          entry ++ [(js "sigVersion", .num (JsNumber.ofNat 2))] :=
        set_last hkeys (by decide) (by decide) _
      rw [hset]
      have hv2 : isV2 (.obj (entry ++ [(js "sigVersion", .num (JsNumber.ofNat 2))])) = true := by
        rw [← hset, isV2, Json.get?, Members.lookup_set, if_pos rfl]
        simp [eqNum]
      have hsublist : (Members.keys (entry ++ [(js "sigVersion",
          (Json.num (JsNumber.ofNat 2) : Json ν))])).Sublist (entryNames ++ [js "sigVersion"]) := by
        rw [Members.keys, List.map_append]
        exact hkeys.append_right _
      have hsig : ∀ v : Json ν,
          Members.set (entry ++ [(js "sigVersion", Json.num (JsNumber.ofNat 2))]) (js "sig") v =
            (entry ++ [(js "sigVersion", Json.num (JsNumber.ofNat 2))]) ++ [(js "sig", v)] :=
        set_last hsublist (by decide) (by decide)
      obtain ⟨sig, hsign, rfl⟩ := map_eq_ok.1 h
      unfold signV2 at hsign
      split at hsign
      · cases hsign
      · rw [signEntry_v2 hv2, hsign]
        simp only [Except.map, hsig]

omit [JsNumber ν] in
theorem lookup_single (k k' : JsString) (v : Json ν) :
    [(k', v)].lookup k = if k = k' then some v else none := by
  by_cases h : k = k'
  · simp [h]
  · simp [List.lookup_cons, h, beq_eq_false_iff_ne.2 h]

/-- What is recorded is an entry as the gate manifest's writer makes them. -/
theorem evidence_written (he : JsonEvidence e) (hs : JsNumber.isFinite seq = true)
    (ha : ∀ name anchor branch, resolved = .minted name anchor branch → anchor.IsJson)
    (h : signEvidence key e resolved.isNew
      (evidenceEntry e isoNow seq resolved.carries prevRawLine) = .ok ms) :
    Written key (ownFields e isoNow) (mintedFields resolved) seq prevRawLine ms := by
  have hjson : (Json.obj (evidenceEntry e isoNow seq resolved.carries prevRawLine)).IsJson :=
    evidenceEntry_isJson he hs ha
  have hsign := signEvidence_eq_sign evidenceEntry_keys h
  have hget : ∀ k, (evidenceEntry e isoNow seq resolved.carries prevRawLine).lookup k =
      (if k = js "seq" then some (.num seq) else none).or
        (((mintedFields resolved).lookup k).or (((ownFields e isoNow).lookup k).or
          (if k = js "prev" then
            some (prevRawLine.elim .null fun line => .str (sha256 line)) else none))) := by
    intro k
    rw [evidenceEntry_eq, mintedFields_eq, List.lookup_append, List.lookup_append,
      List.lookup_append, lookup_single, lookup_single]
  obtain ⟨-, hx⟩ := mintedFields_spec resolved
  have hminted : ∀ k, k ≠ js "anchor" → k ≠ js "branch" → (mintedFields resolved).lookup k = none := by
    intro k h1 h2
    by_contra hk
    rcases hx k hk with hk | hk
    · exact h1 hk
    · exact h2 hk
  have h0 : (evidenceEntry e isoNow seq resolved.carries prevRawLine).lookup (js "sig") = none := by
    rw [hget, hminted _ (by decide) (by decide), lookup_ownFields (by decide)]
    rfl
  obtain ⟨hj, hl, hsig⟩ := sign_ok hjson h0 hsign
  refine ⟨hj, ?_, ?_, ?_, hsig, ?_⟩
  · rw [hl _ (by decide) (by decide), hget, if_pos rfl]
    rfl
  · rw [hl _ (by decide) (by decide), hget, hminted _ (by decide) (by decide),
      lookup_ownFields (by decide), if_pos rfl, if_neg (by decide)]
    cases prevRawLine with
    | none => rfl
    | some line => simp [linksTo, eqStr]
  · rw [hl _ (by decide) (by decide), hget, lookup_ownFields (by decide), if_neg (by decide),
      if_neg (by decide)]
    simp
  · intro k hk
    simp only [reservedChainFields, List.mem_cons, List.not_mem_nil, or_false, not_or] at hk
    obtain ⟨k1, k2, k3, k4, k5, k6, k7⟩ := hk
    rw [hl k k4 k3, hget, hminted k k6 k7, if_neg k1, if_neg k2]
    simp

end Written

/-! ## Where the entry goes -/

/-- The lines of the chain of that name. -/
def linesIn (files : ManifestFiles) (label : JsString) : List JsString :=
  if label = rootLabel then linesOf files.root
  else if isSegmentName label then linesOf (files.segmentFile label) else []

/-- One line more in one chain, and no other change of a line. -/
structure OneMore (before after : ManifestFiles) (label line : JsString) : Prop where
  named : label = rootLabel ∨ isSegmentName label = true
  own : linesIn after label = linesIn before label ++ [line]
  others : ∀ l, l ≠ label → linesIn after l = linesIn before l

theorem Quiet.linesIn {before after : ManifestFiles} (h : Quiet before after) (label : JsString) :
    linesIn after label = linesIn before label := by
  unfold GateManifest.linesIn
  split_ifs with hroot hseg
  · rw [h.root]
  · rw [h.file label (isSegmentName_ne hseg).2]
  · rfl

theorem isSegmentName_rootLabel : isSegmentName rootLabel = false := by decide

theorem isSegmentName_ne_root {name : JsString} (h : isSegmentName name = true) :
    name ≠ rootLabel := by
  rintro rfl
  rw [isSegmentName_rootLabel] at h
  cases h

theorem oneMore_root {files : ManifestFiles} {bytes : Bytes} {line : JsString}
    (h : linesOf (some bytes) = linesOf files.root ++ [line]) :
    OneMore files { files with root := some bytes } rootLabel line := by
  refine ⟨.inl rfl, ?_, ?_⟩
  · rw [linesIn, linesIn, if_pos rfl, if_pos rfl, h]
  · intro l hl
    rw [linesIn, linesIn, if_neg hl, if_neg hl]
    rfl

theorem oneMore_segment {files : ManifestFiles} {name : JsString} {bytes : Bytes} {line : JsString}
    (hname : isSegmentName name = true)
    (h : linesOf (some bytes) = linesOf (files.segmentFile name) ++ [line]) :
    OneMore files (files.writeSegmentFile name bytes) name line := by
  have hne := isSegmentName_ne_root hname
  refine ⟨.inr hname, ?_, ?_⟩
  · rw [linesIn, linesIn, if_neg hne, if_neg hne, if_pos hname, if_pos hname,
      segmentFile_writeSegmentFile, if_pos rfl, h]
  · intro l hl
    unfold linesIn
    rw [segmentFile_writeSegmentFile, if_neg hl]
    rfl

/-- The number after the chain's last entry. -/
theorem seqAfter_ok {opts : ChainOptions} {lines : List JsString} {last : ChainState ν}
    (h : AcceptsAll opts .init lines last) {seq : ν}
    (hs : seq = seqAfter (lines.getLast?.bind parseJson)) :
    (seq = if last.prevRawLine.isNone then JsNumber.ofNat 1
      else JsNumber.add last.prevSeq (JsNumber.ofNat 1)) ∧
      JsNumber.isInteger seq = true ∧ JsNumber.lt seq (JsNumber.ofNat 1) = false := by
  obtain ⟨hprev, htail⟩ := h.tail
  cases hg : lines.getLast? with
  | none =>
    rw [hg] at hs
    subst hs
    rw [hprev, hg]
    have h1 := JsNumber.lt_ofNat (ν := ν) 1 1 (by decide) (by decide)
    exact ⟨rfl, JsNumber.integer_ofNat 1 (by decide), by simpa [seqAfter] using h1⟩
  | some line =>
    obtain ⟨ms, hparse, hseq, hi, hpos⟩ := htail line hg
    have hget : (Json.obj ms).get? (js "seq") = some (.num last.prevSeq) := hseq
    rw [hg, Option.bind_some, hparse, seqAfter, Option.bind_some, hget] at hs
    subst hs
    rw [hprev, hg]
    exact ⟨rfl, JsNumber.integer_succ _ hi, JsNumber.succ_pos _ hi hpos⟩

theorem lastParsed_ok {name : JsString} {first : Option (Json ν)} {lines : List JsString}
    {previous : Option (Json ν)} (h : lastParsed name first lines = .ok previous) :
    previous = (lines.getLast?.bind parseJson).or (if lines = [] then first else none) := by
  induction lines generalizing first with
  | nil =>
    obtain rfl := Except.ok.inj h
    rfl
  | cons line lines ih =>
    rw [lastParsed] at h
    cases hp : parseJson (ν := ν) line with
    | none =>
      rw [hp] at h
      cases h
    | some entry =>
      rw [hp] at h
      have hrest := ih h
      cases lines with
      | nil =>
        rw [hrest, List.getLast?_singleton, Option.bind_some, hp]
        rfl
      | cons l lines =>
        rw [hrest, List.getLast?_cons_cons]
        simp

/-! ## One call -/

theorem examineEntry_some {key : Option JsString} {e : Evidence ν} {entry found : Json ν}
    (h : examineEntry key e entry = .ok (some found)) : found = entry := by
  unfold examineEntry at h
  split at h
  · cases h
  · split_ifs at h
    · split at h
      · cases h
      · cases h
      · split at h
        · cases h
        · cases h
        · exact (Option.some.inj (Except.ok.inj h)).symm
    · cases h

theorem findMatchingEvidence_ok {key : Option JsString} {e : Evidence ν} {entries : List (Json ν)}
    {found : Option (Json ν)} (h : findMatchingEvidence key e entries = .ok found) :
    (found = none ∧ ∀ entry ∈ entries, examineEntry key e entry = .ok none) ∨
      ∃ entry ∈ entries, found = some entry ∧ examineEntry key e entry = .ok (some entry) := by
  induction entries with
  | nil =>
    obtain rfl := Except.ok.inj h
    exact .inl ⟨rfl, by simp⟩
  | cons entry entries ih =>
    rw [findMatchingEvidence] at h
    cases hx : examineEntry key e entry with
    | error err =>
      rw [hx] at h
      cases h
    | ok result =>
      rw [hx] at h
      cases result with
      | some x =>
        obtain rfl := examineEntry_some hx
        obtain rfl := Except.ok.inj h
        exact .inr ⟨x, List.mem_cons_self, rfl, hx⟩
      | none =>
        rcases ih h with ⟨rfl, hall⟩ | ⟨x, hmem, hfound, hexamine⟩
        · refine .inl ⟨rfl, ?_⟩
          intro y hy
          rcases List.mem_cons.1 hy with rfl | hy
          · exact hx
          · exact hall y hy
        · exact .inr ⟨x, List.mem_cons_of_mem _ hmem, hfound, hexamine⟩

theorem findRootEvidence_ok {key : Option JsString} {e : Evidence ν} {lines : List JsString}
    {found : Option (Json ν)} (h : findRootEvidence key e lines = .ok found) :
    (found = none ∧ ∀ line ∈ lines, ∃ entry, parseJson line = some entry ∧
      examineEntry key e entry = .ok none) ∨
      ∃ line ∈ lines, ∃ entry, parseJson line = some entry ∧ found = some entry ∧
        examineEntry key e entry = .ok (some entry) := by
  induction lines with
  | nil =>
    obtain rfl := Except.ok.inj h
    exact .inl ⟨rfl, by simp⟩
  | cons line lines ih =>
    rw [findRootEvidence] at h
    split at h
    · cases h
    · cases h
    · rename_i entry _ hp
      cases hx : examineEntry key e entry with
      | error err =>
        rw [hx] at h
        simp only at h
        split_ifs at h
      | ok result =>
        rw [hx] at h
        cases result with
        | some x =>
          obtain rfl := examineEntry_some hx
          obtain rfl := Except.ok.inj h
          exact .inr ⟨line, List.mem_cons_self, x, hp, rfl, hx⟩
        | none =>
          rcases ih h with ⟨rfl, hall⟩ | ⟨l, hmem, x, hrest⟩
          · refine .inl ⟨rfl, ?_⟩
            intro l hl
            rcases List.mem_cons.1 hl with rfl | hl
            · exact ⟨entry, hp, hx⟩
            · exact hall l hl
          · exact .inr ⟨l, List.mem_cons_of_mem _ hmem, x, hrest⟩

/-- The forest's entries stand on the lines of its chains. -/
theorem mem_readForestEntries [Unicode] {files : ManifestFiles} {entry : Json ν} :
    entry ∈ readForestEntries files ↔
      ∃ label, ∃ line ∈ linesIn files label, parseJson line = some entry ∧ truthy entry = true := by
  have hentries : ∀ file : Option Bytes, entry ∈ entriesOf file ↔
      ∃ line ∈ linesOf file, parseJson line = some entry ∧ truthy entry = true := by
    intro file
    simp only [entriesOf, List.mem_filterMap, Option.filter_eq_some_iff]
  rw [readForestEntries, List.mem_append, List.mem_flatMap, hentries]
  constructor
  · rintro (⟨line, hline, hp⟩ | ⟨name, hname, hentry⟩)
    · refine ⟨rootLabel, line, ?_, hp⟩
      rwa [linesIn, if_pos rfl]
    · obtain ⟨-, hseg⟩ := mem_discoverSegments.1 hname
      obtain ⟨line, hline, hp⟩ := (hentries _).1 hentry
      refine ⟨name, line, ?_, hp⟩
      rwa [linesIn, if_neg (isSegmentName_ne_root hseg), if_pos hseg]
  · rintro ⟨label, line, hline, hp⟩
    unfold linesIn at hline
    split_ifs at hline with hroot hseg
    · exact .inl ⟨line, hline, hp⟩
    · right
      have hsome : (files.segmentFile label).isSome = true := by
        cases hf : files.segmentFile label with
        | none =>
          rw [hf] at hline
          cases hline
        | some bytes => rfl
      exact ⟨label, mem_discoverSegments.2 ⟨hsome, hseg⟩, (hentries _).2 ⟨line, hline, hp⟩⟩
    · cases hline

theorem examineEntry_of_falsy {key : Option JsString} {e : Evidence ν} {entry : Json ν}
    (h : truthy entry = false) : examineEntry key e entry = .ok none := by
  cases entry with
  | obj ms => cases h
  | _ => rfl

/-- In a repository that is not segmented, the lines are the root's. -/
theorem Good.linesIn_root {key : Option JsString} {files : ManifestFiles} (hg : Good ν key files)
    (hseg : isSegmentedRepo ν files = false) {label line : JsString}
    (h : line ∈ linesIn files label) : label = rootLabel ∧ line ∈ linesOf files.root := by
  unfold linesIn at h
  split_ifs at h with hroot hname
  · exact ⟨hroot, h⟩
  · cases hf : files.segmentFile label with
    | none =>
      rw [hf] at h
      cases h
    | some bytes =>
      have hfrozen := hg.frozen label hname (by rw [hf]; rfl)
      rw [hseg] at hfrozen
      cases hfrozen
  · cases h

/-- What a call comes to: a refusal, an entry that was there, or an entry that it appends where no
entry of the kind was. -/
inductive RecordOutcome (key : Option JsString) (e : Evidence ν) (isoNow : JsString)
    (before : ManifestFiles) : Recording ν → Prop where
  | refused {err : TicketStoreError} {after : ManifestFiles} : Quiet before after →
      RecordOutcome key e isoNow before (.error err, after)
  | found {label line : JsString} {entry : Json ν} {after : ManifestFiles} : Quiet before after →
      line ∈ linesIn before label → parseJson line = some entry →
      examineEntry key e entry = .ok (some entry) →
      RecordOutcome key e isoNow before (.ok entry, after)
  | appended {label : JsString} {ms extra : Members ν} {seq : ν} {prevRawLine : Option JsString}
      {after : ManifestFiles} :
      (∀ l, ∀ line ∈ linesIn before l, ∀ entry, parseJson line = some entry →
        examineEntry key e entry = .ok none) →
      Good ν key after → OneMore before after label (stringify (.obj ms)) →
      Written key (ownFields e isoNow) extra seq prevRawLine ms →
      RecordOutcome key e isoNow before (.ok (.obj ms), after)

variable {key : Option JsString} {checkout : Checkout} {e : Evidence ν} {files : ManifestFiles}

theorem recordRoot_outcome [Unicode] (hg : Good ν key files)
    (hseg : isSegmentedRepo ν files = false) (he : JsonEvidence e) :
    RecordOutcome key e checkout.isoNow files (recordRootTicketEvidence key checkout e files) := by
  obtain ⟨lines, last, hroot⟩ := hg.root
  unfold recordRootTicketEvidence
  simp only [hroot.linesOf]
  cases hfind : findRootEvidence key e lines with
  | error err => exact .refused (.refl _)
  | ok found =>
    rcases findRootEvidence_ok hfind with ⟨rfl, hall⟩ | ⟨line, hline, entry, hp, rfl, hx⟩
    · simp only
      split_ifs with hempty
      · exact .refused (.refl _)
      · generalize hs : (seqAfter (lines.getLast?.bind parseJson) : ν) = seq
        obtain ⟨hseq, hi, hpos⟩ := seqAfter_ok hroot.chain hs.symm
        cases hsign : signEvidence key e false
            (evidenceEntry e checkout.isoNow seq [] lines.getLast?) with
        | error err => exact .refused (.refl _)
        | ok ms =>
          have hw : Written key (ownFields e checkout.isoNow) (mintedFields (.existing [])) seq
              lines.getLast? ms :=
            evidence_written he (JsNumber.finite_of_integer _ hi) (fun _ _ _ h => by cases h) hsign
          rw [← hroot.chain.tail.1] at hw
          have hnone : ((mintedFields (.existing []) : Members ν).lookup (js "anchor")).isSome =
              (last.prevRawLine.isNone && false) := by simp [mintedFields]
          have hchain := hroot.append (lineOk_stringify _) (hw.accepts hseq hi hpos hnone)
          have hone := oneMore_root (hchain.linesOf.trans (by rw [hroot.linesOf]))
          refine .appended ?_ (hg.writeRoot hseg hchain) hone hw
          intro l line hline entry hp
          obtain ⟨-, hmem⟩ := hg.linesIn_root hseg hline
          rw [hroot.linesOf] at hmem
          obtain ⟨entry', hp', hx⟩ := hall line hmem
          rw [hp] at hp'
          rwa [Option.some.inj hp']
    · have hmem : line ∈ linesIn files rootLabel := by
        rwa [linesIn, if_pos rfl, hroot.linesOf]
      exact .found (.refl _) hmem hp hx

theorem appendToOpenSegment_step {resolved : OpenSegment ν} {files' : ManifestFiles}
    {lines : List JsString} {last : ChainState ν} {isoNow : JsString} {entry : Json ν}
    (hg : Good ν key files) (hseg : isSegmentedRepo ν files = true)
    (hname : isSegmentName resolved.name = true)
    (hminted : ∀ name anchor branch, resolved = .minted name anchor branch →
      AtRoot (linesOf files.root) anchor)
    (hfile : ChainFile ⟨key, true, true⟩ (files.segmentFile resolved.name) lines last)
    (hfirst : lines ≠ [] → ∃ anchor, last.firstAnchor = some anchor ∧
      AtRoot (linesOf files.root) anchor)
    (he : JsonEvidence e)
    (h : appendToOpenSegment key e isoNow resolved files = .ok (entry, files')) :
    ∃ (ms : Members ν) (seq : ν), entry = .obj ms ∧ Good ν key files' ∧
      OneMore files files' resolved.name (stringify entry) ∧
      Written key (ownFields e isoNow) (mintedFields resolved) seq last.prevRawLine ms := by
  have hprev := hfile.chain.tail.1
  unfold appendToOpenSegment at h
  simp only [hfile.linesOf] at h
  split_ifs at h with hnew hold
  obtain ⟨previous, hparsed, h⟩ := bind_eq_ok.1 h
  obtain ⟨ms, hsign, h⟩ := bind_eq_ok.1 h
  obtain ⟨rfl, rfl⟩ := Prod.mk.inj (Except.ok.inj h)
  have hprevious : previous = lines.getLast?.bind parseJson := by
    rw [lastParsed_ok hparsed]
    split_ifs <;> simp
  generalize hs : (seqAfter previous : ν) = seq at hsign
  obtain ⟨hseq, hi, hpos⟩ := seqAfter_ok hfile.chain (hprevious ▸ hs.symm)
  have hw : Written key (ownFields e isoNow) (mintedFields resolved) seq lines.getLast? ms :=
    evidence_written he (JsNumber.finite_of_integer _ hi)
      (fun name anchor branch hr => (hminted name anchor branch hr).isJson) hsign
  rw [← hprev] at hw
  have hanchor : ((mintedFields resolved).lookup (js "anchor")).isSome =
      (last.prevRawLine.isNone && true) := by
    rw [hprev]
    cases resolved with
    | existing name =>
      have hne : lines ≠ [] := fun hl => hold ⟨by simp [OpenSegment.isNew], hl⟩
      rw [List.getLast?_eq_some_getLast hne]
      rfl
    | minted name anchor branch =>
      have hnil : lines = [] := by
        by_contra hl
        exact hnew ⟨rfl, hl⟩
      rw [hnil]
      rfl
  have haccepts := hw.accepts hseq hi hpos hanchor
  have hchain := hfile.append (lineOk_stringify _) haccepts
  have hgood : SegmentGood ν key files.root
      (some (appendLine (files.segmentFile resolved.name) (stringify (.obj ms)))) := by
    by_cases hl : lines = []
    · cases resolved with
      | existing name => exact absurd ⟨by simp [OpenSegment.isNew], hl⟩ hold
      | minted name anchor branch =>
        refine ⟨_, _, anchor, hchain, by simp, ?_, hminted name anchor branch rfl⟩
        rw [hprev, hl, List.getLast?_nil, Option.isNone_none, if_pos rfl, hw.anchor]
        rfl
    · obtain ⟨anchor, ha, hat⟩ := hfirst hl
      refine ⟨_, _, anchor, hchain, by simp, ?_, hat⟩
      rw [hprev, List.getLast?_eq_some_getLast hl, Option.isNone_some, if_neg (by decide)]
      exact ha
  have hone := oneMore_segment hname (hchain.linesOf.trans (by rw [hfile.linesOf]))
  exact ⟨ms, seq, rfl, hg.writeSegment hname hseg hgood, hone, hw⟩

theorem OneMore.of_quiet {before middle after : ManifestFiles} {label line : JsString}
    (hq : Quiet before middle) (h : OneMore middle after label line) :
    OneMore before after label line := by
  refine ⟨h.named, ?_, ?_⟩
  · rw [h.own, hq.linesIn]
  · intro l hl
    rw [h.others l hl, hq.linesIn]

variable [Unicode]

theorem recordSegmented_outcome (hg : Good ν key files) (hseg : isSegmentedRepo ν files = true)
    (he : JsonEvidence e) :
    RecordOutcome key e checkout.isoNow files
      (recordSegmentedTicketEvidence key checkout e files) := by
  have hq := quiet_withDirectory files
  have hg1 := hg.quiet hq
  have hseg1 : isSegmentedRepo ν (withDirectory files) = true := by rw [hq.isSegmentedRepo, hseg]
  unfold recordSegmentedTicketEvidence
  simp only
  cases forestChainsIntact ν (withDirectory files) key with
  | error err => exact .refused hq
  | ok intact =>
    cases intact with
    | false => exact .refused hq
    | true =>
      simp only
      cases hfind : findMatchingEvidence key e (readForestEntries (withDirectory files)) with
      | error err => exact .refused hq
      | ok found =>
        rcases findMatchingEvidence_ok hfind with ⟨rfl, hall⟩ | ⟨entry, hentry, rfl, hx⟩
        · simp only
          cases hr : resolveOpenSegment (ν := ν) checkout key (withDirectory files) with
          | error err => exact .refused hq
          | ok r =>
            obtain ⟨resolved, middle⟩ := r
            obtain ⟨hq2, hname, hminted, lines, last, hfile, hfirst⟩ := resolved_file hg1 hr
            simp only
            cases ha : appendToOpenSegment key e checkout.isoNow resolved middle with
            | error err => exact .refused (hq.trans hq2)
            | ok r =>
              obtain ⟨entry, after⟩ := r
              obtain ⟨ms, seq, rfl, hgood, hone, hw⟩ := appendToOpenSegment_step (hg1.quiet hq2)
                (by rw [hq2.isSegmentedRepo, hseg1]) hname hminted hfile hfirst he ha
              refine .appended ?_ hgood (hone.of_quiet (hq.trans hq2)) hw
              intro l line hline entry hp
              cases ht : truthy entry with
              | false => exact examineEntry_of_falsy ht
              | true =>
                rw [← hq.linesIn] at hline
                exact hall entry (mem_readForestEntries.2 ⟨l, line, hline, hp, ht⟩)
        · obtain ⟨label, line, hline, hp, -⟩ := mem_readForestEntries.1 hentry
          rw [hq.linesIn] at hline
          exact .found hq hline hp hx

theorem recordTicketEvidence_outcome (hg : Good ν key files) (he : JsonEvidence e) :
    RecordOutcome key e checkout.isoNow files (recordTicketEvidence key checkout e files) := by
  unfold recordTicketEvidence
  by_cases hk : key = some []
  · rw [validateKeyParam, if_pos hk]
    exact .refused (.refl _)
  · rw [validateKeyParam, if_neg hk]
    cases hseg : isSegmentedRepo ν files with
    | true => exact recordSegmented_outcome hg hseg he
    | false => exact recordRoot_outcome hg hseg he

omit [Unicode] in
/-- Each line of a chain was taken. -/
theorem AcceptsAll.each {opts : ChainOptions} {lines : List JsString} {first last : ChainState ν}
    (h : AcceptsAll opts first lines last) {line : JsString} (hline : line ∈ lines) :
    ∃ (state : ChainState ν) (ms : Members ν) (next : ChainState ν),
      Accepts opts state line ms next := by
  induction lines generalizing first with
  | nil => cases hline
  | cons l lines ih =>
    obtain ⟨ms, next, ha, hrest⟩ := h
    rcases List.mem_cons.1 hline with rfl | hline
    · exact ⟨first, ms, next, ha⟩
    · exact ih hrest hline

/-- What an append of another entry comes to. -/
inductive AppendOutcome (call : AppendCall ν) (before : ManifestFiles) : Outcome ν → Prop where
  | refused {err : TicketStoreError} {after : ManifestFiles} : Quiet before after →
      AppendOutcome call before (.error err, after)
  | appended {label : JsString} {ms : Members ν} {after : ManifestFiles} :
      OneMore before after label (stringify (.obj ms)) → (Json.obj ms).IsJson →
      ms.lookup (js "data") = call.payload.get? (js "data") →
      AppendOutcome call before (.ok (.obj ms), after)

omit [Unicode] in
theorem Written.data {payload extra ms : Members ν} {isoNow : JsString} {seq : ν}
    {prevRawLine : Option JsString}
    (h : Written key (normalized payload isoNow) extra seq prevRawLine ms) :
    ms.lookup (js "data") = payload.lookup (js "data") := by
  rw [h.rest _ (by decide)]
  exact lookup_normalized (.inl (by decide))

theorem appendToSegment_outcome {call : AppendCall ν} {payload : Members ν} (hg : Good ν key files)
    (hc : call.payload = .obj payload) (hj : (Json.obj payload).IsJson) (hu : Unreserved payload) :
    AppendOutcome call files (appendToSegment key call payload files) := by
  have hq := quiet_withDirectory files
  have hg1 := hg.quiet hq
  unfold appendToSegment
  simp only
  cases verify (ν := ν) (withDirectory files) false false key with
  | error err => exact .refused hq
  | ok integrity =>
    by_cases hv : integrity.valid = false
    · simp only [if_pos hv]
      exact .refused hq
    · simp only [if_neg hv]
      cases hr : resolveOpenSegment (ν := ν) call.checkout key (withDirectory files) with
      | error err => exact .refused hq
      | ok r =>
        obtain ⟨resolved, middle⟩ := r
        obtain ⟨hq2, hname, hminted, lines, last, hfile, -⟩ := resolved_file hg1 hr
        simp only
        cases ha : appendLockedEntry key call payload resolved middle with
        | error err => exact .refused (hq.trans hq2)
        | ok r =>
          obtain ⟨entry, after⟩ := r
          obtain ⟨ms, seq, next, rfl, hw, rfl, hchain, -⟩ := appendLockedEntry_ok hfile
            (fun name anchor branch h => (hminted name anchor branch h).isJson) hj hu ha
          have hone := oneMore_segment hname (hchain.linesOf.trans (by rw [hfile.linesOf]))
          refine .appended (hone.of_quiet (hq.trans hq2)) hw.isJson ?_
          rw [hw.data, hc]
          rfl

theorem appendManifestEntry_outcome {call : AppendCall ν} (hg : Good ν key files)
    (hj : call.payload.IsJson) : AppendOutcome call files (appendManifestEntry key call files) := by
  unfold appendManifestEntry
  by_cases hk : key = some []
  · rw [validateKeyParam, if_pos hk]
    exact .refused (.refl _)
  · rw [validateKeyParam, if_neg hk]
    cases hc : call.payload with
    | obj payload =>
      rw [hc] at hj
      simp only
      cases hf : reservedChainFields.find? fun field => decide (field ∈ Members.keys payload) with
      | some field => exact .refused (.refl _)
      | none =>
        have hu := unreserved_of_find hf
        cases hs : isSegmentedRepo ν files with
        | true => exact appendToSegment_outcome hg hc hj hu
        | false =>
          simp only [Bool.false_eq_true, if_false]
          cases ha : appendToRoot key call payload files with
          | error err => exact .refused (.refl _)
          | ok r =>
            obtain ⟨entry, after⟩ := r
            obtain ⟨lines, last, hroot⟩ := hg.root
            obtain ⟨ms, seq, next, rfl, hw, rfl, hchain⟩ := appendToRoot_ok hroot hj hu ha
            refine .appended (oneMore_root (hchain.linesOf.trans (by rw [hroot.linesOf])))
              hw.isJson ?_
            rw [hw.data, hc]
            rfl
    | _ => exact .refused (.refl _)

omit [Unicode] in
/-- With a key, every entry of a good forest is signed. -/
theorem Good.signed {k : JsString} (hg : Good ν (some k) files) {label line : JsString}
    (hline : line ∈ linesIn files label) {entry : Json ν} (hp : parseJson line = some entry) :
    entrySigValid k entry = .ok true := by
  have hchain : ∀ (anchorOnFirst : Bool) (lines : List JsString) (last : ChainState ν),
      AcceptsAll ⟨some k, true, anchorOnFirst⟩ .init lines last → line ∈ lines →
      entrySigValid k entry = .ok true := by
    intro anchorOnFirst lines last h hm
    obtain ⟨state, ms, next, ha⟩ := h.each hm
    have hentry : entry = .obj ms := Option.some.inj (hp.symm.trans ha.parsed)
    rcases ha.signature with ⟨hvalid, -⟩ | ⟨-, hnot, -⟩
    · rwa [hentry]
    · cases hnot
  unfold linesIn at hline
  split_ifs at hline with hroot hname
  · obtain ⟨lines, last, hfile⟩ := hg.root
    rw [hfile.linesOf] at hline
    exact hchain _ _ _ hfile.chain hline
  · cases hf : files.segmentFile label with
    | none =>
      rw [hf] at hline
      cases hline
    | some bytes =>
      obtain ⟨lines, last, anchor, hfile, -⟩ := hg.segments label hname (by rw [hf]; rfl)
      rw [hfile.linesOf] at hline
      exact hchain _ _ _ hfile.chain hline
  · cases hline

end Adlc.GateManifest
