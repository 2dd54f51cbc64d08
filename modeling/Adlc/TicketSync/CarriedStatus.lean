import Adlc.TicketSync.Migration

namespace Adlc.TicketSync

open Adlc.Framework Adlc.Tickets Adlc.GateManifest

variable {ν : Type} [JsNumber ν]

/-! ## What is carried over -/

/-- The last of the entries under a gate. -/
def lastUnder (es : List (Json ν)) (gate : JsString) : Option (Json ν) :=
  (es.filter fun e => decide (gateOf e = gate)).getLast?

/-- The last evidence under the gate whose first evidence came last. -/
def lastBegun (es : List (Json ν)) : Option (Json ν) :=
  (firstSeen (es.map gateOf)).getLast?.bind (lastUnder es)

/-- The last evidence under each gate, in the order of the gates' first evidence. -/
def carriedFrom (es : List (Json ν)) : List (Json ν) :=
  (firstSeen (es.map gateOf)).filterMap (lastUnder es)

theorem sourcesOf_eq {kept : List (List (Json ν))} (h : ∀ chain ∈ kept, Numbered chain) :
    sourcesOf kept = carriedFrom kept.flatten := by
  have hseq : ∀ (e : Json ν) n, e.get? (js "seq") = some (.num n) → seqOrZero e = n := by
    intro e n hn
    rw [seqOrZero, hn]
  have hgates : (placed kept).map (fun e => gateOf e.1) = kept.flatten.map gateOf := by
    rw [← map_fst_placedFrom 0 kept, List.map_map]
    rfl
  rw [sourcesOf, latestByKey_eq (placed_in_order hseq h), lastByKey, List.map_filterMap, hgates,
    carriedFrom]
  apply List.filterMap_congr
  intro gate _
  have hlast := getLast?_map_fst_filter (fun e => decide (gateOf e = gate)) (placed kept)
  rw [lastUnder, ← map_fst_placedFrom 0 kept]
  refine Eq.trans ?_ hlast
  rw [Option.map_map]
  rfl

omit [JsNumber ν] in
theorem lastUnder_gate {es : List (Json ν)} {gate : JsString} {e : Json ν}
    (h : lastUnder es gate = some e) : e ∈ es ∧ gateOf e = gate := by
  obtain ⟨he, hgate⟩ := List.mem_filter.1 (getLast?_mem h)
  exact ⟨he, of_decide_eq_true hgate⟩

omit [JsNumber ν] in
theorem lastUnder_isSome {es : List (Json ν)} {gate : JsString} (h : gate ∈ es.map gateOf) :
    ∃ e, lastUnder es gate = some e :=
  getLast?_filter_isSome h

omit [JsNumber ν] in
/-- What is carried over under some gates is made from the entries under them. -/
theorem carriedFrom_filter (es : List (Json ν)) (p : JsString → Bool) :
    (carriedFrom es).filter (fun e => p (gateOf e)) =
      carriedFrom (es.filter fun e => p (gateOf e)) := by
  unfold carriedFrom
  have hgates : (es.filter fun e => p (gateOf e)).map gateOf = (es.map gateOf).filter p := by
    rw [List.filter_map]
    rfl
  rw [hgates, ← firstSeen_filter]
  generalize firstSeen (es.map gateOf) = gates
  induction gates with
  | nil => rfl
  | cons gate gates ih =>
    rw [List.filterMap_cons, List.filter_cons]
    by_cases hp : p gate = true
    · have hsame : lastUnder (es.filter fun e => p (gateOf e)) gate = lastUnder es gate := by
        rw [lastUnder, lastUnder, List.filter_filter]
        congr 1
        apply List.filter_congr
        intro e _
        by_cases hg : gateOf e = gate
        · simp [hg, hp]
        · simp [hg]
      rw [if_pos hp, List.filterMap_cons, hsame]
      cases hlast : lastUnder es gate with
      | none => exact ih
      | some e =>
        simp only
        rw [List.filter_cons, (lastUnder_gate hlast).2, if_pos hp, ih]
    · rw [if_neg hp]
      cases hlast : lastUnder es gate with
      | none => exact ih
      | some e =>
        simp only
        rw [List.filter_cons, (lastUnder_gate hlast).2, if_neg hp, ih]

omit [JsNumber ν] in
theorem getLast?_carriedFrom (es : List (Json ν)) : (carriedFrom es).getLast? = lastBegun es := by
  unfold lastBegun carriedFrom
  cases hlast : (firstSeen (es.map gateOf)).getLast? with
  | none =>
    rw [List.getLast?_eq_none_iff] at hlast
    rw [hlast]
    rfl
  | some gate =>
    obtain ⟨init, hinit⟩ := List.getLast?_eq_some_iff.1 hlast
    have hmem : gate ∈ es.map gateOf := mem_firstSeen.1 (getLast?_mem hlast)
    obtain ⟨e, he⟩ := lastUnder_isSome hmem
    rw [hinit, List.filterMap_append, Option.bind_some, he]
    simp [he]

/-! ## The plan -/

variable {r : Reassignment} {key : Option JsString} {chains : List (List (Json ν))}

theorem candidateChains_eq {f : List (Json ν) → List (Json ν)}
    (h : ∀ chain ∈ chains, candidatesOf key r.oldId chain = .ok (f chain)) :
    candidateChains key r.oldId chains = .ok (chains.map f) := by
  induction chains with
  | nil => rfl
  | cons chain chains ih =>
    rw [candidateChains, h chain List.mem_cons_self,
      ih fun c hc => h c (List.mem_cons_of_mem _ hc)]
    rfl

/-- The evidence of the old id that is read from the chains. -/
def evidenceOf (r : Reassignment) (chains : List (List (Json ν))) : List (Json ν) :=
  chains.flatten.filter (isBound r.oldId)

theorem plan_fresh {kept : List (List (Json ν))} (hnew : r.newId ≠ [])
    (hkept : candidateChains key r.oldId chains = .ok kept) (hnumbered : ∀ c ∈ kept, Numbered c)
    (hunused : ∀ e ∈ chains.flatten, eqStr (e.get? (js "ticket")) r.newId = false) :
    planManifestMigration chains r.oldId r.newId key =
      .ok (carriedFrom kept.flatten) := by
  have hnone : ∀ source, chains.flatten.any (alreadyMigrated r.oldId r.newId source) = false := by
    intro source
    rw [List.any_eq_false]
    intro e he
    simp [alreadyMigrated, hunused e he]
  rw [planManifestMigration, hkept]
  simp only [bind, Except.bind, if_neg hnew, pure, Except.pure, hnone, Bool.not_false,
    List.filter_true, sourcesOf_eq hnumbered]

theorem Carries.already {src e : Json ν} (h : Carries r src e) :
    alreadyMigrated r.oldId r.newId src e = true := by
  simp [alreadyMigrated, h.ticket, h.gate, h.origin, h.hash, eqStr]

/-- What has been carried over is not carried over again. -/
theorem plan_again {kept : List (List (Json ν))} (hnew : r.newId ≠ [])
    (hkept : candidateChains key r.oldId chains = .ok kept) (hnumbered : ∀ c ∈ kept, Numbered c)
    (hcarried : ∀ src ∈ carriedFrom kept.flatten, ∃ e ∈ chains.flatten, Carries r src e) :
    planManifestMigration chains r.oldId r.newId key = .ok [] := by
  rw [planManifestMigration, hkept]
  simp only [bind, Except.bind, if_neg hnew, pure, Except.pure, sourcesOf_eq hnumbered]
  congr 1
  rw [List.filter_eq_nil_iff]
  intro src hsrc
  obtain ⟨e, he, hcarries⟩ := hcarried src hsrc
  have hany : chains.flatten.any (alreadyMigrated r.oldId r.newId src) = true :=
    List.any_eq_true.2 ⟨e, he, hcarries.already⟩
  simp [hany]

/-! ## The status after the migration -/

theorem mem_readChain {lines : List JsString} {es : List (Json ν)}
    (h : readChain ν key lines = .ok es) {e : Json ν} (he : e ∈ es) :
    ∃ line ∈ lines, parseJson line = some e := by
  have hparsed : ∀ kept : List JsString, e ∈ (parseTruthy kept : List (Json ν)) →
      ∃ line ∈ kept, parseJson line = some e := by
    intro kept hmem
    obtain ⟨line, hline, hp⟩ := List.mem_filterMap.1 hmem
    exact ⟨line, hline, (Option.filter_eq_some_iff.1 hp).1⟩
  cases key with
  | none =>
    obtain rfl := Except.ok.inj h
    exact hparsed lines he
  | some key =>
    obtain ⟨kept, hkept, rfl⟩ := map_eq_ok.1 h
    obtain ⟨line, hline, hp⟩ := hparsed kept he
    exact ⟨line, (signedEntriesOnly_sublist hkept).subset hline, hp⟩

omit [JsNumber ν] in
theorem filter_flatten_bound (chains : List (List (Json ν))) :
    (chains.map fun chain => chain.filter (isBound r.oldId)).flatten = evidenceOf r chains := by
  rw [evidenceOf, List.filter_flatten]

section Carried

variable {sources adds : List (Json ν)}

theorem exists_carried (h : List.Forall₂ (Carries r) sources adds) {src : Json ν}
    (hsrc : src ∈ sources) : ∃ e ∈ adds, Carries r src e := by
  induction h with
  | nil => cases hsrc
  | cons hcarries _ ih =>
    rcases List.mem_cons.1 hsrc with rfl | hsrc
    · exact ⟨_, List.mem_cons_self, hcarries⟩
    · obtain ⟨e, he, hc⟩ := ih hsrc
      exact ⟨e, List.mem_cons_of_mem _ he, hc⟩

theorem carried_ticket (h : List.Forall₂ (Carries r) sources adds) {e : Json ν} (he : e ∈ adds) :
    e.get? (js "ticket") = some (.str r.newId) := by
  induction h with
  | nil => cases he
  | cons hcarries _ ih =>
    rcases List.mem_cons.1 he with rfl | he
    · exact hcarries.ticket
    · exact ih he

theorem Carries.gateOf {src e : Json ν} (h : Carries r src e) : gateOf e = gateOf src := by
  rw [TicketSync.gateOf, str?, h.gate]
  rfl

/-- The new id's P5 entries have the statuses of the P5 entries that are carried over. -/
theorem p5Entries_carried (h : List.Forall₂ (Carries r) sources adds) :
    (p5Entries r.newId adds).map statusOf =
      (sources.filter fun e => decide (gateOf e ∈ p5Gates)).map statusOf := by
  induction h with
  | nil => rfl
  | @cons src e sources adds hcarries _ ih =>
    have hbound : isBound r.newId e = true := by
      simp [isBound, str?, hcarries.ticket, hcarries.gate, eqStr]
    unfold p5Entries at ih ⊢
    rw [List.filter_cons, List.filter_cons, hbound, Bool.true_and, hcarries.gateOf]
    split_ifs
    · rw [List.map_cons, List.map_cons, hcarries.statusOf, ih]
    · exact ih

theorem status_carried (h : List.Forall₂ (Carries r) (carriedFrom (evidenceOf r chains)) adds)
    (hunused : ∀ e ∈ chains.flatten, eqStr (e.get? (js "ticket")) r.newId = false) :
    (p5Entries r.newId (chains.flatten ++ adds)).getLast?.map statusOf =
      (lastBegun (p5Entries r.oldId chains.flatten)).map statusOf := by
  have hnone : p5Entries r.newId chains.flatten = [] := by
    rw [p5Entries, List.filter_eq_nil_iff]
    intro e he
    simp [isBound, hunused e he]
  have hp5 : (evidenceOf r chains).filter (fun e => decide (gateOf e ∈ p5Gates)) =
      p5Entries r.oldId chains.flatten := by
    rw [evidenceOf, p5Entries, List.filter_filter]
    apply List.filter_congr
    intro e _
    exact Bool.and_comm _ _
  have hsplit : p5Entries r.newId (chains.flatten ++ adds) = p5Entries r.newId adds := by
    rw [p5Entries, List.filter_append, ← p5Entries, hnone, List.nil_append, p5Entries]
  rw [hsplit, ← List.getLast?_map, p5Entries_carried h, List.getLast?_map,
    carriedFrom_filter _ fun gate => decide (gate ∈ p5Gates), hp5, getLast?_carriedFrom]

/-- The old id's evidence is what it was. -/
theorem evidenceOf_carried (hdiffers : r.newId ≠ r.oldId) {chains' : List (List (Json ν))}
    (h : List.Forall₂ (Carries r) sources adds)
    (hflatten : chains'.flatten = chains.flatten ++ adds) :
    evidenceOf r chains' = evidenceOf r chains := by
  have hnone : adds.filter (isBound r.oldId) = [] := by
    rw [List.filter_eq_nil_iff]
    intro e he
    simp [isBound, carried_ticket h he, eqStr, hdiffers]
  rw [evidenceOf, hflatten, List.filter_append, hnone, List.append_nil, evidenceOf]

end Carried

/-! ## The migration -/

theorem maxSeq_concat {es : List (Json ν)} (hne : es ≠ []) (e : Json ν) :
    maxSeq (es ++ [e]) =
      if JsNumber.lt (maxSeq es) (seqOrZero e) then seqOrZero e else maxSeq es := by
  cases es with
  | nil => exact absurd rfl hne
  | cons a es => simp [maxSeq]

theorem maxSeq_numbered {es : List (Json ν)} (h : ∀ i e, es[i]? = some e → SeqIs e (i + 1)) :
    maxSeq es = JsNumber.ofNat es.length := by
  have hseq : ∀ (e : Json ν) n, SeqIs e n → seqOrZero e = JsNumber.ofNat n := by
    intro e n hn
    rw [seqOrZero, hn.1]
  induction es using List.reverseRecOn with
  | nil => rfl
  | append_singleton es e ih =>
    have hlast : SeqIs e (es.length + 1) := h es.length e List.getElem?_concat_length
    have hinit := ih fun i a ha => h i a (by
      rw [List.getElem?_append_left (List.getElem?_eq_some_iff.1 ha).1, ha])
    rw [List.length_append, List.length_singleton, ← hseq e _ hlast]
    by_cases hne : es = []
    · subst hne
      rfl
    · have hlt : JsNumber.lt (maxSeq es) (seqOrZero e) = true := by
        have hle := hlast.2
        rw [hinit, hseq e _ hlast, JsNumber.lt_ofNat _ _ (by omega) hle]
        exact decide_eq_true (by omega)
      rw [maxSeq_concat hne, if_pos hlt]

/-- The lines of all chains are entries in order. -/
structure OwnManifest.InOrder (ν : Type) [JsNumber ν] (m : OwnManifest) : Prop where
  root : NumberedLines ν m.root
  own : ∀ lines ∈ m.own, m.segmented = true ∧ NumberedLines ν lines

theorem OwnManifest.Valid.inOrder {m : OwnManifest} (h : m.Valid ν) : m.InOrder ν :=
  ⟨numberedLines_of_chainOk h.rootSize h.root, fun lines hl =>
    ⟨(h.own lines hl).1, numberedLines_of_chainOk (h.ownSize lines hl) (h.own lines hl).2⟩⟩

/-- What is read is read of the root or of the checkout's own segment. -/
theorem OwnManifest.mem_read {m : OwnManifest} (h : m.read ν key = .ok chains)
    {chain : List (Json ν)} (hc : chain ∈ chains) :
    ∃ lines, (lines = m.root ∨ lines ∈ m.own) ∧ readChain ν key lines = .ok chain := by
  obtain ⟨root, hroot, h⟩ := bind_eq_ok.1 h
  cases hown : m.own with
  | none =>
    rw [hown] at h
    obtain rfl := Except.ok.inj h
    obtain rfl := List.mem_singleton.1 hc
    exact ⟨m.root, .inl rfl, hroot⟩
  | some lines =>
    rw [hown] at h
    obtain ⟨own, hread, h⟩ := bind_eq_ok.1 h
    obtain rfl := Except.ok.inj h
    simp only [List.mem_cons, List.not_mem_nil, or_false] at hc
    rcases hc with rfl | rfl
    · exact ⟨m.root, .inl rfl, hroot⟩
    · exact ⟨lines, .inr rfl, hread⟩

theorem OwnManifest.InOrder.numbered {m : OwnManifest} (hm : m.InOrder ν)
    (h : m.read ν key = .ok chains) : ∀ chain ∈ chains, Numbered chain := by
  intro chain hc
  obtain ⟨lines, hlines, hread⟩ := OwnManifest.mem_read h hc
  rcases hlines with rfl | hown
  · exact readChain_numbered hm.root hread
  · exact readChain_numbered (hm.own lines hown).2 hread

theorem OwnManifest.candidates {m : OwnManifest} (h : m.read ν key = .ok chains) :
    candidateChains key r.oldId chains =
      .ok (chains.map fun chain => chain.filter (isBound r.oldId)) := by
  apply candidateChains_eq
  intro chain hc
  obtain ⟨lines, -, hread⟩ := OwnManifest.mem_read h hc
  exact candidatesOf_read r.oldId hread

theorem numbered_bound (h : ∀ chain ∈ chains, Numbered chain) :
    ∀ chain ∈ chains.map fun chain => chain.filter (isBound r.oldId), Numbered chain := by
  intro chain hc
  obtain ⟨whole, hwhole, rfl⟩ := List.mem_map.1 hc
  exact (h whole hwhole).sublist List.filter_sublist

/-- The plan for the root alone, against what is read of it. -/
theorem root_candidates {m : OwnManifest} {root : List (Json ν)} (hm : m.InOrder ν)
    (h : readChain ν key m.root = .ok root) :
    candidateChains key r.oldId [m.root.filterMap parseJson] =
      .ok [root.filter (isBound r.oldId)] := by
  have hall : ∀ line ∈ m.root, ∃ e : Json ν, parseJson line = some e := by
    intro line hline
    obtain ⟨i, hi⟩ := List.mem_iff_getElem?.1 hline
    obtain ⟨ms, hms, -⟩ := hm.root i line hi
    exact ⟨_, hms⟩
  rw [candidateChains, candidatesOf_lines r.oldId hall h]
  rfl

theorem OwnManifest.InOrder.parsed {m : OwnManifest} (hm : m.InOrder ν) :
    (m.root.findIdx? fun line => (parseJson (ν := ν) line).isNone) = none := by
  rw [List.findIdx?_eq_none_iff]
  intro line hline
  obtain ⟨i, hi⟩ := List.mem_iff_getElem?.1 hline
  obtain ⟨ms, hms, -⟩ := hm.root i line hi
  rw [hms]
  rfl

/-- Nothing is bound to the new id yet. -/
structure Fresh (ν : Type) [JsNumber ν] (r : Reassignment) (m : OwnManifest) : Prop where
  named : r.newId ≠ []
  differs : r.newId ≠ r.oldId
  unused : ∀ line ∈ m.root ++ m.own.getD [], ∀ e : Json ν, parseJson line = some e →
    eqStr (e.get? (js "ticket")) r.newId = false

/-- What is read comes from the lines. -/
theorem OwnManifest.read_parsed {m : OwnManifest} (h : m.read ν key = .ok chains) {e : Json ν}
    (he : e ∈ chains.flatten) : ∃ line ∈ m.root ++ m.own.getD [], parseJson line = some e := by
  obtain ⟨chain, hc, he⟩ := List.mem_flatten.1 he
  obtain ⟨lines, hlines, hread⟩ := OwnManifest.mem_read h hc
  obtain ⟨line, hline, hp⟩ := mem_readChain hread he
  refine ⟨line, List.mem_append.2 ?_, hp⟩
  rcases hlines with rfl | hown
  · exact .inl hline
  · rw [Option.mem_def.1 hown]
    exact .inr hline

theorem Fresh.read {m : OwnManifest} (hf : Fresh ν r m) (h : m.read ν key = .ok chains) :
    ∀ e ∈ chains.flatten, eqStr (e.get? (js "ticket")) r.newId = false := by
  intro e he
  obtain ⟨line, hline, hp⟩ := OwnManifest.read_parsed h he
  exact hf.unused line hline e hp

theorem length_readChain {lines : List JsString} {es : List (Json ν)}
    (h : readChain ν key lines = .ok es) : es.length ≤ lines.length := by
  cases key with
  | none =>
    obtain rfl := Except.ok.inj h
    exact List.length_filterMap_le _ _
  | some key =>
    obtain ⟨kept, hkept, rfl⟩ := map_eq_ok.1 h
    exact (List.length_filterMap_le _ _).trans (signedEntriesOnly_sublist hkept).length_le

theorem OwnManifest.length_read {m : OwnManifest} (h : m.read ν key = .ok chains) :
    chains.flatten.length ≤ m.root.length + (m.own.getD []).length := by
  obtain ⟨root, hroot, h⟩ := bind_eq_ok.1 h
  have hr := length_readChain hroot
  cases hown : m.own with
  | none =>
    rw [hown] at h
    obtain rfl := Except.ok.inj h
    simpa using hr
  | some lines =>
    rw [hown] at h
    obtain ⟨own, hread, h⟩ := bind_eq_ok.1 h
    obtain rfl := Except.ok.inj h
    have ho := length_readChain hread
    simp only [List.flatten_cons, List.flatten_nil, List.append_nil, List.length_append,
      Option.getD_some]
    omega

omit [JsNumber ν] in
theorem mem_carriedFrom {es : List (Json ν)} {e : Json ν} (h : e ∈ carriedFrom es) : e ∈ es := by
  obtain ⟨gate, -, he⟩ := List.mem_filterMap.1 h
  exact (lastUnder_gate he).1

omit [JsNumber ν] in
theorem length_carriedFrom (es : List (Json ν)) : (carriedFrom es).length ≤ es.length := by
  have hseen : (firstSeen (es.map gateOf)).length ≤ es.length := by
    rw [firstSeen, List.length_reverse]
    have hdedup := (List.dedup_sublist (es.map gateOf).reverse).length_le
    rwa [List.length_reverse, List.length_map] at hdedup
  exact (List.length_filterMap_le _ _).trans hseen

/-- The sources are values that the language reads, and there are not too many to number. -/
theorem sources_fit {m : OwnManifest} (hv : m.Valid ν) (h : m.read ν key = .ok chains) :
    (∀ src ∈ carriedFrom (evidenceOf r chains), src.Ordered) ∧
      (carriedFrom (evidenceOf r chains)).length < 2 ^ 33 := by
  constructor
  · intro src hsrc
    have hmem : src ∈ chains.flatten := List.mem_of_mem_filter (mem_carriedFrom hsrc)
    obtain ⟨line, -, hp⟩ := OwnManifest.read_parsed h hmem
    exact parseJson_ordered hp
  · have hcarried := length_carriedFrom (evidenceOf r chains)
    have hevidence : (evidenceOf r chains).length ≤ chains.flatten.length :=
      List.length_filter_le _ _
    have hread := OwnManifest.length_read h
    have hroot := hv.rootSize
    have hown : (m.own.getD []).length < 2 ^ 32 := by
      cases ho : m.own with
      | none => simp
      | some lines => exact hv.ownSize lines ho
    omega

/-- What the migration leaves: the chains as they were, and after them what is carried over. -/
def Migrated (ν : Type) [JsNumber ν] (key : Option JsString) (r : Reassignment) (m' : OwnManifest)
    (chains : List (List (Json ν))) : Prop :=
  ∃ chains' adds, m'.read ν key = .ok chains' ∧ chains'.flatten = chains.flatten ++ adds ∧
    List.Forall₂ (Carries r) (carriedFrom (evidenceOf r chains)) adds

omit [JsNumber ν] in
theorem prevOf_ordered (lines : List JsString) : (prevOf lines : Json ν).Ordered := by
  unfold prevOf
  cases lines.getLast? <;> exact trivial

theorem read_root {m : OwnManifest} (hown : m.own = none) (h : m.read ν key = .ok chains) :
    ∃ root, readChain ν key m.root = .ok root ∧ chains = [root] := by
  obtain ⟨root, hroot, h⟩ := bind_eq_ok.1 h
  rw [hown] at h
  exact ⟨root, hroot, (Except.ok.inj h).symm⟩

theorem migrateRoot_spec {m m' : OwnManifest} {additions : List (Json ν)} (hv : m.Valid ν)
    (hown : m.own = none) (hf : Fresh ν r m) (hread : m.read ν key = .ok chains)
    (h : migrateRoot key r m = .ok (additions, m')) :
    m'.InOrder ν ∧ m'.segmented = m.segmented ∧ Migrated ν key r m' chains := by
  have hm := hv.inOrder
  obtain ⟨root, hroot, rfl⟩ := read_root hown hread
  unfold migrateRoot at h
  rw [hm.parsed] at h
  obtain ⟨sources, hplan, h⟩ := bind_eq_ok.1 h
  obtain ⟨adds, hbuild, h⟩ := bind_eq_ok.1 h
  obtain ⟨rfl, rfl⟩ := Prod.mk.inj (Except.ok.inj h)
  -- The plan is made from all entries, and comes to what is read of them.
  have hunused : ∀ e ∈ [m.root.filterMap (parseJson (ν := ν))].flatten,
      eqStr (e.get? (js "ticket")) r.newId = false := by
    intro e he
    rw [List.flatten_singleton] at he
    obtain ⟨line, hline, hp⟩ := List.mem_filterMap.1 he
    exact hf.unused line (List.mem_append_left _ hline) e hp
  have hnumbered : ∀ c ∈ [root.filter (isBound r.oldId)], Numbered c := by
    intro c hc
    obtain rfl := List.mem_singleton.1 hc
    exact (readChain_numbered hm.root hroot).sublist List.filter_sublist
  rw [plan_fresh hf.named (root_candidates hm hroot) hnumbered hunused] at hplan
  obtain rfl := Except.ok.inj hplan
  have hevidence : [root.filter (isBound r.oldId)].flatten = evidenceOf r [root] := by
    simp [evidenceOf]
  rw [hevidence] at hbuild
  obtain ⟨es, hparsed, hentries, -, hplaces⟩ := hm.root.entries
  have hlength : es.length = m.root.length := by
    have hl := congrArg List.length hparsed
    rw [List.length_map, List.length_map] at hl
    exact hl.symm
  rw [hentries, maxSeq_numbered hplaces, hlength] at hbuild
  obtain ⟨hordered, hcount⟩ := sources_fit (r := r) hv hread
  have hsize := hv.rootSize
  have hbuilt := build_spec (prevOf_ordered _) hordered (by omega) hbuild
  refine ⟨⟨hm.root.append hbuilt, hm.own⟩, rfl, ?_⟩
  refine ⟨[root ++ adds.map finitize], adds.map finitize, ?_, by simp, ?_⟩
  · rw [OwnManifest.read, readChain_append hroot hbuilt, hown]
    rfl
  · rw [List.forall₂_map_right_iff]
    exact hbuilt.carried.imp fun _ _ hc => hc.finitize

theorem NumberedLines.lastSeq {lines : List JsString} (h : NumberedLines ν lines)
    (hne : lines ≠ []) : ((lines.getLast?.bind parseJson).map seqOrZero).getD (JsNumber.ofNat 0) =
      (JsNumber.ofNat lines.length : ν) := by
  obtain ⟨line, hlast⟩ := Option.ne_none_iff_exists'.1 fun hnone =>
    hne (List.getLast?_eq_none_iff.1 hnone)
  have hplace : lines[lines.length - 1]? = some line := by rw [← List.getLast?_eq_getElem?, hlast]
  obtain ⟨ms, hms, hseq⟩ := h _ line hplace
  have hpos : 0 < lines.length := List.length_pos_iff.2 hne
  have hnum : lines.length - 1 + 1 = lines.length := by omega
  rw [hlast, Option.bind_some, hms, Option.map_some, Option.getD_some, seqOrZero, hseq.1, hnum]

theorem migrateSegmentedSet_spec {site : MigrationSite ν} {m m' : OwnManifest}
    {additions : List (Json ν)} (hv : m.Valid ν) (hsegmented : m.segmented = true)
    (hf : Fresh ν r m) (hread : m.read ν key = .ok chains)
    (h : migrateSegmentedSet site key r m = .ok (additions, m')) :
    m'.InOrder ν ∧ m'.segmented = m.segmented ∧ Migrated ν key r m' chains := by
  have hm := hv.inOrder
  unfold migrateSegmentedSet at h
  split_ifs at h
  obtain ⟨read, hread', h⟩ := bind_eq_ok.1 h
  rw [hread] at hread'
  obtain rfl := Except.ok.inj hread'
  obtain ⟨sources, hplan, h⟩ := bind_eq_ok.1 h
  have hnumbered := hm.numbered hread
  rw [plan_fresh hf.named (OwnManifest.candidates hread) (numbered_bound hnumbered)
    (hf.read hread), filter_flatten_bound] at hplan
  obtain rfl := Except.ok.inj hplan
  obtain ⟨hordered, hcount⟩ := sources_fit (r := r) hv hread
  split_ifs at h with hnone
  · obtain ⟨-, rfl⟩ := Prod.mk.inj (Except.ok.inj h)
    refine ⟨hm, rfl, chains, [], hread, (List.append_nil _).symm, ?_⟩
    rw [hnone]
    exact .nil
  · obtain ⟨root, hroot, hrest⟩ := bind_eq_ok.1 hread
    cases hown : m.own with
    | none =>
      rw [hown] at h hrest
      obtain ⟨adds, hbuild, h⟩ := bind_eq_ok.1 h
      obtain ⟨rfl, rfl⟩ := Prod.mk.inj (Except.ok.inj h)
      obtain rfl := Except.ok.inj hrest
      have hbuilt := build_spec (show (Json.null : Json ν).Ordered from trivial) hordered (by omega)
        hbuild
      have hempty : NumberedLines ν [] := by simp [NumberedLines]
      refine ⟨⟨hm.root, ?_⟩, rfl, [root, adds.map finitize], adds.map finitize, ?_, by simp, ?_⟩
      · intro lines hlines
        obtain rfl := Option.some.inj hlines
        exact ⟨hsegmented, hempty.append hbuilt⟩
      · have hback := hbuilt.readBack
        rw [OwnManifest.read, hroot]
        simp only [hback, bind, Except.bind, pure, Except.pure]
      · rw [List.forall₂_map_right_iff]
        exact hbuilt.carried.imp fun _ _ hc => hc.finitize
    | some lines =>
      rw [hown] at h hrest
      obtain ⟨own, hownRead, hrest⟩ := bind_eq_ok.1 hrest
      obtain rfl := Except.ok.inj hrest
      cases lines with
      | nil => cases h
      | cons line lines =>
        have hl := (hm.own _ hown).2
        have hsize := hv.ownSize _ hown
        simp only at h
        split_ifs at h
        rw [hl.lastSeq (List.cons_ne_nil _ _)] at h
        obtain ⟨adds, hbuild, h⟩ := bind_eq_ok.1 h
        obtain ⟨rfl, rfl⟩ := Prod.mk.inj (Except.ok.inj h)
        have hbuilt := build_spec (prevOf_ordered _) hordered (by omega) hbuild
        refine ⟨⟨hm.root, ?_⟩, rfl, [root, own ++ adds.map finitize], adds.map finitize, ?_,
          by simp, ?_⟩
        · intro lines' hlines
          obtain rfl := Option.some.inj hlines
          exact ⟨hsegmented, hl.append hbuilt⟩
        · rw [OwnManifest.read, hroot]
          simp only [readChain_append hownRead hbuilt, bind, Except.bind, pure, Except.pure]
        · rw [List.forall₂_map_right_iff]
          exact hbuilt.carried.imp fun _ _ hc => hc.finitize

/-- A second migration appends nothing. -/
theorem migrate_again {m : OwnManifest} {adds : List (Json ν)} {before : List (List (Json ν))}
    (hm : m.InOrder ν) (hkey : key ≠ some []) (hnew : r.newId ≠ []) (hdiffers : r.newId ≠ r.oldId)
    (hread : m.read ν key = .ok chains) (hflatten : chains.flatten = before.flatten ++ adds)
    (hcarried : List.Forall₂ (Carries r) (carriedFrom (evidenceOf r before)) adds)
    (site : MigrationSite ν) (hsite : m.segmented = true → site.forestIntact = true) (now : JsString) :
    migrateManifestEvidence site key { r with now := now } m = .ok ([], m) := by
  have hevidence := evidenceOf_carried hdiffers hcarried hflatten
  have hmem : ∀ src ∈ carriedFrom (evidenceOf r chains), ∃ e ∈ chains.flatten, Carries r src e := by
    intro src hsrc
    rw [hevidence] at hsrc
    obtain ⟨e, he, hc⟩ := exists_carried hcarried hsrc
    refine ⟨e, ?_, hc⟩
    rw [hflatten]
    exact List.mem_append_right _ he
  have hkeyOk : validateKeyParam key = .ok key := by rw [validateKeyParam, if_neg hkey]
  rw [migrateManifestEvidence, hkeyOk]
  simp only [bind, Except.bind]
  split_ifs with hsegmented
  · have hplan : planManifestMigration chains r.oldId r.newId key = .ok [] := by
      apply plan_again hnew (OwnManifest.candidates hread) (numbered_bound (hm.numbered hread))
      rwa [filter_flatten_bound]
    rw [migrateSegmentedSet, hsite hsegmented, hread]
    simp only [Bool.not_true, Bool.false_eq_true, if_false, bind, Except.bind, hplan, if_true, pure,
      Except.pure]
  · have hown : m.own = none := by
      rw [Option.eq_none_iff_forall_not_mem]
      intro lines hl
      exact hsegmented (hm.own lines hl).1
    obtain ⟨root, hroot, rfl⟩ := read_root hown hread
    have hbound : [root.filter (isBound r.oldId)].flatten = evidenceOf r [root] := by
      simp [evidenceOf]
    have hplan : planManifestMigration [m.root.filterMap parseJson] r.oldId r.newId key =
        .ok ([] : List (Json ν)) := by
      apply plan_again hnew (root_candidates hm hroot)
      · intro c hc
        obtain rfl := List.mem_singleton.1 hc
        exact (readChain_numbered hm.root hroot).sublist List.filter_sublist
      · intro src hsrc
        rw [hbound] at hsrc
        obtain ⟨e, he, hc⟩ := hmem src hsrc
        rw [List.flatten_singleton] at he
        obtain ⟨line, hline, hp⟩ := mem_readChain hroot he
        refine ⟨e, ?_, hc⟩
        rw [List.flatten_singleton]
        exact List.mem_filterMap.2 ⟨line, hline, hp⟩
    rw [migrateRoot, hm.parsed]
    simp only [bind, Except.bind, hplan, buildReattestationEntries, pure, Except.pure, List.map_nil,
      List.append_nil]

/-- What the migration of a valid manifest leaves. -/
theorem migrate_spec {site : MigrationSite ν} {m m' : OwnManifest} {additions : List (Json ν)}
    (hv : m.Valid ν) (hf : Fresh ν r m) (hread : m.read ν key = .ok chains)
    (h : migrateManifestEvidence site key r m = .ok (additions, m')) :
    key ≠ some [] ∧ m'.InOrder ν ∧ m'.segmented = m.segmented ∧ Migrated ν key r m' chains := by
  have hkey : key ≠ some [] := by
    rintro rfl
    cases h
  have hkeyOk : validateKeyParam key = .ok key := by rw [validateKeyParam, if_neg hkey]
  rw [migrateManifestEvidence, hkeyOk] at h
  simp only [bind, Except.bind] at h
  split_ifs at h with hsegmented
  · exact ⟨hkey, migrateSegmentedSet_spec hv hsegmented hf hread h⟩
  · have hown : m.own = none := by
      rw [Option.eq_none_iff_forall_not_mem]
      intro lines hl
      exact hsegmented (hv.own lines hl).1
    exact ⟨hkey, migrateRoot_spec hv hown hf hread h⟩

/-- The new id's status is that of the last evidence of the P5 gate that came first last. -/
theorem Migrated.status (dateParse : Option (Json ν) → ν) {m m' : OwnManifest} (hf : Fresh ν r m)
    (hm' : m'.InOrder ν) (hread : m.read ν key = .ok chains) (h : Migrated ν key r m' chains) :
    ∃ chains', m'.read ν key = .ok chains' ∧ statusForTicket dateParse chains' r.newId =
      (lastBegun (p5Entries r.oldId chains.flatten)).map statusOf := by
  obtain ⟨chains', adds, hread', hflatten, hcarried⟩ := h
  refine ⟨chains', hread', ?_⟩
  rw [statusForTicket_eq (hm'.numbered hread'), hflatten, status_carried hcarried (hf.read hread)]

/-- The new id has the status of the old one exactly when the P5 gate that came first last has, as
its last evidence, evidence of the status of the last P5 evidence of all; and a second migration
appends nothing. -/
theorem reassignment_keeps_status (dateParse : Option (Json ν) → ν) {site : MigrationSite ν}
    {m m' : OwnManifest} {additions : List (Json ν)} (hv : m.Valid ν) (hf : Fresh ν r m)
    (hread : m.read ν key = .ok chains)
    (h : migrateManifestEvidence site key r m = .ok (additions, m')) :
    ∃ chains', m'.read ν key = .ok chains' ∧
      (statusForTicket dateParse chains' r.newId = statusForTicket dateParse chains r.oldId ↔
        (lastBegun (p5Entries r.oldId chains.flatten)).map statusOf =
          (p5Entries r.oldId chains.flatten).getLast?.map statusOf) ∧
      ∀ (site' : MigrationSite ν) now, (m.segmented = true → site'.forestIntact = true) →
        migrateManifestEvidence site' key { r with now := now } m' = .ok ([], m') := by
  obtain ⟨hkey, hm', hsegmented, hmigrated⟩ := migrate_spec hv hf hread h
  obtain ⟨chains', hread', hstatus⟩ := hmigrated.status dateParse hf hm' hread
  refine ⟨chains', hread', ?_, ?_⟩
  · rw [hstatus, statusForTicket_eq (hv.inOrder.numbered hread)]
  · obtain ⟨_, adds, hread'', hflatten, hcarried⟩ := hmigrated
    intro site' now hsite
    rw [← hsegmented] at hsite
    exact migrate_again hm' hkey hf.named hf.differs hread'' hflatten hcarried site' hsite now

/-! ## Histories of one ticket -/

theorem build_keyless (seq : ν) (prev : Json ν) (minted : Option (Minted ν))
    (sources : List (Json ν)) :
    ∃ additions, buildReattestationEntries none r seq prev minted sources = .ok additions := by
  induction sources generalizing seq prev minted with
  | nil => exact ⟨[], rfl⟩
  | cons src sources ih =>
    obtain ⟨rest, hrest⟩ := ih (JsNumber.add seq (JsNumber.ofNat 1))
      (.str (sha256 (stringify (.obj (reattestation r minted (JsNumber.add seq (JsNumber.ofNat 1))
        prev src))))) none
    refine ⟨.obj (reattestation r minted (JsNumber.add seq (JsNumber.ofNat 1)) prev src) :: rest, ?_⟩
    rw [buildReattestationEntries]
    simp only [signReattestation, sign, bind, Except.bind, hrest, pure, Except.pure]

/-- Without a key the migration of a valid root goes through. -/
theorem migrate_keyless (site : MigrationSite ν) {m : OwnManifest} (hv : m.Valid ν)
    (hsegmented : m.segmented = false) (hf : Fresh ν r m) :
    ∃ additions m', migrateManifestEvidence site none r m = .ok (additions, m') := by
  have hm := hv.inOrder
  have hroot : readChain ν none m.root = .ok (parseTruthy m.root) := rfl
  have hunused : ∀ e ∈ [m.root.filterMap (parseJson (ν := ν))].flatten,
      eqStr (e.get? (js "ticket")) r.newId = false := by
    intro e he
    rw [List.flatten_singleton] at he
    obtain ⟨line, hline, hp⟩ := List.mem_filterMap.1 he
    exact hf.unused line (List.mem_append_left _ hline) e hp
  have hnumbered : ∀ c ∈ [(parseTruthy m.root : List (Json ν)).filter (isBound r.oldId)],
      Numbered c := by
    intro c hc
    obtain rfl := List.mem_singleton.1 hc
    exact (readChain_numbered hm.root hroot).sublist List.filter_sublist
  have hplan := plan_fresh hf.named (root_candidates hm hroot) hnumbered hunused
  obtain ⟨additions, hbuild⟩ := build_keyless (r := r)
    (maxSeq (m.root.filterMap (parseJson (ν := ν)))) (prevOf m.root) none
    (carriedFrom [(parseTruthy m.root : List (Json ν)).filter (isBound r.oldId)].flatten)
  refine ⟨additions, { m with root := m.root ++ additions.map stringify }, ?_⟩
  have hkeyOk : validateKeyParam none = .ok none := rfl
  have hroute : ¬m.segmented = true := by simp [hsegmented]
  rw [migrateManifestEvidence, hkeyOk]
  simp only [bind, Except.bind]
  rw [if_neg hroute, migrateRoot, hm.parsed]
  simp only [bind, Except.bind, hplan, hbuild, pure, Except.pure]

/-- A gate's verdict on the ticket. -/
def verdictEntry (n : Nat) (gate verdict : JsString) (prev : Json Int) : Members Int :=
  [(js "seq", .num n), (js "gate", .str gate), (js "ts", .str (js "t")),
    (js "ticket", .str (js "T1")), (js "data", .obj [(js "verdict", .str verdict)]),
    (js "files", .obj []), (js "prev", prev)]

def verdictEntries (verdicts : List (JsString × JsString)) : List (Json Int) :=
  verdicts.foldl (fun es v =>
    es ++ [.obj (verdictEntry (es.length + 1) v.1 v.2 (prevOf (es.map stringify)))]) []

def verdictLines (verdicts : List (JsString × JsString)) : List JsString :=
  (verdictEntries verdicts).map stringify

/-- The root of a repository in which gates reach their verdicts on one ticket. -/
def historyOf (verdicts : List (JsString × JsString)) : OwnManifest :=
  ⟨false, verdictLines verdicts, none⟩

def noSegment : MigrationSite Int := ⟨true, .null, none, trivial⟩

def toGithub : Reassignment := ⟨js "T1", js "gh:r#1", js "t"⟩

theorem verdictLines_concat (verdicts : List (JsString × JsString)) (v : JsString × JsString) :
    verdictLines (verdicts ++ [v]) = verdictLines verdicts ++
      [stringify (.obj (verdictEntry ((verdictLines verdicts).length + 1) v.1 v.2
        (prevOf (verdictLines verdicts))))] := by
  simp [verdictLines, verdictEntries]

theorem length_verdictLines (verdicts : List (JsString × JsString)) :
    (verdictLines verdicts).length = verdicts.length := by
  induction verdicts using List.reverseRecOn with
  | nil => rfl
  | append_singleton verdicts v ih => simp [verdictLines_concat, ih]

theorem mem_verdictEntries {verdicts : List (JsString × JsString)} {e : Json Int}
    (h : e ∈ verdictEntries verdicts) : ∃ n gate verdict lines,
      e = .obj (verdictEntry n gate verdict (prevOf lines)) := by
  induction verdicts using List.reverseRecOn with
  | nil => cases h
  | append_singleton verdicts v ih =>
    rw [verdictEntries, List.foldl_append] at h
    rcases List.mem_append.1 h with h | h
    · exact ih h
    · exact ⟨_, _, _, _, List.mem_singleton.1 h⟩

theorem verdictEntry_isJson (n : Nat) (gate verdict : JsString) (lines : List JsString) :
    (Json.obj (verdictEntry n gate verdict (prevOf lines))).IsJson := by
  have hprev : (prevOf lines : Json Int).IsJson := by
    unfold prevOf
    cases lines.getLast? <;> exact trivial
  have hkeys : OrderedKeys (verdictEntry n gate verdict (prevOf lines)) := by
    have hd : [js "seq", js "gate", js "ts", js "ticket", js "data", js "files", js "prev"].Nodup ∧
        [js "seq", js "gate", js "ts", js "ticket", js "data", js "files", js "prev"].Pairwise
          fun a b => mustPrecede b a = false := by decide
    exact hd
  have hdata : OrderedKeys [(js "verdict", (Json.str verdict : Json Int))] :=
    ⟨List.nodup_singleton _, List.pairwise_singleton _ _⟩
  refine ⟨hkeys, rfl, trivial, trivial, trivial, ?_, ?_, hprev, trivial⟩
  · exact ⟨hdata, trivial, trivial⟩
  · exact ⟨⟨List.nodup_nil, List.Pairwise.nil⟩, trivial⟩

theorem verdictLines_chain {verdicts : List (JsString × JsString)} (h : verdicts.length < 2 ^ 32) :
    ∃ last : ChainState Int, AcceptsAll ⟨none, false, false⟩ .init (verdictLines verdicts) last := by
  induction verdicts using List.reverseRecOn with
  | nil => exact ⟨.init, rfl⟩
  | append_singleton verdicts v ih =>
    rw [List.length_append, List.length_singleton] at h
    obtain ⟨last, hlast⟩ := ih (by omega)
    have hsize : (verdictLines verdicts).length < 2 ^ 32 := by
      rw [length_verdictLines]
      omega
    obtain ⟨-, hprev, hseq⟩ := numberedLines_of_acceptsAll hsize hlast
    rw [verdictLines_concat]
    refine ⟨⟨some _, ((verdictLines verdicts).length + 1 : Nat),
      if last.prevRawLine.isNone then none else last.firstAnchor, last.seenSignedEntry⟩,
      hlast.snoc ⟨parseJson_stringify (verdictEntry_isJson _ _ _ _), rfl, rfl, ?_, ?_, ?_, ?_, rfl,
        rfl, rfl⟩⟩
    · have hpos : ¬((((verdictLines verdicts).length + 1 : Nat) : Int) < 1) := by omega
      exact decide_eq_false hpos
    · rw [linksTo_iff, hprev]
      simp only [verdictEntry, prevOf, linkValue]
      cases (verdictLines verdicts).getLast? <;> rfl
    · rw [hprev]
      by_cases hnil : verdictLines verdicts = []
      · rw [hnil]
        rfl
      · rw [hseq hnil, List.getLast?_eq_some_getLast hnil]
        rfl
    · have hanchor : (verdictEntry ((verdictLines verdicts).length + 1) v.1 v.2
          (prevOf (verdictLines verdicts))).lookup (js "anchor") = none := rfl
      rw [hanchor, Option.isSome_none, Bool.and_false]

/-- The history is a valid manifest that has nothing under the new id. -/
theorem historyOf_valid {verdicts : List (JsString × JsString)} (h : verdicts.length < 2 ^ 32) :
    (historyOf verdicts).Valid Int ∧ Fresh Int toGithub (historyOf verdicts) := by
  have hsize : (verdictLines verdicts).length < 2 ^ 32 := by
    rw [length_verdictLines]
    exact h
  refine ⟨⟨⟨(fun ha => by cases ha), verdictLines_chain h⟩, (by simp [historyOf]), hsize,
    (by simp [historyOf])⟩, by decide, by decide, ?_⟩
  intro line hline e he
  have hline : line ∈ verdictLines verdicts := by simpa [historyOf] using hline
  obtain ⟨v, hv, rfl⟩ := List.mem_map.1 hline
  obtain ⟨n, gate, verdict, lines, rfl⟩ := mem_verdictEntries hv
  rw [parseJson_stringify (verdictEntry_isJson _ _ _ _)] at he
  obtain rfl := Option.some.inj he
  rfl

theorem historyOf_read (verdicts : List (JsString × JsString)) :
    (historyOf verdicts).read Int none = .ok [verdictEntries verdicts] := by
  have hall : ∀ es : List (Json Int), (∀ e ∈ es, e ∈ verdictEntries verdicts) →
      parseTruthy (es.map stringify) = es := by
    intro es hes
    induction es with
    | nil => rfl
    | cons e es ih =>
      obtain ⟨n, gate, verdict, lines, rfl⟩ := mem_verdictEntries (hes e List.mem_cons_self)
      have ht : truthy (.obj (verdictEntry n gate verdict (prevOf lines)) : Json Int) = true := rfl
      have htail := ih fun e' he' => hes e' (List.mem_cons_of_mem _ he')
      rw [List.map_cons, parseTruthy, List.filterMap_cons,
        parseJson_stringify (verdictEntry_isJson _ _ _ _), Option.filter_some, if_pos ht]
      exact congrArg (Json.obj (verdictEntry n gate verdict (prevOf lines)) :: ·) htail
  exact congrArg (fun es => Except.ok [es]) (hall (verdictEntries verdicts) fun _ he => he)

theorem historyOf_status (verdicts : List (JsString × JsString)) (h : verdicts.length < 2 ^ 32) :
    statusForTicket (fun _ => 0) [verdictEntries verdicts] toGithub.oldId =
      (p5Entries toGithub.oldId (verdictEntries verdicts)).getLast?.map statusOf := by
  have hnumbered := (historyOf_valid h).1.inOrder.numbered (historyOf_read verdicts)
  rw [statusForTicket_eq hnumbered, List.flatten_singleton]

/-- A blocked gate that is cleared: the new id has passed, as the old one has. -/
theorem reassignment_keeps_status_cleared : ∃ m' : OwnManifest, ∃ additions : List (Json Int),
    ∃ chains chains' : List (List (Json Int)),
      (historyOf [(js "p5", js "blocked"), (js "p5", js "clear")]).read Int none = .ok chains ∧
      migrateManifestEvidence noSegment none toGithub
        (historyOf [(js "p5", js "blocked"), (js "p5", js "clear")]) = .ok (additions, m') ∧
      m'.read Int none = .ok chains' ∧
      statusForTicket (fun _ => 0) chains toGithub.oldId = some .p5Pass ∧
      statusForTicket (fun _ => 0) chains' toGithub.newId = some .p5Pass := by
  have hsize : [(js "p5", js "blocked"), (js "p5", js "clear")].length < 2 ^ 32 := by decide
  obtain ⟨hv, hf⟩ := historyOf_valid hsize
  have hread := historyOf_read [(js "p5", js "blocked"), (js "p5", js "clear")]
  obtain ⟨additions, m', hm'⟩ := migrate_keyless noSegment hv rfl hf
  obtain ⟨chains', hread', hiff, -⟩ := reassignment_keeps_status (fun _ => 0) hv hf hread hm'
  have hold : statusForTicket (fun _ => 0)
      [verdictEntries [(js "p5", js "blocked"), (js "p5", js "clear")]] toGithub.oldId =
        some .p5Pass := by
    rw [historyOf_status _ hsize]
    decide +kernel
  refine ⟨m', additions, _, chains', hread, hm', hread', hold, ?_⟩
  rw [← hold]
  apply hiff.2
  rw [List.flatten_singleton]
  decide +kernel

/-- P5 is cleared, blocked in the prosecution and cleared again: what is carried over last is the
prosecution's evidence. -/
theorem cleared_ticket_fails : ∃ m m' : OwnManifest, ∃ additions : List (Json Int),
    ∃ chains chains' : List (List (Json Int)),
      m = historyOf [(js "p5", js "clear"), (js "prosecution", js "blocked"),
        (js "p5", js "clear")] ∧
      m.Valid Int ∧ Fresh Int toGithub m ∧ m.read Int none = .ok chains ∧
      migrateManifestEvidence noSegment none toGithub m = .ok (additions, m') ∧
      m'.read Int none = .ok chains' ∧
      statusForTicket (fun _ => 0) chains toGithub.oldId = some .p5Pass ∧
      statusForTicket (fun _ => 0) chains' toGithub.newId = some .p5Fail := by
  have hsize : [(js "p5", js "clear"), (js "prosecution", js "blocked"),
      (js "p5", js "clear")].length < 2 ^ 32 := by decide
  obtain ⟨hv, hf⟩ := historyOf_valid hsize
  have hread := historyOf_read [(js "p5", js "clear"), (js "prosecution", js "blocked"),
    (js "p5", js "clear")]
  obtain ⟨additions, m', hm'⟩ := migrate_keyless noSegment hv rfl hf
  obtain ⟨-, hinOrder, -, hmigrated⟩ := migrate_spec hv hf hread hm'
  obtain ⟨chains', hread', hstatus⟩ :=
    hmigrated.status (fun _ => 0) hf hinOrder hread
  refine ⟨_, m', additions, _, chains', rfl, hv, hf, hread, hm', hread', ?_, ?_⟩
  · rw [historyOf_status _ hsize]
    decide +kernel
  · rw [hstatus, List.flatten_singleton]
    decide +kernel

end Adlc.TicketSync
