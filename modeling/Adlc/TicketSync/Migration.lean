import Adlc.GateManifest.Valid
import Adlc.TicketSync.Reassign

namespace Adlc.TicketSync

open Adlc.Framework Adlc.Tickets Adlc.GateManifest

variable {ν : Type} [JsNumber ν]

/-! ## The entries that are built -/

omit [JsNumber ν] in
theorem ordered_spread {v : Option (Json ν)} (h : ∀ w, v = some w → w.Ordered) :
    (Json.obj (spread v)).Ordered := by
  have hnil : (Json.obj ([] : Members ν)).Ordered :=
    ⟨⟨List.nodup_nil, List.Pairwise.nil⟩, trivial⟩
  cases v with
  | none => exact hnil
  | some w =>
    have hw := h w rfl
    cases w with
    | obj ms => exact hw
    | arr xs =>
      apply Json.Ordered.create
      intro p hp
      obtain ⟨q, hq, rfl⟩ := List.mem_map.1 hp
      exact (elemsOrdered_iff xs).1 hw _ (List.fst_mem_of_mem_zipIdx hq)
    | str s =>
      apply Json.Ordered.create
      intro p hp
      obtain ⟨q, -, rfl⟩ := List.mem_map.1 hp
      exact trivial
    | _ => exact hnil

/-- `e` carries the evidence of `src` over to the new id. -/
structure Carries (r : Reassignment) (src e : Json ν) : Prop where
  ticket : e.get? (js "ticket") = some (.str r.newId)
  gate : e.get? (js "gate") = some (.str (gateOf src))
  origin : dataField e (js "migratedFrom") = some (.str r.oldId)
  hash : dataField e (js "migratedEvidenceHash") = some (.str (sha256 (stringify src)))
  verdict : ∀ s, eqStr (verdictOf e) s = eqStr (verdictOf src) s

theorem Carries.statusOf {r : Reassignment} {src e : Json ν} (h : Carries r src e) :
    statusOf e = statusOf src := by
  simp only [TicketSync.statusOf, h.verdict]

theorem dataField_finitize (e : Json ν) (k : JsString) :
    dataField (finitize e) k = (dataField e k).map finitize := by
  rw [dataField, dataField, get?_finitize]
  cases e.get? (js "data") with
  | none => rfl
  | some d => exact get?_finitize d k

theorem Carries.finitize {r : Reassignment} {src e : Json ν} (h : Carries r src e) :
    Carries r src (finitize e) := by
  refine ⟨?_, ?_, ?_, ?_, ?_⟩
  · rw [get?_finitize, h.ticket]
    rfl
  · rw [get?_finitize, h.gate]
    rfl
  · rw [dataField_finitize, h.origin]
    rfl
  · rw [dataField_finitize, h.hash]
    rfl
  · intro s
    have hv : verdictOf (Tickets.finitize e) = (verdictOf e).map Tickets.finitize :=
      dataField_finitize e (js "verdict")
    rw [hv, eqStr_finitize, h.verdict]

theorem natText_ne_verdict (n : Nat) : natText n ≠ js "verdict" := by
  intro h
  have hv : js "verdict" = 118 :: js "erdict" := by decide +kernel
  rcases natText_cases n with e | ⟨c, s, e, hc, -, -⟩
  · rw [h, hv] at e
    exact absurd (List.cons.inj e).1 (by decide)
  · rw [h, hv] at e
    obtain ⟨rfl, -⟩ := List.cons.inj e
    exact absurd hc (by decide)

omit [JsNumber ν] in
/-- A verdict is a field of an object. -/
theorem lookup_spread_verdict (v : Option (Json ν)) :
    (spread v).lookup (js "verdict") = v.bind (·.get? (js "verdict")) := by
  have hnone : ∀ ps : List (Json ν × Nat),
      (Members.create (ps.map fun p => (natText p.2, p.1))).lookup (js "verdict") = none := by
    intro ps
    rw [List.lookup_eq_none_iff]
    intro p hp
    have hkey : p.1 ∈ (Members.create (ps.map fun p => (natText p.2, p.1))).keys :=
      List.mem_map.2 ⟨p, hp, rfl⟩
    rw [mem_keys_create] at hkey
    obtain ⟨q, hq, hk⟩ := List.mem_map.1 hkey
    obtain ⟨q', -, rfl⟩ := List.mem_map.1 hq
    have hne := natText_ne_verdict q'.2
    simp only at hk
    rw [hk] at hne
    simpa using Ne.symm hne
  cases v with
  | none => rfl
  | some w =>
    cases w with
    | arr xs => exact hnone xs.zipIdx
    | str s =>
      have hmap : (s.zipIdx.map fun p => (natText p.2, (Json.str [p.1] : Json ν))) =
          (s.zipIdx.map fun p => ((Json.str [p.1] : Json ν), p.2)).map fun p =>
            (natText p.2, p.1) := by
        rw [List.map_map]
        rfl
      rw [spread, hmap]
      exact hnone _
    | _ => rfl

omit [JsNumber ν] in
theorem mintedFields_cases (minted : Option (Minted ν)) :
    (minted.map Minted.fields).getD [] = [] ∨
    (∃ m, minted = some m ∧ (minted.map Minted.fields).getD [] = [(js "anchor", m.anchor)]) ∨
      ∃ m b, minted = some m ∧
        (minted.map Minted.fields).getD [] = [(js "anchor", m.anchor), (js "branch", .str b)] := by
  cases minted with
  | none => exact .inl rfl
  | some m =>
    cases hb : m.branch with
    | none => exact .inr (.inl ⟨m, rfl, by simp [Minted.fields, hb]⟩)
    | some b => exact .inr (.inr ⟨m, b, rfl, by simp [Minted.fields, hb]⟩)

section

variable {r : Reassignment} {minted : Option (Minted ν)} {seq : ν} {prev src : Json ν}

theorem reattestedData_ordered (hs : src.Ordered) : (Json.obj (reattestedData r src)).Ordered := by
  apply Json.Ordered.set
  · apply Json.Ordered.set
    · exact ordered_spread fun w hw => Json.Ordered.get hs hw
    · exact trivial
  · exact trivial

theorem reattestation_ordered (hp : prev.Ordered) (hs : src.Ordered) :
    (Json.obj (reattestation r minted seq prev src)).Ordered := by
  have hfiles : (filesOrEmpty src).Ordered :=
    orElse_ordered (fun w hw => Json.Ordered.get hs hw) ⟨⟨List.nodup_nil, List.Pairwise.nil⟩, trivial⟩
  have hdata := reattestedData_ordered (r := r) hs
  unfold reattestation
  rcases mintedFields_cases minted with h | ⟨m, -, h⟩ | ⟨m, b, -, h⟩ <;> rw [h]
  · refine ⟨?_, trivial, trivial, trivial, trivial, hdata, hfiles, hp, trivial⟩
    simp only [OrderedKeys, Members.keys, List.map_cons, List.map_nil, List.cons_append,
      List.nil_append]
    decide +kernel
  · refine ⟨?_, trivial, m.ordered, trivial, trivial, trivial, hdata, hfiles, hp, trivial⟩
    simp only [OrderedKeys, Members.keys, List.map_cons, List.map_nil, List.cons_append,
      List.nil_append]
    decide +kernel
  · refine ⟨?_, trivial, m.ordered, trivial, trivial, trivial, trivial, hdata, hfiles, hp, trivial⟩
    simp only [OrderedKeys, Members.keys, List.map_cons, List.map_nil, List.cons_append,
      List.nil_append]
    decide +kernel

/-- The fields of an entry that is built, whether or not it begins a segment. -/
theorem lookup_reattestation {k : JsString} (hseq : k ≠ js "seq") (ha : k ≠ js "anchor")
    (hb : k ≠ js "branch") : (reattestation r minted seq prev src).lookup k =
      [(js "gate", Json.str (gateOf src)), (js "ts", .str r.now), (js "ticket", .str r.newId),
        (js "data", .obj (reattestedData r src)), (js "files", filesOrEmpty src),
        (js "prev", prev)].lookup k := by
  unfold reattestation
  rcases mintedFields_cases minted with h | ⟨m, -, h⟩ | ⟨m, b, -, h⟩ <;> rw [h] <;>
    simp [List.lookup_cons, beq_eq_false_iff_ne.2 hseq, beq_eq_false_iff_ne.2 ha,
      beq_eq_false_iff_ne.2 hb]

theorem carries_of_lookup {entry : Members ν}
    (h : ∀ k, k ≠ js "sigVersion" → k ≠ js "sig" →
      entry.lookup k = (reattestation r minted seq prev src).lookup k) :
    Carries r src (.obj entry) ∧ (Json.obj entry).get? (js "seq") = some (.num seq) := by
  have hget : ∀ k, k ≠ js "sigVersion" → k ≠ js "sig" → k ≠ js "seq" → k ≠ js "anchor" →
      k ≠ js "branch" → (Json.obj entry).get? k =
        [(js "gate", Json.str (gateOf src)), (js "ts", .str r.now), (js "ticket", .str r.newId),
          (js "data", .obj (reattestedData r src)), (js "files", filesOrEmpty src),
          (js "prev", prev)].lookup k :=
    fun k h1 h2 h3 h4 h5 => (h k h1 h2).trans (lookup_reattestation h3 h4 h5)
  have hdata : (Json.obj entry).get? (js "data") = some (.obj (reattestedData r src)) :=
    hget _ (by decide +kernel) (by decide +kernel) (by decide +kernel) (by decide +kernel)
      (by decide +kernel)
  have hfield : ∀ k, dataField (.obj entry) k = (reattestedData r src).lookup k := by
    intro k
    rw [dataField, hdata]
    rfl
  refine ⟨⟨?_, ?_, ?_, ?_, ?_⟩, ?_⟩
  · exact hget _ (by decide +kernel) (by decide +kernel) (by decide +kernel) (by decide +kernel)
      (by decide +kernel)
  · exact hget _ (by decide +kernel) (by decide +kernel) (by decide +kernel) (by decide +kernel)
      (by decide +kernel)
  · rw [hfield, reattestedData, Members.lookup_set, if_neg (by decide +kernel), Members.lookup_set,
      if_pos rfl]
  · rw [hfield, reattestedData, Members.lookup_set, if_pos rfl]
  · intro s
    have hverdict : verdictOf (.obj entry) = verdictOf src := by
      rw [verdictOf, hdata, Option.bind_some, Json.get?, reattestedData, Members.lookup_set,
        if_neg (by decide +kernel), Members.lookup_set, if_neg (by decide +kernel),
        lookup_spread_verdict]
      rfl
    rw [hverdict]
  · exact h _ (by decide +kernel) (by decide +kernel)

end

/-- What is appended: an entry for each source in turn, signed if there is a key, and numbered on. -/
structure Reattested (key : Option JsString) (r : Reassignment) (n : Nat)
    (sources additions : List (Json ν)) : Prop where
  carried : List.Forall₂ (fun src e => Carries r src e) sources additions
  entries : ∀ e ∈ additions, (∃ ms, e = .obj ms) ∧ e.Ordered ∧
    ∀ k ∈ key, entrySigValid k e = .ok true
  numbers : ∀ i e, additions[i]? = some e → SeqIs e (n + i + 1)

theorem build_spec {key : Option JsString} {r : Reassignment} {n : Nat} {prev : Json ν}
    {minted : Option (Minted ν)} {sources additions : List (Json ν)} (hp : prev.Ordered)
    (hs : ∀ src ∈ sources, src.Ordered) (hn : n + sources.length ≤ 2 ^ 53)
    (h : buildReattestationEntries key r (JsNumber.ofNat n) prev minted sources = .ok additions) :
    Reattested key r n sources additions := by
  induction sources generalizing n prev minted additions with
  | nil =>
    rw [buildReattestationEntries, Except.ok.injEq] at h
    subst h
    exact ⟨.nil, by simp, by simp⟩
  | cons src sources ih =>
    rw [List.length_cons] at hn
    obtain ⟨signed, hsign, h⟩ := bind_eq_ok.1 h
    obtain ⟨rest, hrest, h⟩ := bind_eq_ok.1 h
    obtain rfl := Except.ok.inj h
    rw [JsNumber.add_ofNat _ _ (by omega)] at hsign hrest
    have hordered : (Json.obj (reattestation r minted (JsNumber.ofNat (n + 1)) prev src)).Ordered :=
      reattestation_ordered hp (hs src List.mem_cons_self)
    have hnosig : (reattestation r minted (JsNumber.ofNat (n + 1)) prev src).lookup (js "sig") =
        none := by
      rw [lookup_reattestation (by decide +kernel) (by decide +kernel) (by decide +kernel)]
      rfl
    obtain ⟨hso, hlookup, hvalid⟩ := sign_spec hordered hnosig hsign
    obtain ⟨hcarries, hseq⟩ := carries_of_lookup hlookup
    have htail := ih (show (Json.str _ : Json ν).Ordered from trivial)
      (fun s hs' => hs s (List.mem_cons_of_mem _ hs')) (by omega) hrest
    refine ⟨.cons hcarries htail.carried, ?_, ?_⟩
    · intro e he
      rcases List.mem_cons.1 he with rfl | he
      · exact ⟨⟨signed, rfl⟩, hso, hvalid⟩
      · exact htail.entries e he
    · intro i e he
      cases i with
      | zero =>
        cases he
        exact ⟨hseq, by omega⟩
      | succ i =>
        have hi := htail.numbers i e he
        have heq : n + 1 + i + 1 = n + (i + 1) + 1 := by omega
        rwa [heq] at hi

/-! ## A manifest whose chains are valid -/

/-- Every line is an entry, and its number is that of its place. -/
def NumberedLines (ν : Type) [JsNumber ν] (lines : List JsString) : Prop :=
  ∀ i line, lines[i]? = some line → ∃ ms : Members ν, parseJson line = some (.obj ms) ∧
    SeqIs (.obj ms : Json ν) (i + 1)

/-- The chains verify, and they are lists that the language can hold. -/
structure OwnManifest.Valid (ν : Type) [JsNumber ν] (m : OwnManifest) : Prop where
  root : ChainOk ν ⟨none, false, false⟩ m.root
  own : ∀ lines ∈ m.own, m.segmented = true ∧ ChainOk ν ⟨none, false, true⟩ lines
  rootSize : m.root.length < 2 ^ 32
  ownSize : ∀ lines ∈ m.own, lines.length < 2 ^ 32

theorem numberedLines_of_acceptsAll {opts : ChainOptions} {lines : List JsString}
    {last : ChainState ν} (hsize : lines.length < 2 ^ 32) (h : AcceptsAll opts .init lines last) :
    NumberedLines ν lines ∧ last.prevRawLine = lines.getLast? ∧
      (lines ≠ [] → last.prevSeq = JsNumber.ofNat lines.length) := by
  induction lines using List.reverseRecOn generalizing last with
  | nil =>
    rw [AcceptsAll] at h
    subst h
    exact ⟨by simp [NumberedLines], rfl, fun h => absurd rfl h⟩
  | append_singleton lines line ih =>
    rw [List.length_append, List.length_singleton] at hsize
    obtain ⟨mid, ms, hmid, ha⟩ := h.last
    obtain ⟨hall, hprev, hseq⟩ := ih (by omega) hmid
    have hnum : last.prevSeq = JsNumber.ofNat (lines.length + 1) := by
      rw [ha.contiguous, hprev]
      cases lines using List.reverseRecOn with
      | nil => rfl
      | append_singleton lines l =>
        rw [List.getLast?_concat, hseq (by simp)]
        simp only [Option.isNone_some, Bool.false_eq_true, if_false]
        exact JsNumber.add_ofNat _ _ (by omega)
    refine ⟨?_, ?_, ?_⟩
    · intro i l hl
      by_cases hi : i < lines.length
      · rw [List.getElem?_append_left hi] at hl
        exact hall i l hl
      · have hlt := (List.getElem?_eq_some_iff.1 hl).1
        rw [List.length_append, List.length_singleton] at hlt
        obtain rfl : i = lines.length := by omega
        rw [List.getElem?_concat_length] at hl
        obtain rfl := Option.some.inj hl
        refine ⟨ms, ha.parsed, ?_, by omega⟩
        rw [← hnum]
        exact ha.seq
    · rw [ha.line, List.getLast?_concat]
    · intro _
      rw [hnum, List.length_append, List.length_singleton]

theorem numberedLines_of_chainOk {opts : ChainOptions} {lines : List JsString}
    (hsize : lines.length < 2 ^ 32) (h : ChainOk ν opts lines) : NumberedLines ν lines := by
  obtain ⟨-, last, hall⟩ := h
  exact (numberedLines_of_acceptsAll hsize hall).1

theorem SeqIs.unique {e : Json ν} {m n : Nat} (hm : SeqIs e m) (hn : SeqIs e n) : m = n := by
  have heq := hm.1.symm.trans hn.1
  simp only [Option.some.injEq, Json.num.injEq] at heq
  exact ofNat_inj hm.2 hn.2 heq

/-- The entries of the lines. -/
theorem NumberedLines.entries {lines : List JsString} (h : NumberedLines ν lines) :
    ∃ es : List (Json ν), lines.map parseJson = es.map some ∧ lines.filterMap parseJson = es ∧
      parseTruthy lines = es ∧ ∀ i e, es[i]? = some e → SeqIs e (i + 1) := by
  have hall : ∀ line ∈ lines, ∃ e : Json ν, parseJson line = some e ∧ truthy e = true := by
    intro line hline
    obtain ⟨i, hi⟩ := List.mem_iff_getElem?.1 hline
    obtain ⟨ms, hms, -⟩ := h i line hi
    exact ⟨_, hms, rfl⟩
  have hmap : ∀ lines : List JsString, (∀ line ∈ lines, ∃ e : Json ν, parseJson line = some e ∧
      truthy e = true) → ∃ es : List (Json ν), lines.map parseJson = es.map some ∧
        lines.filterMap parseJson = es ∧ parseTruthy lines = es := by
    intro lines hlines
    induction lines with
    | nil => exact ⟨[], rfl, rfl, rfl⟩
    | cons line lines ih =>
      obtain ⟨e, he, ht⟩ := hlines line List.mem_cons_self
      obtain ⟨es, h1, h2, h3⟩ := ih fun l hl => hlines l (List.mem_cons_of_mem _ hl)
      refine ⟨e :: es, ?_, ?_, ?_⟩
      · rw [List.map_cons, List.map_cons, he, h1]
      · rw [List.filterMap_cons, he, h2]
      · rw [parseTruthy, List.filterMap_cons, he, Option.filter_some, if_pos ht]
        exact congrArg (e :: ·) h3
  obtain ⟨es, h1, h2, h3⟩ := hmap lines hall
  refine ⟨es, h1, h2, h3, ?_⟩
  intro i e he
  have hsome : (lines.map (parseJson (ν := ν)))[i]? = some (some e) := by
    rw [h1, List.getElem?_map, he]
    rfl
  rw [List.getElem?_map] at hsome
  obtain ⟨line, hline, hp⟩ := Option.map_eq_some_iff.1 hsome
  obtain ⟨ms, hms, hseq⟩ := h i line hline
  rw [hms] at hp
  obtain rfl := Option.some.inj hp
  exact hseq

theorem numbered_of_places {es : List (Json ν)} (h : ∀ i e, es[i]? = some e → SeqIs e (i + 1)) :
    Numbered es := by
  constructor
  · intro e he
    obtain ⟨i, hi⟩ := List.mem_iff_getElem?.1 he
    exact ⟨_, h i e hi⟩
  · rw [List.pairwise_iff_getElem]
    intro i j hi hj hij m n hm hn
    have hmi := hm.unique (h i _ (List.getElem?_eq_getElem hi))
    have hnj := hn.unique (h j _ (List.getElem?_eq_getElem hj))
    omega

/-! ## What is read of a chain -/

theorem truthy_of_isBound {e : Json ν} {ticketId : JsString} (h : isBound ticketId e = true) :
    truthy e = true := by
  cases e with
  | obj ms => rfl
  | _ => simp [isBound, Json.get?, eqStr] at h

theorem isBound_parseTruthy {line : JsString} {lines : List JsString} {e : Json ν}
    {ticketId : JsString} (hp : parseJson line = some e) :
    (parseTruthy (line :: lines)).filter (isBound ticketId) =
      if isBound ticketId e = true then e :: (parseTruthy lines).filter (isBound ticketId)
      else (parseTruthy lines).filter (isBound ticketId) := by
  have hcons : (parseTruthy (line :: lines) : List (Json ν)) =
      if truthy e = true then e :: parseTruthy lines else parseTruthy lines := by
    rw [parseTruthy, List.filterMap_cons, hp, Option.filter_some]
    split_ifs <;> rfl
  rw [hcons]
  by_cases hb : isBound ticketId e = true
  · rw [if_pos (truthy_of_isBound hb), if_pos hb, List.filter_cons, if_pos hb]
  · rw [if_neg hb]
    split_ifs
    · rw [List.filter_cons, if_neg hb]
    · rfl

/-- The entries of a whole chain, against what is read of it. -/
theorem candidatesOf_lines {key : Option JsString} {lines : List JsString} {es : List (Json ν)}
    (oldId : JsString) (hall : ∀ line ∈ lines, ∃ e : Json ν, parseJson line = some e)
    (h : readChain ν key lines = .ok es) :
    candidatesOf key oldId (lines.filterMap parseJson) = .ok (es.filter (isBound oldId)) := by
  cases key with
  | none =>
    obtain rfl := Except.ok.inj h
    induction lines with
    | nil => rfl
    | cons line lines ih =>
      obtain ⟨e, he⟩ := hall line List.mem_cons_self
      rw [List.filterMap_cons, he, candidatesOf, isBound_parseTruthy he,
        ih (fun l hl => hall l (List.mem_cons_of_mem _ hl)) rfl]
      cases hb : isBound oldId e <;> simp [isCandidate, hb, bind, Except.bind, pure, Except.pure]
  | some key =>
    obtain ⟨kept, hkept, rfl⟩ := map_eq_ok.1 h
    clear h
    induction lines generalizing kept with
    | nil =>
      obtain rfl := Except.ok.inj hkept
      rfl
    | cons line lines ih =>
      rw [signedEntriesOnly] at hkept
      obtain ⟨e, he⟩ := hall line List.mem_cons_self
      rw [he] at hkept
      obtain ⟨valid, hvalid, hkept⟩ := bind_eq_ok.1 hkept
      obtain ⟨rest, hrest, hkept⟩ := bind_eq_ok.1 hkept
      obtain rfl := Except.ok.inj hkept
      have htail := ih (fun l hl => hall l (List.mem_cons_of_mem _ hl)) rest hrest
      rw [List.filterMap_cons, he, candidatesOf, htail]
      cases hb : isBound oldId e <;> cases valid <;>
        simp [isCandidate, hb, hvalid, isBound_parseTruthy he, bind, Except.bind, pure, Except.pure]

/-- What is read of a chain holds only what can be carried over. -/
theorem candidatesOf_read {key : Option JsString} {lines : List JsString} {es : List (Json ν)}
    (oldId : JsString) (h : readChain ν key lines = .ok es) :
    candidatesOf key oldId es = .ok (es.filter (isBound oldId)) := by
  have hcandidates : ∀ es : List (Json ν), (∀ e ∈ es, ∀ k ∈ key, entrySigValid k e = .ok true) →
      candidatesOf key oldId es = .ok (es.filter (isBound oldId)) := by
    intro es hes
    induction es with
    | nil => rfl
    | cons e es ih =>
      rw [candidatesOf, ih fun e' he' => hes e' (List.mem_cons_of_mem _ he')]
      have hone : isCandidate key oldId e = .ok (isBound oldId e) := by
        unfold isCandidate
        cases hb : isBound oldId e
        · rfl
        · cases key with
          | none => rfl
          | some key => exact hes e List.mem_cons_self key rfl
      rw [hone]
      cases hb : isBound oldId e <;> simp [hb, bind, Except.bind, pure, Except.pure]
  apply hcandidates
  cases key with
  | none => simp
  | some key =>
    obtain ⟨kept, hkept, rfl⟩ := map_eq_ok.1 h
    clear h hcandidates
    induction lines generalizing kept with
    | nil =>
      obtain rfl := Except.ok.inj hkept
      simp [parseTruthy]
    | cons line lines ih =>
      rw [signedEntriesOnly] at hkept
      cases he : parseJson (ν := ν) line with
      | none =>
        rw [he] at hkept
        cases hkept
      | some e =>
        rw [he] at hkept
        obtain ⟨valid, hvalid, hkept⟩ := bind_eq_ok.1 hkept
        obtain ⟨rest, hrest, hkept⟩ := bind_eq_ok.1 hkept
        obtain rfl := Except.ok.inj hkept
        have htail := ih rest hrest
        cases valid with
        | false => exact htail
        | true =>
          intro e' he' k hk
          rw [← Option.some.inj hk]
          obtain ⟨l, hl, hp⟩ := List.mem_filterMap.1 he'
          rcases List.mem_cons.1 hl with rfl | hl
          · rw [he, Option.filter_some] at hp
            split_ifs at hp
            obtain rfl := Option.some.inj hp
            exact hvalid
          · exact htail e' (List.mem_filterMap.2 ⟨l, hl, hp⟩) key rfl

theorem signedEntriesOnly_append {key : JsString} {a b kept kept' : List JsString}
    (ha : signedEntriesOnly ν key a = .ok kept) (hb : signedEntriesOnly ν key b = .ok kept') :
    signedEntriesOnly ν key (a ++ b) = .ok (kept ++ kept') := by
  induction a generalizing kept with
  | nil =>
    obtain rfl := Except.ok.inj ha
    exact hb
  | cons line a ih =>
    rw [signedEntriesOnly] at ha
    rw [List.cons_append, signedEntriesOnly]
    cases he : parseJson (ν := ν) line with
    | none =>
      rw [he] at ha
      cases ha
    | some e =>
      rw [he] at ha
      obtain ⟨valid, hvalid, ha⟩ := bind_eq_ok.1 ha
      obtain ⟨rest, hrest, ha⟩ := bind_eq_ok.1 ha
      obtain rfl := Except.ok.inj ha
      simp only [hvalid, ih hrest, bind, Except.bind, pure, Except.pure]
      cases valid <;> rfl

theorem parseTruthy_append (a b : List JsString) :
    (parseTruthy (a ++ b) : List (Json ν)) = parseTruthy a ++ parseTruthy b := by
  rw [parseTruthy, List.filterMap_append]
  rfl

/-- An entry is read back from its line. -/
theorem parseJson_line {e : Json ν} (h : e.Ordered) : parseJson (stringify e) = some (finitize e) := by
  rw [← stringify_finitize]
  exact parseJson_stringify (finitize_isJson h)

theorem signedEntriesOnly_sublist {key : JsString} {lines kept : List JsString}
    (h : signedEntriesOnly ν key lines = .ok kept) : kept.Sublist lines := by
  induction lines generalizing kept with
  | nil =>
    obtain rfl := Except.ok.inj h
    exact List.Sublist.refl _
  | cons line lines ih =>
    rw [signedEntriesOnly] at h
    cases he : parseJson (ν := ν) line with
    | none =>
      rw [he] at h
      cases h
    | some e =>
      rw [he] at h
      obtain ⟨valid, -, h⟩ := bind_eq_ok.1 h
      obtain ⟨rest, hrest, h⟩ := bind_eq_ok.1 h
      obtain rfl := Except.ok.inj h
      cases valid with
      | false => exact (ih hrest).cons line
      | true => exact (ih hrest).cons_cons line

theorem readChain_numbered {key : Option JsString} {lines : List JsString} {es : List (Json ν)}
    (hl : NumberedLines ν lines) (h : readChain ν key lines = .ok es) : Numbered es := by
  obtain ⟨all, -, -, htruthy, hplaces⟩ := hl.entries
  have hall := numbered_of_places hplaces
  cases key with
  | none =>
    obtain rfl := Except.ok.inj h
    rwa [htruthy]
  | some key =>
    obtain ⟨kept, hkept, rfl⟩ := map_eq_ok.1 h
    apply hall.sublist
    rw [← htruthy]
    exact (signedEntriesOnly_sublist hkept).filterMap _

section Appended

variable {key : Option JsString} {r : Reassignment} {n : Nat} {lines : List JsString}
  {sources additions es : List (Json ν)}

theorem Reattested.readBack (h : Reattested key r n sources additions) :
    readChain ν key (additions.map stringify) = .ok (additions.map finitize) := by
  have hparse : ∀ adds : List (Json ν), (∀ e ∈ adds, (∃ ms, e = .obj ms) ∧ e.Ordered ∧
      ∀ k ∈ key, entrySigValid k e = .ok true) →
      (parseTruthy (adds.map stringify) : List (Json ν)) = adds.map finitize := by
    intro adds hadds
    induction adds with
    | nil => rfl
    | cons e adds ih =>
      obtain ⟨⟨ms, rfl⟩, ho, -⟩ := hadds e List.mem_cons_self
      have htail := ih fun e' he' => hadds e' (List.mem_cons_of_mem _ he')
      have ht : truthy (finitize (.obj ms) : Json ν) = true := rfl
      rw [List.map_cons, parseTruthy, List.filterMap_cons, parseJson_line ho, Option.filter_some,
        if_pos ht]
      exact congrArg (finitize (.obj ms) :: ·) htail
  cases key with
  | none => exact congrArg Except.ok (hparse additions h.entries)
  | some key =>
    have hkept : ∀ adds : List (Json ν), (∀ e ∈ adds, (∃ ms, e = .obj ms) ∧ e.Ordered ∧
        ∀ k ∈ some key, entrySigValid k e = .ok true) →
        signedEntriesOnly ν key (adds.map stringify) = .ok (adds.map stringify) := by
      intro adds hadds
      induction adds with
      | nil => rfl
      | cons e adds ih =>
        obtain ⟨⟨ms, rfl⟩, ho, hvalid⟩ := hadds e List.mem_cons_self
        have htail := ih fun e' he' => hadds e' (List.mem_cons_of_mem _ he')
        rw [List.map_cons, signedEntriesOnly, parseJson_line ho]
        simp only [entrySigValid_finitize (hvalid key rfl), htail, bind, Except.bind, pure,
          Except.pure, if_true]
    rw [readChain, hkept additions h.entries, ← hparse additions h.entries]
    rfl

theorem readChain_append (hread : readChain ν key lines = .ok es)
    (h : Reattested key r n sources additions) :
    readChain ν key (lines ++ additions.map stringify) = .ok (es ++ additions.map finitize) := by
  have hlines := h.readBack
  cases key with
  | none =>
    obtain rfl := Except.ok.inj hread
    rw [← Except.ok.inj hlines]
    exact congrArg Except.ok (parseTruthy_append _ _)
  | some key =>
    obtain ⟨kept, hkept, rfl⟩ := map_eq_ok.1 hread
    obtain ⟨kept', hkept', hadds⟩ := map_eq_ok.1 hlines
    rw [readChain, signedEntriesOnly_append hkept hkept', ← hadds]
    exact congrArg Except.ok (parseTruthy_append _ _)

theorem NumberedLines.append (hl : NumberedLines ν lines)
    (h : Reattested key r lines.length sources additions) :
    NumberedLines ν (lines ++ additions.map stringify) := by
  intro i line hi
  by_cases hlt : i < lines.length
  · rw [List.getElem?_append_left hlt] at hi
    exact hl i line hi
  · rw [List.getElem?_append_right (by omega), List.getElem?_map] at hi
    obtain ⟨e, he, rfl⟩ := Option.map_eq_some_iff.1 hi
    obtain ⟨⟨ms, rfl⟩, ho, -⟩ := h.entries e (List.mem_of_getElem? he)
    have hseq := h.numbers _ _ he
    have hplace : lines.length + (i - lines.length) + 1 = i + 1 := by omega
    rw [hplace] at hseq
    refine ⟨_, parseJson_line ho, ?_, hseq.2⟩
    show (finitize (.obj ms)).get? (js "seq") = _
    rw [get?_finitize, hseq.1, Option.map_some, finitize,
      if_pos (JsNumber.finite_of_integer _ (JsNumber.integer_ofNat _ hseq.2))]

end Appended

end Adlc.TicketSync
