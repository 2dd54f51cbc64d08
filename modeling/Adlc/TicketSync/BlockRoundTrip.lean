import Adlc.TicketSync.Sentinel

namespace Adlc.TicketSync

open Adlc.Framework Adlc.Tickets

variable {ν : Type} [JsNumber ν]

/-! ## The text of the fields -/

/-- Text without carriage returns, of which no line begins with a backtick. -/
structure Unfenced (s : JsString) : Prop where
  noReturn : 13 ∉ s
  chain : s.IsChain fun a b => a = 10 → b ≠ 96
  head : ∀ c ∈ s.head?, c ≠ 96

theorem Unfenced.append {s t : JsString} (hs : Unfenced s) (ht : Unfenced t) : Unfenced (s ++ t) := by
  refine ⟨?_, ?_, ?_⟩
  · rw [List.mem_append, not_or]
    exact ⟨hs.noReturn, ht.noReturn⟩
  · rw [List.isChain_append]
    exact ⟨hs.chain, ht.chain, fun _ _ c hc _ => ht.head c hc⟩
  · intro c hc
    cases s with
    | nil => exact ht.head c hc
    | cons d s => exact hs.head c hc

theorem unfenced_of_no_tick {s : JsString} (hreturn : 13 ∉ s) (h : 96 ∉ s) : Unfenced s := by
  refine ⟨hreturn, ?_, ?_⟩
  · induction s with
    | nil => exact List.IsChain.nil
    | cons c s ih =>
      rw [List.mem_cons, not_or] at hreturn h
      rw [List.isChain_cons]
      refine ⟨?_, ih hreturn.2 h.2⟩
      intro d hd _ h96
      exact h.2 (h96 ▸ List.mem_of_mem_head? hd)
  · intro c hc h96
    exact h (h96 ▸ List.mem_of_mem_head? hc)

theorem unfenced_of_printable {s : JsString} (h : ∀ c ∈ s, 32 ≤ c.toNat) (hhead : ∀ c ∈ s.head?, c ≠ 96) :
    Unfenced s := by
  have hno : ∀ d : UInt16, d.toNat < 32 → d ∉ s := by
    intro d hd hmem
    have hle := h d hmem
    omega
  refine ⟨hno 13 (by decide), ?_, hhead⟩
  clear hhead
  induction s with
  | nil => exact List.IsChain.nil
  | cons c s ih =>
    rw [List.isChain_cons]
    refine ⟨?_, ih (fun d hd => h d (List.mem_cons_of_mem c hd)) ?_⟩
    · rintro d - rfl
      exact absurd List.mem_cons_self (hno 10 (by decide))
    · intro d hd hmem
      exact hno d hd (List.mem_cons_of_mem c hmem)

theorem unfenced_stringify2 (v : Json ν) : Unfenced (stringify2 v) := by
  have hspaces : ∀ ind : JsString, (∀ c ∈ ind, c = 32) → (∀ c ∈ ind ++ js "  ", c = 32) := by
    intro ind hi c hc
    rcases List.mem_append.1 hc with hc | hc
    · exact hi c hc
    · have htwo : ∀ c ∈ js "  ", c = 32 := forall_mem_of_all (by decide)
      exact htwo c hc
  refine write_closed (P := Unfenced) (I := fun ind => ∀ c ∈ ind, c = 32) hspaces ?_ ?_ ?_ ?_ ?_ ?_ v
    [] (by simp)
  · exact fun s t hs ht => hs.append ht
  · intro s hs
    have hmarks : ∀ s ∈ marks, 13 ∉ s ∧ 96 ∉ s := by decide
    exact unfenced_of_no_tick (hmarks s hs).1 (hmarks s hs).2
  · exact unfenced_of_no_tick (by decide) (by decide)
  · intro ind hi
    have hnot : ∀ d : UInt16, d ≠ 10 → d ≠ 32 → d ∉ newline (js "  ") ind := by
      intro d h10 h32 hd
      rw [newline, if_neg (by decide)] at hd
      rcases List.mem_cons.1 hd with hd | hd
      · exact h10 hd
      · exact h32 (hi d hd)
    exact unfenced_of_no_tick (hnot 13 (by decide) (by decide)) (hnot 96 (by decide) (by decide))
  · intro s
    refine unfenced_of_printable (printable_quote s).2 ?_
    rintro c hc rfl
    cases hc
  · intro n hf
    have hunits := numRun_isNumUnit _ _ (JsNumber.isNumberText_text n hf)
    refine unfenced_of_printable (fun c hc => (isNumUnit_small (hunits c hc)).1) ?_
    rintro c hc rfl
    have h96 := hunits 96 (List.mem_of_mem_head? hc)
    revert h96
    decide

/-- The text of an object stands between its braces. -/
theorem stringify2_braces (ms : Members ν) :
    (∃ s, stringify2 (.obj ms) = 123 :: s) ∧ ∃ s, stringify2 (.obj ms) = s ++ [125] := by
  unfold stringify2
  cases ms with
  | nil =>
    rw [Json.write]
    exact ⟨⟨[125], by decide⟩, ⟨[123], by decide⟩⟩
  | cons p ms =>
    obtain ⟨k, v⟩ := p
    rw [Json.write]
    exact ⟨⟨_, rfl⟩, ⟨_, rfl⟩⟩

theorem trim_stringify2 (ms : Members ν) : trim (stringify2 (.obj ms)) = stringify2 (.obj ms) := by
  obtain ⟨⟨s, hs⟩, t, ht⟩ := stringify2_braces ms
  have hdrop : (stringify2 (.obj ms)).dropWhile isTrimmed = stringify2 (.obj ms) := by
    rw [hs, List.dropWhile_cons_of_neg (by decide)]
  rw [trim, hdrop, ht, List.rdropWhile_concat_neg _ _ _ (by decide)]

/-! ## The fence -/

theorem lineEnd_cons {c : UInt16} (h : c ≠ 13) (s : JsString) :
    lineEnd (c :: s) = if c = 10 then some s else none := by
  unfold lineEnd
  split
  · rename_i heq
    exact absurd (List.cons.inj heq).1 h
  · rename_i heq
    obtain ⟨rfl, rfl⟩ := List.cons.inj heq
    rfl
  · rename_i hnot
    rw [if_neg]
    rintro rfl
    exact hnot s rfl

theorem ticks_none {c : UInt16} (h : c ≠ 96) (s : JsString) : (js "```").isPrefixOf? (c :: s) = none := by
  have hticks : js "```" = [96, 96, 96] := by decide
  rw [hticks, List.isPrefixOf?, if_neg (by simpa using Ne.symm h)]

theorem untilFence_of_unfenced {s : JsString} (hreturn : 13 ∉ s)
    (hchain : s.IsChain fun a b => a = 10 → b ≠ 96) (t : JsString) :
    untilFence (s ++ (fenceClose ++ t)) = some s := by
  have hfence : fenceClose ++ t = 10 :: 96 :: 96 :: 96 :: 10 :: t := by
    have hclose : fenceClose = [10, 96, 96, 96, 10] := by decide
    rw [hclose]
    rfl
  rw [hfence]
  induction s with
  | nil =>
    rw [List.nil_append, untilFence, lineEnd_cons (by decide), if_pos rfl, Option.bind_some]
    rfl
  | cons c s ih =>
    rw [List.mem_cons, not_or] at hreturn
    rw [List.isChain_cons] at hchain
    have hnone : (lineEnd (c :: (s ++ 10 :: 96 :: 96 :: 96 :: 10 :: t))).bind
        (js "```").isPrefixOf? = none := by
      rw [lineEnd_cons (Ne.symm hreturn.1)]
      split_ifs with hc
      · rw [Option.bind_some]
        cases s with
        | nil => exact ticks_none (by decide) _
        | cons d s => exact ticks_none (hchain.1 d rfl hc) _
      · rfl
    rw [List.cons_append, untilFence, hnone, ih hreturn.2 hchain.2]
    rfl

/-- The content of the fence between the sentinels. -/
theorem fenced_block {s : JsString} (h : Unfenced s) : fenced (fenceOpen ++ (s ++ fenceClose)) = some s := by
  have hopen : fenceOpen = 10 :: (js "```" ++ (js "json" ++ [10])) := by decide
  have hrest : js "```" ++ (js "json" ++ [10]) ++ (s ++ fenceClose) =
      js "```" ++ (js "json" ++ (10 :: (s ++ fenceClose))) := by simp
  have hticks : ∃ r, js "```" = 96 :: r := ⟨js "``", by decide⟩
  obtain ⟨r, hr⟩ := hticks
  have hfence : fenceAt (js "```" ++ (js "json" ++ (10 :: (s ++ fenceClose)))) = some s := by
    have huntil := untilFence_of_unfenced h.noReturn h.chain []
    rw [List.append_nil] at huntil
    rw [fenceAt, isPrefixOf?_append]
    simp only
    rw [isPrefixOf?_append, Option.getD_some, List.dropWhile_cons_of_neg (by decide),
      lineEnd_cons (by decide), if_pos rfl, Option.bind_some, huntil]
  have hfirst : fenceAt (10 :: (js "```" ++ (js "json" ++ [10]) ++ (s ++ fenceClose))) = none := by
    rw [fenceAt, ticks_none (by decide)]
  rw [hopen, List.cons_append, fenced, hfirst]
  simp only
  rw [hrest]
  rw [hr, List.cons_append] at hfence ⊢
  rw [fenced, hfence]

/-! ## The sentinels of a block -/

/-- What an issue body can hold as a key: a token without angle brackets. -/
structure ValidKey (key : JsString) : Prop where
  nonempty : key ≠ []
  token : ∀ c ∈ key, isTrimmed c = false ∧ c ≠ 60 ∧ c ≠ 62

def keyText (key : Option JsString) : JsString := key.elim [] fun key => js " key=" ++ key

/-- What the begin sentinel of a block captures. -/
def attrsText (key : Option JsString) : JsString := js " v=1" ++ (keyText key ++ js " ")

variable {key : Option JsString}

theorem openingText_eq (hkey : ∀ k ∈ key, ValidKey k) :
    openingText key = js "<!--" ++ (js " " ++ (js "adlc:begin" ++ (attrsText key ++ js "-->"))) := by
  have hversion : natText supportedBlockVersion = js "1" := by decide
  have hfilter : key.filter (fun k => decide (k ≠ [])) = key := by
    cases key with
    | none => rfl
    | some k => simp [(hkey k rfl).nonempty]
  have hbegin : js "<!-- adlc:begin v=" = js "<!--" ++ (js " " ++ (js "adlc:begin" ++ js " v=")) := by
    decide
  have hend : js " -->" = js " " ++ js "-->" := by decide
  have hv : js " v=1" = js " v=" ++ js "1" := by decide
  rw [openingText, hversion, hfilter, hbegin, hend, attrsText, hv, keyText]
  simp

theorem not_mem_attrsText (hkey : ∀ k ∈ key, ValidKey k) : 60 ∉ attrsText key ∧ 62 ∉ attrsText key ∧
    13 ∉ attrsText key := by
  have h13 : isTrimmed 13 = true := by decide
  have hfixed : ∀ c ∈ [60, 62, 13], (c : UInt16) ∉ js " v=1" ∧ c ∉ js " key=" ∧ c ∉ js " " :=
    forall_mem_of_all (by decide)
  have hmem : ∀ c ∈ [60, 62, 13], (∀ k ∈ key, c ∉ k) → (c : UInt16) ∉ attrsText key := by
    intro c hc hk
    obtain ⟨h1, h2, h3⟩ := hfixed c hc
    rw [attrsText, List.mem_append, List.mem_append, not_or, not_or]
    refine ⟨h1, ?_, h3⟩
    cases key with
    | none => exact List.not_mem_nil
    | some k =>
      rw [keyText, Option.elim_some, List.mem_append, not_or]
      exact ⟨h2, hk k rfl⟩
  refine ⟨hmem 60 (by decide) ?_, hmem 62 (by decide) ?_, hmem 13 (by decide) ?_⟩
  · exact fun k hk h => ((hkey k hk).token 60 h).2.1 rfl
  · exact fun k hk h => ((hkey k hk).token 62 h).2.2 rfl
  · intro k hk h
    have hblank := ((hkey k hk).token 13 h).1
    rw [h13] at hblank
    cases hblank

theorem beginSentinel_opening (hkey : ∀ k ∈ key, ValidKey k) (t : JsString) :
    beginSentinel (openingText key ++ t) = some (attrsText key, t) := by
  refine beginSentinel_eq_some_iff.2 ⟨js " ", forall_mem_of_all (by decide), (not_mem_attrsText hkey).2.1,
    ?_, ?_⟩
  · have hv : ∃ s, attrsText key = 32 :: s := ⟨js "v=1" ++ (keyText key ++ js " "), by
      rw [attrsText, show js " v=1" = 32 :: js "v=1" by decide, List.cons_append]⟩
    obtain ⟨s, hs⟩ := hv
    rw [hs]
    rfl
  · rw [openingText_eq hkey]
    simp

theorem endSentinel_closing (t : JsString) : endSentinel (closingText ++ t) = some ((), t) := by
  refine endSentinel_eq_some_iff.2 ⟨js " ", js " ", forall_mem_of_all (by decide),
    forall_mem_of_all (by decide), ?_⟩
  have hclosing : closingText = js "<!--" ++ (js " " ++ (js "adlc:end" ++ (js " " ++ js "-->"))) := by
    decide
  rw [hclosing]
  simp

/-- No end sentinel starts in the begin sentinel of a block. -/
theorem noneStart_end_opening (hkey : ∀ k ∈ key, ValidKey k) (t : JsString) :
    noneStart endSentinel (openingText key) t = true := by
  have hopen : js "<!--" = 60 :: js "!--" := by decide
  have hspace : js " " = [32] := by decide
  have hbegin : js "adlc:begin" = 97 :: js "dlc:begin" := by decide
  have hrest : 60 ∉ js "!--" ++ (js " " ++ (js "adlc:begin" ++ (attrsText key ++ js "-->"))) := by
    have h1 : 60 ∉ js "!--" ∧ 60 ∉ js " " ∧ 60 ∉ js "adlc:begin" ∧ 60 ∉ js "-->" := by decide
    simp [h1.1, h1.2.1, h1.2.2.1, h1.2.2.2, (not_mem_attrsText hkey).1]
  have hfirst : endSentinel (openingText key ++ t) = none := by
    rw [openingText_eq hkey, endSentinel]
    simp only [List.append_assoc, isPrefixOf?_append]
    rw [hspace, List.singleton_append, List.dropWhile_cons_of_pos (by decide), hbegin,
      List.cons_append, List.dropWhile_cons_of_neg (by decide)]
    have hend : (js "adlc:end").isPrefixOf? (97 :: (js "dlc:begin" ++ (attrsText key ++ (js "-->" ++ t)))) =
        none := by
      have hw : js "adlc:end" = [97, 100, 108, 99, 58, 101, 110, 100] := by decide
      have hd : js "dlc:begin" = [100, 108, 99, 58, 98, 101, 103, 105, 110] := by decide
      rw [hw, hd]
      rfl
    rw [hend]
  rw [openingText_eq hkey, hopen, List.cons_append, List.cons_append] at hfirst
  rw [openingText_eq hkey, hopen, List.cons_append, noneStart, hfirst]
  exact endSentinel_endsAtArrow.noneStart hrest t

/-- No begin sentinel starts in the end sentinel of a block. -/
theorem noneStart_begin_closing (t : JsString) : noneStart beginSentinel closingText t = true := by
  have hclosing : closingText = 60 :: (js "!-- adlc:end -->") := by decide
  have hfirst : beginSentinel (60 :: (js "!-- adlc:end -->" ++ t)) = none := by
    have hopen : 60 :: (js "!-- adlc:end -->" ++ t) =
        js "<!--" ++ (32 :: 97 :: (js "dlc:end -->" ++ t)) := by
      have h1 : js "!-- adlc:end -->" = js "!--" ++ (32 :: 97 :: js "dlc:end -->") := by decide
      have h2 : js "<!--" = 60 :: js "!--" := by decide
      rw [h1, h2]
      simp
    rw [hopen, beginSentinel, isPrefixOf?_append]
    simp only
    rw [List.dropWhile_cons_of_pos (by decide), List.dropWhile_cons_of_neg (by decide)]
    have hbegin : (js "adlc:begin").isPrefixOf? (97 :: (js "dlc:end -->" ++ t)) = none := by
      have hw : js "adlc:begin" = [97, 100, 108, 99, 58, 98, 101, 103, 105, 110] := by decide
      have hd : js "dlc:end -->" = [100, 108, 99, 58, 101, 110, 100, 32, 45, 45, 62] := by decide
      rw [hw, hd]
      rfl
    rw [hbegin]
  rw [hclosing, noneStart, hfirst]
  exact beginSentinel_endsAtArrow.noneStart (by decide) t

/-- The attributes of a block's begin sentinel are read back. -/
theorem blockAttrs_attrsText (hkey : ∀ k ∈ key, ValidKey k) (line : Nat) :
    blockAttrs (attrsText key) line = .ok (1, key) := by
  have hv : js " v=1" = [32, 118, 61, 49] := by decide
  have hstrip : js "v=" = [118, 61] := by decide
  have hspace : js " " = [32] := by decide
  obtain ⟨s, hs⟩ : ∃ s, keyText key ++ js " " = 32 :: s := by
    cases key with
    | none => exact ⟨[], by decide⟩
    | some k =>
      exact ⟨js "key=" ++ (k ++ js " "), by
        rw [keyText, Option.elim_some, show js " key=" = 32 :: js "key=" by decide]
        simp⟩
  have hversion : firstAtWord versionAttr false (attrsText key) = some (js "1") := by
    have hfirst : versionAttr (32 :: 118 :: 61 :: 49 :: 32 :: s) = none := by
      rw [versionAttr, hstrip]
      rfl
    have hsecond : versionAttr (118 :: 61 :: 49 :: 32 :: s) = some (js "1") := by
      rw [versionAttr, hstrip]
      have hfront : List.isPrefixOf? [118, 61] (118 :: 61 :: 49 :: 32 :: s) = some (49 :: 32 :: s) :=
        isPrefixOf?_append [118, 61] (49 :: 32 :: s)
      have h49 : isDigit 49 = true := by decide
      have h32 : ¬isDigit 32 = true := by decide
      rw [hfront]
      simp only [List.takeWhile_cons_of_pos h49, List.takeWhile_cons_of_neg h32,
        List.dropWhile_cons_of_pos h49, List.dropWhile_cons_of_neg h32]
      rfl
    rw [attrsText, hv, hs]
    show firstAtWord versionAttr false (32 :: 118 :: 61 :: 49 :: 32 :: s) = _
    rw [firstAtWord, if_neg (by decide), hfirst]
    simp only
    rw [show isWord 32 = false by decide, firstAtWord, if_neg (by decide), hsecond]
  have hkeyAttr : firstAtWord keyAttr false (attrsText key) = key := by
    cases key with
    | none => decide
    | some k =>
      have hvalid := hkey k rfl
      have hname : js "key=" = 107 :: js "ey=" := by decide
      have hmatch : keyAttr (107 :: (js "ey=" ++ (k ++ js " "))) = some k := by
        have htake : (k ++ js " ").takeWhile (fun c => !isTrimmed c) = k := by
          rw [hspace, List.takeWhile_append_of_pos fun c hc => by simp [(hvalid.token c hc).1],
            List.takeWhile_cons_of_neg (by decide), List.append_nil]
        rw [← List.cons_append, ← hname, keyAttr, isPrefixOf?_append]
        simp only [htake]
        rw [if_pos hvalid.nonempty]
      have hnot : ∀ c r, c ≠ 107 → keyAttr (c :: r) = none := by
        intro c r hc
        rw [keyAttr, hname, List.isPrefixOf?, if_neg (by simpa using Ne.symm hc)]
      have htext : attrsText (some k) =
          32 :: 118 :: 61 :: 49 :: 32 :: 107 :: (js "ey=" ++ (k ++ js " ")) := by
        rw [attrsText, hv, keyText, Option.elim_some, show js " key=" = 32 :: 107 :: js "ey=" by decide]
        simp
      rw [htext, firstAtWord, if_neg (by decide), hnot _ _ (by decide)]
      simp only
      rw [show isWord 32 = false by decide, firstAtWord, if_neg (by decide), hnot _ _ (by decide)]
      simp only
      rw [show isWord 118 = true by decide, firstAtWord, if_pos rfl]
      simp only
      rw [show isWord 61 = false by decide, firstAtWord, if_neg (by decide), hnot _ _ (by decide)]
      simp only
      rw [show isWord 49 = true by decide, firstAtWord, if_pos rfl]
      simp only
      rw [show isWord 32 = false by decide, firstAtWord, if_neg (by decide), hmatch]
  have hnumber : readNat (js "1") = 1 := by decide
  rw [blockAttrs, hversion]
  simp only [hnumber, hkeyAttr]
  rfl

/-- The fields of a block are read back. -/
theorem blockFields_stringify2 {fields : Members ν} (hfields : (Json.obj fields).IsJson)
    (hvalid : validateBlock (.obj fields) = []) (syntaxError : JsString → JsString) (line : Nat) :
    blockFields syntaxError (fenceOpen ++ (stringify2 (.obj fields) ++ fenceClose)) line =
      .ok fields := by
  have hparse : parseJson (stringify2 (.obj fields)) = some (.obj fields) := by
    have h := parseJson_write spaces_two Spaces.nil hfields
    rwa [List.append_nil] at h
  have hne : ¬stringify2 (.obj fields) = [] := by
    obtain ⟨⟨s, hs⟩, -⟩ := stringify2_braces fields
    rw [hs]
    exact List.cons_ne_nil _ _
  rw [blockFields, fenced_block (unfenced_stringify2 _), Option.getD_some, trim_stringify2]
  simp only [if_neg hne, hparse, hvalid]

/-! ## The round trip -/

/-- What a body has to be parsed as. -/
def RoundTrips (syntaxError : JsString → JsString) (prefixText suffixText : JsString)
    (fields : Members ν) (key : Option JsString) : Prop :=
  let parsed := parseBlock syntaxError (serializeBlock prefixText suffixText (.obj fields) key)
  parsed.ok = true ∧ parsed.fields = some fields ∧ parsed.key = key ∧
    parsed.prefixText = prefixText ∧ parsed.suffixText = suffixText

/-- No sentinel but the block's own starts anywhere: in the text before it, which is read with the
block's begin sentinel after it; in the text of the fields, which is read with the block's end after it;
or in the text after it. And there is no carriage return around the block. -/
structure Unambiguous (prefixText suffixText : JsString) (fields : Json ν) (key : Option JsString) :
    Prop where
  noReturn : 13 ∉ prefixText ∧ 13 ∉ suffixText
  before : noneStart beginSentinel prefixText (openingText key) = true ∧
    noneStart endSentinel prefixText (openingText key) = true
  within : noneStart beginSentinel (stringify2 fields) (fenceClose ++ closingText) = true ∧
    noneStart endSentinel (stringify2 fields) (fenceClose ++ closingText) = true
  after : noneStart beginSentinel suffixText [] = true ∧ noneStart endSentinel suffixText [] = true

section RoundTrip

variable {prefixText suffixText : JsString} {fields : Json ν}

theorem arrow_mem_opening (key : Option JsString) : 62 ∈ openingText key := by
  unfold openingText
  exact List.mem_append_right _ (by decide)

theorem arrow_mem_closing : 62 ∈ closingText := by decide

omit [JsNumber ν] in
theorem noReturn_opening (hkey : ∀ k ∈ key, ValidKey k) : 13 ∉ openingText key := by
  have h1 : 13 ∉ js "<!--" ∧ 13 ∉ js " " ∧ 13 ∉ js "adlc:begin" ∧ 13 ∉ js "-->" := by decide
  rw [openingText_eq hkey]
  simp [h1.1, h1.2.1, h1.2.2.1, h1.2.2.2, (not_mem_attrsText hkey).2.2]

theorem noReturn_serializeBlock (hkey : ∀ k ∈ key, ValidKey k) :
    13 ∉ serializeBlock prefixText suffixText fields key ↔ 13 ∉ prefixText ∧ 13 ∉ suffixText := by
  have h1 : 13 ∉ fenceOpen ∧ 13 ∉ fenceClose ∧ 13 ∉ closingText := by decide
  have hjson : 13 ∉ stringify2 fields := (unfenced_stringify2 fields).noReturn
  simp only [serializeBlock, blockText, List.mem_append, not_or]
  constructor
  · rintro ⟨hp, -, hs⟩
    exact ⟨hp, hs⟩
  · rintro ⟨hp, hs⟩
    exact ⟨hp, ⟨noReturn_opening hkey, h1.1, hjson, h1.2.1, h1.2.2⟩, hs⟩

/-- The begin sentinels of the body, when none starts before the block. -/
theorem begins_serializeBlock (hkey : ∀ k ∈ key, ValidKey k)
    (h : noneStart beginSentinel prefixText (openingText key) = true) :
    matchAll beginSentinel (serializeBlock prefixText suffixText fields key) =
      ⟨prefixText.length, prefixText.length + (openingText key).length, attrsText key⟩ ::
        scan beginSentinel (prefixText.length + (openingText key).length) 0
          (fenceOpen ++ (stringify2 fields ++ (fenceClose ++ (closingText ++ suffixText)))) := by
  have hbody : serializeBlock prefixText suffixText fields key = prefixText ++ (openingText key ++
      (fenceOpen ++ (stringify2 fields ++ (fenceClose ++ (closingText ++ suffixText))))) := by
    simp [serializeBlock, blockText]
  have hne : openingText key ≠ [] := List.ne_nil_of_mem (arrow_mem_opening key)
  rw [← beginSentinel_endsAtArrow.noneStart_append (arrow_mem_opening key)] at h
  rw [matchAll, hbody, scan_noneStart h, Nat.zero_add, scan_match hne (beginSentinel_opening hkey _)]

theorem noneStart_begin_rest :
    noneStart beginSentinel
      (fenceOpen ++ (stringify2 fields ++ (fenceClose ++ (closingText ++ suffixText)))) [] = true ↔
    noneStart beginSentinel (stringify2 fields) (fenceClose ++ closingText) = true ∧
      noneStart beginSentinel suffixText [] = true := by
  have harrow := beginSentinel_endsAtArrow
  have hopen : 60 ∉ fenceOpen ∧ 60 ∉ fenceClose := by decide
  have hmem : 62 ∈ fenceClose ++ closingText := List.mem_append_right _ arrow_mem_closing
  rw [noneStart_append, noneStart_append, noneStart_append, noneStart_append,
    harrow.noneStart hopen.1, harrow.noneStart hopen.2, noneStart_begin_closing, List.append_nil,
    ← List.append_assoc fenceClose, harrow.noneStart_append hmem]
  simp

/-- The text up to the end sentinel of the block. -/
def upToClosing (prefixText : JsString) (fields : Json ν) (key : Option JsString) : JsString :=
  prefixText ++ (openingText key ++ (fenceOpen ++ (stringify2 fields ++ fenceClose)))

theorem serializeBlock_eq : serializeBlock prefixText suffixText fields key =
    upToClosing prefixText fields key ++ (closingText ++ suffixText) := by
  simp [serializeBlock, blockText, upToClosing]

theorem noneStart_end_upTo (hkey : ∀ k ∈ key, ValidKey k) :
    noneStart endSentinel (upToClosing prefixText fields key) (closingText ++ suffixText) = true ↔
      noneStart endSentinel prefixText (openingText key) = true ∧
        noneStart endSentinel (stringify2 fields) (fenceClose ++ closingText) = true := by
  have harrow := endSentinel_endsAtArrow
  have hopen : 60 ∉ fenceOpen ∧ 60 ∉ fenceClose := by decide
  have hmem : 62 ∈ fenceClose ++ closingText := List.mem_append_right _ arrow_mem_closing
  rw [upToClosing, noneStart_append, noneStart_append, noneStart_append, noneStart_append,
    harrow.noneStart hopen.1, harrow.noneStart hopen.2, noneStart_end_opening hkey,
    List.append_assoc (openingText key), harrow.noneStart_append (arrow_mem_opening key),
    ← List.append_assoc fenceClose, harrow.noneStart_append hmem]
  simp

/-- The end sentinels of the body: some before the block's own, and those after it. -/
theorem ends_serializeBlock (prefixText suffixText : JsString) (fields : Json ν)
    (key : Option JsString) : ∃ xs,
    matchAll endSentinel (serializeBlock prefixText suffixText fields key) =
      xs ++ (⟨(upToClosing prefixText fields key).length,
        (upToClosing prefixText fields key).length + closingText.length, ()⟩ ::
        scan endSentinel ((upToClosing prefixText fields key).length + closingText.length) 0
          suffixText) ∧
      (xs = [] ↔ noneStart endSentinel (upToClosing prefixText fields key)
        (closingText ++ suffixText) = true) := by
  have hclosing : closingText = 60 :: js "!-- adlc:end -->" := by decide
  have hne : closingText ≠ [] := List.ne_nil_of_mem arrow_mem_closing
  obtain ⟨xs, hscan, hnone⟩ := scan_append_of_ends (t := closingText ++ suffixText)
    endSentinel_endsAtArrow.consumes (by
      intro s x r hs hm
      rw [hclosing, List.cons_append] at hm ⊢
      exact endSentinel_ends hs hm) (upToClosing prefixText fields key) 0
  rw [Nat.zero_add] at hscan
  refine ⟨xs, ?_, ?_⟩
  · rw [matchAll, serializeBlock_eq, hscan, scan_match hne (endSentinel_closing _)]
  · refine ⟨hnone, ?_⟩
    intro h
    rw [scan_noneStart h, Nat.zero_add] at hscan
    exact List.append_left_eq_self.1 hscan.symm

end RoundTrip

/-- A body in which a block is found has one sentinel of each kind, around it. -/
theorem parseBlock_fields {syntaxError : JsString → JsString} {rawBody : JsString}
    {parsed : ParsedBlock ν} (hparsed : parseBlock syntaxError rawBody = parsed)
    (h : parsed.fields ≠ none) : ∃ b e, matchAll beginSentinel (normalizeNewlines rawBody) = [b] ∧
      matchAll endSentinel (normalizeNewlines rawBody) = [e] ∧ b.index ≤ e.index ∧
      parsed.prefixText = (normalizeNewlines rawBody).take b.index ∧
      parsed.suffixText = (normalizeNewlines rawBody).drop e.stop := by
  unfold parseBlock at hparsed
  simp only at hparsed
  split at hparsed
  · subst hparsed
    exact absurd rfl h
  · rename_i b e hb he
    refine ⟨b, e, hb, he, ?_⟩
    split_ifs at hparsed with horder
    · subst hparsed
      exact absurd rfl h
    · split at hparsed
      · subst hparsed
        exact absurd rfl h
      · split at hparsed
        · subst hparsed
          exact absurd rfl h
        · subst hparsed
          exact ⟨Nat.not_lt.1 horder, rfl, rfl⟩
  · subst hparsed
    exact absurd rfl h

theorem unambiguous_of_roundTrips {syntaxError : JsString → JsString} {prefixText suffixText : JsString}
    {fields : Members ν} (hkey : ∀ k ∈ key, ValidKey k)
    (h : RoundTrips syntaxError prefixText suffixText fields key) :
    Unambiguous prefixText suffixText (.obj fields) key := by
  obtain ⟨-, hfields, -, hfront, hsuffix⟩ := h
  obtain ⟨b, e, hb, he, -, htake, hdrop⟩ := parseBlock_fields rfl (by rw [hfields]; simp)
  rw [hfront] at htake
  rw [hsuffix] at hdrop
  have hno : 13 ∉ prefixText ∧ 13 ∉ suffixText := by
    constructor
    · rw [htake]
      exact fun hmem => noReturn_normalizeNewlines _ (List.mem_of_mem_take hmem)
    · rw [hdrop]
      exact fun hmem => noReturn_normalizeNewlines _ (List.mem_of_mem_drop hmem)
  rw [normalizeNewlines_of_noReturn ((noReturn_serializeBlock hkey).2 hno)] at hb he htake
  have hindex : b.index = 0 + prefixText.length := by
    have hmem : b ∈ scan beginSentinel 0 0
        (serializeBlock prefixText suffixText (.obj fields : Json ν) key) := by
      rw [matchAll] at hb
      rw [hb]
      exact List.mem_cons_self
    obtain ⟨u, p, t, hs, hbi, -⟩ := mem_scan beginSentinel_endsAtArrow.consumes hmem
    rw [htake, hs, hbi, Nat.zero_add, List.take_left, Nat.zero_add]
  have hbefore : noneStart beginSentinel prefixText (openingText key) = true := by
    have hscan := hb
    rw [matchAll, serializeBlock, blockText, List.append_assoc] at hscan
    have hnone := noneStart_of_scan hscan hindex
    rwa [beginSentinel_endsAtArrow.noneStart_append (arrow_mem_opening key)] at hnone
  rw [begins_serializeBlock hkey hbefore] at hb
  have hrest := scan_eq_nil_iff.1 (List.cons.inj hb).2
  obtain ⟨hwithin, hafter⟩ := noneStart_begin_rest.1 hrest
  obtain ⟨xs, hends, hnone⟩ := ends_serializeBlock prefixText suffixText (.obj fields : Json ν) key
  rw [he] at hends
  have hxs : xs = [] := by
    have hlength := congrArg List.length hends
    simp only [List.length_append, List.length_cons, List.length_nil] at hlength
    exact List.length_eq_zero_iff.1 (by omega)
  rw [hxs, List.nil_append] at hends
  have hsuffixEnd := scan_eq_nil_iff.1 (List.cons.inj hends).2.symm
  obtain ⟨hbeforeEnd, hwithinEnd⟩ := (noneStart_end_upTo hkey).1 (hnone.1 hxs)
  exact ⟨hno, ⟨hbefore, hbeforeEnd⟩, ⟨hwithin, hwithinEnd⟩, hafter, hsuffixEnd⟩

theorem roundTrips_of_unambiguous {syntaxError : JsString → JsString} {prefixText suffixText : JsString}
    {fields : Members ν} (hkey : ∀ k ∈ key, ValidKey k) (hfields : (Json.obj fields).IsJson)
    (hvalid : validateBlock (.obj fields) = [])
    (h : Unambiguous prefixText suffixText (.obj fields) key) :
    RoundTrips syntaxError prefixText suffixText fields key := by
  have hno : 13 ∉ serializeBlock prefixText suffixText (.obj fields : Json ν) key :=
    (noReturn_serializeBlock hkey).2 h.noReturn
  have hbody := normalizeNewlines_of_noReturn hno
  have hbegins : matchAll beginSentinel (serializeBlock prefixText suffixText (.obj fields : Json ν) key) =
      [⟨prefixText.length, prefixText.length + (openingText key).length, attrsText key⟩] := by
    rw [begins_serializeBlock hkey h.before.1,
      scan_eq_nil_iff.2 (noneStart_begin_rest.2 ⟨h.within.1, h.after.1⟩)]
  have hends : matchAll endSentinel (serializeBlock prefixText suffixText (.obj fields : Json ν) key) =
      [⟨(upToClosing prefixText (.obj fields : Json ν) key).length,
        (upToClosing prefixText (.obj fields : Json ν) key).length + closingText.length, ()⟩] := by
    obtain ⟨xs, hscan, hnone⟩ := ends_serializeBlock prefixText suffixText (.obj fields : Json ν) key
    rw [hscan, hnone.2 ((noneStart_end_upTo hkey).2 ⟨h.before.2, h.within.2⟩),
      scan_eq_nil_iff.2 h.after.2]
    rfl
  have horder : ¬(upToClosing prefixText (.obj fields : Json ν) key).length < prefixText.length := by
    rw [upToClosing, List.length_append]
    omega
  have hinner : ((serializeBlock prefixText suffixText (.obj fields : Json ν) key).take
      (upToClosing prefixText (.obj fields : Json ν) key).length).drop
        (prefixText.length + (openingText key).length) =
      fenceOpen ++ (stringify2 (.obj fields) ++ fenceClose) := by
    rw [serializeBlock_eq, List.take_left, upToClosing, ← List.append_assoc, ← List.length_append,
      List.drop_left]
  have hfront : (serializeBlock prefixText suffixText (.obj fields : Json ν) key).take
      prefixText.length = prefixText := List.take_left
  have hsuffix : (serializeBlock prefixText suffixText (.obj fields : Json ν) key).drop
      ((upToClosing prefixText (.obj fields : Json ν) key).length + closingText.length) =
      suffixText := by
    rw [serializeBlock_eq, ← List.append_assoc, ← List.length_append, List.drop_left]
  unfold RoundTrips parseBlock
  simp only [hbody, hbegins, hends, if_neg horder, blockAttrs_attrsText hkey, hinner,
    blockFields_stringify2 hfields hvalid, hfront, hsuffix, and_self]

/-! ## Replacing a block -/

theorem EndsAtArrow.head {β : Type} {m : Pattern UInt16 β} (h : EndsAtArrow m) {s : JsString} {x : β}
    {r : JsString} (hm : m s = some (x, r)) : ∃ t, s = 60 :: t := by
  cases s with
  | nil =>
    obtain ⟨p, -, hp⟩ := h.ends _ _ _ hm
    exact absurd hp.symm (by simp)
  | cons c s =>
    by_cases hc : c = 60
    · exact ⟨s, by rw [hc]⟩
    · rw [h.opens c s hc] at hm
      cases hm

/-- Where a block is found, the text around it is what stands before a `<` and after a `>`. -/
theorem parseBlock_around {syntaxError : JsString → JsString} {rawBody : JsString}
    {parsed : ParsedBlock ν} (hparsed : parseBlock syntaxError rawBody = parsed)
    (h : parsed.fields ≠ none) : ∃ inner, normalizeNewlines rawBody =
      parsed.prefixText ++ 60 :: (inner ++ 62 :: parsed.suffixText) := by
  obtain ⟨b, e, hb, he, horder, hfront, hsuffix⟩ := parseBlock_fields hparsed h
  have hbmem : b ∈ matchAll beginSentinel (normalizeNewlines rawBody) := by
    rw [hb]
    exact List.mem_cons_self
  have hemem : e ∈ matchAll endSentinel (normalizeNewlines rawBody) := by
    rw [he]
    exact List.mem_cons_self
  obtain ⟨u, p, t, hs, hindex, -, hm⟩ := mem_scan beginSentinel_endsAtArrow.consumes hbmem
  obtain ⟨u', p', t', hs', hindex', hstop', hm'⟩ := mem_scan endSentinel_endsAtArrow.consumes hemem
  rw [Nat.zero_add] at hindex hindex'
  obtain ⟨rest, hrest⟩ := beginSentinel_endsAtArrow.head hm
  obtain ⟨q, -, hq⟩ := endSentinel_endsAtArrow.ends _ _ _ hm'
  have hp' : p' = q ++ [62] := by
    refine (List.append_left_inj t').1 ?_
    rw [hq]
    simp
  have hu : parsed.prefixText = u := by rw [hfront, hs, hindex, List.take_left]
  have ht : parsed.suffixText = t' := by
    rw [hsuffix, hs', hstop', hindex', ← List.append_assoc, ← List.length_append, List.drop_left]
  rw [hu, ht, hs, hrest]
  have hboth : u ++ 60 :: rest = (u' ++ q) ++ 62 :: t' := by
    rw [← hrest, ← hs, hs', hp']
    simp
  rcases List.append_eq_append_iff.1 hboth with ⟨z, hz, hz'⟩ | ⟨z, hz, hz'⟩
  · cases z with
    | nil => exact absurd (List.cons.inj hz').1 (by decide)
    | cons c z =>
      obtain ⟨-, rfl⟩ := List.cons.inj hz'
      exact ⟨z, rfl⟩
  · cases z with
    | nil => exact absurd (List.cons.inj hz').1 (by decide)
    | cons c z =>
      have hlength := congrArg List.length hz
      simp only [List.length_append, List.length_cons] at hlength
      omega

theorem around_unchanged_iff {before after block : JsString} :
    normalizeNewlines before ++ (block ++ normalizeNewlines after) = before ++ (block ++ after) ↔
      13 ∉ before ∧ 13 ∉ after := by
  constructor
  · intro h
    have hlength := congrArg List.length h
    have hb := length_normalizeNewlines_le before
    have ha := length_normalizeNewlines_le after
    simp only [List.length_append] at hlength
    obtain ⟨hbefore, hrest⟩ := List.append_inj h (by omega)
    have hafter := List.append_cancel_left hrest
    rw [← hbefore, ← hafter]
    exact ⟨noReturn_normalizeNewlines _, noReturn_normalizeNewlines _⟩
  · rintro ⟨hb, ha⟩
    rw [normalizeNewlines_of_noReturn hb, normalizeNewlines_of_noReturn ha]

/-- A body whose block is replaced: its text before and after the block is kept exactly when it holds
no carriage return. -/
def ReplacesOnlyBlock (parsed : ParsedBlock ν) (rawBody : JsString) : Prop :=
  ∃ before old after, rawBody = before ++ (old ++ after) ∧
    parsed.prefixText = normalizeNewlines before ∧ parsed.suffixText = normalizeNewlines after ∧
    ∀ (fields : Json ν) (key : Option JsString),
      serializeBlock parsed.prefixText parsed.suffixText fields key =
        before ++ (blockText fields key ++ after) ↔ 13 ∉ before ∧ 13 ∉ after

theorem replacesOnlyBlock {syntaxError : JsString → JsString} {rawBody : JsString}
    {parsed : ParsedBlock ν} (hparsed : parseBlock syntaxError rawBody = parsed)
    (h : parsed.fields ≠ none) : ReplacesOnlyBlock parsed rawBody := by
  obtain ⟨inner, haround⟩ := parseBlock_around hparsed h
  obtain ⟨before, rest, rfl, hbefore, hrest⟩ := split_of_normalizeNewlines (by decide) haround
  obtain ⟨old, after, rfl, -, hafter⟩ := split_of_normalizeNewlines (by decide) hrest
  refine ⟨before, 60 :: (old ++ [62]), after, by simp, hbefore.symm, hafter.symm, ?_⟩
  intro fields key
  rw [← hbefore, ← hafter]
  exact around_unchanged_iff

/-! ## The law of the codec -/

def exampleFields : Members Int := [(js "scope", .arr [.str (js "src/**")])]

omit [JsNumber ν] in
theorem exampleFields_isJson : (Json.obj exampleFields).IsJson :=
  ⟨⟨by decide, by decide⟩, ⟨trivial, trivial⟩, trivial⟩

end Adlc.TicketSync
