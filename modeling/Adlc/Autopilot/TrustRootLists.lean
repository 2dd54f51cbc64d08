import Adlc.Autopilot.TrustRoots

namespace Adlc.Autopilot

open Framework

open TicketSync (firstAtWord isWord)

/-! A list that is declared in a module, and what is read of it. -/

/-! ## The declaration -/

section Declaration

theorem firstAtWord_append {β : Type} {pattern : JsString → Option β} {text : JsString} {x : β}
    (hx : pattern text = some x) (hne : text ≠ []) {before : JsString} {afterWord : Bool}
    (hskip : ∀ front back, before = front ++ back → back ≠ [] →
      front.getLast?.elim afterWord isWord = false → pattern (back ++ text) = none)
    (hlast : before.getLast?.elim afterWord isWord = false) :
    firstAtWord pattern afterWord (before ++ text) = some x := by
  induction before generalizing afterWord with
  | nil =>
    obtain rfl : afterWord = false := hlast
    obtain ⟨c, s, rfl⟩ := List.exists_cons_of_ne_nil hne
    rw [List.nil_append, firstAtWord, if_neg Bool.false_ne_true, hx]
  | cons c before ih =>
    have hhere : (if afterWord = true then none else pattern (c :: before ++ text)) = none := by
      split
      · rfl
      · rename_i hafter
        exact hskip [] (c :: before) rfl (List.cons_ne_nil _ _) (Bool.eq_false_iff.mpr hafter)
    have hshift : ∀ (front : JsString), (c :: front).getLast?.elim afterWord isWord =
        front.getLast?.elim (isWord c) isWord := by
      intro front
      cases front with
      | nil => rfl
      | cons d front => rw [List.getLast?_cons_cons]; cases h : (d :: front).getLast? with
        | none => exact absurd (List.getLast?_eq_none_iff.mp h) (List.cons_ne_nil _ _)
        | some e => rfl
    have hskip' : ∀ front back, before = front ++ back → back ≠ [] →
        front.getLast?.elim (isWord c) isWord = false → pattern (back ++ text) = none := by
      rintro front back rfl hback hboundary
      exact hskip (c :: front) back rfl hback ((hshift front).trans hboundary)
    rw [List.cons_append] at hhere ⊢
    rw [firstAtWord, hhere]
    exact ih hskip' ((hshift before).symm.trans hlast)

theorem trivia_blank (ts : List Trivia) : Blank (cleanText (trivia ts)) := by
  intro c hc
  obtain ⟨p, hp, hcp⟩ := List.mem_flatMap.mp hc
  obtain ⟨t, -, rfl⟩ := List.mem_map.mp hp
  cases t with
  | space text blank => exact List.all_eq_true.mp blank c hcp
  | lineComment body => cases hcp
  | blockComment body => cases hcp

theorem isTrimmed_of_isWord {c : UInt16} (h : isWord c = true) : isTrimmed c = false := by
  have hn : (48 ≤ c.toNat ∧ c.toNat ≤ 57) ∨ (65 ≤ c.toNat ∧ c.toNat ≤ 90) ∨
      (97 ≤ c.toNat ∧ c.toNat ≤ 122) ∨ c.toNat = 95 := by
    simp only [isWord, isDigit, Bool.or_eq_true, Bool.and_eq_true, decide_eq_true_eq] at h
    obtain ((h | h) | h) | rfl := h
    · exact .inl h
    · exact .inr (.inl h)
    · exact .inr (.inr (.inl h))
    · exact .inr (.inr (.inr rfl))
  simp only [isTrimmed, Bool.or_eq_false_iff, Bool.and_eq_false_iff, decide_eq_false_iff_not]
  omega

variable {ident : JsString}

theorem freezeAt_bracket (rest : JsString) : freezeAt (91 :: rest) = none := rfl

theorem freezeAt_freeze (afterFreeze afterParen : List Trivia) (rest : JsString) :
    freezeAt (js "Object.freeze" ++ (cleanText (trivia afterFreeze) ++ (js "(" ++
      (cleanText (trivia afterParen) ++ 91 :: rest)))) = some (91 :: rest) := by
  have hparen : js "(" = [40] := by decide
  have hopen := dropWhile_blank (trivia_blank afterFreeze) (c := 40) (by decide)
    (cleanText (trivia afterParen) ++ 91 :: rest)
  have hbracket := dropWhile_blank (trivia_blank afterParen) (c := 91) (by decide) rest
  rw [freezeAt, TicketSync.isPrefixOf?_append]
  simp only [Option.bind_eq_bind, Option.bind_some]
  rw [hparen, List.singleton_append, hopen]
  have hrest := TicketSync.isPrefixOf?_append [40] (cleanText (trivia afterParen) ++ 91 :: rest)
  rw [List.singleton_append] at hrest
  rw [hrest, Option.bind_some, hbracket]
  rfl

theorem declarationAt_declaration (m : ListModule) (hne : ident ≠ []) (hword : ident.all isWord = true)
    (hspaced : cleanText (trivia m.afterConst) ≠ []) (rest : JsString) :
    declarationAt ident (cleanText (m.declaration ident) ++ 91 :: rest) = some (91 :: rest) := by
  obtain ⟨i, name, hident⟩ := List.exists_cons_of_ne_nil hne
  have hi : isTrimmed i = false := by
    refine isTrimmed_of_isWord (List.all_eq_true.mp hword i ?_)
    rw [hident]
    exact List.mem_cons_self
  have hconst : ∀ s : JsString, (cleanText (trivia m.afterConst) ++ s).head?.any isTrimmed = true := by
    intro s
    obtain ⟨c, w, hw⟩ := List.exists_cons_of_ne_nil hspaced
    have hc := trivia_blank m.afterConst c (by rw [hw]; exact List.mem_cons_self)
    rw [hw]
    exact hc
  have hname : ∀ s, (cleanText (trivia m.afterConst) ++ (ident ++ s)).dropWhile isTrimmed = ident ++ s := by
    intro s
    rw [hident]
    exact dropWhile_blank (trivia_blank m.afterConst) hi (name ++ s)
  have hequals : js "=" = [61] := by decide
  have hsign : ∀ s, (cleanText (trivia m.beforeEquals) ++ (js "=" ++ s)).dropWhile isTrimmed = js "=" ++ s := by
    intro s
    rw [hequals]
    exact dropWhile_blank (trivia_blank m.beforeEquals) (c := 61) (by decide) s
  have hthrough : ∀ s, declarationAt ident (js "const" ++ (cleanText (trivia m.afterConst) ++ (ident ++
      (cleanText (trivia m.beforeEquals) ++ (js "=" ++ s))))) =
        let text := s.dropWhile isTrimmed
        let text := (freezeAt text).getD text
        if text.head? = some 91 then some text else none := by
    intro s
    rw [declarationAt, TicketSync.isPrefixOf?_append]
    simp only [Option.bind_eq_bind, Option.bind_some]
    rw [if_pos (hconst _), hname, TicketSync.isPrefixOf?_append, Option.bind_some, hsign,
      TicketSync.isPrefixOf?_append, Option.bind_some]
  have htext : cleanText (m.declaration ident) = js "const" ++ (cleanText (trivia m.afterConst) ++ (ident ++
      (cleanText (trivia m.beforeEquals) ++ (js "=" ++ (cleanText (trivia m.afterEquals) ++
        cleanText (m.frozen)))))) := by
    simp only [ListModule.declaration, cleanText, List.flatMap_cons, List.flatMap_append, cleanPiece]
  rw [htext]
  simp only [List.append_assoc]
  rw [hthrough]
  cases hfreeze : m.freeze with
  | none =>
    have hfrozen : cleanText m.frozen = [] := by rw [ListModule.frozen, hfreeze]; rfl
    have hbracket := dropWhile_blank (trivia_blank m.afterEquals) (c := 91) (by decide) rest
    simp only [hfrozen, List.nil_append, hbracket, freezeAt_bracket, Option.getD_none, List.head?_cons, if_true]
  | some f =>
    have hfrozen : cleanText m.frozen = js "Object.freeze" ++ (cleanText (trivia f.1) ++ (js "(" ++
        cleanText (trivia f.2))) := by
      rw [ListModule.frozen, hfreeze]
      simp only [cleanText, List.flatMap_cons, List.flatMap_append, cleanPiece]
    have hobject : js "Object.freeze" = 79 :: js "bject.freeze" := by decide
    have hstart : ∀ s, (cleanText (trivia m.afterEquals) ++ (js "Object.freeze" ++ s)).dropWhile isTrimmed =
        js "Object.freeze" ++ s := by
      intro s
      rw [hobject]
      exact dropWhile_blank (trivia_blank m.afterEquals) (c := 79) (by decide) (js "bject.freeze" ++ s)
    simp only [hfrozen, List.append_assoc, hstart, freezeAt_freeze, Option.getD_some, List.head?_cons, if_true]

end Declaration

/-! ## Lists that are kept -/

/-- The scanners see the module as the language does, up to the closing bracket of its list. -/
structure WellScanned (m : ListModule) (ident : JsString) : Prop where
  scans : Scans (m.pieces ident) m.after
  /-- Nothing in front of the declaration reads as one. -/
  first : ∀ front back, cleanText m.before = front ++ back → back ≠ [] →
    front.getLast?.elim false isWord = false →
      declarationAt ident (back ++ (cleanText (m.list ident) ++ stripComments m.after)) = none
  boundary : (cleanText m.before).getLast?.elim false isWord = false
  /-- Comments alone do not part the name from `const`. -/
  spaced : cleanText (trivia m.afterConst) ≠ []
  /-- Brackets are balanced in what the elements spread. -/
  balanced : nesting 1 m.body.pieces = some 1

/-- A template stands in the list, its literals are none or refused, or each string is one of them. -/
def ReadsAll (m : ListModule) (ident : JsString) : Prop :=
  (∃ p ∈ m.body.pieces, p.isTemplate = true) ∨ readings m.body.pieces = [] ∨
    (∃ r ∈ readings m.body.pieces, validatePathGlob r ident ≠ .ok r) ∨
      ∀ v ∈ m.body.values, v ∈ readings m.body.pieces

section Kept

variable {m : ListModule} {ident : JsString}

theorem scans_append {ps qs : List Piece} {rest : JsString} (h : Scans (ps ++ qs) rest) :
    Scans ps (piecesText qs ++ rest) ∧ Scans qs rest := by
  induction ps with
  | nil => exact ⟨trivial, h⟩
  | cons p ps ih =>
    obtain ⟨hp, hps⟩ := h
    obtain ⟨htail, hqs⟩ := ih hps
    refine ⟨⟨?_, htail⟩, hqs⟩
    have htext : piecesText (ps ++ qs) ++ rest = piecesText ps ++ (piecesText qs ++ rest) := by
      rw [piecesText, List.flatMap_append, List.append_assoc, ← piecesText, ← piecesText]
    rw [← htext]
    exact hp

theorem cleanText_list (m : ListModule) (ident rest : JsString) :
    cleanText (m.list ident) ++ rest =
      cleanText (m.declaration ident) ++ 91 :: (cleanText m.body.pieces ++ 93 :: rest) := by
  have hopen : js "[" = [91] := by decide
  have hclose : js "]" = [93] := by decide
  simp only [ListModule.list, cleanText, List.flatMap_append, List.flatMap_cons, List.flatMap_nil, cleanPiece,
    hopen, hclose, List.append_assoc, List.cons_append, List.nil_append]

theorem WellScanned.array (h : WellScanned m ident) (hne : ident ≠ []) (hword : ident.all isWord = true) :
    firstAtWord (declarationAt ident) false (stripComments (m.text ident)) =
      some (91 :: (cleanText m.body.pieces ++ 93 :: stripComments m.after)) := by
  have hstrip := strip_pieces h.scans
  rw [ListModule.pieces, cleanText, List.flatMap_append, List.append_assoc] at hstrip
  rw [stripComments, ListModule.text, ListModule.pieces, hstrip]
  refine firstAtWord_append ?_ ?_ h.first h.boundary
  · rw [← cleanText, cleanText_list]
    exact declarationAt_declaration m hne hword h.spaced _
  · rw [← cleanText, cleanText_list]
    intro e
    exact List.cons_ne_nil _ _ (List.append_eq_nil_iff.mp e).2

theorem WellScanned.body_scans (h : WellScanned m ident) :
    Scans m.body.pieces (js "]" ++ m.after) := by
  have hlist := (scans_append h.scans).2
  obtain ⟨-, hrest⟩ := scans_append hlist
  have hbody := (scans_append hrest.2).1
  simpa only [piecesText, List.flatMap_cons, List.flatMap_nil, List.append_nil, Piece.text] using hbody

theorem validatePathGlob_ok {p q : JsString} (h : validatePathGlob p ident = .ok q) : q = p := by
  rw [validatePathGlob] at h
  split at h
  · cases h
  · split at h
    · cases h
    · exact (Except.ok.inj h).symm

theorem mapM_validatePathGlob {ps qs : List JsString} :
    ps.mapM (fun p => validatePathGlob p ident) = .ok qs ↔
      qs = ps ∧ ∀ p ∈ ps, validatePathGlob p ident = .ok p := by
  induction ps generalizing qs with
  | nil =>
    refine ⟨fun h => ⟨(Except.ok.inj h).symm, fun p hp => (nomatch hp)⟩, ?_⟩
    rintro ⟨rfl, -⟩
    rfl
  | cons p ps ih =>
    rw [List.mapM_cons]
    cases hp : validatePathGlob p ident with
    | error e =>
      refine ⟨fun h => (nomatch h), ?_⟩
      rintro ⟨-, hall⟩
      cases hp.symm.trans (hall p List.mem_cons_self)
    | ok q =>
      obtain rfl := validatePathGlob_ok hp
      cases hps : ps.mapM fun p => validatePathGlob p ident with
      | error e =>
        refine ⟨fun h => (nomatch h), ?_⟩
        rintro ⟨-, hall⟩
        cases hps.symm.trans (ih.mpr ⟨rfl, fun r hr => hall r (List.mem_cons_of_mem _ hr)⟩)
      | ok rs =>
        obtain ⟨rfl, hall⟩ := ih.mp hps
        constructor
        · intro h
          refine ⟨(Except.ok.inj h).symm, ?_⟩
          intro r hr
          obtain rfl | hr := List.mem_cons.mp hr
          · exact hp
          · exact hall r hr
        · rintro ⟨rfl, -⟩
          rfl

theorem parseTrustRootList_ok_iff (h : WellScanned m ident) (hne : ident ≠ [])
    (hword : ident.all isWord = true) {entries : List JsString} :
    parseTrustRootList (m.text ident) ident = .ok entries ↔
      (∀ p ∈ m.body.pieces, p.isTemplate = false) ∧ entries = readings m.body.pieces ∧ entries ≠ [] ∧
        ∀ r ∈ entries, validatePathGlob r ident = .ok r := by
  rw [parseTrustRootList, h.array hne hword]
  have hopen : ∀ s, stringLiteralsOfArray (91 :: s) = literalsFrom (.code 1) [] s := fun _ => rfl
  simp only [hopen]
  by_cases htemplate : ∃ p ∈ m.body.pieces, p.isTemplate = true
  · rw [literals_template h.body_scans h.balanced htemplate]
    refine ⟨fun e => (nomatch e), ?_⟩
    rintro ⟨hplain, -⟩
    obtain ⟨p, hp, htrue⟩ := htemplate
    cases htrue.symm.trans (hplain p hp)
  · have hplain : ∀ p ∈ m.body.pieces, p.isTemplate = false := by
      intro p hp
      exact Bool.eq_false_iff.mpr fun htrue => htemplate ⟨p, hp, htrue⟩
    have hclose : literalsFrom (.code 1) ([] ++ readings m.body.pieces) (93 :: stripComments m.after) =
        .ok (readings m.body.pieces) := rfl
    rw [literals_pieces h.body_scans h.balanced hplain, hclose]
    simp only
    cases hmap : (readings m.body.pieces).mapM fun p => validatePathGlob p ident with
    | error e =>
      refine ⟨fun e => (nomatch e), ?_⟩
      rintro ⟨-, rfl, -, hall⟩
      cases hmap.symm.trans (mapM_validatePathGlob.mpr ⟨rfl, hall⟩)
    | ok rs =>
      obtain ⟨rfl, hall⟩ := mapM_validatePathGlob.mp hmap
      cases hread : readings m.body.pieces with
      | nil =>
        refine ⟨fun e => (nomatch e), ?_⟩
        rintro ⟨-, rfl, hentries, -⟩
        exact absurd rfl hentries
      | cons r rs =>
        rw [hread] at hall
        constructor
        · intro e
          obtain rfl := Except.ok.inj e
          exact ⟨hplain, rfl, List.cons_ne_nil r rs, hall⟩
        · rintro ⟨-, rfl, -⟩
          rfl

end Kept

/-! ## Plain lists -/

section Plain

theorem readings_append (ps qs : List Piece) : readings (ps ++ qs) = readings ps ++ readings qs :=
  List.filterMap_append

theorem readings_trivia (ts : List Trivia) : readings (ts.map Trivia.piece) = [] := by
  refine List.filterMap_eq_nil_iff.mpr ?_
  intro p hp
  obtain ⟨t, -, rfl⟩ := List.mem_map.mp hp
  cases t <;> rfl

theorem readings_entry (e : ListEntry) : readings e.pieces = readings e.element.pieces := by
  rw [ListEntry.pieces, readings_append, readings_append, readings_trivia, readings_trivia, List.nil_append,
    List.append_nil]

theorem mem_readings_body {b : ListBody} {e : ListEntry} (he : e ∈ b.entries ++ b.last.toList) {r : JsString}
    (hr : r ∈ readings e.element.pieces) : r ∈ readings b.pieces := by
  rw [← readings_entry] at hr
  rw [ListBody.pieces, readings_append, readings_append, List.mem_append, List.mem_append]
  obtain ⟨p, hp, hread⟩ := List.mem_filterMap.mp hr
  obtain he | he := List.mem_append.mp he
  · refine .inl (List.mem_filterMap.mpr ⟨p, ?_, hread⟩)
    exact List.mem_flatMap.mpr ⟨e, he, List.mem_append_left _ hp⟩
  · exact .inr (.inl (List.mem_filterMap.mpr ⟨p, List.mem_flatMap.mpr ⟨e, he, hp⟩, hread⟩))

/-- One literal, whose escapes stand for the character that is escaped. -/
def ListElement.Plain (e : ListElement) : Prop :=
  ∃ s : StringLiteral, e = .sum s [] ∧ ∀ p ∈ s.parts, readPart p = p.value

theorem readsAll_of_plain {m : ListModule} (ident : JsString)
    (h : ∀ e ∈ m.body.entries ++ m.body.last.toList, ListElement.Plain e.element) : ReadsAll m ident := by
  refine .inr (.inr (.inr ?_))
  intro v hv
  obtain ⟨e, he, hvalue⟩ := List.mem_flatMap.mp hv
  obtain ⟨s, hs, hplain⟩ := h e he
  refine mem_readings_body he ?_
  rw [hs] at hvalue ⊢
  obtain rfl : v = s.value := by simpa [ListElement.values] using hvalue
  have hread : literalReading s = s.value := List.flatMap_congr hplain
  rw [← hread]
  exact List.mem_singleton_self _

/-- No quote and no slash stands in code or in a regular expression. -/
def quietPiece : Piece → JsString → Bool
  | .code text, _ => text.all fun c => !isQuote c && c ≠ 47
  | .regex text, _ => text.all fun c => !isQuote c && c ≠ 47
  | .lineComment body, rest => 10 ∉ body && rest.head?.all fun c => c = 10
  | .blockComment body, _ => !decide (js "*/" <:+: body)
  | .string _, _ => true
  | .template _ _, _ => true

def quietPieces : List Piece → JsString → Bool
  | [], _ => true
  | p :: ps, rest => quietPiece p (piecesText ps ++ rest) && quietPieces ps rest

theorem codeScans_of_quiet {text rest : JsString} (h : (text.all fun c => !isQuote c && c ≠ 47) = true) :
    CodeScans text rest := by
  rintro front c back rfl
  have hc := List.all_eq_true.mp h c (List.mem_append_right front List.mem_cons_self)
  rw [Bool.and_eq_true, Bool.not_eq_true', decide_eq_true_eq] at hc
  exact ⟨hc.1, fun e => absurd e hc.2⟩

theorem scans_of_quiet {ps : List Piece} {rest : JsString} (h : quietPieces ps rest = true) : Scans ps rest := by
  induction ps with
  | nil => trivial
  | cons p ps ih =>
    obtain ⟨hp, hps⟩ := Bool.and_eq_true_iff.mp h
    refine ⟨?_, ih hps⟩
    cases p with
    | code text => exact codeScans_of_quiet hp
    | regex text => exact codeScans_of_quiet hp
    | lineComment body =>
      obtain ⟨hbody, hrest⟩ := Bool.and_eq_true_iff.mp hp
      exact ⟨of_decide_eq_true hbody, hrest⟩
    | blockComment body => exact of_decide_eq_false ((Bool.not_eq_true' _).mp hp)
    | string s => trivial
    | template parts closed => trivial

theorem declarationAt_none {ident : JsString} {c : UInt16} (h : c ≠ 99) (s : JsString) :
    declarationAt ident (c :: s) = none := by
  have hconst : js "const" = [99, 111, 110, 115, 116] := by decide
  rw [declarationAt, hconst, List.isPrefixOf?, if_neg (by simpa using Ne.symm h)]
  rfl

end Plain

def plainLiteral (text : JsString)
    (h : text.all (fun c => c ≠ 39 && c ≠ 92 && c ≠ 10 && c ≠ 13) = true) : StringLiteral where
  quote := 39
  parts := text.map .unit
  quoted := .inr rfl
  valid := by
    intro p hp
    obtain ⟨c, hc, rfl⟩ := List.mem_map.mp hp
    have hunit := List.all_eq_true.mp h c hc
    simp only [Bool.and_eq_true, decide_eq_true_eq] at hunit
    exact ⟨hunit.1.1.1, hunit.1.1.2, hunit.1.2, hunit.2⟩

theorem plainLiteral_plain (text : JsString)
    (h : text.all (fun c => c ≠ 39 && c ≠ 92 && c ≠ 10 && c ≠ 13) = true) :
    ListElement.Plain (.sum (plainLiteral text h) []) := by
  refine ⟨_, rfl, ?_⟩
  intro p hp
  obtain ⟨c, -, rfl⟩ := List.mem_map.mp hp
  rfl

def repoIdent : JsString := js "REPO_TRUST_ROOTS"

def line (text : JsString) : List Trivia := [.lineComment text, .space [10] rfl]

/-- Two paths, with an apostrophe in a comment between them. -/
def frozenModule : ListModule where
  before := [.code (js "export ")]
  afterConst := [.space [32] rfl]
  beforeEquals := [.space [32] rfl]
  afterEquals := [.space [32] rfl]
  freeze := some ([], [])
  body :=
    ⟨[⟨[], .sum (plainLiteral (js "docs/ci/**") (by decide)) [], []⟩],
      some ⟨line (js " what npm reads isn't code"), .sum (plainLiteral (js ".npmrc") (by decide)) [], []⟩, []⟩
  after := js ");"

theorem frozenModule_wellScanned : WellScanned frozenModule repoIdent where
  scans := scans_of_quiet (by decide +kernel)
  first := by
    have hunmarked : 99 ∉ cleanText frozenModule.before := by decide +kernel
    intro front back e hback _
    obtain ⟨c, back, rfl⟩ := List.exists_cons_of_ne_nil hback
    refine declarationAt_none ?_ _
    rintro rfl
    exact hunmarked (e ▸ List.mem_append_right front List.mem_cons_self)
  boundary := by decide +kernel
  spaced := by decide +kernel
  balanced := by decide +kernel

/-- A path that is added up from two literals. -/
def splitModule : ListModule where
  before := []
  afterConst := [.space [32] rfl]
  beforeEquals := [.space [32] rfl]
  afterEquals := [.space [32] rfl]
  freeze := none
  body :=
    ⟨[], some ⟨[], .sum (plainLiteral (js "packages/") (by decide))
      [([.space [32] rfl], [.space [32] rfl], plainLiteral (js "core/**") (by decide))], []⟩, []⟩
  after := js ";"

end Adlc.Autopilot
