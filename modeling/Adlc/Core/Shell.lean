import Adlc.Framework.ShellText

namespace Adlc.Core

open Adlc.Framework Adlc.Framework.Shell

/-! ## The splitter -/

def isSeparatorUnit (c : UInt16) : Bool :=
  c = semicolon || c = ampersand || c = pipe || c = lineFeed

/-- `&&` or `||` -/
def isDoubled (c d : UInt16) : Bool := (c = ampersand && d = ampersand) || (c = pipe && d = pipe)

/-- The segments from `current` on; nothing where a quote is not closed. -/
def splitFrom : Option UInt16 → JsString → JsString → Option (List JsString)
  | none, current, [] => some [current]
  | some _, _, [] => none
  | none, current, c :: rest =>
    if c = escape then
      match rest with
      | [] => some [current ++ [c]]
      | d :: rest => splitFrom none (current ++ [c, d]) rest
    else if c = singleQuote || c = doubleQuote then splitFrom (some c) (current ++ [c]) rest
    else if isSeparatorUnit c then
      match rest with
      | [] => some [current, []]
      | d :: rest =>
        if isDoubled c d then (splitFrom none [] rest).map (current :: ·)
        else (splitFrom none [] (d :: rest)).map (current :: ·)
    else splitFrom none (current ++ [c]) rest
  | some quote, current, c :: rest =>
    if quote = doubleQuote && c = escape then
      match rest with
      | [] => none
      | d :: rest => splitFrom (some quote) (current ++ [c, d]) rest
    else if c = quote then splitFrom none (current ++ [c]) rest
    else splitFrom (some quote) (current ++ [c]) rest

def splitOnUnquotedSeparators (text : JsString) : Option (List JsString) := splitFrom none [] text

/-! ## The patterns -/

/-- `\w` -/
def isWordUnit (c : UInt16) : Bool :=
  let n := c.toNat
  (48 ≤ n && n ≤ 57) || (65 ≤ n && n ≤ 90) || n = 95 || (97 ≤ n && n ≤ 122)

/-- The text begins with the words, with white space between them, and the last one, which ends in a
word unit, ends there: `^first\s+…\b`. -/
def startsWithWords (first : JsString) : List JsString → JsString → Bool
  | [], text => first.isPrefixOf text && !((text.drop first.length).head?.any isWordUnit)
  | word :: words, text =>
    let rest := text.drop first.length
    first.isPrefixOf text && rest.head?.any isTrimmed &&
      startsWithWords word words (rest.dropWhile isTrimmed)

/-- The alternatives of `readOnlyPrefix`. -/
def readOnlyCommands : List (JsString × List JsString) :=
  [js "status", js "diff", js "show", js "log", js "rev-parse", js "branch", js "ls-files"].map
    (fun word => (js "git", [word])) ++
  [js "pwd", js "ls", js "rg", js "grep", js "cat"].map (fun word => (word, [])) ++
  [(js "sed", [js "-n"])] ++
  [js "head", js "tail", js "wc", js "nl"].map (fun word => (word, [])) ++
  [(js "node", [js "--check"]), (js "node", [js "--test"]), (js "npm", [js "test"]),
    (js "npm", [js "run", js "test"])] ++
  [js "hollow-test", js "rails-guard", js "flail-detector", js "preflight"].map
    (fun word => (js "adlc", [word])) ++
  [(js "adlc", [js "run", js "p3"]), (js "adlc", [js "run", js "p4"])]

def readOnlyPrefix (segment : JsString) : Bool :=
  readOnlyCommands.any fun command => startsWithWords command.1 command.2 segment

/-- `[\s"']` -/
def isSpaceOrQuote (c : UInt16) : Bool := isTrimmed c || c = doubleQuote || c = singleQuote

/-- The units that `.` does not match. -/
def isLineTerminator (c : UInt16) : Bool := c = 10 || c = 13 || c = 0x2028 || c = 0x2029

/-- `--record(?:$|=[\s\S]*|[\s"'])` -/
def isRecordOption (text : JsString) : Bool :=
  (js "--record").isPrefixOf text &&
    match (text.drop 8).head? with
    | none => true
    | some c => c = 61 || isSpaceOrQuote c

/-- `.*[\s"']--record(?:$|=[\s\S]*|[\s"'])` -/
def recordOptionLater : JsString → Bool
  | [] => false
  | c :: rest =>
    (isSpaceOrQuote c && isRecordOption rest) || (!isLineTerminator c && recordOptionLater rest)

/-- `\s+` is given up unit by unit. -/
def recordOptionAfterSpace : JsString → Bool
  | [] => false
  | c :: rest => isTrimmed c && (recordOptionLater rest || recordOptionAfterSpace rest)

def adlcRecordOption (segment : JsString) : Bool :=
  (js "adlc").isPrefixOf segment && recordOptionAfterSpace (segment.drop 4)

def shellIsPositivelyReadOnly (text : JsString) : Bool :=
  let normalized := trim text
  if normalized = [] then true
  else
    match splitOnUnquotedSeparators normalized with
    | none => false
    | some segments => ((segments.map trim).filter fun segment => segment ≠ []).all fun segment =>
        readOnlyPrefix segment && !adlcRecordOption segment

/-! ## What a prefix that matches goes on to match -/

theorem isWordUnit_of_isTrimmed {c : UInt16} (h : isTrimmed c = true) : isWordUnit c = false := by
  simp only [isTrimmed, Bool.or_eq_true, Bool.and_eq_true, decide_eq_true_eq] at h
  simp only [isWordUnit, Bool.or_eq_false_iff, Bool.and_eq_false_iff, decide_eq_false_iff_not]
  omega

theorem startsWithWords_append {first : JsString} {words : List JsString} {s t : JsString}
    (hwords : ∀ word ∈ words, word ≠ []) (ht : ∀ c ∈ t.head?, isWordUnit c = false)
    (h : startsWithWords first words s = true) : startsWithWords first words (s ++ t) = true := by
  induction words generalizing first s with
  | nil =>
    rw [startsWithWords, Bool.and_eq_true] at h ⊢
    obtain ⟨hfirst, hend⟩ := h
    have hpart := List.isPrefixOf_iff_prefix.mp hfirst
    refine ⟨List.isPrefixOf_iff_prefix.mpr (hpart.trans (List.prefix_append _ _)), ?_⟩
    rw [List.drop_append_of_le_length hpart.length_le]
    cases hrest : s.drop first.length with
    | nil =>
      cases t with
      | nil => rfl
      | cons c t => simpa using ht c rfl
    | cons c rest =>
      rw [hrest] at hend
      exact hend
  | cons word words ih =>
    rw [startsWithWords, Bool.and_eq_true, Bool.and_eq_true] at h ⊢
    obtain ⟨⟨hfirst, hspace⟩, hrest⟩ := h
    have hpart := List.isPrefixOf_iff_prefix.mp hfirst
    have hword := hwords word List.mem_cons_self
    rw [List.drop_append_of_le_length hpart.length_le]
    refine ⟨⟨List.isPrefixOf_iff_prefix.mpr (hpart.trans (List.prefix_append _ _)), ?_⟩, ?_⟩
    · cases hs : s.drop first.length with
      | nil =>
        rw [hs] at hspace
        cases hspace
      | cons c rest =>
        rw [hs] at hspace
        exact hspace
    · have hne : (s.drop first.length).dropWhile isTrimmed ≠ [] := by
        intro hnil
        rw [hnil] at hrest
        cases words <;> simp [startsWithWords, hword] at hrest
      rw [List.dropWhile_append, if_neg (by simpa using hne)]
      exact ih (fun w hw => hwords w (List.mem_cons_of_mem _ hw)) hrest

theorem readOnlyCommands_words : ∀ command ∈ readOnlyCommands, ∀ word ∈ command.2, word ≠ [] := by
  decide

theorem readOnlyPrefix_append {s t : JsString} (ht : ∀ c ∈ t.head?, isWordUnit c = false)
    (h : readOnlyPrefix s = true) : readOnlyPrefix (s ++ t) = true := by
  obtain ⟨command, hm, hstarts⟩ := List.any_eq_true.mp h
  exact List.any_eq_true.mpr ⟨command, hm,
    startsWithWords_append (readOnlyCommands_words command hm) ht hstarts⟩

/-! ## Segments and commands -/

theorem trim_append_blank (s : JsString) :
    ∃ b, Blank b ∧ s.dropWhile isTrimmed = trim s ++ b := by
  obtain ⟨b, hb⟩ := List.rdropWhile_prefix isTrimmed (s.dropWhile isTrimmed)
  refine ⟨(s.dropWhile isTrimmed).rtakeWhile isTrimmed, ?_, ?_⟩
  · intro c hc
    rw [List.rtakeWhile, List.mem_reverse] at hc
    exact List.mem_takeWhile_imp hc
  · rw [trim, List.rdropWhile, List.rtakeWhile, ← List.reverse_append,
      List.takeWhile_append_dropWhile, List.reverse_reverse]

/-- A text that is more than white space begins, after white space, with a read-only command. -/
def ReadsOnly (command : JsString) : Prop :=
  notBlank command = true → readOnlyPrefix (command.dropWhile isTrimmed) = true

/-- However the text goes on, it begins with a read-only command. -/
def Began (command : JsString) : Prop :=
  ∀ t, readOnlyPrefix ((command ++ t).dropWhile isTrimmed) = true

/-- What `every` has checked of a segment. -/
def SegmentOk (segment : JsString) : Prop :=
  trim segment ≠ [] → readOnlyPrefix (trim segment) = true

/-- The command that has begun is the segment that has, but for white space; or it began with an
earlier one. -/
def Begins (command segment : JsString) : Prop :=
  (∃ w, Blank w ∧ command = w ++ segment) ∨ Began command

variable {command segment : JsString}

theorem trim_ne_nil (h : notBlank segment = true) : trim segment ≠ [] := by
  obtain ⟨b, hb, htrim⟩ := trim_append_blank segment
  intro hnil
  obtain ⟨c, hc, hkept⟩ := List.any_eq_true.mp h
  have hblank : Blank (segment.dropWhile isTrimmed) := by
    rw [htrim, hnil]
    exact hb
  have hmem : c ∈ segment.takeWhile isTrimmed ++ segment.dropWhile isTrimmed := by
    rwa [List.takeWhile_append_dropWhile]
  obtain hm | hm := List.mem_append.mp hmem
  · simp [List.mem_takeWhile_imp hm] at hkept
  · simp [hblank c hm] at hkept

/-- A segment that was checked, in white space and with what ends it, begins with a command. -/
theorem readOnlyPrefix_around {w t : JsString} (hw : Blank w) (hok : SegmentOk segment)
    (hs : notBlank segment = true) (ht : ∀ c ∈ t.head?, isWordUnit c = false) :
    readOnlyPrefix ((w ++ segment ++ t).dropWhile isTrimmed) = true := by
  obtain ⟨b, hb, htrim⟩ := trim_append_blank segment
  have hne := trim_ne_nil hs
  have hdrop : (w ++ segment ++ t).dropWhile isTrimmed = trim segment ++ (b ++ t) := by
    rw [List.append_assoc, List.dropWhile_append_of_pos hw, List.dropWhile_append, htrim,
      if_neg (by simp [hne]), List.append_assoc]
  rw [hdrop]
  apply readOnlyPrefix_append _ (hok hne)
  intro c hc
  cases b with
  | nil => exact ht c hc
  | cons d b =>
    obtain rfl := Option.some.inj hc
    exact isWordUnit_of_isTrimmed (hb d List.mem_cons_self)

theorem notBlank_append {s t : JsString} : notBlank (s ++ t) = (notBlank s || notBlank t) := by
  simp [notBlank]

theorem notBlank_of_blank {s : JsString} (h : Blank s) : notBlank s = false := by
  simpa [notBlank, Blank] using h

theorem Begins.readsOnly {b : JsString} (h : Begins command segment) (hok : SegmentOk segment)
    (hb : Blank b) : ReadsOnly (command ++ b) := by
  intro hcommand
  obtain ⟨w, hw, rfl⟩ | hbegan := h
  · have hs : notBlank segment = true := by
      simpa [notBlank_append, notBlank_of_blank hw, notBlank_of_blank hb] using hcommand
    apply readOnlyPrefix_around hw hok hs
    intro c hc
    exact isWordUnit_of_isTrimmed (hb c (List.mem_of_mem_head? hc))
  · exact hbegan b

theorem Begins.began {c : UInt16} (h : Begins command segment) (hok : SegmentOk segment)
    (hs : notBlank segment = true) (hc : isWordUnit c = false) : Began (command ++ [c]) := by
  intro t
  obtain ⟨w, hw, rfl⟩ | hbegan := h
  · rw [List.append_assoc _ [c]]
    apply readOnlyPrefix_around hw hok hs
    intro d hd
    obtain rfl := Option.some.inj hd
    exact hc
  · rw [List.append_assoc]
    exact hbegan _

theorem Begins.append (h : Begins command segment) (t : JsString) :
    Begins (command ++ t) (segment ++ t) := by
  obtain ⟨w, hw, rfl⟩ | hbegan := h
  · exact Or.inl ⟨w, hw, List.append_assoc _ _ _⟩
  · right
    intro u
    rw [List.append_assoc]
    exact hbegan _

theorem begins_nil : Begins [] [] := Or.inl ⟨[], fun _ hc => absurd hc List.not_mem_nil, rfl⟩

/-! ## The shell beside the splitter -/

/-- Where the shell is when the splitter has this quote and this segment. -/
inductive Beside (segment : JsString) : Option UInt16 → Lex → Prop where
  | plain (wordStart : Bool) : Beside segment none (.plain wordStart)
  | redirect (output : Bool) : notBlank segment = true → Beside segment none (.redirect output)
  | single : Beside segment (some singleQuote) .single
  | double : Beside segment (some doubleQuote) .double

/-- The text has no comment and no parenthesis that is an operator. -/
def Simple (state : Lex) (text : JsString) : Prop :=
  ∀ m ∈ lexed state text, m.2 ≠ .comment ∧ m.2 ≠ .paren

theorem Simple.tail {state : Lex} {c : UInt16} {rest : JsString} (h : Simple state (c :: rest)) :
    Simple (state.step c).1 rest := fun m hm => h m (List.mem_cons_of_mem _ hm)

theorem commandsFrom_part {state : Lex} {c : UInt16} {rest : JsString}
    (hends : ends (state.step c).2 = false) (hcomment : (state.step c).2 ≠ .comment) :
    commandsFrom command (lexed state (c :: rest)) =
      commandsFrom (command ++ [c]) (lexed (state.step c).1 rest) := by
  rw [lexed, commandsFrom, hends, if_neg Bool.false_ne_true, if_neg hcomment]

theorem commandsFrom_separator {state : Lex} {c : UInt16} {rest : JsString}
    (hends : ends (state.step c).2 = true) :
    commandsFrom command (lexed state (c :: rest)) =
      command :: commandsFrom [] (lexed (state.step c).1 rest) := by
  rw [lexed, commandsFrom, if_pos hends]

/-- White space ends a command, or is part of it. -/
theorem stepPlain_blank {wordStart : Bool} {c : UInt16} (h : isTrimmed c = true) :
    stepPlain wordStart c = (.plain true, .separator) ∨
      ∃ wordStart', stepPlain wordStart c = (.plain wordStart', .part) := by
  have hne : ∀ d, isTrimmed d = false → c ≠ d := by
    rintro d hd rfl
    rw [h] at hd
    cases hd
  have h1 := hne escape (by decide)
  have h2 := hne singleQuote (by decide)
  have h3 := hne doubleQuote (by decide)
  have h4 := hne hash (by decide)
  have h5 := hne openParen (by decide)
  have h6 := hne closeParen (by decide)
  have h7 := hne less (by decide)
  have h8 := hne greater (by decide)
  unfold stepPlain
  by_cases hcontrol : isControl c = true
  · left
    simp [h1, h2, h3, h4, hcontrol]
  · right
    exact ⟨isBlank c, by simp [h1, h2, h3, h4, h5, h6, h7, h8, hcontrol]⟩

theorem step_blank {state : Lex} {c : UInt16} (h : isTrimmed c = true)
    (hstate : (∃ wordStart, state = .plain wordStart) ∨ (∃ output, state = .redirect output) ∨
      ∃ wordStart, state = .escaped wordStart) :
    state.step c = (.plain true, .separator) ∨ ∃ wordStart, state.step c = (.plain wordStart, .part) := by
  obtain ⟨wordStart, rfl⟩ | ⟨output, rfl⟩ | ⟨wordStart, rfl⟩ := hstate
  · exact stepPlain_blank h
  · have hne : ∀ d, isTrimmed d = false → c ≠ d := by
      rintro d hd rfl
      rw [h] at hd
      cases hd
    have h1 := hne ampersand (by decide)
    have h2 := hne pipe (by decide)
    have h3 := hne greater (by decide)
    have h4 := hne less (by decide)
    have hstep : (Lex.redirect output).step c = stepPlain true c := by
      simp [Lex.step, h1, h2, h3, h4]
    rw [hstep]
    exact stepPlain_blank h
  · exact Or.inr ⟨_, rfl⟩

/-- White space at the end of the text begins no command. -/
theorem readsOnly_blank {state : Lex} {blank : JsString} (hblank : Blank blank)
    (hstate : (∃ wordStart, state = .plain wordStart) ∨ (∃ output, state = .redirect output) ∨
      ∃ wordStart, state = .escaped wordStart)
    (h : ∀ b, Blank b → ReadsOnly (command ++ b)) :
    ∀ command' ∈ commandsFrom command (lexed state blank), ReadsOnly command' := by
  induction blank generalizing command state with
  | nil =>
    intro command' hm
    obtain rfl := List.mem_singleton.mp hm
    have hnil := h [] fun _ hc => absurd hc List.not_mem_nil
    rwa [List.append_nil] at hnil
  | cons c blank ih =>
    have hc := hblank c List.mem_cons_self
    have hrest : Blank blank := fun d hd => hblank d (List.mem_cons_of_mem _ hd)
    obtain hstep | ⟨wordStart, hstep⟩ := step_blank hc hstate
    · rw [commandsFrom_separator (by rw [hstep]; rfl), hstep, List.forall_mem_cons]
      constructor
      · have hnil := h [] fun _ hc => absurd hc List.not_mem_nil
        rwa [List.append_nil] at hnil
      · apply ih hrest (Or.inl ⟨true, rfl⟩)
        intro b hb hcommand
        rw [List.nil_append, notBlank_of_blank hb] at hcommand
        cases hcommand
    · rw [commandsFrom_part (by rw [hstep]; rfl) (by simp [hstep]), hstep]
      apply ih hrest (Or.inl ⟨wordStart, rfl⟩)
      intro b hb
      rw [List.append_assoc]
      apply h
      intro d hd
      obtain rfl | hd := List.mem_cons.mp hd
      · exact hc
      · exact hb d hd

/-- White space at the start of the text begins no command either. -/
theorem commandsFrom_blank {wordStart : Bool} {blank rest : JsString} (hblank : Blank blank)
    (hcommand : Blank command) :
    ∃ wordStart' w, Blank w ∧
      (∀ command' ∈ commandsFrom command (lexed (.plain wordStart) (blank ++ rest)),
        Blank command' ∨ command' ∈ commandsFrom w (lexed (.plain wordStart') rest)) ∧
      ∀ m ∈ lexed (.plain wordStart') rest, m ∈ lexed (.plain wordStart) (blank ++ rest) := by
  induction blank generalizing command wordStart with
  | nil => exact ⟨wordStart, command, hcommand, fun _ hm => Or.inr hm, fun _ hm => hm⟩
  | cons c blank ih =>
    have hc := hblank c List.mem_cons_self
    have hrest : Blank blank := fun d hd => hblank d (List.mem_cons_of_mem _ hd)
    rw [List.cons_append]
    have hplain : ∃ wordStart', Lex.plain wordStart = .plain wordStart' := ⟨wordStart, rfl⟩
    obtain hstep | ⟨next, hstep⟩ := step_blank hc (Or.inl hplain)
    · have hnil : Blank [] := fun _ hd => absurd hd List.not_mem_nil
      obtain ⟨wordStart', w, hw, hcommands, hmarks⟩ := @ih [] true hrest hnil
      refine ⟨wordStart', w, hw, ?_, ?_⟩
      · rw [commandsFrom_separator (by rw [hstep]; rfl), hstep, List.forall_mem_cons]
        exact ⟨Or.inl hcommand, hcommands⟩
      · intro m hm
        rw [lexed, hstep]
        exact List.mem_cons_of_mem _ (hmarks m hm)
    · have hblank' : Blank (command ++ [c]) := by
        intro d hd
        obtain hd | hd := List.mem_append.mp hd
        · exact hcommand d hd
        · rw [List.mem_singleton.mp hd]
          exact hc
      obtain ⟨wordStart', w, hw, hcommands, hmarks⟩ := @ih (command ++ [c]) next hrest hblank'
      refine ⟨wordStart', w, hw, ?_, ?_⟩
      · rw [commandsFrom_part (by rw [hstep]; rfl) (by simp [hstep]), hstep]
        exact hcommands
      · intro m hm
        rw [lexed, hstep]
        exact List.mem_cons_of_mem _ (hmarks m hm)

/-! ## One unit -/

variable {state : Lex} {c : UInt16}

/-- Outside quotes the shell is where `stepPlain` steps on, but after the first unit of a redirection
operator. -/
theorem Beside.step_none (h : Beside segment none state) :
    (∃ wordStart, state.step c = stepPlain wordStart c) ∨
      notBlank segment = true ∧ (c = ampersand ∨ c = pipe ∨ c = greater ∨ c = less) ∧
        ∃ mark, state.step c = (.plain true, mark) ∧ ends mark = false ∧ mark ≠ .comment := by
  cases h with
  | plain wordStart => exact Or.inl ⟨wordStart, rfl⟩
  | redirect output hs =>
    rw [Lex.step]
    split_ifs with h1 h2 h3
    · right
      simp only [Bool.or_eq_true, Bool.and_eq_true, decide_eq_true_eq] at h1
      exact ⟨hs, by tauto, _, rfl, rfl, by decide⟩
    · exact Or.inr ⟨hs, by tauto, _, rfl, rfl, by decide⟩
    · exact Or.inr ⟨hs, by tauto, _, rfl, rfl, by decide⟩
    · exact Or.inl ⟨true, rfl⟩

/-- A unit that the splitter keeps as it is. -/
theorem Beside.keep (h : Beside segment none state) (h1 : c ≠ escape) (h2 : c ≠ singleQuote)
    (h3 : c ≠ doubleQuote) (h4 : isSeparatorUnit c = false)
    (hsimple : (state.step c).2 ≠ .comment ∧ (state.step c).2 ≠ .paren) :
    ends (state.step c).2 = false ∧ Beside (segment ++ [c]) none (state.step c).1 := by
  obtain ⟨wordStart, hstep⟩ | ⟨-, -, mark, hstep, hends, -⟩ := h.step_none (c := c)
  · rw [hstep] at hsimple ⊢
    have hcontrol : isControl c = false := h4
    have hgreater : notBlank (segment ++ [greater]) = true := by
      rw [notBlank_append]
      exact Bool.or_eq_true_iff.mpr (Or.inr rfl)
    have hless : notBlank (segment ++ [less]) = true := by
      rw [notBlank_append]
      exact Bool.or_eq_true_iff.mpr (Or.inr rfl)
    unfold stepPlain at hsimple ⊢
    have hcontrol' : ¬isControl c = true := by simp [hcontrol]
    simp only [if_neg h1, if_neg h2, if_neg h3, if_neg hcontrol'] at hsimple ⊢
    split_ifs at hsimple ⊢ with g1 g2 g3 g4
    · exact absurd rfl hsimple.1
    · exact absurd rfl hsimple.2
    · subst g3
      exact ⟨rfl, .redirect false hless⟩
    · subst g4
      exact ⟨rfl, .redirect true hgreater⟩
    · exact ⟨rfl, .plain _⟩
  · rw [hstep]
    exact ⟨hends, .plain true⟩

theorem Beside.escape (h : Beside segment none state) :
    ∃ wordStart, state.step escape = (.escaped wordStart, .part) := by
  obtain ⟨wordStart, hstep⟩ | ⟨-, hc, -⟩ := h.step_none (c := Shell.escape)
  · exact ⟨wordStart, hstep⟩
  · exact absurd hc (by decide)

theorem Beside.openQuote (h : Beside segment none state) (hc : c = singleQuote ∨ c = doubleQuote) :
    (state.step c).2 = .part ∧ Beside (segment ++ [c]) (some c) (state.step c).1 := by
  obtain ⟨wordStart, hstep⟩ | ⟨-, hc', -⟩ := h.step_none (c := c)
  · rw [hstep]
    obtain rfl | rfl := hc
    · exact ⟨rfl, .single⟩
    · exact ⟨rfl, .double⟩
  · obtain rfl | rfl := hc
    · exact absurd hc' (by decide)
    · exact absurd hc' (by decide)

/-- Where the splitter ends a segment, the shell ends the command, or goes on after a redirection
operator. -/
theorem Beside.control (h : Beside segment none state) (hc : isSeparatorUnit c = true) :
    state.step c = (.plain true, .separator) ∨ notBlank segment = true ∧ isWordUnit c = false ∧
      ∃ mark, state.step c = (.plain true, mark) ∧ ends mark = false ∧ mark ≠ .comment := by
  have hcases : c = semicolon ∨ c = ampersand ∨ c = pipe ∨ c = lineFeed := by
    simpa [isSeparatorUnit, or_assoc] using hc
  obtain ⟨wordStart, hstep⟩ | ⟨hs, -, hmark⟩ := h.step_none (c := c)
  · left
    rw [hstep]
    obtain rfl | rfl | rfl | rfl := hcases <;> rfl
  · right
    refine ⟨hs, ?_, hmark⟩
    obtain rfl | rfl | rfl | rfl := hcases <;> decide

theorem Beside.simple_cut {rest : JsString} (h : Beside segment none state)
    (hc : isSeparatorUnit c = true) (hsimple : Simple state (c :: rest)) : Simple (.plain true) rest := by
  have htail := hsimple.tail
  obtain hstep | ⟨-, -, mark, hstep, -⟩ := h.control hc
  · rwa [hstep] at htail
  · rwa [hstep] at htail

theorem Beside.cut {rest : JsString} (h : Beside segment none state)
    (hc : isSeparatorUnit c = true) (hbegins : Begins command segment) (hok : SegmentOk segment)
    (hrest : ∀ command, Begins command [] →
      ∀ command' ∈ commandsFrom command (lexed (.plain true) rest), ReadsOnly command') :
    ∀ command' ∈ commandsFrom command (lexed state (c :: rest)), ReadsOnly command' := by
  obtain hstep | ⟨hs, hword, mark, hstep, hends, hcomment⟩ := h.control hc
  · rw [commandsFrom_separator (by rw [hstep]; rfl), hstep, List.forall_mem_cons]
    constructor
    · have hnil := hbegins.readsOnly hok (b := []) fun _ hd => absurd hd List.not_mem_nil
      rwa [List.append_nil] at hnil
    · exact hrest [] begins_nil
  · rw [commandsFrom_part (by rw [hstep]; exact hends) (by rw [hstep]; exact hcomment), hstep]
    exact hrest _ (Or.inr (hbegins.began hok hs hword))

theorem segmentOk_nil : SegmentOk [] := fun h => absurd rfl h

/-- The commands of a text whose segments were checked read only. -/
theorem readsOnly_commands {quote : Option UInt16} {rest blank : JsString} {segments : List JsString}
    (hsplit : splitFrom quote segment rest = some segments)
    (hok : ∀ s ∈ segments, SegmentOk s) (hbeside : Beside segment quote state)
    (hbegins : Begins command segment) (hblank : Blank blank)
    (hsimple : Simple state (rest ++ blank)) :
    ∀ command' ∈ commandsFrom command (lexed state (rest ++ blank)), ReadsOnly command' := by
  induction quote, segment, rest using splitFrom.induct generalizing state command segments with
  | case1 segment =>
    obtain rfl := Option.some.inj hsplit
    have hsegment := hok segment List.mem_cons_self
    apply readsOnly_blank hblank
    · cases hbeside with
      | plain wordStart => exact Or.inl ⟨wordStart, rfl⟩
      | redirect output => exact Or.inr (Or.inl ⟨output, rfl⟩)
    · exact fun b hb => hbegins.readsOnly hsegment hb
  | case2 quote segment => cases hsplit
  | case3 segment =>
    obtain rfl := Option.some.inj hsplit
    have hsegment := hok (segment ++ [escape]) List.mem_cons_self
    obtain ⟨wordStart, hstep⟩ := hbeside.escape
    rw [List.singleton_append, commandsFrom_part (by rw [hstep]; rfl) (by simp [hstep]), hstep]
    apply readsOnly_blank hblank (Or.inr (Or.inr ⟨wordStart, rfl⟩))
    exact fun b hb => (hbegins.append [escape]).readsOnly hsegment hb
  | case4 segment d rest ih =>
    obtain ⟨wordStart, hstep⟩ := hbeside.escape
    rw [List.cons_append] at hsimple ⊢
    rw [commandsFrom_part (by rw [hstep]; rfl) (by simp [hstep]), hstep, List.cons_append,
      commandsFrom_part (by rfl) (by simp [Lex.step]), List.append_assoc]
    have htail := hsimple.tail
    rw [hstep] at htail
    exact ih hsplit hok (.plain _) (hbegins.append [escape, d]) htail.tail
  | case5 segment c rest hescape hquote ih =>
    have hquote' : c = singleQuote ∨ c = doubleQuote := by simpa using hquote
    rw [splitFrom.eq_def] at hsplit
    simp only [if_neg hescape, if_pos hquote] at hsplit
    obtain ⟨hmark, hnext⟩ := hbeside.openQuote hquote'
    rw [List.cons_append] at hsimple ⊢
    rw [commandsFrom_part (by rw [hmark]; rfl) (by simp [hmark])]
    exact ih hsplit hok hnext (hbegins.append [c]) hsimple.tail
  | case6 segment c hescape hquote hseparator =>
    rw [splitFrom, if_neg hescape, if_neg hquote, if_pos hseparator] at hsplit
    obtain rfl := Option.some.inj hsplit
    apply hbeside.cut hseparator hbegins (hok segment List.mem_cons_self)
    intro command' hbegins'
    apply readsOnly_blank hblank (Or.inl ⟨true, rfl⟩)
    exact fun b hb => hbegins'.readsOnly segmentOk_nil hb
  | case7 segment c hescape hquote hseparator d rest hdoubled ih =>
    rw [splitFrom, if_neg hescape, if_neg hquote, if_pos hseparator] at hsplit
    simp only [if_pos hdoubled] at hsplit
    obtain ⟨tail, htail, rfl⟩ := Option.map_eq_some_iff.mp hsplit
    rw [List.forall_mem_cons] at hok
    apply hbeside.cut hseparator hbegins hok.1
    intro first hfirst
    have hseparator' : isSeparatorUnit d = true := by
      obtain ⟨-, rfl⟩ | ⟨-, rfl⟩ : c = ampersand ∧ d = ampersand ∨ c = pipe ∧ d = pipe := by
        simpa [isDoubled] using hdoubled
      · rfl
      · rfl
    have hbetween : Beside [] none (.plain true) := .plain true
    apply hbetween.cut hseparator' hfirst segmentOk_nil
    intro second hsecond
    have hafter := hbetween.simple_cut hseparator' (hbeside.simple_cut hseparator hsimple)
    exact ih htail hok.2 (.plain true) hsecond hafter
  | case8 segment c hescape hquote hseparator d rest hdoubled ih =>
    rw [splitFrom, if_neg hescape, if_neg hquote, if_pos hseparator] at hsplit
    simp only [if_neg hdoubled] at hsplit
    obtain ⟨tail, htail, rfl⟩ := Option.map_eq_some_iff.mp hsplit
    rw [List.forall_mem_cons] at hok
    apply hbeside.cut hseparator hbegins hok.1
    intro next hnext
    exact ih htail hok.2 (.plain true) hnext (hbeside.simple_cut hseparator hsimple)
  | case9 segment c rest hescape hquote hseparator ih =>
    rw [splitFrom.eq_def] at hsplit
    simp only [if_neg hescape, if_neg hquote, if_neg hseparator] at hsplit
    have hquote' : c ≠ singleQuote ∧ c ≠ doubleQuote := by simpa using hquote
    rw [List.cons_append] at hsimple ⊢
    have hmark := hsimple _ List.mem_cons_self
    obtain ⟨hends, hnext⟩ := hbeside.keep hescape hquote'.1 hquote'.2 (by simpa using hseparator) hmark
    rw [commandsFrom_part hends hmark.1]
    exact ih hsplit hok hnext (hbegins.append [c]) hsimple.tail
  | case10 quote segment c hescape =>
    rw [splitFrom, if_pos hescape] at hsplit
    cases hsplit
  | case11 quote segment c hescape d rest ih =>
    rw [splitFrom, if_pos hescape] at hsplit
    obtain ⟨rfl, rfl⟩ : quote = doubleQuote ∧ c = escape := by simpa using hescape
    cases hbeside
    rw [List.cons_append] at hsimple ⊢
    rw [commandsFrom_part (by rfl) (by decide), List.cons_append,
      commandsFrom_part (by rfl) (by simp [Lex.step]), List.append_assoc]
    exact ih hsplit hok .double (hbegins.append [escape, d]) hsimple.tail.tail
  | case12 segment c rest hescape ih =>
    rw [splitFrom.eq_def] at hsplit
    simp only [if_neg hescape, if_pos] at hsplit
    rw [List.cons_append] at hsimple ⊢
    have hstep : state.step c = (.plain false, .part) := by
      cases hbeside <;> rfl
    rw [commandsFrom_part (by rw [hstep]; rfl) (by simp [hstep]), hstep]
    have htail := hsimple.tail
    rw [hstep] at htail
    exact ih hsplit hok (.plain false) (hbegins.append [c]) htail
  | case13 quote segment c rest hescape hquote ih =>
    rw [splitFrom.eq_def] at hsplit
    simp only [if_neg hescape, if_neg hquote] at hsplit
    rw [List.cons_append] at hsimple ⊢
    have hstep : state.step c = (state, .part) ∧ Beside (segment ++ [c]) (some quote) state := by
      cases hbeside with
      | single => exact ⟨by simp [Lex.step, hquote], .single⟩
      | double =>
        have hne : c ≠ escape := by simpa using hescape
        exact ⟨by simp [Lex.step, hquote, hne], .double⟩
    obtain ⟨hstep, hnext⟩ := hstep
    rw [commandsFrom_part (by rw [hstep]; rfl) (by simp [hstep]), hstep]
    have htail := hsimple.tail
    rw [hstep] at htail
    exact ih hsplit hok hnext (hbegins.append [c]) htail

/-! ## Soundness -/

theorem segmentOk_of_every {segments : List JsString}
    (hall : (((segments.map trim).filter fun segment => segment ≠ []).all fun segment =>
      readOnlyPrefix segment && !adlcRecordOption segment) = true) :
    ∀ s ∈ segments, SegmentOk s := by
  intro s hs hne
  have hm : trim s ∈ (segments.map trim).filter fun segment => segment ≠ [] :=
    List.mem_filter.mpr ⟨List.mem_map_of_mem hs, decide_eq_true hne⟩
  exact (Bool.and_eq_true_iff.mp (List.all_eq_true.mp hall _ hm)).1

theorem readsOnly_of_blank (h : Blank command) : ReadsOnly command := by
  intro hcommand
  rw [notBlank_of_blank h] at hcommand
  cases hcommand

/-- Every simple command of a text that is taken for read only begins with a read-only command, where
the text has no comment and no parenthesis that is an operator. -/
theorem shellIsPositivelyReadOnly_sound (text : JsString)
    (hread : shellIsPositivelyReadOnly text = true) (hcomment : ¬HasMark .comment text)
    (hparen : ¬HasMark .paren text) :
    ∀ command ∈ simpleCommands text, ReadsOnly command := by
  intro command hm
  have hcommand := (List.mem_filter.mp hm).1
  obtain ⟨b, hb, htrim⟩ := trim_append_blank text
  have hlead : Blank (text.takeWhile isTrimmed) := fun c hc => List.mem_takeWhile_imp hc
  have htext : text.takeWhile isTrimmed ++ (trim text ++ b) = text := by
    rw [← htrim, List.takeWhile_append_dropWhile]
  have hsimple : Simple (.plain true) text := by
    rintro ⟨c, mark⟩ hmark
    refine ⟨?_, ?_⟩
    · rintro rfl
      exact hcomment ⟨c, hmark⟩
    · rintro rfl
      exact hparen ⟨c, hmark⟩
  have hnil : Blank [] := fun _ hc => absurd hc List.not_mem_nil
  have hstart := @commandsFrom_blank [] true _ (trim text ++ b) hlead hnil
  rw [htext] at hstart
  obtain ⟨wordStart, w, hw, hcommands, hmarks⟩ := hstart
  obtain hblank | hafter := hcommands command hcommand
  · exact readsOnly_of_blank hblank
  · have hbegins : Begins w [] := Or.inl ⟨w, hw, (List.append_nil w).symm⟩
    by_cases htrimmed : trim text = []
    · rw [htrimmed, List.nil_append] at hafter
      refine readsOnly_blank hb (Or.inl ⟨wordStart, rfl⟩) ?_ command hafter
      exact fun b' hb' => hbegins.readsOnly segmentOk_nil hb'
    · rw [shellIsPositivelyReadOnly, if_neg htrimmed] at hread
      cases hsplit : splitOnUnquotedSeparators (trim text) with
      | none =>
        rw [hsplit] at hread
        cases hread
      | some segments =>
        rw [hsplit] at hread
        exact readsOnly_commands hsplit (segmentOk_of_every hread) (.plain wordStart) hbegins hb
          (fun m hm => hsimple m (hmarks m hm)) command hafter

theorem shellIsPositivelyReadOnly_sound_list :
    (simpleCommands (js "git  log && ls")).Forall ReadsOnly := by
  rw [List.forall_iff_forall_mem]
  apply shellIsPositivelyReadOnly_sound (js "git  log && ls")
  · decide +kernel
  · decide +kernel
  · decide +kernel

/-- Redirection is left to other checks. -/
theorem shellIsPositivelyReadOnly_output :
    shellIsPositivelyReadOnly (js "cat a > b") = true ∧ HasMark .output (js "cat a > b") := by
  constructor
  · decide +kernel
  · decide +kernel

end Adlc.Core
