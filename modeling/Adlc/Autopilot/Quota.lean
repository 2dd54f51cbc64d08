import Adlc.Framework.LineReader
import Adlc.Tickets.Filename
import Mathlib.Data.Finset.Card
import Mathlib.Data.Rat.Defs
import Mathlib.Algebra.Order.Ring.Unbundled.Rat
import Mathlib.Tactic.NormNum

namespace Adlc.Autopilot

open Framework Tickets

/-! The quota gate over the text of `/usage`. -/

def families : List JsString := [js "fable", js "opus", js "sonnet", js "haiku"]

def unknownFamily : JsString := js "unknown"

structure Usage where
  fiveHour : Nat
  sevenDay : Nat
  /-- The map from families to percentages. -/
  scopedPct : List (JsString × Nat)
  deriving DecidableEq

structure Windows where
  fiveHour : Nat
  sevenDay : Nat
  scopedPct : Option Nat
  deriving DecidableEq

structure Verdict where
  ok : Bool
  reason : Option JsString
  detail : Option JsString
  windows : Option Windows
  deriving DecidableEq

def evaluate (validated : Except JsString Usage) (family : JsString) (threshold : ℚ) : Verdict :=
  match validated with
  | .error detail => ⟨false, some (js "quota-unknown"), some detail, none⟩
  | .ok usage =>
    let scopedPct := usage.scopedPct.lookup family
    let windows : Windows := ⟨usage.fiveHour, usage.sevenDay, scopedPct⟩
    if threshold ≤ usage.fiveHour then ⟨false, some (js "five_hour"), none, some windows⟩
    else if threshold ≤ usage.sevenDay then ⟨false, some (js "seven_day"), none, some windows⟩
    else if scopedPct.any fun pct : Nat => decide (threshold ≤ pct) then
      ⟨false, some (js "seven_day_" ++ family), none, some windows⟩
    else ⟨true, none, none, some windows⟩

/-! ## The grammar -/

/-- `(\d{1,3})% used` -/
def readPercent (s : JsString) : Option JsString :=
  let digits := s.takeWhile isDigit
  if digits = [] ∨ 3 < digits.length then none
  else (expect (js "% used") (s.dropWhile isDigit)).map fun _ => digits

/-- `[A-Za-z0-9 .-]` -/
def isModelUnit (c : UInt16) : Bool := isSlugUnit (lowerUnit c) || c = 32 || c = 46 || c = 45

/-- `SESSION_RE` -/
def readSession (s : JsString) : Option JsString := (expect (js "Current session: ") s).bind readPercent

/-- `WEEK_RE` -/
def readWeek (s : JsString) : Option JsString :=
  (expect (js "Current week (all models): ") s).bind readPercent

/-- `\): (\d{1,3})% used`, after the name of a model. -/
def readNamed (s : JsString) : Option (JsString × JsString) :=
  let name := s.takeWhile isModelUnit
  if name = [] then none
  else ((expect (js "): ") (s.dropWhile isModelUnit)).bind readPercent).map fun digits => (name, digits)

/-- `SCOPED_RE` -/
def readScoped (s : JsString) : Option (JsString × JsString) :=
  (expect (js "Current week (") s).bind readNamed

/-- What a pattern that begins with `^` finds in a text of several lines. -/
def allMatches {α : Type} (read : JsString → Option α) (text : JsString) : List α :=
  (lineStarts text).filterMap read

def distinct (ms : List JsString) : Nat := ms.toFinset.card

variable [Unicode]

def familyOf (x : JsString) : JsString :=
  let tokens := ((Unicode.toLowerCase x).splitOnP fun c => !isSlugUnit c).filter fun t => t ≠ []
  (tokens.find? fun t => decide (t ∈ families)).getD unknownFamily

/-- One round of the loop over the lines of single models. -/
def readScopedMatch (limits : List (JsString × Nat)) (m : JsString × JsString) :
    Except JsString (List (JsString × Nat)) :=
  if m.1 = js "all models" then .ok limits
  else
    let family := familyOf m.1
    let pct := readNat m.2
    if 100 < pct then .error (js "scoped value above 100")
    else if family = unknownFamily then .ok limits
    else
      match limits.lookup family with
      | some old => if old ≠ pct then .error (js "two " ++ family ++ js " lines disagree") else .ok limits
      | none => .ok (limits ++ [(family, pct)])

def parseUsageText (text : JsString) : Except JsString Usage :=
  if ¬js "subscription" <:+: text then .error (js "usage text lacks the literal \"subscription\"")
  else
    match allMatches readSession text, allMatches readWeek text with
    | [], _ => .error (js "missing \"Current session\" line")
    | _ :: _, [] => .error (js "missing \"Current week (all models)\" line")
    | session :: sessions, week :: weeks =>
      if 1 < distinct (session :: sessions) then .error (js "duplicate session lines disagree")
      else if 1 < distinct (week :: weeks) then .error (js "duplicate weekly lines disagree")
      else
        let fiveHour := readNat session
        let sevenDay := readNat week
        if 100 < fiveHour ∨ 100 < sevenDay then .error (js "value above 100")
        else
          ((allMatches readScoped text).foldlM readScopedMatch []).map fun limits =>
            ⟨fiveHour, sevenDay, limits⟩

/-! ## What a text reports -/

/-- A window is of the five hours, of the week, or of the week for one family. -/
inductive Window where
  | fiveHour
  | sevenDay
  | model (family : JsString)
  deriving DecidableEq

def PercentUsed (digits s : JsString) : Prop :=
  digits ≠ [] ∧ digits.length ≤ 3 ∧ digits.all isDigit = true ∧ digits ++ js "% used" <+: s

/-- The lines of the grammar, each with its window and the digits that it shows. -/
inductive WindowLine : Window → JsString → JsString → Prop
  | fiveHour {digits s : JsString} :
      PercentUsed digits s → WindowLine .fiveHour digits (js "Current session: " ++ s)
  | sevenDay {digits s : JsString} :
      PercentUsed digits s → WindowLine .sevenDay digits (js "Current week (all models): " ++ s)
  | model {name digits s : JsString} :
      name ≠ [] → name.all isModelUnit = true → name ≠ js "all models" → PercentUsed digits s →
        WindowLine (.model (familyOf name)) digits (js "Current week (" ++ name ++ js "): " ++ s)

/-- The lines that report a window, well or badly. -/
def OpensWindow (line : JsString) : Prop :=
  js "Current session" <+: line ∨ js "Current week (" <+: line

def InGrammar (line : JsString) : Prop := ∃ w digits, WindowLine w digits line

/-- The text shows these digits for the window. -/
def Shows (text : JsString) (w : Window) (digits : JsString) : Prop :=
  ∃ line ∈ jsLines text, WindowLine w digits line

def Reports (text : JsString) (w : Window) (n : Nat) : Prop :=
  ∃ digits, Shows text w digits ∧ readNat digits = n

/-- The window is of a family that is known. -/
def Window.Known (w : Window) : Prop := w ≠ .model unknownFamily

/-- A usage that leaves nothing out of what the text reports. -/
structure FailsClosed (text : JsString) (usage : Usage) : Prop where
  inGrammar : ∀ line ∈ jsLines text, OpensWindow line →
    ∃ w digits, WindowLine w digits line ∧ readNat digits ≤ 100
  agree : ∀ w m n, w.Known → Reports text w m → Reports text w n → m = n
  fiveHour : ∀ n, Reports text .fiveHour n ↔ usage.fiveHour = n
  sevenDay : ∀ n, Reports text .sevenDay n ↔ usage.sevenDay = n
  scopedPct : ∀ family n, usage.scopedPct.lookup family = some n ↔
    Reports text (.model family) n ∧ family ≠ unknownFamily
  refused : ∀ (family : JsString) (threshold : ℚ) (w : Window) (n : Nat), w.Known →
    w = .fiveHour ∨ w = .sevenDay ∨ w = .model family → Reports text w n → threshold ≤ n →
      (evaluate (.ok usage) family threshold).ok = false

/-- What the lines of the grammar say among themselves is in order. -/
structure Acceptable (text : JsString) : Prop where
  subscription : js "subscription" <:+: text
  session : ∃ digits, Shows text .fiveHour digits
  week : ∃ digits, Shows text .sevenDay digits
  oneSession : ∀ d e, Shows text .fiveHour d → Shows text .fiveHour e → d = e
  oneWeek : ∀ d e, Shows text .sevenDay d → Shows text .sevenDay e → d = e
  bounded : ∀ w n, Reports text w n → n ≤ 100
  agree : ∀ w m n, w.Known → Reports text w m → Reports text w n → m = n

/-! ## Readers and lines -/

omit [Unicode] in
theorem isModelUnit_inLine (c : UInt16) (h : isModelUnit c = true) : endsLine c = false := by
  simp only [endsLine, Bool.or_eq_false_iff, decide_eq_false_iff_not]
  refine ⟨⟨⟨?_, ?_⟩, ?_⟩, ?_⟩ <;> rintro rfl <;> exact absurd h (by decide)

omit [Unicode] in
theorem readPercent_iff (s digits : JsString) : readPercent s = some digits ↔ PercentUsed digits s := by
  constructor
  · intro h
    unfold readPercent at h
    dsimp only at h
    split_ifs at h with hbad
    rw [not_or, not_lt] at hbad
    obtain ⟨rest, hrest, rfl⟩ := Option.map_eq_some_iff.mp h
    refine ⟨hbad.1, hbad.2, List.all_takeWhile, ?_⟩
    have hs : s = s.takeWhile isDigit ++ (js "% used" ++ rest) := by
      rw [← expect_eq_some_iff.mp hrest, List.takeWhile_append_dropWhile]
    refine ⟨rest, ?_⟩
    rw [List.append_assoc]
    exact hs.symm
  · rintro ⟨hne, hlen, hall, rest, rfl⟩
    have htake : (digits ++ js "% used" ++ rest).takeWhile isDigit = digits := by
      rw [List.append_assoc, List.takeWhile_append_of_pos (List.all_eq_true.mp hall)]
      exact List.append_nil digits
    have hdrop : (digits ++ js "% used" ++ rest).dropWhile isDigit = js "% used" ++ rest := by
      rw [List.append_assoc, List.dropWhile_append_of_pos (List.all_eq_true.mp hall)]
      rfl
    unfold readPercent
    rw [htake, hdrop, if_neg (not_or.mpr ⟨hne, not_lt.mpr hlen⟩), expect_append]
    rfl

theorem readSession_iff (s digits : JsString) :
    readSession s = some digits ↔ WindowLine .fiveHour digits s := by
  rw [readSession, expect_bind_iff]
  constructor
  · rintro ⟨rest, rfl, h⟩
    exact .fiveHour ((readPercent_iff rest digits).mp h)
  · intro h
    cases h with
    | fiveHour h => exact ⟨_, rfl, (readPercent_iff _ digits).mpr h⟩

theorem readWeek_iff (s digits : JsString) : readWeek s = some digits ↔ WindowLine .sevenDay digits s := by
  rw [readWeek, expect_bind_iff]
  constructor
  · rintro ⟨rest, rfl, h⟩
    exact .sevenDay ((readPercent_iff rest digits).mp h)
  · intro h
    cases h with
    | sevenDay h => exact ⟨_, rfl, (readPercent_iff _ digits).mpr h⟩

omit [Unicode] in
theorem readNamed_iff (s name digits : JsString) :
    readNamed s = some (name, digits) ↔
      name ≠ [] ∧ name.all isModelUnit = true ∧
        ∃ rest, s = name ++ js "): " ++ rest ∧ PercentUsed digits rest := by
  constructor
  · intro h
    unfold readNamed at h
    dsimp only at h
    split_ifs at h with hne
    obtain ⟨digits', hread, e⟩ := Option.map_eq_some_iff.mp h
    rw [Prod.mk.injEq] at e
    obtain ⟨rfl, rfl⟩ := e
    obtain ⟨rest, hrest, hpercent⟩ := expect_bind_iff.mp hread
    refine ⟨hne, List.all_takeWhile, rest, ?_, (readPercent_iff rest digits').mp hpercent⟩
    rw [List.append_assoc, ← hrest, List.takeWhile_append_dropWhile]
  · rintro ⟨hne, hall, rest, rfl, hpercent⟩
    have htake : (name ++ js "): " ++ rest).takeWhile isModelUnit = name := by
      rw [List.append_assoc, List.takeWhile_append_of_pos (List.all_eq_true.mp hall)]
      exact List.append_nil name
    have hdrop : (name ++ js "): " ++ rest).dropWhile isModelUnit = js "): " ++ rest := by
      rw [List.append_assoc, List.dropWhile_append_of_pos (List.all_eq_true.mp hall)]
      rfl
    unfold readNamed
    rw [htake, hdrop, if_neg hne, expect_append, Option.bind_some,
      (readPercent_iff rest digits).mpr hpercent]
    rfl

theorem readScoped_line {s : JsString} {m : JsString × JsString} (h : readScoped s = some m)
    (hname : m.1 ≠ js "all models") : WindowLine (.model (familyOf m.1)) m.2 s := by
  obtain ⟨rest, rfl, hread⟩ := expect_bind_iff.mp h
  obtain ⟨hne, hall, rest, rfl, hpercent⟩ := (readNamed_iff rest m.1 m.2).mp hread
  have e := WindowLine.model hne hall hname hpercent
  rw [List.append_assoc, List.append_assoc] at e
  rw [List.append_assoc]
  exact e

theorem WindowLine.readScoped {family digits s : JsString} (h : WindowLine (.model family) digits s) :
    ∃ name, name ≠ js "all models" ∧ familyOf name = family ∧ readScoped s = some (name, digits) := by
  cases h with
  | @model name _ rest hne hall hname hpercent =>
    refine ⟨name, hname, rfl, expect_bind_iff.mpr ⟨name ++ js "): " ++ rest, ?_, ?_⟩⟩
    · rw [List.append_assoc, List.append_assoc, List.append_assoc]
    · exact (readNamed_iff _ name digits).mpr ⟨hne, hall, rest, rfl, hpercent⟩

omit [Unicode] in
theorem readPercent_lineAt (s : JsString) : readPercent (lineAt s) = readPercent s := by
  obtain ⟨htake, hdrop⟩ := span_lineAt isDigit_inLine s
  have hused : ∀ c ∈ js "% used", endsLine c = false := forall_mem_of_all (by decide)
  unfold readPercent
  dsimp only
  rw [htake, hdrop, expect_lineAt hused, Option.map_map]
  rfl

omit [Unicode] in
theorem readSession_lineAt (s : JsString) : readSession (lineAt s) = readSession s :=
  expect_bind_lineAt (forall_mem_of_all (by decide)) readPercent_lineAt s

omit [Unicode] in
theorem readWeek_lineAt (s : JsString) : readWeek (lineAt s) = readWeek s :=
  expect_bind_lineAt (forall_mem_of_all (by decide)) readPercent_lineAt s

omit [Unicode] in
theorem readNamed_lineAt (s : JsString) : readNamed (lineAt s) = readNamed s := by
  obtain ⟨htake, hdrop⟩ := span_lineAt isModelUnit_inLine s
  unfold readNamed
  rw [htake, hdrop, expect_bind_lineAt (forall_mem_of_all (by decide)) readPercent_lineAt]

omit [Unicode] in
theorem readScoped_lineAt (s : JsString) : readScoped (lineAt s) = readScoped s :=
  expect_bind_lineAt (forall_mem_of_all (by decide)) readNamed_lineAt s

omit [Unicode] in
theorem mem_allMatches {α : Type} {read : JsString → Option α} (hread : ∀ s, read (lineAt s) = read s)
    (text : JsString) (a : α) :
    a ∈ allMatches read text ↔ ∃ line ∈ jsLines text, read line = some a := by
  have hlines : allMatches read text = (jsLines text).filterMap read := by
    rw [jsLines, List.filterMap_map]
    exact congrArg₂ _ (funext fun s => (hread s).symm) rfl
  rw [hlines, List.mem_filterMap]

theorem shows_fiveHour (text digits : JsString) :
    Shows text .fiveHour digits ↔ digits ∈ allMatches readSession text := by
  rw [mem_allMatches readSession_lineAt]
  simp only [Shows, readSession_iff]

theorem shows_sevenDay (text digits : JsString) :
    Shows text .sevenDay digits ↔ digits ∈ allMatches readWeek text := by
  rw [mem_allMatches readWeek_lineAt]
  simp only [Shows, readWeek_iff]

theorem shows_model (text family digits : JsString) :
    Shows text (.model family) digits ↔
      ∃ m ∈ allMatches readScoped text, m.1 ≠ js "all models" ∧ familyOf m.1 = family ∧ m.2 = digits := by
  constructor
  · rintro ⟨line, hline, h⟩
    obtain ⟨name, hname, hfamily, hread⟩ := h.readScoped
    have hm := (mem_allMatches readScoped_lineAt text (name, digits)).mpr ⟨line, hline, hread⟩
    exact ⟨(name, digits), hm, hname, hfamily, rfl⟩
  · rintro ⟨m, hm, hname, rfl, rfl⟩
    obtain ⟨line, hline, hread⟩ := (mem_allMatches readScoped_lineAt text m).mp hm
    exact ⟨line, hline, readScoped_line hread hname⟩

/-! ## The lines of single models -/

/-- From one map to the next, these matches were counted, and nothing else. -/
structure Tallied (ms : List (JsString × JsString)) (limits limits' : List (JsString × Nat)) : Prop where
  keeps : ∀ f n, limits.lookup f = some n → limits'.lookup f = some n
  only : ∀ f n, limits'.lookup f = some n → limits.lookup f = some n ∨
    f ≠ unknownFamily ∧ ∃ m ∈ ms, m.1 ≠ js "all models" ∧ familyOf m.1 = f ∧ readNat m.2 = n
  bounded : ∀ m ∈ ms, m.1 ≠ js "all models" → readNat m.2 ≤ 100
  found : ∀ m ∈ ms, m.1 ≠ js "all models" → familyOf m.1 ≠ unknownFamily →
    limits'.lookup (familyOf m.1) = some (readNat m.2)

theorem Tallied.none (limits : List (JsString × Nat)) : Tallied [] limits limits :=
  ⟨fun _ _ h => h, fun _ _ h => .inl h, fun _ hm => absurd hm List.not_mem_nil,
    fun _ hm => absurd hm List.not_mem_nil⟩

theorem Tallied.cons {m : JsString × JsString} {ms : List (JsString × JsString)}
    {limits limits' limits'' : List (JsString × Nat)} (h : Tallied [m] limits limits')
    (hs : Tallied ms limits' limits'') : Tallied (m :: ms) limits limits'' := by
  have hm : m ∈ [m] := List.mem_singleton.mpr rfl
  refine ⟨fun f n hf => hs.keeps f n (h.keeps f n hf), ?_, ?_, ?_⟩
  · intro f n hf
    obtain hf | ⟨hknown, m', hm', h'⟩ := hs.only f n hf
    · obtain hf | ⟨hknown, m', hm', h'⟩ := h.only f n hf
      · exact .inl hf
      · exact .inr ⟨hknown, m', List.mem_cons.mpr (.inl (List.mem_singleton.mp hm')), h'⟩
    · exact .inr ⟨hknown, m', List.mem_cons_of_mem m hm', h'⟩
  · intro m' hm' hname
    obtain rfl | hm' := List.mem_cons.mp hm'
    · exact h.bounded m' hm hname
    · exact hs.bounded m' hm' hname
  · intro m' hm' hname hknown
    obtain rfl | hm' := List.mem_cons.mp hm'
    · exact hs.keeps _ _ (h.found m' hm hname hknown)
    · exact hs.found m' hm' hname hknown

theorem readScopedMatch_tallied {m : JsString × JsString} {limits limits' : List (JsString × Nat)}
    (h : readScopedMatch limits m = .ok limits') : Tallied [m] limits limits' := by
  unfold readScopedMatch at h
  dsimp only at h
  split_ifs at h with hall hbound hunknown
  · cases h
    refine ⟨fun _ _ h => h, fun _ _ h => .inl h, ?_, ?_⟩ <;> intro m' hm' hname <;>
      rw [List.mem_singleton.mp hm'] at hname <;> exact absurd hall hname
  · cases h
    refine ⟨fun _ _ h => h, fun _ _ h => .inl h, ?_, ?_⟩
    · intro m' hm' _
      rw [List.mem_singleton.mp hm']
      exact not_lt.mp hbound
    · intro m' hm' _ hknown
      rw [List.mem_singleton.mp hm'] at hknown
      exact absurd hunknown hknown
  · have hbounded : ∀ m' ∈ [m], m'.1 ≠ js "all models" → readNat m'.2 ≤ 100 := by
      intro m' hm' _
      rw [List.mem_singleton.mp hm']
      exact not_lt.mp hbound
    cases hold : limits.lookup (familyOf m.1) with
    | some old =>
      rw [hold] at h
      dsimp only at h
      split_ifs at h with hne
      cases h
      refine ⟨fun _ _ h => h, fun _ _ h => .inl h, hbounded, ?_⟩
      intro m' hm' _ _
      rw [List.mem_singleton.mp hm', hold, not_not.mp hne]
    | none =>
      rw [hold] at h
      cases h
      have hlookup : ∀ f, (limits ++ [(familyOf m.1, readNat m.2)]).lookup f =
          (limits.lookup f).or (if f = familyOf m.1 then some (readNat m.2) else none) := by
        intro f
        rw [List.lookup_append, List.lookup_cons, List.lookup_nil]
        by_cases e : f = familyOf m.1
        · rw [if_pos e, beq_iff_eq.mpr e]
        · rw [if_neg e, beq_eq_false_iff_ne.mpr e]
      refine ⟨?_, ?_, hbounded, ?_⟩
      · intro f n hf
        rw [hlookup, hf]
        rfl
      · intro f n hf
        rw [hlookup] at hf
        cases hold' : limits.lookup f with
        | some old =>
          rw [hold'] at hf
          exact .inl hf
        | none =>
          rw [hold', Option.none_or] at hf
          split_ifs at hf with e
          cases hf
          exact .inr ⟨e ▸ hunknown, m, List.mem_singleton.mpr rfl, hall, e.symm, rfl⟩
      · intro m' hm' _ _
        rw [List.mem_singleton.mp hm', hlookup, hold, Option.none_or, if_pos rfl]

theorem readScopedMatches_tallied {ms : List (JsString × JsString)} {limits limits' : List (JsString × Nat)}
    (h : ms.foldlM readScopedMatch limits = .ok limits') : Tallied ms limits limits' := by
  induction ms generalizing limits with
  | nil =>
    cases h
    exact .none _
  | cons m ms ih =>
    rw [List.foldlM_cons] at h
    cases hm : readScopedMatch limits m with
    | error detail =>
      rw [hm] at h
      cases h
    | ok next =>
      rw [hm] at h
      exact (readScopedMatch_tallied hm).cons (ih h)

/-- Nothing in the matches, and nothing in the map, is at odds. -/
structure Consistent (ms : List (JsString × JsString)) (limits : List (JsString × Nat)) : Prop where
  bounded : ∀ m ∈ ms, m.1 ≠ js "all models" → readNat m.2 ≤ 100
  agree : ∀ m ∈ ms, ∀ m' ∈ ms, m.1 ≠ js "all models" → m'.1 ≠ js "all models" →
    familyOf m.1 = familyOf m'.1 → familyOf m.1 ≠ unknownFamily → readNat m.2 = readNat m'.2
  kept : ∀ m ∈ ms, m.1 ≠ js "all models" → ∀ n, limits.lookup (familyOf m.1) = some n → readNat m.2 = n

theorem readScopedMatch_consistent {m : JsString × JsString} {ms : List (JsString × JsString)}
    {limits : List (JsString × Nat)} (h : Consistent (m :: ms) limits) :
    ∃ limits', readScopedMatch limits m = .ok limits' := by
  have hm : m ∈ m :: ms := List.mem_cons_self
  unfold readScopedMatch
  dsimp only
  split_ifs with hall hbound hunknown
  · exact ⟨limits, rfl⟩
  · exact absurd (h.bounded m hm hall) (not_le.mpr hbound)
  · exact ⟨limits, rfl⟩
  · cases hold : limits.lookup (familyOf m.1) with
    | none => exact ⟨_, rfl⟩
    | some old =>
      have e := h.kept m hm hall old hold
      dsimp only
      rw [if_neg (not_not.mpr e.symm)]
      exact ⟨_, rfl⟩

theorem readScopedMatches_consistent {ms : List (JsString × JsString)} {limits : List (JsString × Nat)}
    (h : Consistent ms limits) : ∃ limits', ms.foldlM readScopedMatch limits = .ok limits' := by
  induction ms generalizing limits with
  | nil => exact ⟨limits, rfl⟩
  | cons m ms ih =>
    obtain ⟨next, hnext⟩ := readScopedMatch_consistent h
    have hstep := readScopedMatch_tallied hnext
    have htail : Consistent ms next := by
      refine ⟨fun m' hm' => h.bounded m' (List.mem_cons_of_mem m hm'), fun m' hm' m'' hm'' =>
        h.agree m' (List.mem_cons_of_mem m hm') m'' (List.mem_cons_of_mem m hm''), ?_⟩
      intro m' hm' hname n hn
      obtain hn | ⟨hknown, m'', hm'', hname'', hfamily, rfl⟩ := hstep.only _ _ hn
      · exact h.kept m' (List.mem_cons_of_mem m hm') hname n hn
      · rw [List.mem_singleton.mp hm''] at hname'' hfamily ⊢
        exact h.agree m' (List.mem_cons_of_mem m hm') m List.mem_cons_self hname hname'' hfamily.symm
          hknown
    obtain ⟨limits', hlimits⟩ := ih htail
    refine ⟨limits', ?_⟩
    rw [List.foldlM_cons, hnext]
    exact hlimits

/-! ## The whole text -/

omit [Unicode] in
theorem distinct_le_one (ms : List JsString) : ¬1 < distinct ms ↔ ∀ d ∈ ms, ∀ e ∈ ms, d = e := by
  rw [distinct, not_lt, Finset.card_le_one]
  simp only [List.mem_toFinset]

theorem reports_iff {text digits : JsString} {w : Window} (h : Shows text w digits)
    (hone : ∀ d e, Shows text w d → Shows text w e → d = e) (n : Nat) :
    Reports text w n ↔ readNat digits = n := by
  constructor
  · rintro ⟨d, hd, rfl⟩
    rw [hone digits d h hd]
  · rintro rfl
    exact ⟨digits, h, rfl⟩

omit [Unicode] in
theorem evaluate_ok_iff (usage : Usage) (family : JsString) (threshold : ℚ) :
    (evaluate (.ok usage) family threshold).ok = true ↔
      usage.fiveHour < threshold ∧ usage.sevenDay < threshold ∧
        ∀ n, usage.scopedPct.lookup family = some n → (n : ℚ) < threshold := by
  unfold evaluate
  dsimp only
  split_ifs with hfive hseven hmodel
  · exact ⟨fun h => h.elim, fun h => absurd h.1 (not_lt.mpr hfive)⟩
  · exact ⟨fun h => h.elim, fun h => absurd h.2.1 (not_lt.mpr hseven)⟩
  · obtain ⟨n, hn, hle⟩ := (Option.any_eq_true _ _).mp hmodel
    exact ⟨fun h => h.elim, fun h => absurd (h.2.2 n hn) (not_lt.mpr (of_decide_eq_true hle))⟩
  · refine ⟨fun _ => ⟨not_le.mp hfive, not_le.mp hseven, fun n hn => not_le.mp fun hle => ?_⟩, fun _ => rfl⟩
    exact hmodel ((Option.any_eq_true _ _).mpr ⟨n, hn, decide_eq_true hle⟩)

/-- What the text of an accepted usage is, and what it reports. -/
structure Exact (text : JsString) (usage : Usage) : Prop where
  acceptable : Acceptable text
  fiveHour : ∀ n, Reports text .fiveHour n ↔ usage.fiveHour = n
  sevenDay : ∀ n, Reports text .sevenDay n ↔ usage.sevenDay = n
  scopedPct : ∀ family n, usage.scopedPct.lookup family = some n ↔
    Reports text (.model family) n ∧ family ≠ unknownFamily

theorem parseUsageText_exact {text : JsString} {usage : Usage} (h : parseUsageText text = .ok usage) :
    Exact text usage := by
  unfold parseUsageText at h
  split_ifs at h with hsubscription
  cases hsessions : allMatches readSession text with
  | nil =>
    rw [hsessions] at h
    cases h
  | cons session sessions =>
    cases hweeks : allMatches readWeek text with
    | nil =>
      rw [hsessions, hweeks] at h
      cases h
    | cons week weeks =>
      rw [hsessions, hweeks] at h
      dsimp only at h
      split_ifs at h with hone honeWeek hbound
      obtain ⟨limits, hlimits, rfl⟩ : ∃ limits,
          (allMatches readScoped text).foldlM readScopedMatch [] = .ok limits ∧
            ⟨readNat session, readNat week, limits⟩ = usage := by
        cases e : (allMatches readScoped text).foldlM readScopedMatch [] with
        | error detail =>
          rw [e] at h
          cases h
        | ok limits =>
          rw [e] at h
          cases h
          exact ⟨limits, rfl, rfl⟩
      have htally := readScopedMatches_tallied hlimits
      have hsession : Shows text .fiveHour session := by
        rw [shows_fiveHour, hsessions]
        exact List.mem_cons_self
      have hweek : Shows text .sevenDay week := by
        rw [shows_sevenDay, hweeks]
        exact List.mem_cons_self
      have honeSession : ∀ d e, Shows text .fiveHour d → Shows text .fiveHour e → d = e := by
        intro d e hd he
        rw [shows_fiveHour, hsessions] at hd he
        exact (distinct_le_one _).mp hone d hd e he
      have honeWeek' : ∀ d e, Shows text .sevenDay d → Shows text .sevenDay e → d = e := by
        intro d e hd he
        rw [shows_sevenDay, hweeks] at hd he
        exact (distinct_le_one _).mp honeWeek d hd e he
      have hfive := reports_iff hsession honeSession
      have hseven := reports_iff hweek honeWeek'
      have hfound : ∀ family n, Reports text (.model family) n → family ≠ unknownFamily →
          limits.lookup family = some n := by
        rintro family n ⟨digits, hshows, rfl⟩ hknown
        obtain ⟨m, hm, hname, rfl, rfl⟩ := (shows_model text family digits).mp hshows
        exact htally.found m hm hname hknown
      rw [not_or, not_lt, not_lt] at hbound
      refine ⟨⟨hsubscription, ⟨session, hsession⟩, ⟨week, hweek⟩, honeSession, honeWeek', ?_, ?_⟩,
        hfive, hseven, ?_⟩
      · intro w n hn
        cases w with
        | fiveHour =>
          rw [← (hfive n).mp hn]
          exact hbound.1
        | sevenDay =>
          rw [← (hseven n).mp hn]
          exact hbound.2
        | model family =>
          obtain ⟨digits, hshows, rfl⟩ := hn
          obtain ⟨m, hm, hname, -, rfl⟩ := (shows_model text family digits).mp hshows
          exact htally.bounded m hm hname
      · intro w m n hknown hm hn
        cases w with
        | fiveHour => exact ((hfive m).mp hm).symm.trans ((hfive n).mp hn)
        | sevenDay => exact ((hseven m).mp hm).symm.trans ((hseven n).mp hn)
        | model family =>
          have hfamily : family ≠ unknownFamily := fun e => hknown (congrArg Window.model e)
          exact Option.some.inj ((hfound family m hm hfamily).symm.trans (hfound family n hn hfamily))
      · intro family n
        refine ⟨fun hn => ?_, fun hn => hfound family n hn.1 hn.2⟩
        obtain hn | ⟨hknown, m, hm, hname, hfamily, hpct⟩ := htally.only family n hn
        · cases hn
        · exact ⟨⟨m.2, (shows_model text family m.2).mpr ⟨m, hm, hname, hfamily, rfl⟩, hpct⟩, hknown⟩

theorem parseUsageText_acceptable {text : JsString} (h : Acceptable text) :
    ∃ usage, parseUsageText text = .ok usage := by
  obtain ⟨session, hsession⟩ := h.session
  obtain ⟨week, hweek⟩ := h.week
  have hconsistent : Consistent (allMatches readScoped text) [] := by
    have hreports : ∀ m ∈ allMatches readScoped text, m.1 ≠ js "all models" →
        Reports text (.model (familyOf m.1)) (readNat m.2) := fun m hm hname =>
      ⟨m.2, (shows_model text _ m.2).mpr ⟨m, hm, hname, rfl, rfl⟩, rfl⟩
    refine ⟨fun m hm hname => h.bounded _ _ (hreports m hm hname), ?_, ?_⟩
    · intro m hm m' hm' hname hname' hfamily hknown
      have hwindow : (Window.model (familyOf m.1)).Known := fun e => hknown (Window.model.inj e)
      have h' := hreports m' hm' hname'
      rw [← hfamily] at h'
      exact h.agree _ _ _ hwindow (hreports m hm hname) h'
    · intro m _ _ n hn
      cases hn
  obtain ⟨limits, hlimits⟩ := readScopedMatches_consistent hconsistent
  rw [shows_fiveHour] at hsession
  rw [shows_sevenDay] at hweek
  unfold parseUsageText
  rw [if_neg (not_not.mpr h.subscription)]
  cases hsessions : allMatches readSession text with
  | nil =>
    rw [hsessions] at hsession
    cases hsession
  | cons session' sessions =>
    cases hweeks : allMatches readWeek text with
    | nil =>
      rw [hweeks] at hweek
      cases hweek
    | cons week' weeks =>
      have hshows : Shows text .fiveHour session' := by
        rw [shows_fiveHour, hsessions]
        exact List.mem_cons_self
      have hshows' : Shows text .sevenDay week' := by
        rw [shows_sevenDay, hweeks]
        exact List.mem_cons_self
      have hone : ¬1 < distinct (session' :: sessions) := by
        rw [distinct_le_one, ← hsessions]
        intro d hd e he
        exact h.oneSession d e ((shows_fiveHour text d).mpr hd) ((shows_fiveHour text e).mpr he)
      have honeWeek : ¬1 < distinct (week' :: weeks) := by
        rw [distinct_le_one, ← hweeks]
        intro d hd e he
        exact h.oneWeek d e ((shows_sevenDay text d).mpr hd) ((shows_sevenDay text e).mpr he)
      have hbound : ¬(100 < readNat session' ∨ 100 < readNat week') := by
        rw [not_or, not_lt, not_lt]
        exact ⟨h.bounded _ _ ⟨session', hshows, rfl⟩, h.bounded _ _ ⟨week', hshows', rfl⟩⟩
      dsimp only
      rw [if_neg hone, if_neg honeWeek, if_neg hbound, hlimits]
      exact ⟨_, rfl⟩

/-- The text fails closed exactly where every line that opens a window is in the grammar, or the lines
that are in it are not in order. -/
theorem parseUsageText_failsClosed_iff (text : JsString) :
    (∀ usage, parseUsageText text = .ok usage → FailsClosed text usage) ↔
      (Acceptable text → ∀ line ∈ jsLines text, OpensWindow line → InGrammar line) := by
  constructor
  · intro h hacceptable line hline hopens
    obtain ⟨usage, husage⟩ := parseUsageText_acceptable hacceptable
    obtain ⟨w, digits, hw, -⟩ := (h usage husage).inGrammar line hline hopens
    exact ⟨w, digits, hw⟩
  · intro h usage husage
    have hexact := parseUsageText_exact husage
    have hacceptable := hexact.acceptable
    refine ⟨?_, hacceptable.agree, hexact.fiveHour, hexact.sevenDay, hexact.scopedPct, ?_⟩
    · intro line hline hopens
      obtain ⟨w, digits, hw⟩ := h hacceptable line hline hopens
      exact ⟨w, digits, hw, hacceptable.bounded w _ ⟨digits, ⟨line, hline, hw⟩, rfl⟩⟩
    · intro family threshold w n hknown hw hn hle
      rw [← Bool.not_eq_true, evaluate_ok_iff]
      rintro ⟨hfive, hseven, hmodel⟩
      obtain rfl | rfl | rfl := hw
      · rw [(hexact.fiveHour n).mp hn] at hfive
        exact absurd hfive (not_lt.mpr hle)
      · rw [(hexact.sevenDay n).mp hn] at hseven
        exact absurd hseven (not_lt.mpr hle)
      · have hfamily : family ≠ unknownFamily := fun e => hknown (congrArg Window.model e)
        exact absurd (hmodel n ((hexact.scopedPct family n).mpr ⟨hn, hfamily⟩)) (not_lt.mpr hle)

theorem inGrammar_read {line : JsString} (h : InGrammar line) :
    readSession line ≠ none ∨ readWeek line ≠ none ∨ readScoped line ≠ none := by
  obtain ⟨w, digits, hw⟩ := h
  cases w with
  | fiveHour =>
    rw [(readSession_iff line digits).mpr hw]
    exact .inl (Option.some_ne_none _)
  | sevenDay =>
    rw [(readWeek_iff line digits).mpr hw]
    exact .inr (.inl (Option.some_ne_none _))
  | model family =>
    obtain ⟨name, -, -, hread⟩ := hw.readScoped
    rw [hread]
    exact .inr (.inr (Option.some_ne_none _))

def decimalLine : JsString := js "Current week (Opus): 99.5% used"

def decimalUsage : JsString :=
  js "subscription\nCurrent session: 5% used\nCurrent week (all models): 9% used\n" ++ decimalLine

omit [Unicode] in
/-- A percentage with a decimal point is read as no limit at all. -/
theorem decimal_admitted :
    @parseUsageText asciiUnicode decimalUsage = .ok ⟨5, 9, []⟩ ∧
      (evaluate (@parseUsageText asciiUnicode decimalUsage) (js "opus") 50).ok = true ∧
      ¬@FailsClosed asciiUnicode decimalUsage ⟨5, 9, []⟩ := by
  have hparse : @parseUsageText asciiUnicode decimalUsage = .ok ⟨5, 9, []⟩ := by rfl
  refine ⟨hparse, ?_, ?_⟩
  · rw [hparse, evaluate_ok_iff]
    refine ⟨by norm_num, by norm_num, ?_⟩
    intro n hn
    cases hn
  · intro h
    have hline : decimalLine ∈ jsLines decimalUsage := by decide
    have hopens : OpensWindow decimalLine := by
      unfold OpensWindow
      decide
    obtain ⟨w, digits, hw, -⟩ :=
      @FailsClosed.inGrammar asciiUnicode _ _ h decimalLine hline hopens
    obtain hread | hread | hread := @inGrammar_read asciiUnicode _ ⟨w, digits, hw⟩ <;> exact hread rfl

end Adlc.Autopilot
