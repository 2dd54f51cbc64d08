import Adlc.Framework.Fences
import Adlc.Framework.Sha256
import Adlc.Framework.TornLines
import Mathlib.Data.List.SplitBy

namespace Adlc.Core

open Adlc.Framework

/-! ## The text of a removed line -/

/-- The rules of `MASK_RULES`: four assignments, then the provider shapes of `SECRET_PATTERNS`
without the inline assignment. -/
inductive MaskRule where
  | quotedAssignment
  | assignment
  | urlPassword
  | basicAuth
  | awsAccessKey
  | awsTemporaryKey
  | gitHub
  | gitHubFineGrained
  | gitLab
  | openAi
  | slack
  | google
  | privateKeyBlock
  | bearer
  | jwt

def maskRules : List MaskRule :=
  [.quotedAssignment, .assignment, .urlPassword, .basicAuth, .awsAccessKey, .awsTemporaryKey,
    .gitHub, .gitHubFineGrained, .gitLab, .openAi, .slack, .google, .privateKeyBlock, .bearer, .jwt]

/-- What the regular expressions match, and the entropy of a token. -/
structure MaskPatterns where
  /-- A match that begins here, after this unit: how many further units it has. -/
  find : MaskRule → Option UInt16 → JsString → Option Nat
  /-- The lengths of the parts of a match that stay: before the value and after it. -/
  keptBefore : MaskRule → JsString → Nat
  keptAfter : MaskRule → JsString → Nat
  /-- `tokenEntropy(token) >= 4.0` -/
  highEntropy : JsString → Bool

def maskedSecret : JsString := js "[redacted]"
def maskedPrivateKey : JsString := js "[redacted private key]"
def maskedLongLine : JsString := js "[redacted long line]"
def maxMaskedLine : Nat := 2000

/-- The replacement of a match. -/
def maskMatch (patterns : MaskPatterns) (rule : MaskRule) (found : JsString) : JsString :=
  found.take (patterns.keptBefore rule found) ++ maskedSecret ++
    found.drop (found.length - patterns.keptAfter rule found)

/-- `/[0-9a-f]/i` -/
def isHexLetter (c : UInt16) : Bool :=
  let n := c.toNat
  (48 ≤ n && n ≤ 57) || (65 ≤ n && n ≤ 70) || (97 ≤ n && n ≤ 102)

def isRandomSecretToken (patterns : MaskPatterns) (token : JsString) : Bool :=
  if token.length < 32 then false
  else if token.all isHexLetter && token.length ≤ 40 then false
  else if token.all isHexLetter then true
  else if !token.any (fun c => 97 ≤ c.toNat && c.toNat ≤ 122) then false
  else if !token.any (fun c => (65 ≤ c.toNat && c.toNat ≤ 90) || (48 ≤ c.toNat && c.toNat ≤ 57)) then
    false
  else patterns.highEntropy token

/-- ``/[\s"'`(){}\[\],:]/`` -/
def isTokenSeparator (c : UInt16) : Bool :=
  isTrimmed c || (js "\"'`()\x7b\x7d[],:").contains c

def maskTokens (patterns : MaskPatterns) (text : JsString) : JsString :=
  ((text.splitBy fun c d => isTokenSeparator c == isTokenSeparator d).map fun part =>
    if isRandomSecretToken patterns part then maskedSecret else part).flatten

def maskSecretText (patterns : MaskPatterns) (text : JsString) : JsString :=
  if text.length > maxMaskedLine then maskedLongLine
  else
    maskTokens patterns (maskRules.foldl
      (fun out rule => replaceMatches (patterns.find rule) (maskMatch patterns rule) out) text)

/-! ## The lines of a diff -/

/-- `[A-Z ]*PRIVATE KEY` and five dashes match at the start. -/
def keyWords : JsString → Bool
  | [] => (js "PRIVATE KEY-----").isPrefixOf []
  | c :: text =>
    (js "PRIVATE KEY-----").isPrefixOf (c :: text) ||
      ((c = 32 || (65 ≤ c.toNat && c.toNat ≤ 90)) && keyWords text)

/-- `PEM_BEGIN.test(content)` for `BEGIN`, `PEM_END.test(content)` for `END` -/
def hasPemMarker (word : JsString) (content : JsString) : Bool :=
  let opening := js "-----" ++ word ++ js " "
  content.tails.any fun rest => opening.isPrefixOf rest && keyWords (rest.drop opening.length)

def pemBegin : JsString → Bool := hasPemMarker (js "BEGIN")
def pemEnd : JsString → Bool := hasPemMarker (js "END")

def isBase64Unit (c : UInt16) : Bool :=
  let n := c.toNat
  (65 ≤ n && n ≤ 90) || (97 ≤ n && n ≤ 122) || (48 ≤ n && n ≤ 57) || n = 43 || n = 47

/-- `/^[A-Za-z0-9+/]+={0,2}$/` -/
def isPemBody (text : JsString) : Bool :=
  let core := text.rdropWhile fun c => c = 61
  core != [] && core.all isBase64Unit && text.length - core.length ≤ 2

def isFileLine (line : JsString) : Bool := (js "diff --git ").isPrefixOf line
def isHunkLine (line : JsString) : Bool := (js "@@").isPrefixOf line

/-- Group 1 of `/^(@@+ [^@]*@@+)(.*)$/s`. -/
def hunkFrame (line : JsString) : Option JsString :=
  let ats := line.takeWhile fun c => c = 64
  let spaced := line.dropWhile fun c => c = 64
  let numbers := spaced.takeWhile fun c => c ≠ 64
  let closing := (spaced.dropWhile fun c => c ≠ 64).takeWhile fun c => c = 64
  if 2 ≤ ats.length ∧ spaced.head? = some 32 ∧ 2 ≤ closing.length then
    some (ats ++ numbers ++ closing)
  else none

def maskHunkHeader (patterns : MaskPatterns) (line : JsString) : JsString :=
  match hunkFrame line with
  | some frame => frame ++ maskSecretText patterns (line.drop frame.length)
  | none => line

def maskedKeyLine : JsString := 45 :: maskedPrivateKey

/-- The walk over the lines. `oldSide` has the last line first. -/
structure MaskState where
  out : List JsString
  inHunk : Bool
  inKey : Bool
  oldSide : List Nat

/-- The run of removed base64 lines above an END line. -/
def maskRunAbove (lines : List JsString) : List Nat → List JsString → List JsString
  | [], out => out
  | k :: oldSide, out =>
    let line := lines.getD k []
    if isPemBody (trim line.tail) then
      maskRunAbove lines oldSide (if line.head? = some 45 then out.set k maskedKeyLine else out)
    else out

def maskLine (patterns : MaskPatterns) (lines : List JsString) (s : MaskState) (i : Nat) :
    MaskState :=
  let line := lines.getD i []
  if isFileLine line then { s with inHunk := false, inKey := false, oldSide := [] }
  else if isHunkLine line then
    { s with out := s.out.set i (maskHunkHeader patterns line), inHunk := true, oldSide := [] }
  else if !s.inHunk then s
  else if line.head? ≠ some 45 ∧ line.head? ≠ some 32 then s
  else
    let content := line.tail
    let removed := line.head? = some 45
    if s.inKey || pemBegin content then
      { s with
        out := if removed then s.out.set i maskedKeyLine else s.out
        inKey := !pemEnd content
        oldSide := i :: s.oldSide }
    else if pemEnd content then
      let out := maskRunAbove lines s.oldSide s.out
      { s with out := if removed then out.set i maskedKeyLine else out, oldSide := i :: s.oldSide }
    else
      { s with
        out := if removed then s.out.set i (45 :: maskSecretText patterns content) else s.out
        oldSide := i :: s.oldSide }

def maskLines (patterns : MaskPatterns) (lines : List JsString) (n : Nat) : MaskState :=
  (List.range n).foldl (maskLine patterns lines) ⟨lines, false, false, []⟩

def maskRemovedSecrets (patterns : MaskPatterns) (diff : JsString) : JsString :=
  if diff = [] then diff
  else
    let lines := splitLines diff
    [10].intercalate (maskLines patterns lines lines.length).out

/-! ## No line is broken -/

theorem replaceMatches_free {u : UInt16} {find : Option UInt16 → JsString → Option Nat}
    {rewrite : JsString → JsString} (hrewrite : ∀ found, u ∉ found → u ∉ rewrite found)
    {text : JsString} (h : u ∉ text) : u ∉ replaceMatches find rewrite text := by
  have hfrom : ∀ (text : JsString) before skip, u ∉ text →
      u ∉ replaceFrom find rewrite before skip text := by
    intro text
    induction text with
    | nil => simp [replaceFrom]
    | cons c rest ih =>
      intro before skip h
      have hrest : u ∉ rest := fun hm => h (List.mem_cons_of_mem _ hm)
      cases skip with
      | succ skip =>
        rw [replaceFrom]
        exact ih _ _ hrest
      | zero =>
        rw [replaceFrom]
        cases find before (c :: rest) with
        | none =>
          rw [List.mem_cons, not_or]
          exact ⟨fun e => h (e ▸ List.mem_cons_self), ih _ _ hrest⟩
        | some more =>
          rw [List.mem_append, not_or]
          exact ⟨hrewrite _ fun hm => h (List.mem_of_mem_take hm), ih _ _ hrest⟩
  exact hfrom text none 0 h

theorem maskMatch_noBreak (patterns : MaskPatterns) (rule : MaskRule) {found : JsString}
    (h : 10 ∉ found) : 10 ∉ maskMatch patterns rule found := by
  have hmasked : (10 : UInt16) ∉ maskedSecret := by decide
  simp only [maskMatch, List.mem_append, not_or]
  exact ⟨⟨fun hm => h (List.mem_of_mem_take hm), hmasked⟩, fun hm => h (List.mem_of_mem_drop hm)⟩

theorem maskTokens_noBreak (patterns : MaskPatterns) {text : JsString} (h : 10 ∉ text) :
    10 ∉ maskTokens patterns text := by
  have hmasked : (10 : UInt16) ∉ maskedSecret := by decide
  rw [maskTokens, List.mem_flatten]
  rintro ⟨part, hpart, hm⟩
  obtain ⟨token, htoken, rfl⟩ := List.mem_map.mp hpart
  split_ifs at hm
  · exact hmasked hm
  · apply h
    rw [← List.flatten_splitBy (fun c d => isTokenSeparator c == isTokenSeparator d) text]
    exact List.mem_flatten.mpr ⟨token, htoken, hm⟩

theorem maskSecretText_noBreak (patterns : MaskPatterns) {text : JsString} (h : 10 ∉ text) :
    10 ∉ maskSecretText patterns text := by
  have hrules : ∀ (rules : List MaskRule) (text : JsString), 10 ∉ text → 10 ∉ rules.foldl
      (fun out rule => replaceMatches (patterns.find rule) (maskMatch patterns rule) out) text := by
    intro rules
    induction rules with
    | nil => exact fun _ h => h
    | cons rule rules ih =>
      intro text h
      exact ih _ (replaceMatches_free (fun _ => maskMatch_noBreak patterns rule) h)
  unfold maskSecretText
  split_ifs
  · decide
  · exact maskTokens_noBreak patterns (hrules maskRules text h)

theorem hunkFrame_append {line frame : JsString} (h : hunkFrame line = some frame) :
    frame ++ line.drop frame.length = line := by
  unfold hunkFrame at h
  dsimp only at h
  split_ifs at h
  have hframe := Option.some.inj h
  apply List.prefix_iff_eq_append.mp
  rw [← hframe]
  conv_rhs => rw [← List.takeWhile_append_dropWhile (p := fun c => decide (c = 64)) (l := line)]
  rw [List.append_assoc, List.prefix_append_right_inj]
  conv_rhs => rw [← List.takeWhile_append_dropWhile (p := fun c => decide (c ≠ 64))
    (l := line.dropWhile fun c => decide (c = 64))]
  rw [List.prefix_append_right_inj]
  exact List.takeWhile_prefix _

theorem maskHunkHeader_noBreak (patterns : MaskPatterns) {line : JsString} (h : 10 ∉ line) :
    10 ∉ maskHunkHeader patterns line := by
  unfold maskHunkHeader
  cases hf : hunkFrame line with
  | none => exact h
  | some frame =>
    have e := hunkFrame_append hf
    rw [← e, List.mem_append, not_or] at h
    rw [List.mem_append, not_or]
    exact ⟨h.1, maskSecretText_noBreak patterns h.2⟩

/-! ## What one line does -/

variable {patterns : MaskPatterns} {lines : List JsString}

theorem maskLines_succ (n : Nat) : maskLines patterns lines (n + 1) =
    maskLine patterns lines (maskLines patterns lines n) n := by
  rw [maskLines, List.range_succ, List.foldl_append]
  rfl

theorem maskRunAbove_spec {oldSide : List Nat} {out : List JsString}
    (hold : ∀ k ∈ oldSide, k < out.length) :
    (maskRunAbove lines oldSide out).length = out.length ∧
      ∀ k, (maskRunAbove lines oldSide out)[k]? = out[k]? ∨
        k ∈ oldSide ∧ (lines.getD k []).head? = some 45 ∧
          (maskRunAbove lines oldSide out)[k]? = some maskedKeyLine := by
  induction oldSide generalizing out with
  | nil => exact ⟨rfl, fun k => Or.inl rfl⟩
  | cons j oldSide ih =>
    have hj : j < out.length := hold j List.mem_cons_self
    rw [maskRunAbove]
    split_ifs with hbody hremoved
    · have hlen : (out.set j maskedKeyLine).length = out.length := List.length_set
      obtain ⟨hlength, hspec⟩ := @ih (out.set j maskedKeyLine) fun k hk => by
        rw [hlen]
        exact hold k (List.mem_cons_of_mem _ hk)
      refine ⟨hlength.trans hlen, ?_⟩
      intro k
      obtain h | ⟨hk, hhead, h⟩ := hspec k
      · by_cases hkj : k = j
        · subst hkj
          refine Or.inr ⟨List.mem_cons_self, hremoved, ?_⟩
          rw [h, List.getElem?_set_self hj]
        · rw [h, List.getElem?_set_ne (Ne.symm hkj)]
          exact Or.inl rfl
      · exact Or.inr ⟨List.mem_cons_of_mem _ hk, hhead, h⟩
    · obtain ⟨hlength, hspec⟩ := @ih out fun k hk => hold k (List.mem_cons_of_mem _ hk)
      refine ⟨hlength, ?_⟩
      intro k
      obtain h | ⟨hk, hhead, h⟩ := hspec k
      · exact Or.inl h
      · exact Or.inr ⟨List.mem_cons_of_mem _ hk, hhead, h⟩
    · exact ⟨rfl, fun k => Or.inl rfl⟩

/-- A line that is removed or context. -/
def isOldSide (line : JsString) : Bool := line.head? == some 45 || line.head? == some 32

/-- Line `i` stands after a hunk header of its file. -/
def InHunk (lines : List JsString) (i : Nat) : Prop :=
  ∃ h < i, isHunkLine (lines.getD h []) = true ∧
    ∀ k, h < k → k ≤ i → isFileLine (lines.getD k []) = false

/-- The walk before line `n`. -/
structure Walked (patterns : MaskPatterns) (lines : List JsString) (n : Nat) (s : MaskState) :
    Prop where
  length : s.out.length = lines.length
  later : ∀ k, n ≤ k → s.out[k]? = lines[k]?
  hunk : s.inHunk = true ↔ ∃ h < n, isHunkLine (lines.getD h []) = true ∧
    ∀ k, h < k → k < n → isFileLine (lines.getD k []) = false
  old : ∀ k ∈ s.oldSide, k < n ∧ InHunk lines k
  header : ∀ k < n, isHunkLine (lines.getD k []) = true →
    s.out[k]? = some (maskHunkHeader patterns (lines.getD k []))
  kept : ∀ k < n, isHunkLine (lines.getD k []) = false →
    ¬(InHunk lines k ∧ (lines.getD k []).head? = some 45) → s.out[k]? = lines[k]?

theorem isHunkLine_head {line : JsString} (h : isHunkLine line = true) : line.head? = some 64 := by
  cases line with
  | nil => cases h
  | cons c line =>
    have hp := List.isPrefixOf_iff_prefix.mp h
    rw [show js "@@" = [64, 64] from js_ofList _] at hp
    rw [(List.cons_prefix_cons.mp hp).1]
    rfl

theorem isFileLine_head {line : JsString} (h : isFileLine line = true) : line.head? = some 100 := by
  cases line with
  | nil => cases h
  | cons c line =>
    have hp := List.isPrefixOf_iff_prefix.mp h
    have e : ∃ rest, js "diff --git " = 100 :: rest := ⟨_, js_ofList _⟩
    obtain ⟨rest, e⟩ := e
    rw [e] at hp
    rw [(List.cons_prefix_cons.mp hp).1]
    rfl

/-- One line rewrites itself and, above an END line, removed lines of the old side. -/
theorem maskLine_out {s : MaskState} {i : Nat}
    (hold : ∀ k ∈ s.oldSide, k < s.out.length) :
    (maskLine patterns lines s i).out.length = s.out.length ∧
      ∀ k, k ≠ i → (maskLine patterns lines s i).out[k]? = s.out[k]? ∨
        k ∈ s.oldSide ∧ (lines.getD k []).head? = some 45 ∧
          (maskLine patterns lines s i).out[k]? = some maskedKeyLine := by
  have hset : ∀ (out : List JsString) v, (out.set i v).length = out.length ∧
      ∀ k, k ≠ i → (out.set i v)[k]? = out[k]? :=
    fun out v => ⟨List.length_set, fun k hk => List.getElem?_set_ne (Ne.symm hk)⟩
  obtain ⟨hlength, habove⟩ := @maskRunAbove_spec lines _ _ hold
  unfold maskLine
  dsimp only
  split_ifs
  case _ => exact ⟨rfl, fun k _ => Or.inl rfl⟩
  case _ => exact ⟨(hset _ _).1, fun k hk => Or.inl ((hset _ _).2 k hk)⟩
  case _ => exact ⟨rfl, fun k _ => Or.inl rfl⟩
  case _ => exact ⟨rfl, fun k _ => Or.inl rfl⟩
  case _ => exact ⟨(hset _ _).1, fun k hk => Or.inl ((hset _ _).2 k hk)⟩
  case _ => exact ⟨rfl, fun k _ => Or.inl rfl⟩
  case _ =>
    refine ⟨(hset _ _).1.trans hlength, ?_⟩
    intro k hk
    dsimp only
    rw [(hset _ _).2 k hk]
    exact habove k
  case _ => exact ⟨hlength, fun k _ => habove k⟩
  case _ => exact ⟨(hset _ _).1, fun k hk => Or.inl ((hset _ _).2 k hk)⟩
  case _ => exact ⟨rfl, fun k _ => Or.inl rfl⟩

theorem maskLine_header {s : MaskState} {i : Nat} (h : isHunkLine (lines.getD i []) = true) :
    maskLine patterns lines s i =
      { s with
        out := s.out.set i (maskHunkHeader patterns (lines.getD i []))
        inHunk := true
        oldSide := [] } := by
  have hfile : ¬isFileLine (lines.getD i []) = true := by
    intro hf
    have e := (isHunkLine_head h).symm.trans (isFileLine_head hf)
    cases e
  unfold maskLine
  dsimp only
  rw [if_neg hfile, if_pos h]

theorem maskLine_hunk (s : MaskState) (i : Nat) :
    (maskLine patterns lines s i).inHunk =
      (!isFileLine (lines.getD i []) && (s.inHunk || isHunkLine (lines.getD i []))) := by
  unfold maskLine
  dsimp only
  split_ifs with h1 h2 h3 <;> simp_all

theorem maskLine_old {s : MaskState} {i k : Nat} (h : k ∈ (maskLine patterns lines s i).oldSide) :
    k ∈ s.oldSide ∨
      k = i ∧ s.inHunk = true ∧ isFileLine (lines.getD i []) = false := by
  unfold maskLine at h
  dsimp only at h
  split_ifs at h with h1 h2 h3
  all_goals simp_all
  all_goals tauto

theorem maskLine_self {s : MaskState} {i : Nat} (hi : i ∉ s.oldSide)
    (hold : ∀ k ∈ s.oldSide, k < s.out.length)
    (hheader : isHunkLine (lines.getD i []) = false)
    (h : ¬(s.inHunk = true ∧ isFileLine (lines.getD i []) = false ∧
      (lines.getD i []).head? = some 45)) :
    (maskLine patterns lines s i).out[i]? = s.out[i]? := by
  have habove : (maskRunAbove lines s.oldSide s.out)[i]? = s.out[i]? := by
    obtain h | ⟨hk, -⟩ := (@maskRunAbove_spec lines _ _ hold).2 i
    · exact h
    · exact absurd hk hi
  unfold maskLine
  dsimp only
  split_ifs <;> simp_all

theorem walked_start : Walked patterns lines 0 ⟨lines, false, false, []⟩ where
  length := rfl
  later := fun _ _ => rfl
  hunk := by simp
  old := by simp
  header := by simp
  kept := by simp

theorem Walked.step {n : Nat} {s : MaskState} (h : Walked patterns lines n s)
    (hn : n < lines.length) : Walked patterns lines (n + 1) (maskLine patterns lines s n) := by
  have hlt : ∀ k ∈ s.oldSide, k < s.out.length := by
    intro k hk
    rw [h.length]
    exact (h.old k hk).1.trans hn
  have hfresh : n ∉ s.oldSide := fun hm => lt_irrefl n (h.old n hm).1
  obtain ⟨hlength, hout⟩ := @maskLine_out patterns lines s n hlt
  have hin : ∀ i, i = n → s.inHunk = true → isFileLine (lines.getD i []) = false →
      InHunk lines i := by
    rintro i rfl hs hf
    obtain ⟨header, hheader, hline, hbetween⟩ := h.hunk.mp hs
    refine ⟨header, hheader, hline, ?_⟩
    intro k h1 h2
    obtain h2 | rfl := Nat.lt_or_eq_of_le h2
    · exact hbetween k h1 h2
    · exact hf
  refine ⟨hlength.trans h.length, ?_, ?_, ?_, ?_, ?_⟩
  · intro k hk
    obtain he | ⟨hold, -⟩ := hout k (by omega)
    · rw [he]
      exact h.later k (by omega)
    · have hlt := (h.old k hold).1
      omega
  · rw [maskLine_hunk, Bool.and_eq_true, Bool.or_eq_true, h.hunk, Bool.not_eq_true']
    constructor
    · rintro ⟨hf, ⟨header, hheader, hline, hbetween⟩ | hline⟩
      · refine ⟨header, by omega, hline, ?_⟩
        intro k h1 h2
        obtain h2 | rfl := Nat.lt_or_eq_of_le (Nat.le_of_lt_succ h2)
        · exact hbetween k h1 h2
        · exact hf
      · exact ⟨n, by omega, hline, fun k h1 h2 => by omega⟩
    · rintro ⟨header, hheader, hline, hbetween⟩
      obtain hheader | rfl := Nat.lt_or_eq_of_le (Nat.le_of_lt_succ hheader)
      · exact ⟨hbetween n hheader (by omega),
          Or.inl ⟨header, hheader, hline, fun k h1 h2 => hbetween k h1 (by omega)⟩⟩
      · refine ⟨?_, Or.inr hline⟩
        cases hf : isFileLine (lines.getD header []) with
        | false => rfl
        | true =>
          have e := (isHunkLine_head hline).symm.trans (isFileLine_head hf)
          cases e
  · intro k hk
    obtain hk | ⟨hk, hs, hf⟩ := maskLine_old hk
    · have hold := h.old k hk
      exact ⟨by omega, hold.2⟩
    · exact ⟨by omega, hin k hk hs (hk ▸ hf)⟩
  · intro k hk hline
    obtain hk | rfl := Nat.lt_or_eq_of_le (Nat.le_of_lt_succ hk)
    · obtain he | ⟨-, hhead, -⟩ := hout k (by omega)
      · rw [he]
        exact h.header k hk hline
      · have e := (isHunkLine_head hline).symm.trans hhead
        cases e
    · rw [maskLine_header hline]
      exact List.getElem?_set_self (by rw [h.length]; exact hn)
  · intro k hk hline hnot
    obtain hk | rfl := Nat.lt_or_eq_of_le (Nat.le_of_lt_succ hk)
    · obtain he | ⟨hold, hhead, -⟩ := hout k (by omega)
      · rw [he]
        exact h.kept k hk hline hnot
      · exact absurd ⟨(h.old k hold).2, hhead⟩ hnot
    · rw [maskLine_self hfresh hlt hline, h.later k (le_refl k)]
      rintro ⟨hs, hf, hhead⟩
      exact hnot ⟨hin k rfl hs hf, hhead⟩

theorem walked (patterns : MaskPatterns) (lines : List JsString) {n : Nat} (hn : n ≤ lines.length) :
    Walked patterns lines n (maskLines patterns lines n) := by
  induction n with
  | zero => exact walked_start
  | succ n ih =>
    rw [maskLines_succ]
    exact (ih (by omega)).step (by omega)

/-! ## Private key blocks -/

/-- In a block, or at its BEGIN line, a line of the old side is masked when it is removed. -/
theorem maskLine_block {s : MaskState} {i : Nat} (hi : i < s.out.length) (hs : s.inHunk = true)
    (hfile : isFileLine (lines.getD i []) = false) (hhunk : isHunkLine (lines.getD i []) = false)
    (hside : isOldSide (lines.getD i []) = true)
    (hkey : s.inKey = true ∨ pemBegin (lines.getD i []).tail = true) :
    (maskLine patterns lines s i).inKey = !pemEnd (lines.getD i []).tail ∧
      ((lines.getD i []).head? = some 45 →
        (maskLine patterns lines s i).out[i]? = some maskedKeyLine) := by
  have hmarker : ¬((lines.getD i []).head? ≠ some 45 ∧ (lines.getD i []).head? ≠ some 32) := by
    simp only [isOldSide, Bool.or_eq_true, beq_iff_eq] at hside
    tauto
  have hk : (s.inKey || pemBegin (lines.getD i []).tail) = true := by
    rw [Bool.or_eq_true]
    exact hkey
  unfold maskLine
  dsimp only
  rw [hfile, hhunk, hs, if_neg Bool.false_ne_true, if_neg Bool.false_ne_true,
    if_neg (by simp), if_neg hmarker, if_pos hk]
  refine ⟨rfl, ?_⟩
  intro hhead
  dsimp only
  rw [if_pos hhead]
  exact List.getElem?_set_self hi

/-- Lines that are not of the old side do not end a block. -/
theorem maskLine_aside {s : MaskState} {i : Nat}
    (hfile : isFileLine (lines.getD i []) = false) (hhunk : isHunkLine (lines.getD i []) = false)
    (hside : isOldSide (lines.getD i []) = false) :
    (maskLine patterns lines s i).inKey = s.inKey := by
  have hmarker : (lines.getD i []).head? ≠ some 45 ∧ (lines.getD i []).head? ≠ some 32 := by
    simp only [isOldSide, Bool.or_eq_false_iff, beq_eq_false_iff_ne] at hside
    exact hside
  unfold maskLine
  dsimp only
  rw [hfile, hhunk, if_neg Bool.false_ne_true, if_neg Bool.false_ne_true]
  split_ifs <;> rfl

/-- From the BEGIN line on, `inKey` stays set until an END line. -/
theorem inKey_block {start stop : Nat} (hstop : stop ≤ lines.length) (hlt : start < stop)
    (hin : InHunk lines start) (hside : isOldSide (lines.getD start []) = true)
    (hbegin : pemBegin (lines.getD start []).tail = true)
    (hplain : ∀ k, start ≤ k → k < stop →
      isFileLine (lines.getD k []) = false ∧ isHunkLine (lines.getD k []) = false)
    (hopen : ∀ k, start ≤ k → k < stop → isOldSide (lines.getD k []) = true →
      pemEnd (lines.getD k []).tail = false) :
    (maskLines patterns lines stop).inKey = true ∧ (maskLines patterns lines stop).inHunk = true := by
  have hhunk : ∀ n, start ≤ n → n ≤ stop → (maskLines patterns lines n).inHunk = true := by
    intro n h1 h2
    obtain ⟨header, hheader, hline, hbetween⟩ := hin
    apply (walked patterns lines (by omega)).hunk.mpr
    refine ⟨header, by omega, hline, ?_⟩
    intro k h3 h4
    by_cases hk : k ≤ start
    · exact hbetween k h3 hk
    · exact (hplain k (by omega) (by omega)).1
  refine ⟨?_, hhunk stop hlt.le (le_refl _)⟩
  have hkey : ∀ n, start < n → n ≤ stop → (maskLines patterns lines n).inKey = true := by
    intro n
    induction n with
    | zero => intro h; omega
    | succ n ih =>
      intro h1 h2
      have hp := hplain n (by omega) (by omega)
      have hw := @walked patterns lines n (by omega)
      rw [maskLines_succ]
      cases hn : isOldSide (lines.getD n []) with
      | false =>
        rw [maskLine_aside hp.1 hp.2 hn]
        apply ih _ (by omega)
        by_contra hle
        have e : n = start := by omega
        rw [e, hside] at hn
        cases hn
      | true =>
        have hbefore : (maskLines patterns lines n).inKey = true ∨
            pemBegin (lines.getD n []).tail = true := by
          by_cases e : n = start
          · exact Or.inr (e ▸ hbegin)
          · exact Or.inl (ih (by omega) (by omega))
        rw [(maskLine_block (by rw [hw.length]; omega) (hhunk n (by omega) (by omega)) hp.1 hp.2 hn
          hbefore).1, hopen n (by omega) (by omega) hn]
        rfl
  exact hkey stop hlt (le_refl _)

/-- What is masked as a key stays masked. -/
theorem masked_stays {k n : Nat} (hn : n ≤ lines.length) (hk : k < n)
    (h : (maskLines patterns lines (k + 1)).out[k]? = some maskedKeyLine) :
    (maskLines patterns lines n).out[k]? = some maskedKeyLine := by
  induction n with
  | zero => omega
  | succ n ih =>
    obtain hlt | rfl := Nat.lt_or_eq_of_le (Nat.le_of_lt_succ hk)
    · have hw := @walked patterns lines n (by omega)
      have hold : ∀ j ∈ (maskLines patterns lines n).oldSide,
          j < (maskLines patterns lines n).out.length := by
        intro j hj
        rw [hw.length]
        have hjn := (hw.old j hj).1
        omega
      rw [maskLines_succ]
      obtain he | ⟨-, -, he⟩ := (@maskLine_out patterns _ _ _ hold).2 k (Nat.ne_of_lt hlt)
      · rw [he]
        exact ih (by omega) hlt
      · exact he
    · exact h

theorem block_masked {start i : Nat} (hi : i < lines.length) (hle : start ≤ i)
    (hin : InHunk lines start) (hside : isOldSide (lines.getD start []) = true)
    (hbegin : pemBegin (lines.getD start []).tail = true)
    (hplain : ∀ k, start ≤ k → k ≤ i →
      isFileLine (lines.getD k []) = false ∧ isHunkLine (lines.getD k []) = false)
    (hopen : ∀ k, start ≤ k → k < i → isOldSide (lines.getD k []) = true →
      pemEnd (lines.getD k []).tail = false)
    (hremoved : (lines.getD i []).head? = some 45) :
    (maskLines patterns lines lines.length).out[i]? = some maskedKeyLine := by
  have hw := walked patterns lines hi.le
  have hp := hplain i hle (le_refl i)
  have hold : isOldSide (lines.getD i []) = true := by
    rw [isOldSide, hremoved]
    rfl
  apply masked_stays (le_refl _) hi
  rw [maskLines_succ]
  have hstate : (maskLines patterns lines i).inHunk = true ∧
      ((maskLines patterns lines i).inKey = true ∨ pemBegin (lines.getD i []).tail = true) := by
    obtain hlt | rfl := Nat.lt_or_eq_of_le hle
    · have h := @inKey_block patterns _ _ _ hi.le hlt hin hside hbegin
        (fun k h1 h2 => hplain k h1 h2.le) hopen
      exact ⟨h.2, Or.inl h.1⟩
    · obtain ⟨header, hheader, hline, hbetween⟩ := hin
      exact ⟨hw.hunk.mpr ⟨header, hheader, hline, fun k h1 h2 => hbetween k h1 h2.le⟩,
        Or.inr hbegin⟩
  exact (maskLine_block (by rw [hw.length]; exact hi) hstate.1 hp.1 hp.2 hold hstate.2).2 hremoved

/-! ## The text that is returned -/

theorem splitLines_intercalate {lines : List JsString} (hne : lines ≠ [])
    (h : ∀ line ∈ lines, 10 ∉ line) : splitLines ([10].intercalate lines) = lines := by
  induction lines with
  | nil => exact absurd rfl hne
  | cons line lines ih =>
    have hline : 10 ∉ line := h line List.mem_cons_self
    cases lines with
    | nil => simpa using splitLines_of_no_break hline
    | cons next lines =>
      have hrest := ih (by simp) fun l hl => h l (List.mem_cons_of_mem _ hl)
      rw [List.intercalate_cons_cons, List.append_assoc, List.singleton_append,
        splitLines_append (fun c hc => ne_of_mem_of_not_mem hc hline), hrest]

theorem maskRunAbove_noBreak {oldSide : List Nat} {out : List JsString}
    (h : ∀ line ∈ out, 10 ∉ line) : ∀ line ∈ maskRunAbove lines oldSide out, 10 ∉ line := by
  have hmasked : 10 ∉ maskedKeyLine := by decide
  induction oldSide generalizing out with
  | nil => exact h
  | cons k oldSide ih =>
    rw [maskRunAbove]
    split_ifs
    · apply ih
      intro line hline
      obtain hline | rfl := List.mem_or_eq_of_mem_set hline
      · exact h line hline
      · exact hmasked
    · exact ih h
    · exact h

theorem maskLine_noBreak {s : MaskState} {i : Nat} (hlines : ∀ line ∈ lines, 10 ∉ line)
    (h : ∀ line ∈ s.out, 10 ∉ line) :
    ∀ line ∈ (maskLine patterns lines s i).out, 10 ∉ line := by
  have hmasked : 10 ∉ maskedKeyLine := by decide
  have hline : 10 ∉ lines.getD i [] := by
    rw [List.getD_eq_getElem?_getD]
    cases hi : lines[i]? with
    | none => simp
    | some line => exact hlines line (List.mem_of_getElem? hi)
  have htail : 10 ∉ (lines.getD i []).tail := fun hm => hline (List.mem_of_mem_tail hm)
  have hset : ∀ {out : List JsString} {v : JsString}, (∀ line ∈ out, 10 ∉ line) → 10 ∉ v →
      ∀ line ∈ out.set i v, 10 ∉ line := by
    intro out v hout hv line hm
    obtain hm | rfl := List.mem_or_eq_of_mem_set hm
    · exact hout line hm
    · exact hv
  have hremoved : (10 : UInt16) ∉ 45 :: maskSecretText patterns (lines.getD i []).tail := by
    rw [List.mem_cons, not_or]
    exact ⟨by decide, maskSecretText_noBreak patterns htail⟩
  unfold maskLine
  dsimp only
  split_ifs
  case _ => exact h
  case _ => exact hset h (maskHunkHeader_noBreak patterns hline)
  case _ => exact h
  case _ => exact h
  case _ => exact hset h hmasked
  case _ => exact h
  case _ => exact hset (maskRunAbove_noBreak h) hmasked
  case _ => exact maskRunAbove_noBreak h
  case _ => exact hset h hremoved
  case _ => exact h

theorem maskLines_noBreak (hlines : ∀ line ∈ lines, 10 ∉ line) (n : Nat) :
    ∀ line ∈ (maskLines patterns lines n).out, 10 ∉ line := by
  induction n with
  | zero => exact hlines
  | succ n ih =>
    rw [maskLines_succ]
    exact maskLine_noBreak hlines ih

/-- The lines of the returned text are the lines the walk leaves. -/
theorem splitLines_maskRemovedSecrets (patterns : MaskPatterns) (diff : JsString) :
    splitLines (maskRemovedSecrets patterns diff) =
      (maskLines patterns (splitLines diff) (splitLines diff).length).out := by
  unfold maskRemovedSecrets
  split_ifs with hdiff
  · subst hdiff
    rfl
  · have hw := walked patterns (splitLines diff) (le_refl _)
    apply splitLines_intercalate
    · intro hnil
      apply splitLines_ne_nil diff
      rw [← List.length_eq_zero_iff, ← hw.length, hnil, List.length_nil]
    · exact maskLines_noBreak (not_mem_splitLines diff) _

/-- Line `i` stands in the private key block that line `start` begins: no END line of the old side
comes before it in the hunk. -/
structure InKeyBlock (lines : List JsString) (start i : Nat) : Prop where
  le : start ≤ i
  inHunk : InHunk lines start
  oldSide : isOldSide (lines.getD start []) = true
  begins : pemBegin (lines.getD start []).tail = true
  sameHunk : ∀ k, start ≤ k → k ≤ i →
    isFileLine (lines.getD k []) = false ∧ isHunkLine (lines.getD k []) = false
  stillOpen : ∀ k, start ≤ k → k < i → isOldSide (lines.getD k []) = true →
    pemEnd (lines.getD k []).tail = false

/-- Rules that match nothing in the samples below. -/
def noMatches : MaskPatterns where
  find := fun _ _ _ => none
  keptBefore := fun _ _ => 0
  keptAfter := fun _ _ => 0
  highEntropy := fun _ => false

end Adlc.Core
