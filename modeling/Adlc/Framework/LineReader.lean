import Adlc.Framework.IntNumber
import Adlc.Framework.Regex

namespace Adlc.Framework

/-! Reading a line from its start, as a regular expression without choices does. -/

def expect (t s : JsString) : Option JsString := if t.isPrefixOf s then some (s.drop t.length) else none

theorem expect_append (t s : JsString) : expect t (t ++ s) = some s := by
  have hpre : t.isPrefixOf (t ++ s) = true := List.isPrefixOf_iff_prefix.mpr (List.prefix_append t s)
  rw [expect, if_pos hpre, List.drop_left]

theorem expect_eq_some_iff {t s rest : JsString} : expect t s = some rest ↔ s = t ++ rest := by
  constructor
  · intro h
    unfold expect at h
    split_ifs at h with hpre
    obtain ⟨rest', rfl⟩ := List.isPrefixOf_iff_prefix.mp hpre
    rw [List.drop_left] at h
    rw [Option.some.inj h]
  · rintro rfl
    exact expect_append t rest

theorem expect_bind_iff {α : Type} {t s : JsString} {read : JsString → Option α} {a : α} :
    (expect t s).bind read = some a ↔ ∃ rest, s = t ++ rest ∧ read rest = some a := by
  rw [Option.bind_eq_some_iff]
  exact ⟨fun ⟨rest, h, hread⟩ => ⟨rest, expect_eq_some_iff.mp h, hread⟩,
    fun ⟨rest, h, hread⟩ => ⟨rest, expect_eq_some_iff.mpr h, hread⟩⟩

/-- `(\d+)` -/
def readDigits (s : JsString) : Option (Nat × JsString) :=
  let digits := s.takeWhile isDigit
  if digits = [] then none else some (readNat digits, s.dropWhile isDigit)

theorem natText_digits (n : Nat) : natText n ≠ [] ∧ (natText n).all isDigit = true := by
  obtain e | ⟨c, s, e, hc, -, hs⟩ := natText_cases n
  · rw [e]
    decide
  · rw [e, List.all_cons, hc, hs]
    exact ⟨List.cons_ne_nil _ _, rfl⟩

theorem readDigits_natText (n : Nat) {rest : JsString} (h : ∀ c ∈ rest.head?, isDigit c = false) :
    readDigits (natText n ++ rest) = some (n, rest) := by
  obtain ⟨hne, hall⟩ := natText_digits n
  have hdigits : ∀ c ∈ natText n, isDigit c = true := List.all_eq_true.mp hall
  have hrest : rest.takeWhile isDigit = [] ∧ rest.dropWhile isDigit = rest := by
    cases rest with
    | nil => exact ⟨rfl, rfl⟩
    | cons c rest =>
      have hc : ¬isDigit c = true := by
        rw [h c rfl]
        exact Bool.false_ne_true
      exact ⟨List.takeWhile_cons_of_neg hc, List.dropWhile_cons_of_neg hc⟩
  unfold readDigits
  rw [List.takeWhile_append_of_pos hdigits, List.dropWhile_append_of_pos hdigits, hrest.1, hrest.2,
    List.append_nil]
  simp only [if_neg hne, readNat_natText]

/-! ## Lines -/

/-- What follows the line terminators. -/
def afterBreaks : JsString → List JsString
  | [] => []
  | c :: s => if endsLine c then s :: afterBreaks s else afterBreaks s

/-- The text from each of its lines on: the places where `^` matches under the flag `m`. -/
def lineStarts (text : JsString) : List JsString := text :: afterBreaks text

/-- A line of its own, without what follows. -/
def lineAt (s : JsString) : JsString := s.takeWhile fun c => !endsLine c

/-- The lines that `^` and `$` see under the flag `m`. -/
def jsLines (text : JsString) : List JsString := (lineStarts text).map lineAt

theorem lineAt_append {t : JsString} (ht : ∀ c ∈ t, endsLine c = false) (s : JsString) :
    lineAt (t ++ s) = t ++ lineAt s := by
  refine List.takeWhile_append_of_pos fun c hc => ?_
  rw [ht c hc]
  rfl

/-- A literal without line ends stands at the start of a line when it stands where the line starts. -/
theorem expect_lineAt {t : JsString} (ht : ∀ c ∈ t, endsLine c = false) (s : JsString) :
    expect t (lineAt s) = (expect t s).map lineAt := by
  by_cases h : t.isPrefixOf s = true
  · obtain ⟨rest, rfl⟩ := List.isPrefixOf_iff_prefix.mp h
    rw [lineAt_append ht, expect_append, expect_append, Option.map_some]
  · have hline : ¬t.isPrefixOf (lineAt s) = true := by
      intro hpre
      exact h (List.isPrefixOf_iff_prefix.mpr
        ((List.isPrefixOf_iff_prefix.mp hpre).trans (List.takeWhile_prefix _)))
    rw [expect, if_neg hline, expect, if_neg h, Option.map_none]

/-- A reader that looks no further than its line reads the same after a literal. -/
theorem expect_bind_lineAt {α : Type} {t : JsString} (ht : ∀ c ∈ t, endsLine c = false)
    {read : JsString → Option α} (hread : ∀ s, read (lineAt s) = read s) (s : JsString) :
    (expect t (lineAt s)).bind read = (expect t s).bind read := by
  rw [expect_lineAt ht, Option.bind_map]
  exact congrArg _ (funext hread)

/-- A class without line ends takes the same from a line as from the text. -/
theorem span_lineAt {p : UInt16 → Bool} (hp : ∀ c, p c = true → endsLine c = false) (s : JsString) :
    (lineAt s).takeWhile p = s.takeWhile p ∧ (lineAt s).dropWhile p = lineAt (s.dropWhile p) := by
  induction s with
  | nil => exact ⟨rfl, rfl⟩
  | cons c s ih =>
    by_cases hc : p c = true
    · have hline : lineAt (c :: s) = c :: lineAt s :=
        List.takeWhile_cons_of_pos (by rw [hp c hc]; rfl)
      rw [hline, List.takeWhile_cons_of_pos hc, List.takeWhile_cons_of_pos hc, List.dropWhile_cons_of_pos hc,
        List.dropWhile_cons_of_pos hc, ih.1, ih.2]
      exact ⟨rfl, rfl⟩
    · rw [List.takeWhile_cons_of_neg hc, List.dropWhile_cons_of_neg hc]
      by_cases he : endsLine c = true
      · have hline : lineAt (c :: s) = [] := List.takeWhile_cons_of_neg (by rw [he]; exact Bool.false_ne_true)
        rw [hline]
        exact ⟨rfl, rfl⟩
      · have hline : lineAt (c :: s) = c :: lineAt s :=
          List.takeWhile_cons_of_pos (by rw [Bool.not_eq_true] at he; rw [he]; rfl)
        rw [hline, List.takeWhile_cons_of_neg hc, List.dropWhile_cons_of_neg hc]
        exact ⟨rfl, rfl⟩

theorem isDigit_inLine (c : UInt16) (h : isDigit c = true) : endsLine c = false := by
  simp only [isDigit, Bool.and_eq_true, decide_eq_true_eq] at h
  simp only [endsLine, Bool.or_eq_false_iff, decide_eq_false_iff_not]
  refine ⟨⟨⟨?_, ?_⟩, ?_⟩, ?_⟩ <;> rintro rfl <;> exact absurd h (by decide)

end Adlc.Framework
