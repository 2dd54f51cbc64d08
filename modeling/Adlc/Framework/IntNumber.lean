import Adlc.Framework.JsonValue
import Mathlib.Data.Nat.Digits.Defs
import Mathlib.Data.Nat.Digits.Lemmas

namespace Adlc.Framework

/-! The integers, as the numbers of a program that reads and writes no others. -/

def digitUnit (d : Nat) : UInt16 := UInt16.ofNat (48 + d)

def natText (n : Nat) : JsString :=
  if n = 0 then [48] else (Nat.digits 10 n).reverse.map digitUnit

def intText : Int → JsString
  | .ofNat n => natText n
  | .negSucc n => 45 :: natText (n + 1)

def readNat (s : JsString) : Nat := s.foldl (fun n c => n * 10 + (c.toNat - 48)) 0

def readInt : JsString → Int
  | [] => 0
  | c :: s => if c = 45 then -(readNat s : Int) else readNat (c :: s)

theorem digitUnit_toNat {d : Nat} (h : d < 10) : (digitUnit d).toNat = 48 + d :=
  UInt16.toNat_ofNat_of_lt' (show 48 + d < 65536 by omega)

theorem digitUnit_isDigit {d : Nat} (h : d < 10) : isDigit (digitUnit d) = true := by
  simp only [isDigit, digitUnit_toNat h, Bool.and_eq_true, decide_eq_true_eq]
  omega

theorem readNat_append (s : JsString) {d : Nat} (h : d < 10) :
    readNat (s ++ [digitUnit d]) = readNat s * 10 + d := by
  simp only [readNat, List.foldl_append, List.foldl_cons, List.foldl_nil, digitUnit_toNat h]
  omega

theorem readNat_digits (l : List Nat) (h : ∀ d ∈ l, d < 10) :
    readNat (l.reverse.map digitUnit) = Nat.ofDigits 10 l := by
  induction l with
  | nil => rfl
  | cons d l ih =>
    rw [List.reverse_cons, List.map_append, List.map_singleton, readNat_append _ (h d (by simp)),
      ih fun e he => h e (List.mem_cons_of_mem _ he), Nat.ofDigits_cons]
    omega

theorem readNat_natText (n : Nat) : readNat (natText n) = n := by
  unfold natText
  split_ifs with h
  · subst h
    rfl
  · rw [readNat_digits _ fun d hd => Nat.digits_lt_base (by decide) hd, Nat.ofDigits_digits]

theorem numRun_digits {s : JsString} (h : s.all isDigit = true) : numRun .int s = true := by
  induction s with
  | nil => rfl
  | cons c s ih =>
    rw [List.all_cons, Bool.and_eq_true] at h
    rw [numRun, NumState.step, if_pos h.1]
    exact ih h.2

/-- A numeral is 0, or its digits begin with one that is not 0. -/
theorem natText_cases (n : Nat) :
    natText n = [48] ∨ ∃ c s, natText n = c :: s ∧ isDigit c = true ∧ c ≠ 48 ∧
      s.all isDigit = true := by
  unfold natText
  split_ifs with h
  · exact Or.inl rfl
  · right
    have hne : Nat.digits 10 n ≠ [] := Nat.digits_ne_nil_iff_ne_zero.mpr h
    have hl := Nat.getLast_digit_ne_zero 10 h
    have hlt : (Nat.digits 10 n).getLast hne < 10 :=
      Nat.digits_lt_base (by decide) (List.getLast_mem hne)
    have e : (Nat.digits 10 n).reverse.map digitUnit =
        digitUnit ((Nat.digits 10 n).getLast hne) ::
          ((Nat.digits 10 n).dropLast.reverse.map digitUnit) := by
      conv_lhs => rw [← List.dropLast_append_getLast hne]
      rw [List.reverse_append, List.reverse_singleton, List.singleton_append, List.map_cons]
    refine ⟨_, _, e, digitUnit_isDigit hlt, ?_, ?_⟩
    · intro h48
      have h0 := congrArg UInt16.toNat h48
      rw [digitUnit_toNat hlt] at h0
      have : (48 : UInt16).toNat = 48 := by decide
      omega
    · rw [List.all_eq_true]
      intro c hc
      obtain ⟨d, hd, rfl⟩ := List.mem_map.mp hc
      exact digitUnit_isDigit (Nat.digits_lt_base (by decide)
        (List.mem_of_mem_dropLast (List.mem_reverse.mp hd)))

theorem lead_natText (n : Nat) {q : NumState} (hq : ∀ c, isDigit c = true →
    q.step c = NumState.lead c) : numRun q (natText n) = true := by
  rcases natText_cases n with e | ⟨c, s, e, hc, hc0, hs⟩
  · rw [e, numRun, hq 48 (by decide)]
    decide
  · rw [e, numRun, hq c hc, NumState.lead, if_neg hc0, if_pos hc]
    exact numRun_digits hs

theorem isNumberText_intText (n : Int) : isNumberText (intText n) = true := by
  cases n with
  | ofNat n =>
    apply lead_natText
    intro c hc
    rw [NumState.step, if_neg]
    rintro rfl
    exact absurd hc (by decide)
  | negSucc n => exact lead_natText (n + 1) fun c _ => rfl

theorem readInt_intText (n : Int) : readInt (intText n) = n := by
  cases n with
  | ofNat n =>
    have hn := readNat_natText n
    rcases natText_cases n with e | ⟨c, s, e, hc, -, -⟩
    · rw [e] at hn
      rw [intText, e, ← hn]
      rfl
    · have h45 : ¬c = 45 := by
        rintro rfl
        exact absurd hc (by decide)
      rw [e] at hn
      rw [intText, e, readInt, if_neg h45, hn]
      rfl
  | negSucc n =>
    rw [intText, readInt, if_pos rfl, readNat_natText]
    rfl

instance : JsNumber Int where
  decEq := inferInstance
  isFinite _ := true
  isInteger _ := true
  text := intText
  ofText := readInt
  ofNat n := n
  add m n := m + n
  lt m n := decide (m < n)
  finite_of_integer _ _ := rfl
  isNumberText_text n _ := isNumberText_intText n
  ofText_text n _ := readInt_intText n
  text_digit n h := by
    interval_cases n <;> rfl
  integer_ofNat _ _ := rfl
  lt_ofNat m n _ _ := by simp
  add_ofNat m n _ := by simp
  integer_succ _ _ := rfl
  succ_pos n _ h := by simp at h ⊢; omega

end Adlc.Framework
