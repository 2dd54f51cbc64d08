import Mathlib.Logic.Basic
import Mathlib.Data.Option.Basic
import Mathlib.Tactic.SplitIfs

namespace Adlc.Framework

/-! Runs of a system whose steps are told by events. -/

variable {σ ε : Type}

/-- The states a run reaches when every step meets a condition on the state before it. -/
inductive Reaches (step : σ → ε → Option σ) (ok : σ → ε → Prop) (s : σ) : σ → Prop where
  | start : Reaches step ok s s
  | step {t u : σ} {e : ε} (run : Reaches step ok s t) (cond : ok t e) (fires : step t e = some u) :
      Reaches step ok s u

variable {step : σ → ε → Option σ} {ok : σ → ε → Prop} {s t u : σ}

/-- What every step keeps, every run keeps. -/
theorem Reaches.invariant (Inv : σ → Prop) (h : Reaches step ok s t) (first : Inv s)
    (next : ∀ t e u, Inv t → ok t e → step t e = some u → Inv u) : Inv t := by
  induction h with
  | start => exact first
  | step _ cond fires ih => exact next _ _ _ ih cond fires

theorem Reaches.trans (h : Reaches step ok s t) (h' : Reaches step ok t u) :
    Reaches step ok s u := by
  induction h' with
  | start => exact h
  | step _ cond fires ih => exact ih.step cond fires

theorem Reaches.weaken {ok' : σ → ε → Prop} (h : Reaches step ok s t)
    (hok : ∀ s e, ok s e → ok' s e) : Reaches step ok' s t := by
  induction h with
  | start => exact .start
  | step _ cond fires ih => exact ih.step (hok _ _ cond) fires

/-- Play a list of events, as long as the steps meet the condition. -/
def play (step : σ → ε → Option σ) (ok : σ → ε → Prop) [∀ s e, Decidable (ok s e)] (s : σ) :
    List ε → Option σ
  | [] => some s
  | e :: rest => if ok s e then (step s e).bind (play step ok · rest) else none

theorem reaches_of_play [∀ s e, Decidable (ok s e)] {events : List ε}
    (h : play step ok s events = some t) : Reaches step ok s t := by
  induction events generalizing s with
  | nil =>
    cases h
    exact .start
  | cons e rest ih =>
    rw [play] at h
    split_ifs at h with hok
    · obtain ⟨s', hs', hrest⟩ := Option.bind_eq_some_iff.1 h
      have hone : Reaches step ok s s' := Reaches.start.step hok hs'
      exact hone.trans (ih hrest)

theorem exists_reaches_of_play [∀ s e, Decidable (ok s e)] {events : List ε} {P : σ → Bool}
    (h : (play step ok s events).any P = true) : ∃ t, Reaches step ok s t ∧ P t = true := by
  obtain ⟨t, ht, hP⟩ := (Option.any_eq_true ..).1 h
  exact ⟨t, reaches_of_play ht, hP⟩

end Adlc.Framework
