import Mathlib.Data.List.Nodup
import Mathlib.Logic.Function.Basic

namespace Adlc.Framework

/-! Write-ahead logs: changes of files that are staged and backed up before the first of them is made,
so that from wherever they stop they can all be made, or all be undone. -/

variable {P B : Type}

/-- A change of one file, with the copies of what it is to hold and of what it held. -/
structure Change (P B : Type) where
  target : P
  stage : P
  backup : P
  before : Option B
  after : Option B

/-- The files of the changes are apart from each other and from all copies. -/
structure Apart (changes : List (Change P B)) : Prop where
  targets : (changes.map Change.target).Nodup
  stages : ∀ c ∈ changes, ∀ d ∈ changes, c.target ≠ d.stage
  backups : ∀ c ∈ changes, ∀ d ∈ changes, c.target ≠ d.backup

/-- A file of a change, or one of its copies. -/
def Involved (changes : List (Change P B)) (p : P) : Prop :=
  ∃ c ∈ changes, p = c.target ∨ p = c.stage ∨ p = c.backup

/-- The copies are there. -/
structure Copied (changes : List (Change P B)) (v : P → Option B) : Prop where
  staged : ∀ c ∈ changes, ∀ b, c.after = some b → v c.stage = some b
  backed : ∀ c ∈ changes, ∀ b, c.before = some b → v c.backup = some b

/-- Each copy is there or gone. -/
structure Leftover (changes : List (Change P B)) (v : P → Option B) : Prop where
  staged : ∀ c ∈ changes, ∀ b, c.after = some b → v c.stage = none ∨ v c.stage = some b
  backed : ∀ c ∈ changes, ∀ b, c.before = some b → v c.backup = none ∨ v c.backup = some b

/-- The copies are there, and each file is as before its change or as after it. -/
structure Logged (changes : List (Change P B)) (v : P → Option B) : Prop extends Copied changes v where
  atomic : ∀ c ∈ changes, v c.target = c.before ∨ v c.target = c.after

/-- The two directions in which a log is worked off. -/
inductive Direction where
  | complete | rollback
  deriving DecidableEq

def Change.goal (d : Direction) (c : Change P B) : Option B :=
  match d with
  | .complete => c.after
  | .rollback => c.before

/-- The copy from which a direction restores. -/
def Change.source (d : Direction) (c : Change P B) : P :=
  match d with
  | .complete => c.stage
  | .rollback => c.backup

/-- The changes are worked off in a direction. -/
def Settled (d : Direction) (changes : List (Change P B)) (v : P → Option B) : Prop :=
  ∀ c ∈ changes, v c.target = c.goal d

variable {changes done : List (Change P B)} {v w : P → Option B} {d : Direction} {c : Change P B} {p : P}

theorem Copied.leftover (h : Copied changes v) : Leftover changes v where
  staged c hc b hb := .inr (h.staged c hc b hb)
  backed c hc b hb := .inr (h.backed c hc b hb)

/-- What a direction restores from is what it is to restore, or gone. -/
theorem Leftover.source (h : Leftover changes v) (hc : c ∈ changes) {b : B} (hb : c.goal d = some b) :
    v (c.source d) = none ∨ v (c.source d) = some b := by
  cases d with
  | complete => exact h.staged c hc b hb
  | rollback => exact h.backed c hc b hb

theorem Copied.source (h : Copied changes v) (hc : c ∈ changes) {b : B} (hb : c.goal d = some b) :
    v (c.source d) = some b := by
  cases d with
  | complete => exact h.staged c hc b hb
  | rollback => exact h.backed c hc b hb

/-- With its copies still there, a log that is worked off can be worked off again, either way. -/
theorem Settled.logged (h : Settled d changes v) (hcopied : Copied changes v) : Logged changes v where
  toCopied := hcopied
  atomic c hc := by
    cases d with
    | complete => exact .inr (h c hc)
    | rollback => exact .inl (h c hc)

/-! ## Files that are not involved may hold anything -/

theorem Logged.congr (h : Logged changes v) (hv : ∀ p, Involved changes p → w p = v p) : Logged changes w where
  staged c hc b hb := by
    rw [hv _ ⟨c, hc, .inr (.inl rfl)⟩]
    exact h.staged c hc b hb
  backed c hc b hb := by
    rw [hv _ ⟨c, hc, .inr (.inr rfl)⟩]
    exact h.backed c hc b hb
  atomic c hc := by
    rw [hv _ ⟨c, hc, .inl rfl⟩]
    exact h.atomic c hc

theorem Settled.congr (h : Settled d changes v) (hv : ∀ c ∈ changes, w c.target = v c.target) :
    Settled d changes w := by
  intro c hc
  rw [hv c hc]
  exact h c hc

/-- Copies may go. -/
theorem Leftover.mono (h : Leftover changes v)
    (hstage : ∀ c ∈ changes, w c.stage = none ∨ w c.stage = v c.stage)
    (hbackup : ∀ c ∈ changes, w c.backup = none ∨ w c.backup = v c.backup) : Leftover changes w where
  staged c hc b hb := by
    obtain hw | hw := hstage c hc
    · exact .inl hw
    · exact hw ▸ h.staged c hc b hb
  backed c hc b hb := by
    obtain hw | hw := hbackup c hc
    · exact .inl hw
    · exact hw ▸ h.backed c hc b hb

/-! ## One change is made, or undone -/

variable [DecidableEq P]

theorem Copied.update (h : Copied changes v) (hp : ∀ c ∈ changes, p ≠ c.stage ∧ p ≠ c.backup) (x : Option B) :
    Copied changes (Function.update v p x) where
  staged c hc b hb := by
    rw [Function.update_of_ne (Ne.symm (hp c hc).1)]
    exact h.staged c hc b hb
  backed c hc b hb := by
    rw [Function.update_of_ne (Ne.symm (hp c hc).2)]
    exact h.backed c hc b hb

theorem Logged.settle (h : Logged changes v) (hapart : Apart changes) (hc : c ∈ changes) (d : Direction) :
    Logged changes (Function.update v c.target (c.goal d)) where
  toCopied := h.toCopied.update (fun e he => ⟨hapart.stages c hc e he, hapart.backups c hc e he⟩) _
  atomic e he := by
    by_cases htarget : e.target = c.target
    · obtain rfl : e = c := List.inj_on_of_nodup_map hapart.targets he hc htarget
      rw [Function.update_self]
      cases d with
      | complete => exact .inr rfl
      | rollback => exact .inl rfl
    · rw [Function.update_of_ne htarget]
      exact h.atomic e he

/-- Made once more, a change changes nothing. -/
theorem Settled.again (h : Settled d changes v) (hc : c ∈ changes) :
    Function.update v c.target (c.goal d) = v := by
  rw [← h c hc]
  exact Function.update_eq_self _ _

theorem Settled.concat (h : Settled d done v) (hapart : Apart changes) (hdone : done ⊆ changes)
    (hc : c ∈ changes) : Settled d (done ++ [c]) (Function.update v c.target (c.goal d)) := by
  intro e he
  by_cases htarget : e.target = c.target
  · have hmem : e ∈ changes := by
      obtain he | he := List.mem_append.mp he
      · exact hdone he
      · exact List.mem_singleton.mp he ▸ hc
    obtain rfl : e = c := List.inj_on_of_nodup_map hapart.targets hmem hc htarget
    exact Function.update_self ..
  · rw [Function.update_of_ne htarget]
    obtain he | he := List.mem_append.mp he
    · exact h e he
    · exact absurd (congrArg Change.target (List.mem_singleton.mp he)) htarget

end Adlc.Framework
