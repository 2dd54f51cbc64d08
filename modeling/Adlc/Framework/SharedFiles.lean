import Mathlib.Logic.Function.Basic
import Adlc.Framework.Lines

namespace Adlc.Framework

/-! Files that a command shares with other processes, where each call of the command can fail. -/

structure Shared (φ : Type) where
  bytes : φ → Option Bytes
  /-- Another process has changed the file since the command began. -/
  touched : φ → Bool
  /-- What is there was put there by the command. -/
  ours : φ → Bool

/-- How a call of the command ends. -/
inductive Outcome where
  | done
  | fails
  /-- A write that fails after so many bytes. -/
  | torn (written : Nat)
  deriving DecidableEq

/-- What other processes do before a call of the command, and how the call ends. -/
structure Turn (φ : Type) where
  changes : List (φ × Option Bytes)
  outcome : Outcome

/-- A call that no other process comes before and that does not fail. -/
def Turn.quiet {φ : Type} : Turn φ := ⟨[], .done⟩

variable {φ : Type} [DecidableEq φ]

namespace Shared

def change (disk : Shared φ) (c : φ × Option Bytes) : Shared φ where
  bytes := Function.update disk.bytes c.1 c.2
  touched := Function.update disk.touched c.1 true
  ours := Function.update disk.ours c.1 false

def put (disk : Shared φ) (f : φ) (b : Bytes) : Shared φ :=
  { disk with bytes := Function.update disk.bytes f (some b), ours := Function.update disk.ours f true }

def drop (disk : Shared φ) (f : φ) : Shared φ :=
  { disk with bytes := Function.update disk.bytes f none, ours := Function.update disk.ours f false }

end Shared

def Turn.before (turn : Turn φ) (disk : Shared φ) : Shared φ := turn.changes.foldl Shared.change disk

/-! ## The calls -/

def existsSync (turn : Turn φ) (f : φ) (disk : Shared φ) : Bool × Shared φ :=
  (decide (turn.outcome = .done) && ((turn.before disk).bytes f).isSome, turn.before disk)

/-- Nothing stands for a call that throws. -/
def readFileSync (turn : Turn φ) (f : φ) (disk : Shared φ) : Option JsString × Shared φ :=
  (if turn.outcome = .done then ((turn.before disk).bytes f).map utf8Decode else none, turn.before disk)

/-- A temporary file is written and renamed. -/
def writeTextAtomic (turn : Turn φ) (f : φ) (text : JsString) (disk : Shared φ) : Bool × Shared φ :=
  if turn.outcome = .done then (true, (turn.before disk).put f (utf8Encode text))
  else (false, turn.before disk)

/-- `writeFileSync`, which empties the file first. -/
def writeFileSync (turn : Turn φ) (f : φ) (text : JsString) (disk : Shared φ) : Bool × Shared φ :=
  match turn.outcome with
  | .done => (true, (turn.before disk).put f (utf8Encode text))
  | .fails => (false, turn.before disk)
  | .torn written => (false, (turn.before disk).put f ((utf8Encode text).take written))

inductive Created where
  | created
  | alreadyThere
  | failed
  deriving DecidableEq

/-- A file that must not be there yet is opened and written. -/
def writeTextExclusive (turn : Turn φ) (f : φ) (text : JsString) (disk : Shared φ) : Created × Shared φ :=
  if turn.outcome = .fails then (.failed, turn.before disk)
  else if ((turn.before disk).bytes f).isSome then (.alreadyThere, turn.before disk)
  else
    match turn.outcome with
    | .torn written => (.failed, (turn.before disk).put f ((utf8Encode text).take written))
    | _ => (.created, (turn.before disk).put f (utf8Encode text))

def unlinkSync (turn : Turn φ) (f : φ) (disk : Shared φ) : Bool × Shared φ :=
  if turn.outcome = .done ∧ ((turn.before disk).bytes f).isSome then (true, (turn.before disk).drop f)
  else (false, turn.before disk)

/-! ## What the command has changed -/

/-- From the first disk to the second one the command has changed no file but these. -/
structure OnlyIn (S : φ → Prop) (disk disk' : Shared φ) : Prop where
  touched : ∀ f, disk'.touched f = false → disk.touched f = false
  kept : ∀ f, ¬S f → disk'.touched f = false → disk'.bytes f = disk.bytes f
  ours : ∀ f, ¬S f → disk'.ours f = true → disk.ours f = true ∧ disk'.bytes f = disk.bytes f

variable {S T : φ → Prop} {disk disk' disk'' : Shared φ}

namespace OnlyIn

omit [DecidableEq φ] in
theorem refl (S : φ → Prop) (disk : Shared φ) : OnlyIn S disk disk :=
  ⟨fun _ h => h, fun _ _ _ => rfl, fun _ _ h => ⟨h, rfl⟩⟩

omit [DecidableEq φ] in
theorem trans (h : OnlyIn S disk disk') (h' : OnlyIn S disk' disk'') : OnlyIn S disk disk'' := by
  refine ⟨fun f hf => h.touched f (h'.touched f hf), fun f hS hf => ?_, fun f hS hf => ?_⟩
  · rw [h'.kept f hS hf, h.kept f hS (h'.touched f hf)]
  · obtain ⟨hours, hbytes⟩ := h'.ours f hS hf
    obtain ⟨hours', hbytes'⟩ := h.ours f hS hours
    exact ⟨hours', hbytes.trans hbytes'⟩

omit [DecidableEq φ] in
theorem mono (h : OnlyIn S disk disk') (hST : ∀ f, S f → T f) : OnlyIn T disk disk' :=
  ⟨h.touched, fun f hT => h.kept f fun hS => hT (hST f hS), fun f hT => h.ours f fun hS => hT (hST f hS)⟩

theorem change (disk : Shared φ) (c : φ × Option Bytes) : OnlyIn S disk (disk.change c) := by
  have hother : ∀ f, f ≠ c.1 → (disk.change c).bytes f = disk.bytes f ∧
      (disk.change c).touched f = disk.touched f ∧ (disk.change c).ours f = disk.ours f := by
    intro f hf
    simp only [Shared.change, Function.update_of_ne hf]
    exact ⟨trivial, trivial, trivial⟩
  have htouched : (disk.change c).touched c.1 = true := by simp [Shared.change]
  have hours : (disk.change c).ours c.1 = false := by simp [Shared.change]
  refine ⟨fun f hf => ?_, fun f _ hf => ?_, fun f _ hf => ?_⟩
  · have hne : f ≠ c.1 := by
      rintro rfl
      rw [htouched] at hf
      cases hf
    rwa [(hother f hne).2.1] at hf
  · have hne : f ≠ c.1 := by
      rintro rfl
      rw [htouched] at hf
      cases hf
    exact (hother f hne).1
  · have hne : f ≠ c.1 := by
      rintro rfl
      rw [hours] at hf
      cases hf
    rw [(hother f hne).2.2] at hf
    exact ⟨hf, (hother f hne).1⟩

theorem before (turn : Turn φ) (disk : Shared φ) : OnlyIn S disk (turn.before disk) := by
  rw [Turn.before]
  induction turn.changes generalizing disk with
  | nil => exact refl S disk
  | cons c rest ih => exact (change disk c).trans (ih _)

theorem put {f : φ} (hf : S f) (disk : Shared φ) (b : Bytes) : OnlyIn S disk (disk.put f b) := by
  refine ⟨fun g hg => hg, fun g hg _ => ?_, fun g hg h => ?_⟩
  all_goals
    have hne : g ≠ f := fun h => hg (h ▸ hf)
    simp only [Shared.put, Function.update_of_ne hne] at *
  exact ⟨h, trivial⟩

theorem drop {f : φ} (hf : S f) (disk : Shared φ) : OnlyIn S disk (disk.drop f) := by
  refine ⟨fun g hg => hg, fun g hg _ => ?_, fun g hg h => ?_⟩
  all_goals
    have hne : g ≠ f := fun h => hg (h ▸ hf)
    simp only [Shared.drop, Function.update_of_ne hne] at *
  exact ⟨h, trivial⟩

theorem existsSync (turn : Turn φ) (f : φ) (disk : Shared φ) :
    OnlyIn S disk (existsSync turn f disk).2 := before turn disk

theorem readFileSync (turn : Turn φ) (f : φ) (disk : Shared φ) :
    OnlyIn S disk (readFileSync turn f disk).2 := before turn disk

theorem writeTextAtomic (turn : Turn φ) {f : φ} (hf : S f) (text : JsString) (disk : Shared φ) :
    OnlyIn S disk (writeTextAtomic turn f text disk).2 := by
  rw [Framework.writeTextAtomic]
  split_ifs
  · exact (before turn disk).trans (put hf _ _)
  · exact before turn disk

theorem writeTextAtomic_self (turn : Turn φ) (f : φ) (text : JsString) (disk : Shared φ) :
    OnlyIn (· = f) disk (Framework.writeTextAtomic turn f text disk).2 :=
  @writeTextAtomic _ _ (· = f) turn f rfl text disk

theorem writeFileSync (turn : Turn φ) {f : φ} (hf : S f) (text : JsString) (disk : Shared φ) :
    OnlyIn S disk (writeFileSync turn f text disk).2 := by
  rw [Framework.writeFileSync]
  cases turn.outcome with
  | done => exact (before turn disk).trans (put hf _ _)
  | fails => exact before turn disk
  | torn => exact (before turn disk).trans (put hf _ _)

theorem writeTextExclusive (turn : Turn φ) {f : φ} (hf : S f) (text : JsString) (disk : Shared φ) :
    OnlyIn S disk (writeTextExclusive turn f text disk).2 := by
  rw [Framework.writeTextExclusive]
  split_ifs
  · exact before turn disk
  · exact before turn disk
  · cases turn.outcome with
    | done => exact (before turn disk).trans (put hf _ _)
    | fails => exact (before turn disk).trans (put hf _ _)
    | torn => exact (before turn disk).trans (put hf _ _)

theorem unlinkSync (turn : Turn φ) {f : φ} (hf : S f) (disk : Shared φ) :
    OnlyIn S disk (unlinkSync turn f disk).2 := by
  rw [Framework.unlinkSync]
  split_ifs
  · exact (before turn disk).trans (drop hf _)
  · exact before turn disk

end OnlyIn

/-! ## What a call leaves -/

variable {turn : Turn φ} {f : φ} {text : JsString}

theorem existsSync_true (h : (existsSync turn f disk).1 = true) :
    ((existsSync turn f disk).2.bytes f).isSome = true := by
  rw [existsSync, Bool.and_eq_true] at h
  exact h.2

theorem existsSync_false (hturn : turn.outcome = .done) (h : (existsSync turn f disk).1 = false) :
    (existsSync turn f disk).2.bytes f = none := by
  rw [existsSync, hturn] at h
  change (turn.before disk).bytes f = none
  simpa using h

theorem readFileSync_some {s : JsString} (h : (readFileSync turn f disk).1 = some s) :
    ∃ b, (readFileSync turn f disk).2.bytes f = some b ∧ s = utf8Decode b := by
  rw [readFileSync] at h
  split_ifs at h
  obtain ⟨b, hb, rfl⟩ := Option.map_eq_some_iff.mp h
  exact ⟨b, hb, rfl⟩

theorem readFileSync_eq (hturn : turn.outcome = .done) :
    (readFileSync turn f disk).1 = ((readFileSync turn f disk).2.bytes f).map utf8Decode := by
  rw [readFileSync, if_pos hturn]

theorem writeTextAtomic_ok (h : (writeTextAtomic turn f text disk).1 = true) :
    (writeTextAtomic turn f text disk).2.bytes f = some (utf8Encode text) := by
  rw [writeTextAtomic] at h ⊢
  split_ifs at h ⊢
  exact Function.update_self _ _ _

theorem writeTextAtomic_turn (h : (writeTextAtomic turn f text disk).1 = true) : turn.outcome = .done := by
  rw [writeTextAtomic] at h
  split_ifs at h with hturn
  exact hturn

/-- A write that fails leaves the file as it is. -/
theorem writeTextAtomic_failed (h : (writeTextAtomic turn f text disk).1 = false) :
    OnlyIn S disk (writeTextAtomic turn f text disk).2 := by
  rw [writeTextAtomic] at h ⊢
  split_ifs at h ⊢
  exact OnlyIn.before turn disk

/-- A file that is created was not there, unless another process has changed it. -/
theorem writeTextExclusive_created (h : (writeTextExclusive turn f text disk).1 = .created) :
    (writeTextExclusive turn f text disk).2.bytes f = some (utf8Encode text) ∧
      ((writeTextExclusive turn f text disk).2.touched f = false → disk.bytes f = none) := by
  have hbefore : OnlyIn (fun _ => False) disk (turn.before disk) := OnlyIn.before turn disk
  rw [writeTextExclusive] at h ⊢
  split_ifs at h ⊢ with h1 h2
  rw [Bool.not_eq_true, Option.isSome_eq_false_iff, Option.isNone_iff_eq_none] at h2
  have hnone : (turn.before disk).touched f = false → disk.bytes f = none := by
    intro htouched
    rw [← hbefore.kept f id htouched, h2]
  cases hturn : turn.outcome with
  | done => exact ⟨Function.update_self _ _ _, hnone⟩
  | fails => exact absurd hturn h1
  | torn =>
    rw [hturn] at h
    cases h

/-- A file that is not created is left as it is, unless the write of it was torn. -/
theorem writeTextExclusive_not (hturn : ∀ n, turn.outcome ≠ .torn n)
    (h : (writeTextExclusive turn f text disk).1 ≠ .created) :
    OnlyIn S disk (writeTextExclusive turn f text disk).2 := by
  rw [writeTextExclusive] at h ⊢
  split_ifs at h ⊢ with h1 h2
  · exact OnlyIn.before turn disk
  · exact OnlyIn.before turn disk
  · cases houtcome : turn.outcome with
    | done =>
      rw [houtcome] at h
      exact absurd rfl h
    | fails => exact absurd houtcome h1
    | torn n => exact absurd houtcome (hturn n)

theorem writeFileSync_done (hturn : turn.outcome = .done) :
    (writeFileSync turn f text disk).2.bytes f = some (utf8Encode text) := by
  rw [writeFileSync, hturn]
  exact Function.update_self _ _ _

variable (f disk) in
theorem unlinkSync_done (hturn : turn.outcome = .done) :
    (unlinkSync turn f disk).2.bytes f = none ∧ (unlinkSync turn f disk).2.ours f = false ∨
      ((unlinkSync turn f disk).2 = turn.before disk ∧ (turn.before disk).bytes f = none) := by
  rw [unlinkSync]
  split_ifs with h
  · exact Or.inl ⟨Function.update_self _ _ _, Function.update_self _ _ _⟩
  · right
    refine ⟨rfl, ?_⟩
    rw [not_and, Bool.not_eq_true, Option.isSome_eq_false_iff, Option.isNone_iff_eq_none] at h
    exact h hturn

end Adlc.Framework
