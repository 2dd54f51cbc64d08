import Mathlib.Data.List.Infix

namespace Adlc.Framework

/-! Scripts over files: the writes of a command in their order, of which a crash leaves the first
few. -/

/-- What one write does. -/
class Writes (η : Type) (σ : Type) where
  write : σ → η → σ

variable {η σ ε α β : Type} [Writes η σ]

/-- The state after the writes. -/
def after (s : σ) (writes : List η) : σ := writes.foldl Writes.write s

@[simp] theorem after_nil (s : σ) : after s ([] : List η) = s := rfl

@[simp] theorem after_cons (s : σ) (w : η) (ws : List η) :
    after s (w :: ws) = after (Writes.write s w) ws := rfl

theorem after_append (s : σ) (ws ws' : List η) : after s (ws ++ ws') = after (after s ws) ws' := by
  rw [after, List.foldl_append]
  rfl

/-- What a command does from a state: its writes, and its result. -/
def Script (η σ ε α : Type) : Type := σ → List η × Except ε α

namespace Script

def bind (p : Script η σ ε α) (f : α → Script η σ ε β) : Script η σ ε β := fun s =>
  match p s with
  | (ws, .error e) => (ws, .error e)
  | (ws, .ok a) => (ws ++ (f a (after s ws)).1, (f a (after s ws)).2)

instance : Monad (Script η σ ε) where
  pure a := fun _ => ([], .ok a)
  bind := bind

/-- The state as it is now. -/
def get : Script η σ ε σ := fun s => ([], .ok s)

def lift (result : Except ε α) : Script η σ ε α := fun _ => ([], result)

/-- `throw` -/
def fail (e : ε) : Script η σ ε α := lift (.error e)

def write (w : η) : Script η σ ε Unit := fun _ => ([w], .ok ())

def writeAll (ws : List η) : Script η σ ε Unit := fun _ => (ws, .ok ())

@[simp] theorem run_pure (a : α) (s : σ) : (pure a : Script η σ ε α) s = ([], .ok a) := rfl

omit [Writes η σ] in
@[simp] theorem run_lift (r : Except ε α) (s : σ) : (lift r : Script η σ ε α) s = ([], r) := rfl

omit [Writes η σ] in
@[simp] theorem run_fail (e : ε) (s : σ) : (fail e : Script η σ ε α) s = ([], .error e) := rfl

theorem run_bind_ok {p : Script η σ ε α} {f : α → Script η σ ε β} {s : σ} {ws : List η} {a : α}
    (h : p s = (ws, .ok a)) :
    (p >>= f) s = (ws ++ (f a (after s ws)).1, (f a (after s ws)).2) := by
  show (p.bind f) s = _
  rw [bind, h]

theorem run_bind_error {p : Script η σ ε α} {f : α → Script η σ ε β} {s : σ} {ws : List η} {e : ε}
    (h : p s = (ws, .error e)) : (p >>= f) s = (ws, .error e) := by
  show (p.bind f) s = _
  rw [bind, h]

/-- A script's own writes come before those of what follows it. -/
theorem bind_writes (p : Script η σ ε α) (f : α → Script η σ ε β) (s : σ) :
    ∃ ws, ((p >>= f) s).1 = (p s).1 ++ ws := by
  cases hp : p s with
  | mk ws r =>
    cases r with
    | error e => exact ⟨[], by rw [run_bind_error hp, List.append_nil]⟩
    | ok a => exact ⟨_, by rw [run_bind_ok hp]⟩

@[simp] theorem run_get_bind (f : σ → Script η σ ε β) (s : σ) : ((get : Script η σ ε σ) >>= f) s = f s s :=
  rfl

@[simp] theorem run_write_bind (w : η) (f : Unit → Script η σ ε β) (s : σ) :
    (write w >>= f) s = (w :: (f () (Writes.write s w)).1, (f () (Writes.write s w)).2) := rfl

@[simp] theorem run_writeAll_bind (ws : List η) (f : Unit → Script η σ ε β) (s : σ) :
    (writeAll ws >>= f) s = (ws ++ (f () (after s ws)).1, (f () (after s ws)).2) := rfl

end Script

/-! ## What a crash leaves -/

/-- The property holds after every write, but for those that are excused. -/
def Kept (excused : σ → η → Prop) (P : σ → Prop) : σ → List η → Prop
  | _, [] => True
  | s, w :: ws => (excused s w ∨ P (Writes.write s w)) ∧ Kept excused P (Writes.write s w) ws

variable {excused : σ → η → Prop} {P Q : σ → Prop} {s : σ} {ws ws' : List η}

theorem kept_append :
    Kept excused P s (ws ++ ws') ↔ Kept excused P s ws ∧ Kept excused P (after s ws) ws' := by
  induction ws generalizing s with
  | nil => simp [Kept]
  | cons w ws ih => simp [Kept, ih, and_assoc]

theorem Kept.imp (h : Kept excused P s ws) (hpq : ∀ s, P s → Q s) : Kept excused Q s ws := by
  induction ws generalizing s with
  | nil => trivial
  | cons w ws ih => exact ⟨h.1.imp_right (hpq _), ih h.2⟩

/-- A property that every cut has is kept. -/
theorem kept_of_cuts (h : ∀ k, P (after s (ws.take (k + 1)))) : Kept excused P s ws := by
  induction ws generalizing s with
  | nil => trivial
  | cons w ws ih => exact ⟨Or.inr (h 0), ih fun k => h (k + 1)⟩

/-- The last of the writes is not excused. -/
def CutClear (excused : σ → η → Prop) (s : σ) (cut : List η) : Prop :=
  ∀ init w, cut = init ++ [w] → ¬excused (after s init) w

/-- What is kept holds wherever a crash comes, unless right after an excused write. -/
theorem Kept.cut (h : Kept excused P s ws) (hs : P s) {k : Nat}
    (hk : CutClear excused s (ws.take k)) : P (after s (ws.take k)) := by
  rcases List.eq_nil_or_concat (ws.take k) with hnil | ⟨init, w, hcut⟩
  · rw [hnil]
    exact hs
  · rw [List.concat_eq_append] at hcut
    have hws : ws = init ++ (w :: ws.drop k) := by
      conv_lhs => rw [← List.take_append_drop k ws, hcut]
      simp
    rw [hws, kept_append] at h
    rw [hcut, after_append]
    exact h.2.1.resolve_left (hk init w hcut)

end Adlc.Framework
