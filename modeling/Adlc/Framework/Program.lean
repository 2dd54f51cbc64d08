import Mathlib.Logic.Relation

namespace Adlc.Framework

variable {ε σ α β : Type}

/-- A program over a state, cut at its atomic steps: it has a result, or it takes one step and goes
on with what it read of the state before that step. A step that fails leaves the state as it is and
raises an exception. -/
inductive Program (ε σ α : Type) where
  | done (result : Except ε α)
  | step (next : σ → σ) (rest : σ → Program ε σ α) (raise : ε → Program ε σ α)

namespace Program

def bind : Program ε σ α → (α → Program ε σ β) → Program ε σ β
  | done (.ok a), f => f a
  | done (.error e), _ => done (.error e)
  | step next rest raise, f => step next (fun s => (rest s).bind f) fun e => (raise e).bind f

instance : Monad (Program ε σ) where
  pure a := done (.ok a)
  bind := bind

/-- `throw` -/
def fail (e : ε) : Program ε σ α := done (.error e)

/-- A call that touches no state. -/
def lift (result : Except ε α) : Program ε σ α := done result

/-- A call that is one step. -/
def atomic (f : σ → Except ε α × σ) : Program ε σ α :=
  step (fun s => (f s).2) (fun s => done (f s).1) fail

/-- The state as it is now. -/
def get : Program ε σ σ := atomic fun s => (.ok s, s)

/-- `try { p } catch (e) { handler(e) }` -/
def tryCatch : Program ε σ α → (ε → Program ε σ α) → Program ε σ α
  | done (.ok a), _ => done (.ok a)
  | done (.error e), handler => handler e
  | step next rest raise, handler =>
    step next (fun s => (rest s).tryCatch handler) fun e => (raise e).tryCatch handler

/-- `try { p } finally { cleanup }` -/
def tryFinally : Program ε σ α → Program ε σ Unit → Program ε σ α
  | done result, cleanup => cleanup.bind fun _ => done result
  | step next rest raise, cleanup =>
    step next (fun s => (rest s).tryFinally cleanup) fun e => (raise e).tryFinally cleanup

/-- `if (condition) p` -/
def when (condition : Bool) (p : Program ε σ Unit) : Program ε σ Unit :=
  if condition then p else pure ()

/-! ## Running alone, with no step failing -/

def run : Program ε σ α → σ → Except ε α × σ
  | done result, s => (result, s)
  | step next rest _, s => (rest s).run (next s)

@[simp] theorem run_pure (a : α) (s : σ) : (pure a : Program ε σ α).run s = (.ok a, s) := rfl

@[simp] theorem run_fail (e : ε) (s : σ) : (fail e : Program ε σ α).run s = (.error e, s) := rfl

@[simp] theorem run_lift (r : Except ε α) (s : σ) : (lift r : Program ε σ α).run s = (r, s) := rfl

@[simp] theorem run_atomic (f : σ → Except ε α × σ) (s : σ) : (atomic f).run s = f s := rfl

@[simp] theorem run_get (s : σ) : (get : Program ε σ σ).run s = (.ok s, s) := rfl

theorem run_bind (p : Program ε σ α) (f : α → Program ε σ β) (s : σ) :
    (p >>= f).run s =
      match p.run s with
      | (.ok a, s') => (f a).run s'
      | (.error e, s') => (.error e, s') := by
  show (p.bind f).run s = _
  induction p generalizing s with
  | done result => cases result <;> rfl
  | step next rest raise ih => exact ih s (next s)

theorem run_bind_ok {p : Program ε σ α} {f : α → Program ε σ β} {s s' : σ} {a : α}
    (h : p.run s = (.ok a, s')) : (p >>= f).run s = (f a).run s' := by
  rw [run_bind, h]

theorem run_bind_error {p : Program ε σ α} {f : α → Program ε σ β} {s s' : σ} {e : ε}
    (h : p.run s = (.error e, s')) : (p >>= f).run s = (.error e, s') := by
  rw [run_bind, h]

theorem run_tryCatch (p : Program ε σ α) (handler : ε → Program ε σ α) (s : σ) :
    (p.tryCatch handler).run s =
      match p.run s with
      | (.ok a, s') => (.ok a, s')
      | (.error e, s') => (handler e).run s' := by
  induction p generalizing s with
  | done result => cases result <;> rfl
  | step next rest raise ih => exact ih s (next s)

theorem run_tryFinally (p : Program ε σ α) (cleanup : Program ε σ Unit) (s : σ) :
    (p.tryFinally cleanup).run s =
      match cleanup.run (p.run s).2 with
      | (.ok _, s') => ((p.run s).1, s')
      | (.error e, s') => (.error e, s') := by
  induction p generalizing s with
  | done result =>
    show (cleanup >>= fun _ => done result).run s = _
    rw [run_bind]
    show _ = match cleanup.run s with
      | (.ok _, s') => (result, s')
      | (.error e, s') => (.error e, s')
    rcases cleanup.run s with ⟨_ | _, _⟩ <;> rfl
  | step next rest raise ih => exact ih s (next s)

/-! ## What every step keeps -/

/-- Each step of the program, from any state, is one of the relation. -/
def Keeps (R : σ → σ → Prop) : Program ε σ α → Prop
  | done _ => True
  | step next rest raise =>
    (∀ s, R s (next s)) ∧ (∀ s, (rest s).Keeps R) ∧ ∀ e, (raise e).Keeps R

theorem Keeps.bind {R : σ → σ → Prop} {p : Program ε σ α} {f : α → Program ε σ β}
    (hp : p.Keeps R) (hf : ∀ a, (f a).Keeps R) : (p >>= f).Keeps R := by
  show (p.bind f).Keeps R
  induction p with
  | done result =>
    cases result with
    | ok a => exact hf a
    | error e => trivial
  | step next rest raise ih ihe =>
    exact ⟨hp.1, fun s => ih s (hp.2.1 s), fun e => ihe e (hp.2.2 e)⟩

theorem Keeps.tryCatch {R : σ → σ → Prop} {p : Program ε σ α} {handler : ε → Program ε σ α}
    (hp : p.Keeps R) (hh : ∀ e, (handler e).Keeps R) : (p.tryCatch handler).Keeps R := by
  induction p with
  | done result =>
    cases result with
    | ok a => trivial
    | error e => exact hh e
  | step next rest raise ih ihe =>
    exact ⟨hp.1, fun s => ih s (hp.2.1 s), fun e => ihe e (hp.2.2 e)⟩

theorem Keeps.tryFinally {R : σ → σ → Prop} {p : Program ε σ α} {cleanup : Program ε σ Unit}
    (hp : p.Keeps R) (hc : cleanup.Keeps R) : (p.tryFinally cleanup).Keeps R := by
  induction p with
  | done result => exact hc.bind fun _ => trivial
  | step next rest raise ih ihe =>
    exact ⟨hp.1, fun s => ih s (hp.2.1 s), fun e => ihe e (hp.2.2 e)⟩

theorem keeps_atomic {R : σ → σ → Prop} {f : σ → Except ε α × σ} (h : ∀ s, R s (f s).2) :
    (atomic f).Keeps R := ⟨h, fun _ => trivial, fun _ => trivial⟩

/-- What each step keeps, a run keeps. -/
theorem Keeps.run {R : σ → σ → Prop} (hrefl : ∀ s, R s s) (htrans : ∀ a b c, R a b → R b c → R a c)
    {p : Program ε σ α} (hp : p.Keeps R) (s : σ) : R s (p.run s).2 := by
  induction p generalizing s with
  | done result => exact hrefl s
  | step next rest raise ih => exact htrans _ _ _ (hp.1 s) (ih s (hp.2.1 s) (next s))

end Program

end Adlc.Framework
