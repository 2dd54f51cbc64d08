import Mathlib.Logic.Basic

namespace Adlc.Framework

/-! Programs that make calls, one at a time, to a world that answers them as it likes. -/

variable {ε κ σ α β : Type} {ρ : κ → Type}

/-- A program has a result, or makes a call and goes on with its answer; a call may raise. -/
inductive Dialogue (ε κ : Type) (ρ : κ → Type) (α : Type) where
  | done (result : Except ε α)
  | ask (call : κ) (rest : Except ε (ρ call) → Dialogue ε κ ρ α)

namespace Dialogue

def bind : Dialogue ε κ ρ α → (α → Dialogue ε κ ρ β) → Dialogue ε κ ρ β
  | done (.ok a), f => f a
  | done (.error e), _ => done (.error e)
  | ask call rest, f => ask call fun r => (rest r).bind f

instance : Monad (Dialogue ε κ ρ) where
  pure a := done (.ok a)
  bind := bind

/-- `throw` -/
def fail (e : ε) : Dialogue ε κ ρ α := done (.error e)

/-- One call, with its answer. -/
def make (call : κ) : Dialogue ε κ ρ (ρ call) := ask call done

/-- `try { p } catch (e) { handler(e) }` -/
def tryCatch : Dialogue ε κ ρ α → (ε → Dialogue ε κ ρ α) → Dialogue ε κ ρ α
  | done (.ok a), _ => done (.ok a)
  | done (.error e), handler => handler e
  | ask call rest, handler => ask call fun r => (rest r).tryCatch handler

/-! ## Runs -/

/-- How the world may answer a call: its state before, the answer, its state after. -/
abbrev Serves (ε σ κ : Type) (ρ : κ → Type) := σ → (call : κ) → Except ε (ρ call) → σ → Prop

variable {serve : Serves ε σ κ ρ}

/-- The program comes, after some calls, to what is left of it; it may stop there. -/
inductive Runs (serve : Serves ε σ κ ρ) :
    Dialogue ε κ ρ α → σ → Dialogue ε κ ρ α → σ → Prop where
  | here {p : Dialogue ε κ ρ α} {s : σ} : Runs serve p s p s
  | asks {call : κ} {rest : Except ε (ρ call) → Dialogue ε κ ρ α} {r : Except ε (ρ call)}
      {q : Dialogue ε κ ρ α} {s t u : σ} (answer : serve s call r t) (run : Runs serve (rest r) t q u) :
      Runs serve (ask call rest) s q u

/-- A world that answers by a function, for a number of calls. -/
def drive (world : σ → (call : κ) → Except ε (ρ call) × σ) :
    Nat → Dialogue ε κ ρ α → σ → Dialogue ε κ ρ α × σ
  | n + 1, ask call rest, s => drive world n (rest (world s call).1) (world s call).2
  | _, p, s => (p, s)

theorem runs_drive {world : σ → (call : κ) → Except ε (ρ call) × σ}
    (h : ∀ s call, serve s call (world s call).1 (world s call).2) (n : Nat) (p : Dialogue ε κ ρ α)
    (s : σ) : Runs serve p s (drive world n p s).1 (drive world n p s).2 := by
  induction n generalizing p s with
  | zero => exact .here
  | succ n ih =>
    cases p with
    | done result => exact .here
    | ask call rest => exact .asks (h s call) (ih _ _)

def ended : Dialogue ε κ ρ α → Bool
  | done _ => true
  | ask _ _ => false

theorem exists_of_ended {p : Dialogue ε κ ρ α} (h : p.ended = true) : ∃ result, p = done result := by
  cases p with
  | done result => exact ⟨result, rfl⟩
  | ask call rest => exact absurd h (by simp [ended])

/-- A program whose calls are all answered comes to its end. -/
theorem exists_runs_done (h : ∀ s call, ∃ r t, serve s call r t) (p : Dialogue ε κ ρ α) (s : σ) :
    ∃ result t, Runs serve p s (done result) t := by
  induction p generalizing s with
  | done result => exact ⟨result, s, .here⟩
  | ask call rest ih =>
    obtain ⟨r, t, hserve⟩ := h s call
    obtain ⟨result, u, hrun⟩ := ih r t
    exact ⟨result, u, .asks hserve hrun⟩

/-- Whatever the world answers, its states keep to the invariant, and the end to the postcondition. -/
def Safe (serve : Serves ε σ κ ρ) (Inv : σ → Prop) (post : Except ε α → σ → Prop) :
    Dialogue ε κ ρ α → σ → Prop
  | done result, s => post result s
  | ask call rest, s => ∀ r t, serve s call r t → Inv t ∧ (rest r).Safe serve Inv post t

variable {Inv : σ → Prop} {post : Except ε α → σ → Prop}

theorem Safe.bind {p : Dialogue ε κ ρ α} {f : α → Dialogue ε κ ρ β} {post : Except ε β → σ → Prop}
    {s : σ} (h : p.Safe serve Inv (fun result t => match result with
      | .ok a => (f a).Safe serve Inv post t
      | .error e => post (.error e) t) s) : (p >>= f).Safe serve Inv post s := by
  show (p.bind f).Safe serve Inv post s
  induction p generalizing s with
  | done result =>
    cases result with
    | ok a => exact h
    | error e => exact h
  | ask call rest ih =>
    intro r t hserve
    obtain ⟨hinv, hrest⟩ := h r t hserve
    exact ⟨hinv, ih r hrest⟩

theorem Safe.mono {post' : Except ε α → σ → Prop} {p : Dialogue ε κ ρ α} {s : σ}
    (h : p.Safe serve Inv post s) (hpost : ∀ result t, post result t → post' result t) :
    p.Safe serve Inv post' s := by
  induction p generalizing s with
  | done result => exact hpost result s h
  | ask call rest ih =>
    intro r t hserve
    obtain ⟨hinv, hrest⟩ := h r t hserve
    exact ⟨hinv, ih r hrest⟩

theorem Safe.tryCatch {p : Dialogue ε κ ρ α} {handler : ε → Dialogue ε κ ρ α} {s : σ}
    (h : p.Safe serve Inv (fun result t => match result with
      | .ok a => post (.ok a) t
      | .error e => (handler e).Safe serve Inv post t) s) :
    (p.tryCatch handler).Safe serve Inv post s := by
  induction p generalizing s with
  | done result =>
    cases result with
    | ok a => exact h
    | error e => exact h
  | ask call rest ih =>
    intro r t hserve
    obtain ⟨hinv, hrest⟩ := h r t hserve
    exact ⟨hinv, ih r hrest⟩

/-- A safe program that has made some calls has kept the invariant, and is safe still. -/
theorem Safe.runs {p q : Dialogue ε κ ρ α} {s t : σ} (h : p.Safe serve Inv post s) (hs : Inv s)
    (hrun : Runs serve p s q t) : Inv t ∧ q.Safe serve Inv post t := by
  induction hrun with
  | here => exact ⟨hs, h⟩
  | asks answer run ih =>
    obtain ⟨hinv, hrest⟩ := h _ _ answer
    exact ih hrest hinv

theorem Runs.trans {p q r : Dialogue ε κ ρ α} {s t u : σ} (h : Runs serve p s q t)
    (h' : Runs serve q t r u) : Runs serve p s r u := by
  induction h with
  | here => exact h'
  | asks answer _ ih => exact .asks answer (ih h')

/-- A program that makes calls of a kind only. -/
def Only (kind : κ → Prop) : Dialogue ε κ ρ α → Prop
  | done _ => True
  | ask call rest => kind call ∧ ∀ r, (rest r).Only kind

variable {kind : κ → Prop}

theorem Only.bind {p : Dialogue ε κ ρ α} {f : α → Dialogue ε κ ρ β} (h : p.Only kind)
    (hf : ∀ a, (f a).Only kind) : (p >>= f).Only kind := by
  show (p.bind f).Only kind
  induction p with
  | done result =>
    cases result with
    | ok a => exact hf a
    | error e => trivial
  | ask call rest ih => exact ⟨h.1, fun r => ih r (h.2 r)⟩

theorem Only.tryCatch {p : Dialogue ε κ ρ α} {handler : ε → Dialogue ε κ ρ α} (h : p.Only kind)
    (hhandler : ∀ e, (handler e).Only kind) : (p.tryCatch handler).Only kind := by
  induction p with
  | done result =>
    cases result with
    | ok a => trivial
    | error e => exact hhandler e
  | ask call rest ih => exact ⟨h.1, fun r => ih r (h.2 r)⟩

/-- A program whose every call keeps the invariant is safe. -/
theorem Only.safe {p : Dialogue ε κ ρ α} {s : σ} (h : p.Only kind)
    (keeps : ∀ s call r t, Inv s → kind call → serve s call r t → Inv t) (hs : Inv s) :
    p.Safe serve Inv (fun _ t => Inv t) s := by
  induction p generalizing s with
  | done result => exact hs
  | ask call rest ih =>
    intro r t hserve
    have ht := keeps s call r t hs h.1 hserve
    exact ⟨ht, ih r (h.2 r) ht⟩

/-! ## Histories -/

/-- The states that come of one: programs are started and stopped anywhere, and others take their
steps in between. -/
inductive History (serve : Serves ε σ κ ρ) (starts : σ → Dialogue ε κ ρ α → Prop)
    (stops : σ → Prop) (others : σ → σ → Prop) (s : σ) : σ → Prop where
  | start : History serve starts stops others s s
  | run {t u : σ} {p q : Dialogue ε κ ρ α} (before : History serve starts stops others s t)
      (first : starts t p) (calls : Runs serve p t q u) (stop : stops u) :
      History serve starts stops others s u
  | other {t u : σ} (before : History serve starts stops others s t) (step : others t u) :
      History serve starts stops others s u

variable {starts : σ → Dialogue ε κ ρ α → Prop} {stops : σ → Prop} {others : σ → σ → Prop} {s t : σ}

/-- What the programs and the others keep, a history keeps. The invariant between runs may say more
than the one that holds inside them. -/
theorem History.invariant (Between : σ → Prop) (h : History serve starts stops others s t)
    (first : Between s) (weaken : ∀ t, Between t → Inv t)
    (runs : ∀ t p, Between t → starts t p → p.Safe serve Inv (fun _ _ => True) t)
    (halt : ∀ t, Inv t → stops t → Between t)
    (step : ∀ t u, Between t → others t u → Between u) : Between t := by
  induction h with
  | start => exact first
  | run before begin calls stop ih =>
    have hsafe := runs _ _ ih begin
    exact halt _ (hsafe.runs (weaken _ ih) calls).1 stop
  | other before moves ih => exact step _ _ ih moves

end Dialogue

end Adlc.Framework
