import Adlc.Framework.Program

namespace Adlc.Framework

/-! Programs whose steps may fail and which may be stopped between any two of them. -/

variable {ε σ α β : Type}

namespace Program

/-- The states in which a program may be stopped, with any step before that failing. -/
def Cut : Program ε σ α → σ → σ → Prop
  | done _, s, s' => s' = s
  | step next rest raise, s, s' =>
    s' = s ∨ (rest s).Cut (next s) s' ∨ ∃ e, (raise e).Cut s s'

/-- The results of a program, with any of its steps failing. -/
def Ends : Program ε σ α → σ → Except ε α → σ → Prop
  | done result, s, r, s' => r = result ∧ s' = s
  | step next rest raise, s, r, s' =>
    (rest s).Ends (next s) r s' ∨ ∃ e, (raise e).Ends s r s'

/-- Wherever the program is stopped it leaves a state of `C`, and what it ends with meets `Q`; with faults,
also where steps fail. -/
def Safe (faults : Prop) (C : σ → Prop) (Q : Except ε α → σ → Prop) : Program ε σ α → σ → Prop
  | done result, s => C s ∧ Q result s
  | step next rest raise, s =>
    C s ∧ (rest s).Safe faults C Q (next s) ∧ (faults → ∀ e, (raise e).Safe faults C Q s)

variable {faults : Prop} {C C' : σ → Prop} {Q Q' : Except ε α → σ → Prop} {p : Program ε σ α} {s s' : σ}

/-- Where a run ends is where one may stop. -/
theorem cut_run (p : Program ε σ α) (s : σ) : p.Cut s (p.run s).2 := by
  induction p generalizing s with
  | done result => rfl
  | step next rest raise ih => exact .inr (.inl (ih s (next s)))

theorem ends_run (p : Program ε σ α) (s : σ) : p.Ends s (p.run s).1 (p.run s).2 := by
  induction p generalizing s with
  | done result => exact ⟨rfl, rfl⟩
  | step next rest raise ih => exact .inl (ih s (next s))

/-! ## What safety gives -/

theorem Safe.start (h : p.Safe faults C Q s) : C s := by
  cases p with
  | done result => exact h.1
  | step next rest raise => exact h.1

theorem Safe.cut (h : p.Safe True C Q s) (hcut : p.Cut s s') : C s' := by
  induction p generalizing s with
  | done result =>
    obtain rfl : s' = s := hcut
    exact h.1
  | step next rest raise ih ihe =>
    obtain rfl | hcut | ⟨e, hcut⟩ := hcut
    · exact h.1
    · exact ih s h.2.1 hcut
    · exact ihe e (h.2.2 trivial e) hcut

theorem Safe.ends {r : Except ε α} (h : p.Safe True C Q s) (hends : p.Ends s r s') : Q r s' := by
  induction p generalizing s with
  | done result =>
    obtain ⟨rfl, rfl⟩ := hends
    exact h.2
  | step next rest raise ih ihe =>
    obtain hends | ⟨e, hends⟩ := hends
    · exact ih s h.2.1 hends
    · exact ihe e (h.2.2 trivial e) hends

theorem Safe.run (h : p.Safe faults C Q s) : Q (p.run s).1 (p.run s).2 := by
  induction p generalizing s with
  | done result => exact h.2
  | step next rest raise ih => exact ih s h.2.1

/-! ## Rules -/

theorem Safe.mono (h : p.Safe faults C Q s) (hC : ∀ s, C s → C' s) (hQ : ∀ r s, C s → Q r s → Q' r s) :
    p.Safe faults C' Q' s := by
  induction p generalizing s with
  | done result => exact ⟨hC s h.1, hQ _ s h.1 h.2⟩
  | step next rest raise ih ihe => exact ⟨hC s h.1, ih s h.2.1, fun hf e => ihe e (h.2.2 hf e)⟩

theorem Safe.post (h : p.Safe faults C Q s) (hQ : ∀ r s, C s → Q r s → Q' r s) : p.Safe faults C Q' s :=
  h.mono (fun _ => id) hQ

theorem safe_pure {a : α} (hC : C s) (hQ : Q (.ok a) s) : (pure a : Program ε σ α).Safe faults C Q s :=
  ⟨hC, hQ⟩

theorem safe_fail {e : ε} (hC : C s) (hQ : Q (.error e) s) : (fail e : Program ε σ α).Safe faults C Q s :=
  ⟨hC, hQ⟩

theorem safe_lift {r : Except ε α} (hC : C s) (hQ : Q r s) : (lift r : Program ε σ α).Safe faults C Q s :=
  ⟨hC, hQ⟩

theorem safe_atomic {f : σ → Except ε α × σ} (hC : C s) (hC' : C (f s).2) (hQ : Q (f s).1 (f s).2)
    (hfault : faults → ∀ e, Q (.error e) s) : (atomic f).Safe faults C Q s :=
  ⟨hC, ⟨hC', hQ⟩, fun hf e => ⟨hC, hfault hf e⟩⟩

theorem safe_get {Q : Except ε σ → σ → Prop} (hC : C s) (hQ : Q (.ok s) s)
    (hfault : faults → ∀ e, Q (.error e) s) : (get : Program ε σ σ).Safe faults C Q s :=
  safe_atomic hC hC hQ hfault

theorem safe_when {condition : Bool} {p : Program ε σ Unit} {Q : Except ε Unit → σ → Prop}
    (hyes : condition = true → p.Safe faults C Q s) (hno : condition = false → C s ∧ Q (.ok ()) s) :
    (when condition p).Safe faults C Q s := by
  cases condition with
  | true => exact hyes rfl
  | false => exact safe_pure (hno rfl).1 (hno rfl).2

/-- What the part of a program before another has to end with. -/
def Then (faults : Prop) (C : σ → Prop) (Q : Except ε β → σ → Prop) (f : α → Program ε σ β) :
    Except ε α → σ → Prop
  | .ok a, s => (f a).Safe faults C Q s
  | .error e, s => Q (.error e) s

theorem safe_bind {f : α → Program ε σ β} {Q : Except ε β → σ → Prop}
    (h : p.Safe faults C (Then faults C Q f) s) : (p >>= f).Safe faults C Q s := by
  show (p.bind f).Safe faults C Q s
  induction p generalizing s with
  | done result =>
    cases result with
    | ok a => exact h.2
    | error e => exact ⟨h.1, h.2⟩
  | step next rest raise ih ihe => exact ⟨h.1, ih s h.2.1, fun hf e => ihe e (h.2.2 hf e)⟩

/-- A program ends well or badly. -/
def Ending (good : α → σ → Prop) (bad : ε → σ → Prop) : Except ε α → σ → Prop
  | .ok a, s => good a s
  | .error e, s => bad e s

/-- One part of a program after another. -/
theorem safe_seq {f : α → Program ε σ β} {Q : Except ε β → σ → Prop} {good : α → σ → Prop} {bad : ε → σ → Prop}
    (h : p.Safe faults C (Ending good bad) s) (hok : ∀ a s', C s' → good a s' → (f a).Safe faults C Q s')
    (herr : ∀ e s', C s' → bad e s' → Q (.error e) s') : (p >>= f).Safe faults C Q s := by
  refine safe_bind (h.post fun r s' hs' hend => ?_)
  cases r with
  | ok a => exact hok a s' hs' hend
  | error e => exact herr e s' hs' hend

/-- A call that touches no state, and what follows it. -/
theorem safe_check {r : Except ε α} {f : α → Program ε σ β} {Q : Except ε β → σ → Prop} (hC : C s)
    (hok : ∀ a, r = .ok a → (f a).Safe faults C Q s) (herr : ∀ e, r = .error e → Q (.error e) s) :
    (lift r >>= f).Safe faults C Q s := by
  refine safe_bind (safe_lift hC ?_)
  cases r with
  | ok a => exact hok a rfl
  | error e => exact herr e rfl

/-- What a guarded program has to end with. -/
def Catches (faults : Prop) (C : σ → Prop) (Q : Except ε α → σ → Prop) (handler : ε → Program ε σ α) :
    Except ε α → σ → Prop
  | .ok a, s => Q (.ok a) s
  | .error e, s => (handler e).Safe faults C Q s

theorem safe_tryCatch {handler : ε → Program ε σ α}
    (h : p.Safe faults C (Catches faults C Q handler) s) : (p.tryCatch handler).Safe faults C Q s := by
  induction p generalizing s with
  | done result =>
    cases result with
    | ok a => exact ⟨h.1, h.2⟩
    | error e => exact h.2
  | step next rest raise ih ihe => exact ⟨h.1, ih s h.2.1, fun hf e => ihe e (h.2.2 hf e)⟩

/-- What a program with a cleanup has to end with. -/
def Finally (faults : Prop) (C : σ → Prop) (Q : Except ε α → σ → Prop) (cleanup : Program ε σ Unit)
    (r : Except ε α) (s : σ) : Prop :=
  cleanup.Safe faults C (fun r' s' => Q (r'.bind fun _ => r) s') s

theorem safe_tryFinally {cleanup : Program ε σ Unit}
    (h : p.Safe faults C (Finally faults C Q cleanup) s) : (p.tryFinally cleanup).Safe faults C Q s := by
  induction p generalizing s with
  | done result =>
    refine safe_bind (h.2.post ?_)
    intro r' s' hs' hQ
    cases r' with
    | ok u => exact ⟨hs', hQ⟩
    | error e => exact hQ
  | step next rest raise ih ihe => exact ⟨h.1, ih s h.2.1, fun hf e => ihe e (h.2.2 hf e)⟩

/-- What each step of a program keeps is kept wherever it stops. -/
theorem Keeps.safe {R : σ → σ → Prop} (hp : p.Keeps R) (hC : ∀ s s', C s → R s s' → C s') (hs : C s) :
    p.Safe faults C (fun _ => C) s := by
  induction p generalizing s with
  | done result => exact ⟨hs, hs⟩
  | step next rest raise ih ihe =>
    exact ⟨hs, ih s (hp.2.1 s) (hC s _ hs (hp.1 s)), fun _ e => ihe e (hp.2.2 e) hs⟩

attribute [irreducible] Safe

end Program

end Adlc.Framework
