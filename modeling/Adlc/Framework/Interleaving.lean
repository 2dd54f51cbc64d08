import Mathlib.Algebra.GroupWithZero.Nat
import Mathlib.Logic.Function.Basic
import Mathlib.Data.Fintype.Defs
import Mathlib.Data.Fintype.Pi
import Mathlib.Data.Option.Basic
import Adlc.Framework.Transition

namespace Adlc.Framework

/-! Processes that take turns on one shared state, and a place that one of them may hold. -/

variable {ι σ κ ε α : Type}

/-- Two processes are numbered, as are three. -/
instance instNeZeroTwo : NeZero 2 := Nat.instNeZeroSucc

instance instNeZeroThree : NeZero 3 := Nat.instNeZeroSucc

/-- The shared state, and where each process stands in its code. -/
structure Config (ι σ κ : Type) where
  shared : σ
  loc : ι → κ

/-- The next step of a process, given what the world answers; none where it cannot take one. -/
abbrev Machine (ι σ κ ε : Type) := ι → ε → σ → κ → Option (σ × κ)

section Runs

variable [DecidableEq ι]

def Config.put (c : Config ι σ κ) (p : ι) (r : σ × κ) : Config ι σ κ :=
  ⟨r.1, Function.update c.loc p r.2⟩

@[simp] theorem Config.put_shared (c : Config ι σ κ) (p : ι) (r : σ × κ) :
    (c.put p r).shared = r.1 := rfl

@[simp] theorem Config.put_loc (c : Config ι σ κ) (p : ι) (r : σ × κ) :
    (c.put p r).loc = Function.update c.loc p r.2 := rfl

def Machine.fire (m : Machine ι σ κ ε) (c : Config ι σ κ) (a : ι × ε) : Option (Config ι σ κ) :=
  (m a.1 a.2 c.shared (c.loc a.1)).map (c.put a.1)

/-- The runs from a configuration in which every step meets a condition on the state before it. -/
abbrev Runs (m : Machine ι σ κ ε) (ok : Config ι σ κ → ι → ε → Prop) (c d : Config ι σ κ) : Prop :=
  Reaches m.fire (fun c a => ok c a.1 a.2) c d

variable {m : Machine ι σ κ ε} {ok : Config ι σ κ → ι → ε → Prop} {c d : Config ι σ κ}

/-- What every step keeps, every run keeps. -/
theorem Runs.invariant (Inv : Config ι σ κ → Prop) (h : Runs m ok c d) (first : Inv c)
    (next : ∀ d p e r, Inv d → ok d p e → m p e d.shared (d.loc p) = some r → Inv (d.put p r)) :
    Inv d := by
  apply Reaches.invariant Inv h first
  intro d a d' hd hok hfires
  obtain ⟨r, hr, rfl⟩ := Option.map_eq_some_iff.1 hfires
  exact next d a.1 a.2 r hd hok hr

/-- A run goes on with a step of one process. -/
theorem Runs.take {p : ι} {e : ε} {r : σ × κ} (h : Runs m ok c d) (hok : ok d p e)
    (hr : m p e d.shared (d.loc p) = some r) : Runs m ok c (d.put p r) := by
  have hfires : m.fire d (p, e) = some (d.put p r) := by rw [Machine.fire, hr, Option.map_some]
  exact h.step hok hfires

/-- A run goes on with a further step of the process that took the last one. -/
theorem Runs.takeAgain {p : ι} {e : ε} {r r' : σ × κ} (h : Runs m ok c (d.put p r))
    (hok : ok (d.put p r) p e) (hr : m p e r.1 r.2 = some r') : Runs m ok c (d.put p r') := by
  have hput : (d.put p r).put p r' = d.put p r' := by
    simp only [Config.put, Function.update_idem]
  have hloc : (d.put p r).loc p = r.2 := Function.update_self ..
  rw [← hput]
  apply h.take hok
  rw [hloc]
  exact hr

/-- Play a schedule, as long as its steps meet the condition. -/
abbrev Machine.play (m : Machine ι σ κ ε) (ok : Config ι σ κ → ι → ε → Prop)
    [∀ c p e, Decidable (ok c p e)] (c : Config ι σ κ) (schedule : List (ι × ε)) :
    Option (Config ι σ κ) :=
  Framework.play m.fire (fun c a => ok c a.1 a.2) c schedule

theorem Machine.exists_run_of_play [∀ c p e, Decidable (ok c p e)] {schedule : List (ι × ε)}
    {P : Config ι σ κ → Bool} (h : (m.play ok c schedule).any P = true) :
    ∃ d, Runs m ok c d ∧ P d = true :=
  exists_reaches_of_play h

end Runs

/-! ## Holding one place -/

/-- At most one process claims anything, and what it claims is in the slot. -/
structure Exclusive (slot : Option α) (claim : ι → Option α) : Prop where
  placed : ∀ {p a}, claim p = some a → slot = some a
  one : ∀ {p q a b}, claim p = some a → claim q = some b → p = q

/-- What is in the slot is claimed by no process. -/
def Unclaimed (slot : Option α) (claim : ι → Option α) : Prop :=
  ∀ p, ∀ a ∈ claim p, slot ≠ some a

instance [Fintype ι] [DecidableEq α] (slot : Option α) (claim : ι → Option α) :
    Decidable (Unclaimed slot claim) :=
  inferInstanceAs (Decidable (∀ p, ∀ a ∈ claim p, slot ≠ some a))

/-- No process but `p` claims anything. -/
def Alone (claim : ι → Option α) (p : ι) : Prop := ∀ q, q ≠ p → claim q = none

variable {slot slot' : Option α} {claim : ι → Option α} {p : ι}

theorem exclusive_of_idle (h : ∀ q, claim q = none) : Exclusive slot claim where
  placed hp := by rw [h] at hp; cases hp
  one hp := by rw [h] at hp; cases hp

theorem Exclusive.alone_of_free (h : Exclusive none claim) : Alone claim p := by
  intro q _
  cases hq : claim q with
  | none => rfl
  | some a => cases h.placed hq

theorem Exclusive.alone_of_unclaimed (h : Exclusive slot claim) (hu : Unclaimed slot claim) :
    Alone claim p := by
  intro q _
  cases hq : claim q with
  | none => rfl
  | some a => exact absurd (h.placed hq) (hu q a hq)

theorem Exclusive.alone_of_claim {a : α} (h : Exclusive slot claim) (hp : claim p = some a) :
    Alone claim p := by
  intro q hqp
  cases hq : claim q with
  | none => rfl
  | some b => exact absurd (h.one hq hp) hqp

variable [DecidableEq ι]

/-- The process keeps what it has and the slot stays. -/
theorem Exclusive.keep (h : Exclusive slot claim) {mine : Option α} (hmine : mine = claim p) :
    Exclusive slot (Function.update claim p mine) := by
  rw [hmine, Function.update_eq_self]
  exact h

/-- The process gives up its claim and the slot stays. -/
theorem Exclusive.drop (h : Exclusive slot claim) :
    Exclusive slot (Function.update claim p none) := by
  have hle : ∀ {q a}, Function.update claim p none q = some a → claim q = some a := by
    intro q a hq
    by_cases hqp : q = p
    · subst hqp
      rw [Function.update_self] at hq
      cases hq
    · rwa [Function.update_of_ne hqp] at hq
  exact ⟨fun hp => h.placed (hle hp), fun hp hq => h.one (hle hp) (hle hq)⟩

/-- The only process with a claim may change the slot, and then claims what it put there or nothing. -/
theorem Alone.exclusive (h : Alone claim p) {mine : Option α} (hmine : ∀ a ∈ mine, slot' = some a) :
    Exclusive slot' (Function.update claim p mine) := by
  have honly : ∀ {q a}, Function.update claim p mine q = some a → q = p ∧ mine = some a := by
    intro q a hq
    by_cases hqp : q = p
    · subst hqp
      rw [Function.update_self] at hq
      exact ⟨rfl, hq⟩
    · rw [Function.update_of_ne hqp, h q hqp] at hq
      cases hq
  exact ⟨fun hp => hmine _ (honly hp).2, fun hp hq => (honly hp).1.trans (honly hq).1.symm⟩

theorem Alone.cleared (h : Alone claim p) : Exclusive slot' (Function.update claim p none) :=
  h.exclusive fun _ ha => by cases ha

/-- What a step does to the slot and to the claim of the process that takes it. A process without a
claim may change a slot that is not free only where nobody claims what is in it. -/
inductive SlotStep (unclaimed : Prop) (slot mine : Option α) : Option α → Option α → Prop where
  | keep : SlotStep unclaimed slot mine slot mine
  | drop : SlotStep unclaimed slot mine slot none
  | take {a : α} (free : slot = none) : SlotStep unclaimed slot mine (some a) (some a)
  | clear {slot' : Option α} (held : mine.isSome) : SlotStep unclaimed slot mine slot' none
  | evict {slot' : Option α} (dead : unclaimed) : SlotStep unclaimed slot mine slot' none
  | seize {a : α} (dead : unclaimed) : SlotStep unclaimed slot mine (some a) (some a)

omit [DecidableEq ι] in
theorem SlotStep.idle {unclaimed : Prop} {mine mine' : Option α} (hslot : slot' = slot)
    (hmine : mine' = none) : SlotStep unclaimed slot mine slot' mine' := by
  rw [hslot, hmine]
  exact .drop

omit [DecidableEq ι] in
theorem SlotStep.mono {unclaimed unclaimed' : Prop} {mine mine' : Option α}
    (h : SlotStep unclaimed slot mine slot' mine') (himp : unclaimed → unclaimed') :
    SlotStep unclaimed' slot mine slot' mine' := by
  cases h with
  | keep => exact .keep
  | drop => exact .drop
  | take free => exact .take free
  | clear held => exact .clear held
  | evict dead => exact .evict (himp dead)
  | seize dead => exact .seize (himp dead)

theorem Exclusive.step (h : Exclusive slot claim) {mine : Option α}
    (hs : SlotStep (Unclaimed slot claim) slot (claim p) slot' mine) :
    Exclusive slot' (Function.update claim p mine) := by
  cases hs with
  | keep => exact h.keep rfl
  | drop => exact h.drop
  | take free =>
    subst free
    apply h.alone_of_free.exclusive
    intro b hb
    exact hb
  | clear held =>
    obtain ⟨a, ha⟩ := Option.isSome_iff_exists.1 held
    exact (h.alone_of_claim ha).cleared
  | evict dead => exact (h.alone_of_unclaimed dead).cleared
  | seize dead =>
    apply (h.alone_of_unclaimed dead).exclusive
    intro b hb
    exact hb

/-! ## Claims read off where the processes stand -/

/-- The claims of a configuration, where a claim is known from the place in the code. -/
def Config.claims (c : Config ι σ κ) (claimOf : κ → Option α) : ι → Option α :=
  fun p => claimOf (c.loc p)

@[simp] theorem Config.claims_put (c : Config ι σ κ) (claimOf : κ → Option α) (p : ι) (r : σ × κ) :
    (c.put p r).claims claimOf = Function.update (c.claims claimOf) p (claimOf r.2) := by
  funext q
  by_cases hqp : q = p
  · subst hqp
    simp [Config.claims]
  · simp [Config.claims, hqp]

/-- A protocol whose steps treat the slot so keeps the exclusion in all its runs. -/
theorem Runs.exclusive {m : Machine ι σ κ ε} {ok : Config ι σ κ → ι → ε → Prop}
    {c d : Config ι σ κ} (slotOf : σ → Option α) (claimOf : κ → Option α)
    (steps : ∀ c p e r, ok c p e → m p e c.shared (c.loc p) = some r →
      SlotStep (Unclaimed (slotOf c.shared) (c.claims claimOf)) (slotOf c.shared)
        (claimOf (c.loc p)) (slotOf r.1) (claimOf r.2))
    (h : Runs m ok c d) (first : Exclusive (slotOf c.shared) (c.claims claimOf)) :
    Exclusive (slotOf d.shared) (d.claims claimOf) := by
  apply Runs.invariant (fun d => Exclusive (slotOf d.shared) (d.claims claimOf)) h first
  intro d p e r ih hok hr
  rw [Config.claims_put, Config.put_shared]
  exact ih.step (steps d p e r hok hr)

end Adlc.Framework
