import Adlc.Framework.Dialogue

namespace Adlc.Framework

/-! Worlds that keep a log of the calls, each with the state before it and after it. Between two calls
the state may change in any way. -/

/-- A call that was answered. -/
structure Event (ε σ κ : Type) (ρ : κ → Type) where
  before : σ
  call : κ
  answer : Except ε (ρ call)
  after : σ

variable {ε σ κ α β : Type} {ρ : κ → Type}

namespace Event

/-- The log grows by an event that the world allows; the latest event is the first. -/
def serves (allows : Event ε σ κ ρ → Prop) : Dialogue.Serves ε (List (Event ε σ κ ρ)) κ ρ :=
  fun log call r log' => ∃ before after, allows ⟨before, call, r, after⟩ ∧
    log' = ⟨before, call, r, after⟩ :: log

/-- Every event of the log is as it should be, given the earlier ones. -/
def Always (ok : Event ε σ κ ρ → List (Event ε σ κ ρ) → Prop) : List (Event ε σ κ ρ) → Prop
  | [] => True
  | e :: earlier => ok e earlier ∧ Always ok earlier

variable {allows : Event ε σ κ ρ → Prop} {ok ok' : Event ε σ κ ρ → List (Event ε σ κ ρ) → Prop}
  {log : List (Event ε σ κ ρ)}

theorem Always.mono (h : Always ok log) (hok : ∀ e earlier, ok e earlier → ok' e earlier) :
    Always ok' log := by
  induction log with
  | nil => trivial
  | cons e earlier ih => exact ⟨hok e earlier h.1, ih h.2⟩

/-- What holds of an event and the earlier ones holds wherever the event stands in the log. -/
theorem Always.of_append {later : List (Event ε σ κ ρ)} {e : Event ε σ κ ρ}
    (h : Always ok (later ++ e :: log)) : ok e log := by
  induction later with
  | nil => exact h.1
  | cons first later ih => exact ih h.2

variable (allows ok) in
/-- A program whose log is always as it should be, and that ends, when it does not raise, with a result
that fits its log. -/
def Comes (post : α → List (Event ε σ κ ρ) → Prop) (p : Dialogue ε κ ρ α) (log : List (Event ε σ κ ρ)) :
    Prop :=
  p.Safe (serves allows) (Always ok) (fun result log' => Always ok log' ∧ ∀ a, result = .ok a → post a log')
    log

variable {post : α → List (Event ε σ κ ρ) → Prop}

theorem comes_pure {a : α} (h : Always ok log) (hpost : post a log) :
    Comes allows ok post (pure a : Dialogue ε κ ρ α) log := by
  refine ⟨h, fun b hb => ?_⟩
  cases hb
  exact hpost

theorem comes_fail {e : ε} (h : Always ok log) :
    Comes allows ok post (Dialogue.fail e : Dialogue ε κ ρ α) log :=
  ⟨h, fun _ hb => nomatch hb⟩

theorem Comes.mono {post' : α → List (Event ε σ κ ρ) → Prop} {p : Dialogue ε κ ρ α}
    (h : Comes allows ok post p log) (hpost : ∀ a log', post a log' → post' a log') :
    Comes allows ok post' p log :=
  Dialogue.Safe.mono h fun _ log' hend => ⟨hend.1, fun a ha => hpost a log' (hend.2 a ha)⟩

/-- Logs only grow. -/
theorem Comes.grows {p : Dialogue ε κ ρ α} (h : Comes allows ok post p log) :
    Comes allows ok (fun a log' => post a log' ∧ ∀ e ∈ log, e ∈ log') p log := by
  induction p generalizing log with
  | done result => exact ⟨h.1, fun a ha => ⟨h.2 a ha, fun _ he => he⟩⟩
  | ask call rest ih =>
    intro r log' hserves
    obtain ⟨hok, hrest⟩ := h r log' hserves
    obtain ⟨before, after, -, hlog'⟩ := hserves
    refine ⟨hok, Comes.mono (ih r hrest) fun a last hlast => ⟨hlast.1, fun e he => hlast.2 e ?_⟩⟩
    rw [hlog']
    exact List.mem_cons_of_mem _ he

theorem Comes.bind {mid : β → List (Event ε σ κ ρ) → Prop} {p : Dialogue ε κ ρ β}
    {f : β → Dialogue ε κ ρ α} (h : Comes allows ok mid p log)
    (hf : ∀ b log', Always ok log' → mid b log' → Comes allows ok post (f b) log') :
    Comes allows ok post (p >>= f) log := by
  apply Dialogue.Safe.bind
  refine Dialogue.Safe.mono h fun result log' hend => ?_
  cases result with
  | ok b => exact hf b log' hend.1 (hend.2 b rfl)
  | error e => exact ⟨hend.1, fun _ hb => nomatch hb⟩

theorem Comes.tryCatch {p : Dialogue ε κ ρ α} {handler : ε → Dialogue ε κ ρ α}
    (h : Comes allows ok post p log)
    (hhandler : ∀ e log', Always ok log' → Comes allows ok post (handler e) log') :
    Comes allows ok post (p.tryCatch handler) log := by
  apply Dialogue.Safe.tryCatch
  refine Dialogue.Safe.mono h fun result log' hend => ?_
  cases result with
  | ok a => exact hend
  | error e => exact hhandler e log' hend.1

/-- A call: its event must be as it should be, and the rest runs on its answer. -/
theorem comes_make {call : κ} {post : ρ call → List (Event ε σ κ ρ) → Prop} (h : Always ok log)
    (hcall : ∀ before r after, allows ⟨before, call, r, after⟩ → ok ⟨before, call, r, after⟩ log ∧
      ∀ a, r = .ok a → post a (⟨before, call, r, after⟩ :: log)) :
    Comes allows ok post (Dialogue.make call : Dialogue ε κ ρ (ρ call)) log := by
  intro r log' hserves
  obtain ⟨before, after, hallows, hlog⟩ := hserves
  subst hlog
  obtain ⟨hok, hpost⟩ := hcall before r after hallows
  exact ⟨⟨hok, h⟩, ⟨hok, h⟩, hpost⟩

/-- A program that makes calls of a harmless kind only. -/
theorem comes_only {kind : κ → Prop} {p : Dialogue ε κ ρ α} (honly : p.Only kind)
    (harmless : ∀ e earlier, allows e → kind e.call → ok e earlier) (h : Always ok log) :
    Comes allows ok (fun _ _ => True) p log := by
  refine Dialogue.Safe.mono (honly.safe ?_ h) fun _ log' hlog' => ⟨hlog', fun _ _ => trivial⟩
  intro log call r log' hlog hkind hserves
  obtain ⟨before, after, hallows, hlog'⟩ := hserves
  subst hlog'
  exact ⟨harmless _ _ hallows hkind, hlog⟩

/-- Wherever the program stops, its log is as it should be. -/
theorem Comes.always {p q : Dialogue ε κ ρ α} {log' : List (Event ε σ κ ρ)}
    (h : Comes allows ok post p log) (hlog : Always ok log)
    (hruns : Dialogue.Runs (serves allows) p log q log') : Always ok log' :=
  (Dialogue.Safe.runs h hlog hruns).1

end Event

end Adlc.Framework
