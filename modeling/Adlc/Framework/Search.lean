import Mathlib.Logic.Relation
import Mathlib.Logic.Function.Basic
import Mathlib.Data.List.Perm.Subperm
import Mathlib.Data.List.Nodup
import Mathlib.Order.RelClasses

namespace Adlc.Framework

/-! Depth-first search for a cycle, by three colours. -/

inductive Color where
  | white | grey | black
  deriving DecidableEq

/-- A search in progress: the colours, and the closed paths found so far. -/
structure Search (α : Type) where
  color : α → Color
  cycles : List (List α)

variable {α : Type} [DecidableEq α]

def Search.paint (s : Search α) (v : α) (c : Color) : Search α :=
  { s with color := Function.update s.color v c }

@[simp] theorem Search.paint_cycles (s : Search α) (v : α) (c : Color) :
    (s.paint v c).cycles = s.cycles := rfl

theorem Search.paint_self (s : Search α) (v : α) (c : Color) : (s.paint v c).color v = c :=
  Function.update_self ..

theorem Search.paint_ne (s : Search α) {v u : α} (c : Color) (h : u ≠ v) :
    (s.paint v c).color u = s.color u :=
  Function.update_of_ne h ..

/-- Visit `v`, reached along `stack`. -/
def visit (next : α → List α) : Nat → List α → α → Search α → Search α
  | 0, _, _, s => s
  | n + 1, stack, v, s =>
    match s.color v with
    | .grey => { s with cycles := s.cycles ++ [stack ++ [v]] }
    | .black => s
    | .white =>
      ((next v).foldl (fun s w => visit next n (stack ++ [v]) w s) (s.paint v .grey)).paint v .black

def search (next : α → List α) (n : Nat) (roots : List α) : Search α :=
  roots.foldl (fun s v => visit next n [] v s) ⟨fun _ => .white, []⟩

variable {next : α → List α} {nodes : List α}

/-- Along an edge. -/
def Edge (next : α → List α) (a b : α) : Prop := b ∈ next a

/-- Every path on from `v` ends. -/
def Ends (next : α → List α) (v : α) : Prop := Acc (fun b a => Edge next a b) v

omit [DecidableEq α] in
theorem Ends.acyclic {v : α} (h : Ends next v) : ¬Relation.TransGen (Edge next) v v := by
  induction h with
  | intro v _ ih =>
    intro hc
    obtain ⟨w, hvw, hwv⟩ := Relation.TransGen.head'_iff.mp hc
    exact ih w hvw (Relation.TransGen.tail' hwv hvw)

/-- What a visit does to a search whose grey vertices are those of the stack. -/
structure Visited (next : α → List α) (stack : List α) (s s' : Search α) : Prop where
  grey : ∀ u, s'.color u = .grey ↔ u ∈ stack
  black : ∀ u, s.color u = .black → s'.color u = .black
  cycles : s.cycles <+: s'.cycles
  ends : s'.cycles = [] → (∀ u, s.color u = .black → Ends next u) →
    ∀ u, s'.color u = .black → Ends next u

omit [DecidableEq α] in
theorem Visited.refl {stack : List α} {s : Search α} (h : ∀ u, s.color u = .grey ↔ u ∈ stack) :
    Visited next stack s s :=
  ⟨h, fun _ hu => hu, List.prefix_refl _, fun _ hb => hb⟩

omit [DecidableEq α] in
theorem Visited.trans {stack : List α} {s t u : Search α} (h1 : Visited next stack s t)
    (h2 : Visited next stack t u) : Visited next stack s u := by
  refine ⟨h2.grey, fun v hv => h2.black v (h1.black v hv), h1.cycles.trans h2.cycles, ?_⟩
  intro hu hs
  have ht : t.cycles = [] := List.prefix_nil.mp (hu ▸ h2.cycles)
  exact h2.ends hu (h1.ends ht hs)

/-- Visiting one vertex after another from the same stack. -/
theorem visit_list {n : Nat} {stack : List α}
    (step : ∀ w ∈ nodes, ∀ s : Search α, (∀ u, s.color u = .grey ↔ u ∈ stack) →
      Visited next stack s (visit next n stack w s) ∧
        ((visit next n stack w s).cycles = [] → (visit next n stack w s).color w = .black))
    (ws : List α) (hws : ∀ w ∈ ws, w ∈ nodes) (s : Search α)
    (hs : ∀ u, s.color u = .grey ↔ u ∈ stack) :
    Visited next stack s (ws.foldl (fun s w => visit next n stack w s) s) ∧
      ((ws.foldl (fun s w => visit next n stack w s) s).cycles = [] →
        ∀ w ∈ ws, (ws.foldl (fun s w => visit next n stack w s) s).color w = .black) := by
  induction ws generalizing s with
  | nil => exact ⟨Visited.refl hs, fun _ w hw => by cases hw⟩
  | cons w ws ih =>
    obtain ⟨h1, h2⟩ := step w (hws w (by simp)) s hs
    obtain ⟨h3, h4⟩ := ih (fun x hx => hws x (List.mem_cons_of_mem _ hx)) _ h1.grey
    rw [List.foldl_cons]
    refine ⟨h1.trans h3, ?_⟩
    intro hc x hx
    rcases List.mem_cons.mp hx with rfl | hx
    · exact h3.black _ (h2 (List.prefix_nil.mp (hc ▸ h3.cycles)))
    · exact h4 hc x hx

section

variable (closed : ∀ v ∈ nodes, ∀ w ∈ next v, w ∈ nodes)

include closed

/-- A visit turns its vertex black, unless it finds a cycle. The fuel outlasts the stack, whose
vertices are distinct. -/
theorem visit_spec (n : Nat) (stack : List α) (hn : stack.Nodup) (hsub : stack ⊆ nodes)
    (hfuel : nodes.length + 1 ≤ n + stack.length) (v : α) (hv : v ∈ nodes) (s : Search α)
    (hs : ∀ u, s.color u = .grey ↔ u ∈ stack) :
    Visited next stack s (visit next n stack v s) ∧
      ((visit next n stack v s).cycles = [] → (visit next n stack v s).color v = .black) := by
  induction n generalizing stack v s with
  | zero =>
    have hl := (hn.subperm hsub).length_le
    omega
  | succ n ih =>
    rw [visit]
    cases hc : s.color v with
    | grey =>
      refine ⟨⟨hs, fun _ hu => hu, List.prefix_append _ _, ?_⟩, ?_⟩
      · intro h
        simp at h
      · intro h
        simp at h
    | black => exact ⟨Visited.refl hs, fun _ => hc⟩
    | white =>
      have hvs : v ∉ stack := by
        rw [← hs v, hc]
        decide
      have hn' : (stack ++ [v]).Nodup :=
        List.nodup_append.mpr ⟨hn, List.nodup_singleton v, by
          intro a ha b hb
          rw [List.mem_singleton.mp hb]
          rintro rfl
          exact hvs ha⟩
      have hsub' : stack ++ [v] ⊆ nodes := by
        intro u hu
        rcases List.mem_append.mp hu with hu | hu
        · exact hsub hu
        · rw [List.mem_singleton.mp hu]
          exact hv
      have hgrey : ∀ u, (s.paint v .grey).color u = .grey ↔ u ∈ stack ++ [v] := by
        intro u
        by_cases hu : u = v
        · subst hu
          simp [Search.paint_self]
        · rw [Search.paint_ne s _ hu, hs u]
          simp [hu]
      obtain ⟨h1, h2⟩ := visit_list
        (fun w (hw : w ∈ nodes) t ht => ih (stack ++ [v]) hn' hsub' (by simp; omega) w hw t ht)
        (next v) (closed v hv) (s.paint v .grey) hgrey
      generalize (next v).foldl (fun s w => visit next n (stack ++ [v]) w s) (s.paint v .grey) = t
        at h1 h2
      refine ⟨⟨?_, ?_, h1.cycles, ?_⟩, fun _ => Search.paint_self t v _⟩
      · intro u
        by_cases hu : u = v
        · subst hu
          simp [Search.paint_self, hvs]
        · rw [Search.paint_ne t _ hu, h1.grey u]
          simp [hu]
      · intro u hu
        have huv : u ≠ v := by
          rintro rfl
          rw [hc] at hu
          cases hu
        rw [Search.paint_ne t _ huv]
        exact h1.black u (by rw [Search.paint_ne s _ huv]; exact hu)
      · intro hcyc hends
        have hsends : ∀ u, (s.paint v .grey).color u = .black → Ends next u := by
          intro u hu
          by_cases huv : u = v
          · subst huv
            rw [Search.paint_self] at hu
            cases hu
          · rw [Search.paint_ne s _ huv] at hu
            exact hends u hu
        have htends := h1.ends hcyc hsends
        intro u hu
        by_cases huv : u = v
        · subst huv
          exact Acc.intro _ fun w hw => htends w (h2 hcyc w hw)
        · rw [Search.paint_ne t _ huv] at hu
          exact htends u hu

/-- Without cycles among the edges none is found: the stack is a path. -/
theorem visit_acyclic (hac : ∀ v ∈ nodes, ¬Relation.TransGen (Edge next) v v) (n : Nat)
    (stack : List α) (v : α) (hv : v ∈ nodes) (s : Search α) (hs : ∀ u, s.color u = .grey → u ∈ stack)
    (hp : ∀ u ∈ stack, Relation.TransGen (Edge next) u v) :
    (visit next n stack v s).cycles = s.cycles ∧
      ∀ u, (visit next n stack v s).color u = .grey → u ∈ stack := by
  induction n generalizing stack v s with
  | zero => exact ⟨rfl, hs⟩
  | succ n ih =>
    rw [visit]
    cases hc : s.color v with
    | grey => exact absurd (hp v (hs v hc)) (hac v hv)
    | black => exact ⟨rfl, hs⟩
    | white =>
      have key : ∀ ws : List α, (∀ w ∈ ws, w ∈ next v) → ∀ t : Search α,
          (∀ u, t.color u = .grey → u ∈ stack ++ [v]) →
            (ws.foldl (fun s w => visit next n (stack ++ [v]) w s) t).cycles = t.cycles ∧
            ∀ u, (ws.foldl (fun s w => visit next n (stack ++ [v]) w s) t).color u = .grey →
              u ∈ stack ++ [v] := by
        intro ws
        induction ws with
        | nil => exact fun _ t ht => ⟨rfl, ht⟩
        | cons w ws ihw =>
          intro hw t ht
          obtain ⟨h1, h2⟩ := ih (stack ++ [v]) w (closed v hv w (hw w (by simp))) t ht (by
            intro u hu
            rcases List.mem_append.mp hu with hu | hu
            · exact (hp u hu).tail (hw w (by simp))
            · rw [List.mem_singleton.mp hu]
              exact Relation.TransGen.single (hw w (by simp)))
          obtain ⟨h3, h4⟩ := ihw (fun x hx => hw x (List.mem_cons_of_mem _ hx)) _ h2
          rw [List.foldl_cons]
          exact ⟨h3.trans h1, h4⟩
      have hgrey : ∀ u, (s.paint v .grey).color u = .grey → u ∈ stack ++ [v] := by
        intro u hu
        by_cases huv : u = v
        · simp [huv]
        · rw [Search.paint_ne s _ huv] at hu
          exact List.mem_append_left _ (hs u hu)
      obtain ⟨h1, h2⟩ := key (next v) (fun w hw => hw) _ hgrey
      refine ⟨h1, ?_⟩
      intro u hu
      by_cases huv : u = v
      · subst huv
        simp only [Search.paint_self] at hu
        cases hu
      · rw [Search.paint_ne _ _ huv] at hu
        rcases List.mem_append.mp (h2 u hu) with h | h
        · exact h
        · exact absurd (List.mem_singleton.mp h) huv

/-- The search finds no cycle exactly when there is none. -/
theorem search_cycles_iff {roots : List α} (hr : ∀ v, v ∈ roots ↔ v ∈ nodes) :
    (search next (nodes.length + 1) roots).cycles = [] ↔
      ∀ v ∈ nodes, ¬Relation.TransGen (Edge next) v v := by
  constructor
  · intro h v hv
    have step : ∀ w ∈ nodes, ∀ s : Search α, (∀ u, s.color u = .grey ↔ u ∈ ([] : List α)) →
        Visited next [] s (visit next (nodes.length + 1) [] w s) ∧
          ((visit next (nodes.length + 1) [] w s).cycles = [] →
            (visit next (nodes.length + 1) [] w s).color w = .black) :=
      fun w hw s hs => visit_spec closed _ [] List.nodup_nil (by simp) (by simp) w hw s hs
    obtain ⟨h1, h2⟩ := visit_list step roots (fun w hw => (hr w).mp hw) ⟨fun _ => .white, []⟩ (by simp)
    exact (h1.ends h (by simp) v (h2 h v ((hr v).mpr hv))).acyclic
  · intro h
    have main : ∀ ws : List α, (∀ w ∈ ws, w ∈ nodes) → ∀ s : Search α,
        (∀ u, s.color u = .grey → u ∈ ([] : List α)) →
          (ws.foldl (fun s v => visit next (nodes.length + 1) [] v s) s).cycles = s.cycles := by
      intro ws
      induction ws with
      | nil => exact fun _ s _ => rfl
      | cons w ws ih =>
        intro hws s hs
        obtain ⟨h1, h2⟩ := visit_acyclic closed h (nodes.length + 1) [] w (hws w (by simp)) s hs
          (by simp)
        rw [List.foldl_cons, ih (fun x hx => hws x (List.mem_cons_of_mem _ hx)) _ h2, h1]
    exact main roots (fun w hw => (hr w).mp hw) _ (by simp)

end

end Adlc.Framework
