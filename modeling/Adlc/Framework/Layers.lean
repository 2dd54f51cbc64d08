import Mathlib.Order.Bounds.Basic
import Mathlib.Data.List.Chain
import Adlc.Framework.Countdown

namespace Adlc.Framework

/-! A graph taken away layer by layer. -/

variable {α : Type} {nodes : List α} {next : α → List α}

/-- Nodes all of whose predecessors are gone. -/
def Open (nodes : List α) (next : α → List α) (gone : List α) (v : α) : Prop :=
  v ∈ nodes ∧ ∀ a ∈ nodes, v ∈ next a → a ∈ gone

/-- With those gone already, each layer is what is open and left, until nothing is. -/
def Layers (nodes : List α) (next : α → List α) : List α → List (List α) → Prop
  | gone, [] => ∀ v, v ∈ gone ↔ Open nodes next gone v
  | gone, layer :: layers =>
    (gone ++ layer).Nodup ∧ (∀ v, v ∈ gone ++ layer ↔ Open nodes next gone v) ∧
      Layers nodes next (gone ++ layer) layers

/-- A path of `n` edges that ends at `v`. -/
def PathTo (next : α → List α) (v : α) (n : Nat) : Prop :=
  ∃ path : List α, path.IsChain (Edge next) ∧ path.length = n + 1 ∧ path.getLast? = some v

theorem PathTo.zero (v : α) : PathTo next v 0 := ⟨[v], by simp, rfl, rfl⟩

theorem PathTo.succ {a v : α} {n : Nat} (h : PathTo next a n) (hav : v ∈ next a) :
    PathTo next v (n + 1) := by
  obtain ⟨path, hchain, hlen, hlast⟩ := h
  refine ⟨path ++ [v], ?_, by simp [hlen], by simp⟩
  apply List.isChain_append.mpr
  refine ⟨hchain, by simp, ?_⟩
  intro x hx y hy
  rw [hlast, Option.mem_some_iff] at hx
  simp only [List.head?_cons, Option.mem_some_iff] at hy
  rw [← hx, ← hy]
  exact hav

theorem PathTo.pred {v : α} {n : Nat} (h : PathTo next v (n + 1)) :
    ∃ a, v ∈ next a ∧ PathTo next a n := by
  obtain ⟨path, hchain, hlen, hlast⟩ := h
  obtain ⟨front, rfl⟩ := List.getLast?_eq_some_iff.mp hlast
  rw [List.length_append, List.length_singleton] at hlen
  have hne : front ≠ [] := by
    intro e
    simp [e] at hlen
  obtain ⟨h1, -, h2⟩ := List.isChain_append.mp hchain
  have ha : front.getLast? = some (front.getLast hne) := List.getLast?_eq_some_getLast hne
  refine ⟨front.getLast hne, ?_, front, h1, by omega, ha⟩
  exact h2 _ ha v (by simp)

theorem Layers.layer {gone : List α} {layers : List (List α)} (h : Layers nodes next gone layers)
    {k : Nat} {layer : List α} (hk : layers[k]? = some layer) :
    (gone ++ (layers.take k).flatten ++ layer).Nodup ∧
      ∀ v, v ∈ gone ++ (layers.take k).flatten ++ layer ↔
        Open nodes next (gone ++ (layers.take k).flatten) v := by
  induction layers generalizing gone k with
  | nil => simp at hk
  | cons first layers ih =>
    obtain ⟨hn, hopen, hrest⟩ := h
    cases k with
    | zero =>
      simp only [List.getElem?_cons_zero, Option.some.injEq] at hk
      subst hk
      rw [List.take_zero, List.flatten_nil, List.append_nil]
      exact ⟨hn, hopen⟩
    | succ k =>
      rw [List.getElem?_cons_succ] at hk
      have h := ih hrest hk
      simpa [List.append_assoc] using h

theorem Layers.nodup {gone : List α} {layers : List (List α)} (h : Layers nodes next gone layers)
    (hgone : gone.Nodup) : (gone ++ layers.flatten).Nodup := by
  induction layers generalizing gone with
  | nil => simpa using hgone
  | cons first layers ih =>
    obtain ⟨hn, -, hrest⟩ := h
    rw [List.flatten_cons, ← List.append_assoc]
    exact ih hrest hn

theorem Layers.last {gone : List α} {layers : List (List α)} (h : Layers nodes next gone layers)
    (v : α) : v ∈ gone ++ layers.flatten ↔ Open nodes next (gone ++ layers.flatten) v := by
  induction layers generalizing gone with
  | nil => simpa using h v
  | cons first layers ih =>
    rw [List.flatten_cons, ← List.append_assoc]
    exact ih h.2.2

/-- Without a cycle, the layers hold all the nodes. -/
theorem Layers.mem_flatten {layers : List (List α)} [DecidableEq α]
    (h : Layers nodes next [] layers) (hac : ∀ a, ¬Relation.TransGen (Edge next) a a) (v : α) :
    v ∈ layers.flatten ↔ v ∈ nodes := by
  have hlast := h.last
  simp only [List.nil_append] at hlast
  constructor
  · intro hv
    exact ((hlast v).mp hv).1
  · intro hv
    refine acyclic_induction (P := fun v => v ∈ layers.flatten) hac ?_ v hv
    intro w hw ih
    exact (hlast w).mpr ⟨hw, ih⟩

theorem mem_take_flatten {layers : List (List α)} {k : Nat} {v : α}
    (h : v ∈ (layers.take k).flatten) : ∃ j layer, j < k ∧ layers[j]? = some layer ∧ v ∈ layer := by
  obtain ⟨layer, hlayer, hv⟩ := List.mem_flatten.mp h
  obtain ⟨j, hj, e⟩ := List.mem_take_iff_getElem.mp hlayer
  exact ⟨j, layer, by omega, by rw [List.getElem?_eq_getElem (by omega), e], hv⟩

/-- The predecessors of a node lie in earlier layers. -/
theorem Layers.pred {layers : List (List α)} (h : Layers nodes next [] layers)
    (hout : ∀ a v, v ∈ next a → a ∈ nodes) {k : Nat} {layer : List α}
    (hk : layers[k]? = some layer) {a v : α} (hv : v ∈ layer) (hav : v ∈ next a) :
    a ∈ (layers.take k).flatten := by
  have hopen := ((h.layer hk).2 v).mp (by simp [hv])
  have ha := hopen.2 a (hout a v hav) hav
  simpa using ha

/-- The number of a layer is the length of the longest path that ends in it. -/
theorem Layers.longest {layers : List (List α)} (h : Layers nodes next [] layers)
    (hout : ∀ a v, v ∈ next a → a ∈ nodes) {k : Nat} {layer : List α}
    (hk : layers[k]? = some layer) {v : α} (hv : v ∈ layer) :
    IsGreatest {n | PathTo next v n} k := by
  induction k using Nat.strong_induction_on generalizing layer v with
  | _ k ih =>
    constructor
    · cases k with
      | zero => exact PathTo.zero v
      | succ k =>
        -- `v` was not open one layer before, so one of its predecessors is in that layer
        have hlt : k < layers.length := by
          have hlt := (List.getElem?_eq_some_iff.mp hk).1
          omega
        have hk' : layers[k]? = some layers[k] := List.getElem?_eq_getElem hlt
        obtain ⟨hn, -⟩ := h.layer hk
        obtain ⟨-, hopen⟩ := h.layer hk'
        have htake : layers.take (k + 1) = layers.take k ++ [layers[k]] :=
          List.take_succ_eq_append_getElem hlt
        rw [htake, List.flatten_append, List.nil_append] at hn
        simp only [List.flatten_cons, List.flatten_nil, List.append_nil] at hn
        simp only [List.nil_append] at hopen
        have hnot : v ∉ (layers.take k).flatten ++ layers[k] := by
          intro hm
          exact (List.nodup_append.mp hn).2.2 v hm v hv rfl
        rw [hopen] at hnot
        have hvopen := ((h.layer hk).2 v).mp (by simp [hv])
        have hpred : ∃ a, a ∈ nodes ∧ v ∈ next a ∧ a ∉ (layers.take k).flatten := by
          by_contra hno
          push Not at hno
          exact hnot ⟨hvopen.1, fun a ha hav => hno a ha hav⟩
        obtain ⟨a, ha, hav, hno⟩ := hpred
        have hmem := h.pred hout hk hv hav
        rw [htake, List.flatten_append, List.mem_append] at hmem
        obtain hmem | hmem := hmem
        · exact absurd hmem hno
        · have hak : a ∈ layers[k] := by simpa using hmem
          exact ((ih k (by omega) hk' hak).1).succ hav
    · intro n hn
      cases n with
      | zero => exact Nat.zero_le _
      | succ n =>
        obtain ⟨a, hav, hpath⟩ := PathTo.pred hn
        obtain ⟨j, layer', hj, hlayer, ha⟩ := mem_take_flatten (h.pred hout hk hv hav)
        have hle := (ih j hj hlayer ha).2 hpath
        omega

/-- With every edge counted just so often, what is gone or ready is what was open. -/
theorem Drained.open_iff [DecidableEq α] {total : α → Nat} {gone : List α} {c : Countdown α}
    (h : Drained nodes next total gone c) (hexact : ∀ v ∈ nodes, inflow next nodes v = total v)
    (v : α) : v ∈ gone ++ c.ready ↔ Open nodes next gone v := by
  rw [h.mem]
  constructor
  · intro ⟨hv, h0⟩
    exact ⟨hv, (h.settled (fun v hv => (hexact v hv).le) hv h0).2⟩
  · intro ⟨hv, hall⟩
    have h1 := h.count v
    have h2 := inflow_eq_of_mem h.sub hall
    have h3 := hexact v hv
    exact ⟨hv, by omega⟩

end Adlc.Framework
