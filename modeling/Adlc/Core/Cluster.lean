import Adlc.Framework.UnionFind
import Mathlib.Combinatorics.SimpleGraph.Connectivity.Connected
import Mathlib.Data.List.FinRange
import Mathlib.Data.List.Sort

namespace Adlc.Core

open Adlc.Framework

/-! ## Clusters of token sets -/

variable {τ : Type*} [DecidableEq τ]

/-- A `Set`: its elements in the order they were added. -/
structure TokenSet (τ : Type*) where
  tokens : List τ
  nodup : tokens.Nodup

def TokenSet.size (set : TokenSet τ) : ℕ := set.tokens.length

def TokenSet.has (set : TokenSet τ) (item : τ) : Bool := decide (item ∈ set.tokens)

/-- The numbers similarities are given in: a quotient of two counts, and `>=`. -/
structure Scores (σ : Type*) where
  zero : σ
  one : σ
  divide : ℕ → ℕ → σ
  atLeast : σ → σ → Bool

variable {σ : Type*} (scores : Scores σ)

def jaccard (setA setB : TokenSet τ) : σ :=
  if setA.size = 0 ∧ setB.size = 0 then scores.one
  else if setA.size = 0 ∨ setB.size = 0 then scores.zero
  else
    let (smaller, larger) := if setA.size ≤ setB.size then (setA, setB) else (setB, setA)
    let intersection := smaller.tokens.countP larger.has
    let union := setA.size + setB.size - intersection
    if union = 0 then scores.zero else scores.divide intersection union

/-- The loop of `find`: the root, and the parents after path compression. `n` rounds are enough
for `n` elements (`find_spec`). -/
def find {n : ℕ} (parent : Fin n → Fin n) : ℕ → Fin n → Fin n × (Fin n → Fin n)
  | 0, x => (x, parent)
  | rounds + 1, x =>
    if parent x = x then (x, parent)
    else
      let parent := Function.update parent x (parent (parent x))
      find parent rounds (parent x)

def union {n : ℕ} (parent : Fin n → Fin n) (x y : Fin n) : Fin n → Fin n :=
  let (px, parent) := find parent n x
  let (py, parent) := find parent n y
  if px ≠ py then Function.update parent px py else parent

/-- The pairs `i < j`, in the order of the two loops. -/
def indexPairs (n : ℕ) : List (Fin n × Fin n) :=
  (List.finRange n).flatMap fun i => ((List.finRange n).filter (i < ·)).map fun j => (i, j)

/-- `groups.get(root).push(i)`, where a new group goes last. -/
def pushGroup {n : ℕ} (groups : List (Fin n × List (Fin n))) (root i : Fin n) :
    List (Fin n × List (Fin n)) :=
  if root ∈ groups.map Prod.fst then
    groups.map fun group => if group.1 = root then (root, group.2 ++ [i]) else group
  else groups ++ [(root, [i])]

/-- `a[0] - b[0]` is not positive. -/
def firstLe {n : ℕ} : List (Fin n) → List (Fin n) → Bool
  | i :: _, j :: _ => decide (i ≤ j)
  | _, _ => true

variable (tokenSets : List (TokenSet τ)) (threshold : σ)

def similar (i j : Fin tokenSets.length) : Bool :=
  scores.atLeast (jaccard scores (tokenSets.get i) (tokenSets.get j)) threshold

/-- The parents after all similar pairs are merged. -/
def mergePairs (pairs : List (Fin tokenSets.length × Fin tokenSets.length))
    (parent : Fin tokenSets.length → Fin tokenSets.length) :
    Fin tokenSets.length → Fin tokenSets.length :=
  pairs.foldl (fun parent pair =>
    if similar scores tokenSets threshold pair.1 pair.2 then union parent pair.1 pair.2
    else parent) parent

/-- The loop that fills `groups`; `find` goes on compressing paths. -/
def groupByRoot {n : ℕ} (indices : List (Fin n))
    (state : (Fin n → Fin n) × List (Fin n × List (Fin n))) :
    (Fin n → Fin n) × List (Fin n × List (Fin n)) :=
  indices.foldl (fun (parent, groups) i =>
    let (root, parent) := find parent n i
    (parent, pushGroup groups root i)) state

def clusterByTokenSets : List (List (Fin tokenSets.length)) :=
  if tokenSets.length = 0 then []
  else
    let parent := mergePairs scores tokenSets threshold (indexPairs tokenSets.length) id
    let groups := (groupByRoot (List.finRange tokenSets.length) (parent, [])).2
    (groups.map fun group => group.2.mergeSort (· ≤ ·)).mergeSort firstLe

/-! ## Similarity -/

/-- Counting the common tokens on either side gives one number. -/
theorem TokenSet.countP_has_comm (setA setB : TokenSet τ) :
    setA.tokens.countP setB.has = setB.tokens.countP setA.has := by
  have hcount : ∀ s t : TokenSet τ,
      s.tokens.countP t.has = (s.tokens.toFinset ∩ t.tokens.toFinset).card := by
    intro s t
    rw [List.countP_eq_length_filter, ← List.toFinset_card_of_nodup (s.nodup.filter _)]
    congr 1
    ext x
    simp [TokenSet.has]
  rw [hcount, hcount, Finset.inter_comm]

/-- Which set is smaller does not matter. -/
theorem jaccard_eq (setA setB : TokenSet τ) :
    jaccard scores setA setB =
      if setA.size = 0 ∧ setB.size = 0 then scores.one
      else if setA.size = 0 ∨ setB.size = 0 then scores.zero
      else if setA.size + setB.size - setA.tokens.countP setB.has = 0 then scores.zero
      else scores.divide (setA.tokens.countP setB.has)
        (setA.size + setB.size - setA.tokens.countP setB.has) := by
  unfold jaccard
  by_cases hle : setA.size ≤ setB.size
  · rw [if_pos hle]
  · rw [if_neg hle]
    simp only [TokenSet.countP_has_comm setB setA]

theorem jaccard_comm (setA setB : TokenSet τ) :
    jaccard scores setA setB = jaccard scores setB setA := by
  rw [jaccard_eq, jaccard_eq, TokenSet.countP_has_comm setB setA, Nat.add_comm setB.size setA.size]
  exact if_congr and_comm rfl (if_congr or_comm rfl rfl)

theorem similar_comm (i j : Fin tokenSets.length) :
    similar scores tokenSets threshold i j = similar scores tokenSets threshold j i := by
  rw [similar, similar, jaccard_comm]

/-- The graph that joins two items whose similarity reaches the threshold. -/
def similarityGraph : SimpleGraph (Fin tokenSets.length) where
  Adj i j := i ≠ j ∧ similar scores tokenSets threshold i j = true
  symm := by
    constructor
    rintro i j ⟨hne, h⟩
    exact ⟨hne.symm, (similar_comm scores tokenSets threshold j i).trans h⟩
  loopless := ⟨fun i h => h.1 rfl⟩

/-! ## Merging -/

section

variable {n : ℕ} {f : Forest (Fin n)} {R : Fin n → Fin n → Prop}

theorem find_rank {rank : Fin n → ℕ} {rounds : ℕ} {x : Fin n}
    (hrank : ∀ y, f.parent y ≠ y → rank (f.parent y) < rank y) (hx : rank x ≤ rounds) :
    ∃ g : Forest (Fin n), find f.parent rounds x = (f.root x, g.parent) ∧ g.root = f.root := by
  induction rounds generalizing f x with
  | zero =>
    have hroot : f.parent x = x := by
      by_contra hne
      have hlt := hrank x hne
      omega
    exact ⟨f, by rw [find, f.root_of_fixed hroot], rfl⟩
  | succ rounds ih =>
    by_cases hroot : f.parent x = x
    · exact ⟨f, by rw [find, if_pos hroot, f.root_of_fixed hroot], rfl⟩
    · have hlt : rank (f.parent (f.parent x)) < rank x := by
        have h := f.halved_rank hrank x x
        rw [Function.update_self] at h
        apply h
        intro e
        have h1 := hrank x hroot
        by_cases h2 : f.parent (f.parent x) = f.parent x
        · exact hroot (h2.symm.trans e)
        · have h3 := hrank _ h2
          rw [e] at h3
          omega
      have hhalved : ∀ y, (f.halve x).parent y ≠ y → rank ((f.halve x).parent y) < rank y :=
        f.halved_rank hrank x
      have hself : (f.halve x).parent x = f.parent (f.parent x) := f.halve_parent_self x
      obtain ⟨g, hg, hroots⟩ := ih hhalved (show rank ((f.halve x).parent x) ≤ rounds by
        rw [hself]
        omega)
      refine ⟨g, ?_, hroots.trans (f.root_halve x)⟩
      rw [find, if_neg hroot]
      have hx : (f.halve x).root ((f.halve x).parent x) = f.root x := by
        rw [Forest.root_parent, f.root_halve]
      rw [hx] at hg
      exact hg

/-- `find` ends within its rounds, returns the root, and moves no root. -/
theorem find_spec (f : Forest (Fin n)) (x : Fin n) :
    ∃ g : Forest (Fin n), find f.parent n x = (f.root x, g.parent) ∧ g.root = f.root := by
  obtain ⟨rank, hrank, hlt⟩ := f.exists_rank_lt
  have hx := hlt x
  rw [Fintype.card_fin] at hx
  exact find_rank hrank hx.le

theorem union_spec (h : f.Tracks R) (x y : Fin n) :
    ∃ g : Forest (Fin n), union f.parent x y = g.parent ∧
      g.Tracks fun i j => R i j ∨ (i = x ∧ j = y) := by
  obtain ⟨g1, hg1, hroot1⟩ := find_spec f x
  obtain ⟨g2, hg2, hroot2⟩ := find_spec g1 y
  rw [hroot1] at hg2 hroot2
  unfold union
  simp only [hg1, hg2]
  by_cases hne : f.root x = f.root y
  · refine ⟨g2, if_neg (not_not.mpr hne), h.join ?_⟩
    intro z
    rw [hroot2]
    split_ifs with hz
    · exact hz.trans hne
    · rfl
  · have hx : g2.root (f.root x) = f.root x := by rw [hroot2, f.root_root]
    have hy : g2.root (f.root y) = f.root y := by rw [hroot2, f.root_root]
    refine ⟨g2.link hx hy hne, if_pos hne, h.join ?_⟩
    intro z
    rw [Forest.root_link, hroot2]

end

theorem mergePairs_spec {f : Forest (Fin tokenSets.length)}
    {R : Fin tokenSets.length → Fin tokenSets.length → Prop} (h : f.Tracks R)
    (pairs : List (Fin tokenSets.length × Fin tokenSets.length)) :
    ∃ g : Forest (Fin tokenSets.length),
      mergePairs scores tokenSets threshold pairs f.parent = g.parent ∧
      g.Tracks fun i j =>
        R i j ∨ ((i, j) ∈ pairs ∧ similar scores tokenSets threshold i j = true) := by
  induction pairs generalizing f R with
  | nil => exact ⟨f, rfl, h.congr (by simp)⟩
  | cons pair pairs ih =>
    obtain ⟨x, y⟩ := pair
    have hstep : ∃ g : Forest (Fin tokenSets.length),
        (if similar scores tokenSets threshold x y then union f.parent x y else f.parent) =
          g.parent ∧ g.Tracks fun i j =>
            R i j ∨ ((i = x ∧ j = y) ∧ similar scores tokenSets threshold i j = true) := by
      by_cases hs : similar scores tokenSets threshold x y = true
      · obtain ⟨g, hg, htracks⟩ := union_spec h x y
        refine ⟨g, by rw [if_pos hs, hg], htracks.congr ?_⟩
        intro i j
        apply or_congr_right
        constructor
        · rintro ⟨rfl, rfl⟩
          exact ⟨⟨rfl, rfl⟩, hs⟩
        · exact And.left
      · refine ⟨f, by rw [if_neg hs], h.congr ?_⟩
        intro i j
        constructor
        · exact Or.inl
        · rintro (hr | ⟨⟨rfl, rfl⟩, h⟩)
          · exact hr
          · exact absurd h hs
    obtain ⟨g1, hg1, htracks1⟩ := hstep
    obtain ⟨g, hg, htracks⟩ := ih htracks1
    refine ⟨g, ?_, htracks.congr ?_⟩
    · rw [← hg, ← hg1]
      rfl
    · intro i j
      rw [List.mem_cons, Prod.mk.injEq, or_assoc, ← or_and_right]

theorem mem_indexPairs {n : ℕ} (i j : Fin n) : (i, j) ∈ indexPairs n ↔ i < j := by
  simp [indexPairs]

/-- After the two loops two items have one root exactly when similarity connects them. -/
theorem root_eq_iff_reachable {f : Forest (Fin tokenSets.length)}
    (h : f.Tracks fun i j => (i, j) ∈ indexPairs tokenSets.length ∧
      similar scores tokenSets threshold i j = true) (i j : Fin tokenSets.length) :
    f.root i = f.root j ↔ (similarityGraph scores tokenSets threshold).Reachable i j := by
  rw [h i j]
  constructor
  · intro hgen
    induction hgen with
    | rel i j hij =>
      have hlt := (mem_indexPairs i j).mp hij.1
      exact SimpleGraph.Adj.reachable ⟨hlt.ne, hij.2⟩
    | refl => exact SimpleGraph.Reachable.refl _
    | symm _ _ _ ih => exact ih.symm
    | trans _ _ _ _ _ ih1 ih2 => exact ih1.trans ih2
  · intro hreach
    rw [SimpleGraph.reachable_iff_reflTransGen] at hreach
    induction hreach with
    | refl => exact Relation.EqvGen.refl _
    | tail _ hadj ih =>
      apply ih.trans
      obtain ⟨hne, hs⟩ := hadj
      obtain hlt | hlt := lt_or_gt_of_ne hne
      · exact Relation.EqvGen.rel _ _ ⟨(mem_indexPairs _ _).mpr hlt, hs⟩
      · apply Relation.EqvGen.symm
        refine Relation.EqvGen.rel _ _ ⟨(mem_indexPairs _ _).mpr hlt, ?_⟩
        rw [similar_comm]
        exact hs

/-! ## Grouping -/

section

variable {n : ℕ}

/-- The groups hold the indices read so far, by root. -/
structure Grouped (root : Fin n → Fin n) (indices : List (Fin n))
    (groups : List (Fin n × List (Fin n))) : Prop where
  keys : (groups.map Prod.fst).Nodup
  members : ∀ group ∈ groups, group.2 = indices.filter fun i => decide (root i = group.1)
  covered : ∀ i ∈ indices, root i ∈ groups.map Prod.fst
  filled : ∀ group ∈ groups, group.2 ≠ []

theorem pushGroup_spec {root : Fin n → Fin n} {indices : List (Fin n)}
    {groups : List (Fin n × List (Fin n))} (h : Grouped root indices groups) (i : Fin n) :
    Grouped root (indices ++ [i]) (pushGroup groups (root i) i) := by
  have hfilter : ∀ key, (indices ++ [i]).filter (fun j => decide (root j = key)) =
      indices.filter (fun j => decide (root j = key)) ++ if root i = key then [i] else [] := by
    intro key
    rw [List.filter_append, List.filter_singleton]
    simp
  unfold pushGroup
  split_ifs with hkey
  · have hkeys : (groups.map fun group =>
        if group.1 = root i then (root i, group.2 ++ [i]) else group).map Prod.fst =
        groups.map Prod.fst := by
      rw [List.map_map]
      apply List.map_congr_left
      intro group _
      rw [Function.comp_apply]
      split_ifs with hg
      · exact hg.symm
      · rfl
    refine ⟨by rw [hkeys]; exact h.keys, ?_, ?_, ?_⟩
    · intro group hgroup
      obtain ⟨old, hold, rfl⟩ := List.mem_map.mp hgroup
      have hmembers := h.members old hold
      by_cases hg : old.1 = root i
      · rw [if_pos hg, hfilter, if_pos rfl, hmembers, hg]
      · rw [if_neg hg, hfilter, if_neg (Ne.symm hg), List.append_nil, hmembers]
    · intro j hj
      rw [hkeys]
      obtain hj | hj := List.mem_append.mp hj
      · exact h.covered j hj
      · rw [List.mem_singleton.mp hj]
        exact hkey
    · intro group hgroup
      obtain ⟨old, hold, rfl⟩ := List.mem_map.mp hgroup
      by_cases hg : old.1 = root i
      · rw [if_pos hg]
        exact List.append_ne_nil_of_right_ne_nil _ (List.cons_ne_nil _ _)
      · rw [if_neg hg]
        exact h.filled old hold
  · have hfresh : ∀ group ∈ groups, root i ≠ group.1 := by
      intro group hgroup he
      exact hkey (he ▸ List.mem_map_of_mem hgroup)
    have hnone : indices.filter (fun j => decide (root j = root i)) = [] := by
      rw [List.filter_eq_nil_iff]
      intro j hj he
      exact hkey (of_decide_eq_true he ▸ h.covered j hj)
    refine ⟨?_, ?_, ?_, ?_⟩
    · rw [List.map_append, List.nodup_append_comm]
      exact List.nodup_cons.mpr ⟨hkey, h.keys⟩
    · intro group hgroup
      obtain hgroup | hgroup := List.mem_append.mp hgroup
      · rw [hfilter, if_neg (hfresh group hgroup), List.append_nil]
        exact h.members group hgroup
      · rw [List.mem_singleton.mp hgroup, hfilter, if_pos rfl, hnone]
        rfl
    · intro j hj
      rw [List.map_append, List.mem_append]
      obtain hj | hj := List.mem_append.mp hj
      · exact Or.inl (h.covered j hj)
      · rw [List.mem_singleton.mp hj]
        exact Or.inr (by simp)
    · intro group hgroup
      obtain hgroup | hgroup := List.mem_append.mp hgroup
      · exact h.filled group hgroup
      · rw [List.mem_singleton.mp hgroup]
        exact List.cons_ne_nil _ _

theorem groupByRoot_spec {f : Forest (Fin n)} {seen : List (Fin n)}
    {groups : List (Fin n × List (Fin n))} (h : Grouped f.root seen groups)
    (indices : List (Fin n)) :
    Grouped f.root (seen ++ indices) (groupByRoot indices (f.parent, groups)).2 := by
  induction indices generalizing f seen groups with
  | nil =>
    rw [List.append_nil]
    exact h
  | cons i indices ih =>
    obtain ⟨g, hg, hroot⟩ := find_spec f i
    have hstep := pushGroup_spec h i
    rw [← hroot] at hstep
    have hrest := ih hstep
    rw [hroot] at hrest
    have e : groupByRoot (i :: indices) (f.parent, groups) =
        groupByRoot indices (g.parent, pushGroup groups (f.root i) i) := by
      rw [groupByRoot, List.foldl_cons]
      simp only [hg]
      rfl
    rw [e]
    simpa using hrest

end

/-- The clusters are the classes of one forest whose roots agree on connected items. -/
theorem clusterByTokenSets_groups (hn : tokenSets.length ≠ 0) :
    ∃ (root : Fin tokenSets.length → Fin tokenSets.length)
      (groups : List (Fin tokenSets.length × List (Fin tokenSets.length))),
      (∀ i j, root i = root j ↔ (similarityGraph scores tokenSets threshold).Reachable i j) ∧
      Grouped root (List.finRange tokenSets.length) groups ∧
      (clusterByTokenSets scores tokenSets threshold).Perm (groups.map Prod.snd) := by
  have hstart : (Forest.discrete (Fin tokenSets.length)).Tracks fun _ _ => False :=
    Forest.tracks_discrete
  obtain ⟨f, hf, htracks⟩ := mergePairs_spec scores tokenSets threshold hstart
    (indexPairs tokenSets.length)
  have hgroups : Grouped f.root [] [] := ⟨by simp, by simp, by simp, by simp⟩
  have hgrouped := groupByRoot_spec hgroups (List.finRange tokenSets.length)
  rw [List.nil_append] at hgrouped
  refine ⟨f.root, _, ?_, hgrouped, ?_⟩
  · apply root_eq_iff_reachable
    exact htracks.congr fun i j => by simp
  · have hid : (Forest.discrete (Fin tokenSets.length)).parent = id := rfl
    rw [hid] at hf
    simp only [clusterByTokenSets, if_neg hn, hf]
    apply (List.mergeSort_perm _ _).trans
    rw [List.map_congr_left]
    intro group hgroup
    rw [hgrouped.members group hgroup]
    apply List.mergeSort_of_pairwise
    apply ((List.pairwise_lt_finRange _).filter _).imp
    intro i j hij
    exact decide_eq_true hij.le

/-- The lists of `clusters` are the connected components of `G`, each once. -/
structure Components {ι : Type*} (G : SimpleGraph ι) (clusters : List (List ι)) : Prop where
  covered : ∀ i, ∃ cluster ∈ clusters, i ∈ cluster
  filled : ∀ cluster ∈ clusters, cluster ≠ []
  component : ∀ cluster ∈ clusters, ∀ i ∈ cluster, ∀ j, j ∈ cluster ↔ G.Reachable i j
  disjoint : clusters.Pairwise List.Disjoint

theorem clusterByTokenSets_spec :
    Components (similarityGraph scores tokenSets threshold)
        (clusterByTokenSets scores tokenSets threshold) ∧
      ∀ cluster ∈ clusterByTokenSets scores tokenSets threshold, cluster.Pairwise (· < ·) := by
  by_cases hn : tokenSets.length = 0
  · have hnil : clusterByTokenSets scores tokenSets threshold = [] := if_pos hn
    have hempty : IsEmpty (Fin tokenSets.length) := by
      rw [hn]
      exact Fin.isEmpty
    rw [hnil]
    exact ⟨⟨fun i => isEmptyElim i, by simp, by simp, List.Pairwise.nil⟩, by simp⟩
  · obtain ⟨root, groups, hroot, hgrouped, hperm⟩ :=
      clusterByTokenSets_groups scores tokenSets threshold hn
    have hcluster : ∀ cluster ∈ clusterByTokenSets scores tokenSets threshold,
        ∃ group ∈ groups, group.2 = cluster := by
      intro cluster hc
      exact List.mem_map.mp (hperm.mem_iff.mp hc)
    have hmem : ∀ group ∈ groups, ∀ i, i ∈ group.2 ↔ root i = group.1 := by
      intro group hgroup i
      rw [hgrouped.members group hgroup]
      simp
    refine ⟨⟨?_, ?_, ?_, ?_⟩, ?_⟩
    · intro i
      obtain ⟨group, hgroup, hkey⟩ := List.mem_map.mp (hgrouped.covered i (List.mem_finRange i))
      exact ⟨group.2, hperm.mem_iff.mpr (List.mem_map_of_mem hgroup),
        (hmem group hgroup i).mpr hkey.symm⟩
    · intro cluster hc
      obtain ⟨group, hgroup, rfl⟩ := hcluster cluster hc
      exact hgrouped.filled group hgroup
    · intro cluster hc i hi j
      obtain ⟨group, hgroup, rfl⟩ := hcluster cluster hc
      rw [hmem group hgroup] at hi ⊢
      rw [← hroot, ← hi]
      exact eq_comm
    · apply (hperm.pairwise_iff fun h => h.symm).mpr
      rw [List.pairwise_map]
      have hkeys := List.pairwise_map.mp hgrouped.keys
      apply hkeys.imp_of_mem
      intro a b ha hb hne i hia hib
      exact hne (((hmem a ha i).mp hia).symm.trans ((hmem b hb i).mp hib))
    · intro cluster hc
      obtain ⟨group, hgroup, rfl⟩ := hcluster cluster hc
      rw [hgrouped.members group hgroup]
      exact (List.pairwise_lt_finRange _).filter _

variable {tokenSets}

/-- Two items share a cluster exactly when similarity connects them. -/
theorem together_iff (i j : Fin tokenSets.length) :
    (∃ cluster ∈ clusterByTokenSets scores tokenSets threshold, i ∈ cluster ∧ j ∈ cluster) ↔
      (similarityGraph scores tokenSets threshold).Reachable i j := by
  obtain ⟨h, -⟩ := clusterByTokenSets_spec scores tokenSets threshold
  constructor
  · rintro ⟨cluster, hc, hi, hj⟩
    exact (h.component cluster hc i hi j).mp hj
  · intro hreach
    obtain ⟨cluster, hc, hi⟩ := h.covered i
    exact ⟨cluster, hc, hi, (h.component cluster hc i hi j).mpr hreach⟩

/-- A reordering of the items maps the graph of one listing to that of the other. -/
def reorderIso {tokenSets' : List (TokenSet τ)} (order : Fin tokenSets'.length ≃ Fin tokenSets.length)
    (h : ∀ i, tokenSets'.get i = tokenSets.get (order i)) :
    similarityGraph scores tokenSets' threshold ≃g similarityGraph scores tokenSets threshold where
  toEquiv := order
  map_rel_iff' := by
    intro i j
    simp only [similarityGraph, similar, h, ne_eq, EmbeddingLike.apply_eq_iff_eq]

variable (tokenSets)

/-- The clusters are the connected components of the similarity graph, and reordering the items
reorders them only. -/
theorem clusterByTokenSets_components :
    Components (similarityGraph scores tokenSets threshold)
        (clusterByTokenSets scores tokenSets threshold) ∧
      ∀ (tokenSets' : List (TokenSet τ)) (order : Fin tokenSets'.length ≃ Fin tokenSets.length),
        (∀ i, tokenSets'.get i = tokenSets.get (order i)) → ∀ i j,
          (∃ cluster ∈ clusterByTokenSets scores tokenSets' threshold, i ∈ cluster ∧ j ∈ cluster) ↔
            ∃ cluster ∈ clusterByTokenSets scores tokenSets threshold,
              order i ∈ cluster ∧ order j ∈ cluster := by
  refine ⟨(clusterByTokenSets_spec scores tokenSets threshold).1, ?_⟩
  intro tokenSets' order horder i j
  rw [together_iff, together_iff]
  exact (reorderIso scores threshold order horder).reachable_iff.symm

end Adlc.Core
