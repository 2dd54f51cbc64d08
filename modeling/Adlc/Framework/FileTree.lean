import Adlc.Framework.Paths
import Mathlib.Data.List.Induction

namespace Adlc.Framework

/-! File trees with symbolic links, and how a path is looked up in one. -/

inductive Node where
  | file
  | dir
  | link (target : JsString)
  deriving DecidableEq

/-- What stands at each path that leads through no link. -/
structure FileTree where
  node : Path → Option Node
  root : node [] = some .dir
  parent : ∀ path name, (node (path ++ [name])).isSome = true → node path = some .dir
  named : ∀ path name, (node (path ++ [name])).isSome = true → PlainName name

variable {tree : FileTree} {path : Path}

theorem FileTree.names_plain (h : (tree.node path).isSome = true) : ∀ name ∈ path, PlainName name := by
  induction path using List.reverseRecOn with
  | nil => simp
  | append_singleton path name ih =>
    intro n hn
    obtain hn | hn := List.mem_append.mp hn
    · exact ih (by rw [tree.parent path name h]; rfl) n hn
    · rw [List.mem_singleton.mp hn]
      exact tree.named path name h

theorem FileTree.dropLast_isSome (h : (tree.node path).isSome = true) :
    (tree.node path.dropLast).isSome = true := by
  induction path using List.reverseRecOn with
  | nil => exact h
  | append_singleton path name _ =>
    rw [List.dropLast_concat, tree.parent path name h]
    rfl

/-- A list of nodes in which every node but the root stands in a directory, under a plain name. -/
def ClosedNodes (nodes : List (Path × Node)) : Prop :=
  nodes.lookup [] = some .dir ∧ ∀ p ∈ nodes, p.1 = [] ∨
    (nodes.lookup p.1.dropLast = some .dir ∧ PlainName (p.1.getLastD []))

instance (nodes : List (Path × Node)) : Decidable (ClosedNodes nodes) :=
  inferInstanceAs (Decidable (_ ∧ _))

theorem ClosedNodes.parent {nodes : List (Path × Node)} (hclosed : ClosedNodes nodes) {name : JsString}
    (h : (nodes.lookup (path ++ [name])).isSome = true) :
    nodes.lookup path = some .dir ∧ PlainName name := by
  obtain ⟨node, hnode⟩ := Option.isSome_iff_exists.mp h
  obtain ⟨before, after, he, -⟩ := List.lookup_eq_some_iff.mp hnode
  obtain hnil | hparent := hclosed.2 (path ++ [name], node) (by rw [he]; simp)
  · simp at hnil
  · rwa [List.dropLast_concat, List.getLastD_concat] at hparent

def FileTree.ofNodes (nodes : List (Path × Node)) (h : ClosedNodes nodes) : FileTree where
  node path := nodes.lookup path
  root := h.1
  parent _ _ hchild := (h.parent hchild).1
  named _ _ hchild := (h.parent hchild).2

/-- The segments of a path; a slash at the end asks for a directory. -/
def lookupSegments (text : JsString) : List JsString :=
  (text.splitOn slash).filter (fun segment => segment ≠ []) ++
    if text.getLast? = some slash then [js "."] else []

/-- Where a path begins. -/
def startOf (from_ : Path) (text : JsString) : Path := if text.head? = some slash then [] else from_

/-- Lookup of segments from a directory, with the number of links it may still follow and a condition
on their targets. -/
inductive Lookup (tree : FileTree) (ok : JsString → Prop) :
    Nat → Path → List JsString → Path → Prop where
  | done {left : Nat} {cur : Path} : Lookup tree ok left cur [] cur
  | dot {left : Nat} {cur final : Path} {segments : List JsString} :
      tree.node cur = some .dir → Lookup tree ok left cur segments final →
      Lookup tree ok left cur (js "." :: segments) final
  | dots {left : Nat} {cur final : Path} {segments : List JsString} :
      tree.node cur = some .dir → Lookup tree ok left cur.dropLast segments final →
      Lookup tree ok left cur (js ".." :: segments) final
  | child {left : Nat} {cur final : Path} {name : JsString} {segments : List JsString} :
      tree.node (cur ++ [name]) = some .file ∨ tree.node (cur ++ [name]) = some .dir →
      Lookup tree ok left (cur ++ [name]) segments final →
      Lookup tree ok left cur (name :: segments) final
  | link {left : Nat} {cur final : Path} {name target : JsString} {segments : List JsString} :
      tree.node (cur ++ [name]) = some (.link target) → target ≠ [] → ok target →
      Lookup tree ok left (startOf cur target) (lookupSegments target ++ segments) final →
      Lookup tree ok (left + 1) cur (name :: segments) final

/-- The number of links that one lookup follows. -/
def maxSymlinks : Nat := 40

/-- The path leads from the directory to what stands at the final path. -/
def LooksUp (tree : FileTree) (ok : JsString → Prop) (from_ : Path) (text : JsString) (final : Path) :
    Prop :=
  text ≠ [] ∧ Lookup tree ok maxSymlinks (startOf from_ text) (lookupSegments text) final

variable {ok : JsString → Prop} {left : Nat} {cur final : Path} {segments : List JsString}

theorem startOf_isSome {text : JsString} (h : (tree.node cur).isSome = true) :
    (tree.node (startOf cur text)).isSome = true := by
  unfold startOf
  split_ifs
  · rw [tree.root]
    rfl
  · exact h

/-- Lookup ends at something that exists. -/
theorem Lookup.final_isSome (h : Lookup tree ok left cur segments final)
    (hcur : (tree.node cur).isSome = true) : (tree.node final).isSome = true := by
  induction h with
  | done => exact hcur
  | dot _ _ ih => exact ih hcur
  | dots _ _ ih => exact ih (tree.dropLast_isSome hcur)
  | child hnode _ ih =>
    apply ih
    obtain hfile | hdir := hnode
    · rw [hfile]
      rfl
    · rw [hdir]
      rfl
  | link hnode _ _ _ ih =>
    apply ih
    apply startOf_isSome hcur

/-! ## Following a path -/

/-- Where the segments lead from a directory, and with `create` also where a file would be made that is
not there yet; `next` goes on from a link. -/
def seekWith (tree : FileTree) (create : Bool) (next : Path → List JsString → Option Path) :
    Path → List JsString → Option Path
  | cur, [] => some cur
  | cur, segment :: rest =>
    if segment = js "." then
      if tree.node cur = some .dir then seekWith tree create next cur rest else none
    else if segment = js ".." then
      if tree.node cur = some .dir then seekWith tree create next cur.dropLast rest else none
    else
      match tree.node (cur ++ [segment]) with
      | some (.link target) =>
        if target = [] then none else next (startOf cur target) (lookupSegments target ++ rest)
      | some _ => seekWith tree create next (cur ++ [segment]) rest
      | none =>
        if create && rest = [] && tree.node cur = some .dir then some (cur ++ [segment]) else none

/-- At most so many links are followed. -/
def seek (tree : FileTree) (create : Bool) : Nat → Path → List JsString → Option Path
  | 0 => seekWith tree create fun _ _ => none
  | left + 1 => seekWith tree create (seek tree create left)

/-- What follows a link that is met with so many left. -/
def seekNext (tree : FileTree) (create : Bool) : Nat → Path → List JsString → Option Path
  | 0 => fun _ _ => none
  | left + 1 => seek tree create left

theorem seek_eq (create : Bool) (left : Nat) :
    seek tree create left = seekWith tree create (seekNext tree create left) := by
  cases left <;> rfl

theorem seekWith_lookup {next : Path → List JsString → Option Path}
    (hnext : ∀ cur segments final, next cur segments = some final →
      ∃ fewer, left = fewer + 1 ∧ Lookup tree (fun _ => True) fewer cur segments final)
    (h : seekWith tree false next cur segments = some final) :
    Lookup tree (fun _ => True) left cur segments final := by
  induction segments generalizing cur with
  | nil =>
    rw [seekWith] at h
    obtain rfl := Option.some.inj h
    exact .done
  | cons segment rest ih =>
    rw [seekWith] at h
    by_cases hdot : segment = js "."
    · subst hdot
      rw [if_pos rfl] at h
      split_ifs at h with hdir
      exact .dot hdir (ih h)
    · by_cases hdots : segment = js ".."
      · subst hdots
        rw [if_neg hdot, if_pos rfl] at h
        split_ifs at h with hdir
        exact .dots hdir (ih h)
      · rw [if_neg hdot, if_neg hdots] at h
        cases hnode : tree.node (cur ++ [segment]) with
        | none => simp [hnode] at h
        | some node =>
          cases node with
          | file =>
            rw [hnode] at h
            exact .child (Or.inl hnode) (ih h)
          | dir =>
            rw [hnode] at h
            exact .child (Or.inr hnode) (ih h)
          | link target =>
            simp only [hnode] at h
            split_ifs at h with hempty
            obtain ⟨fewer, rfl, hrest⟩ := hnext _ _ _ h
            exact .link hnode hempty trivial hrest

/-- Without `create`, following a path is lookup. -/
theorem seek_iff_lookup : seek tree false left cur segments = some final ↔
    Lookup tree (fun _ => True) left cur segments final := by
  constructor
  · intro h
    induction left generalizing cur segments final with
    | zero =>
      apply seekWith_lookup _ h
      intro _ _ _ hnone
      cases hnone
    | succ left ih => exact seekWith_lookup (fun _ _ _ hnext => ⟨left, rfl, ih hnext⟩) h
  · intro h
    induction h with
    | done => rw [seek_eq, seekWith]
    | dot hdir _ ih => rw [seek_eq, seekWith, if_pos rfl, if_pos hdir, ← seek_eq, ih]
    | dots hdir _ ih =>
      rw [seek_eq, seekWith, if_neg (by decide), if_pos rfl, if_pos hdir, ← seek_eq, ih]
    | @child left cur final name segments hnode _ ih =>
      have hsome : (tree.node (cur ++ [name])).isSome = true := by
        obtain hfile | hdir := hnode
        · rw [hfile]
          rfl
        · rw [hdir]
          rfl
      have hname := tree.named cur name hsome
      rw [seek_eq, seekWith, if_neg hname.ne_dot, if_neg hname.ne_dots]
      obtain hfile | hdir := hnode
      · simp only [hfile]
        rw [← seek_eq, ih]
      · simp only [hdir]
        rw [← seek_eq, ih]
    | @link left cur final name target segments hnode hempty _ _ ih =>
      have hname := tree.named cur name (by rw [hnode]; rfl)
      rw [seek_eq, seekWith, if_neg hname.ne_dot, if_neg hname.ne_dots]
      simp only [hnode, if_neg hempty]
      exact ih

/-! ## The relative path between two paths -/

/-- `relative(from, to)`, by its segments. -/
def relativeSegments : Path → Path → List JsString
  | [], dest => dest
  | source, [] => source.map fun _ => js ".."
  | a :: source, b :: dest =>
    if a = b then relativeSegments source dest
    else ((a :: source).map fun _ => js "..") ++ b :: dest

theorem relativeSegments_nil (dest : Path) : relativeSegments [] dest = dest := rfl

theorem relativeSegments_cons (a : JsString) (source : Path) (b : JsString) (dest : Path) :
    relativeSegments (a :: source) (b :: dest) =
      if a = b then relativeSegments source dest
      else ((a :: source).map fun _ => js "..") ++ b :: dest := rfl

theorem relativeSegments_common (common source dest : Path) :
    relativeSegments (common ++ source) (common ++ dest) = relativeSegments source dest := by
  induction common with
  | nil => rfl
  | cons name common ih =>
    rw [List.cons_append, List.cons_append, relativeSegments_cons, if_pos rfl, ih]

/-- The relative path goes down from the one to the other, or it begins with a step up. -/
theorem relativeSegments_below (source dest : Path) :
    (∃ names, dest = source ++ names ∧ relativeSegments source dest = names) ∨
      ∃ rest, relativeSegments source dest = js ".." :: rest := by
  induction source generalizing dest with
  | nil => exact Or.inl ⟨dest, rfl, rfl⟩
  | cons a source ih =>
    cases dest with
    | nil => exact Or.inr ⟨_, rfl⟩
    | cons b dest =>
      rw [relativeSegments_cons]
      split_ifs with hab
      · subst hab
        obtain ⟨names, hdest, hnames⟩ | hup := ih dest
        · exact Or.inl ⟨names, by rw [hdest, List.cons_append], hnames⟩
        · exact Or.inr hup
      · exact Or.inr ⟨_, rfl⟩

theorem relativeSegments_self_append (source names : Path) :
    relativeSegments source (source ++ names) = names := by
  have hcommon := relativeSegments_common source [] names
  rwa [List.append_nil] at hcommon

theorem mem_relativeSegments {source dest : Path} {segment : JsString}
    (h : segment ∈ relativeSegments source dest) : segment = js ".." ∨ segment ∈ dest := by
  have hups : ∀ names : Path, segment ∈ names.map (fun _ => js "..") → segment = js ".." := by
    intro names hm
    obtain ⟨-, -, rfl⟩ := List.mem_map.mp hm
    rfl
  induction source generalizing dest with
  | nil => exact Or.inr h
  | cons a source ih =>
    cases dest with
    | nil => exact Or.inl (hups _ h)
    | cons b dest =>
      rw [relativeSegments_cons] at h
      split_ifs at h
      · exact (ih h).imp_right (List.mem_cons_of_mem _)
      · obtain hm | hm := List.mem_append.mp h
        · exact Or.inl (hups _ hm)
        · exact Or.inr hm

theorem foldl_pushSegment_ups (common names : Path) :
    (names.map fun _ => js "..").foldl pushSegment (common ++ names) = common := by
  induction names using List.reverseRecOn with
  | nil => simp
  | append_singleton names name ih =>
    have hup : pushSegment (common ++ (names ++ [name])) (js "..") = common ++ names := by
      rw [pushSegment, if_neg (by decide), if_pos rfl, ← List.append_assoc, List.dropLast_concat]
    have hups : (names ++ [name]).map (fun _ => js "..") = js ".." :: names.map fun _ => js ".." := by
      rw [List.map_const', List.map_const', List.length_append, List.length_singleton,
        List.replicate_succ]
    rw [hups, List.foldl_cons, hup, ih]

/-- The relative path leads from the one to the other. -/
theorem foldl_relativeSegments {source dest : Path} (h : ∀ name ∈ dest, PlainName name) :
    (relativeSegments source dest).foldl pushSegment source = dest := by
  have hbelow : ∀ common : Path,
      (relativeSegments source dest).foldl pushSegment (common ++ source) = common ++ dest := by
    induction source generalizing dest with
    | nil =>
      intro common
      rw [relativeSegments_nil, List.append_nil, foldl_pushSegment h]
    | cons a source ih =>
      intro common
      cases dest with
      | nil =>
        have hups : relativeSegments (a :: source) [] = (a :: source).map fun _ => js ".." := rfl
        rw [hups, foldl_pushSegment_ups, List.append_nil]
      | cons b dest =>
        rw [relativeSegments_cons]
        split_ifs with hab
        · subst hab
          have hrest := ih (fun name hn => h name (List.mem_cons_of_mem _ hn)) (common ++ [a])
          rwa [List.append_assoc, List.append_assoc, List.singleton_append,
            List.singleton_append] at hrest
        · rw [List.foldl_append, foldl_pushSegment_ups, foldl_pushSegment h]
  exact hbelow []

/-- A path written as the relative one leads from the one to the other. -/
theorem resolve_relative {source dest : Path} (h : ∀ name ∈ dest, PlainName name) :
    resolve source (joinPath (relativeSegments source dest)) = dest := by
  rw [resolve_segments, foldl_relativeSegments h]
  intro segment hsegment
  obtain rfl | hdest := mem_relativeSegments hsegment
  · exact ⟨by decide, by decide⟩
  · exact ⟨(h segment hdest).noSlash, (h segment hdest).ne_nil⟩

end Adlc.Framework
