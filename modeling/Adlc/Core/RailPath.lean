import Adlc.Framework.FileTree
import Adlc.Framework.Text

namespace Adlc.Core

open Adlc.Framework

def backslash : UInt16 := 92

/-! ## Segments -/

/-- `[\\/]` -/
def isSeparator (c : UInt16) : Bool := c = slash || c = backslash

/-- `[A-Za-z]` -/
def isLetter (c : UInt16) : Bool :=
  (65 ≤ c.toNat && c.toNat ≤ 90) || (97 ≤ c.toNat && c.toNat ≤ 122)

/-- `p.replace(/^[A-Za-z]:[\\/]?/, '')` -/
def dropDrive (p : JsString) : JsString :=
  match p with
  | letter :: colon :: rest =>
    if isLetter letter && colon = 58 then
      match rest with
      | c :: rest' => if isSeparator c then rest' else rest
      | [] => []
    else p
  | _ => p

def segmentsOf (p : JsString) : List JsString :=
  ((dropDrive p).splitOnP isSeparator).filter fun segment => segment ≠ []

/-! ## The walk -/

structure WalkState where
  cur : Path
  exists_ : Bool
  hops : Nat
  queue : List JsString
  deriving DecidableEq

/-- The turn for a segment that is a name; `s.queue` is what follows it. -/
def walkName (tree : FileTree) (s : WalkState) (seg : JsString) : WalkState ⊕ Option Path :=
  let next := s.cur ++ [seg]
  match if s.exists_ then tree.node next else none with
  | some (.link target) =>
    if maxSymlinks < s.hops + 1 then .inr none
    else .inl ⟨startOf s.cur target, s.exists_, s.hops + 1, segmentsOf target ++ s.queue⟩
  | none => .inl ⟨next, false, s.hops, s.queue⟩
  | some _ => .inl { s with cur := next }

/-- One turn of the loop: the next state, or what is returned. -/
def walkStep (tree : FileTree) (s : WalkState) : WalkState ⊕ Option Path :=
  match s.queue with
  | [] => .inr (some s.cur)
  | seg :: queue =>
    if seg = js "." then .inl { s with queue := queue }
    else if seg = js ".." then .inl { s with cur := s.cur.dropLast, queue := queue }
    else walkName tree { s with queue := queue } seg

theorem walkName_lt {tree : FileTree} {s s' : WalkState} {seg : JsString}
    (h : walkName tree s seg = .inl s') :
    (s'.hops = s.hops ∧ s'.queue = s.queue) ∨ (s'.hops = s.hops + 1 ∧ s.hops < maxSymlinks) := by
  unfold walkName at h
  simp only at h
  split at h
  · split_ifs at h with hspent
    obtain rfl := Sum.inl.inj h
    exact Or.inr ⟨rfl, by omega⟩
  · obtain rfl := Sum.inl.inj h
    exact Or.inl ⟨rfl, rfl⟩
  · obtain rfl := Sum.inl.inj h
    exact Or.inl ⟨rfl, rfl⟩

/-- A turn follows one of the links that are left, or takes a segment off the queue. -/
theorem walkStep_lt {tree : FileTree} {s s' : WalkState} (h : walkStep tree s = .inl s') :
    Prod.Lex (· < ·) (· < ·) (maxSymlinks - s'.hops, s'.queue.length)
      (maxSymlinks - s.hops, s.queue.length) := by
  obtain ⟨cur, exists_, hops, queue⟩ := s
  cases queue with
  | nil => cases h
  | cons seg queue =>
    rw [walkStep] at h
    simp only at h
    split_ifs at h
    · obtain rfl := Sum.inl.inj h
      exact .right _ (Nat.lt_succ_self _)
    · obtain rfl := Sum.inl.inj h
      exact .right _ (Nat.lt_succ_self _)
    · obtain ⟨hhops, hqueue⟩ | ⟨hhops, hleft⟩ := walkName_lt h
      · rw [hhops, hqueue]
        exact .right _ (Nat.lt_succ_self _)
      · apply Prod.Lex.left
        rw [hhops]
        simp only at hleft ⊢
        omega

def walk (tree : FileTree) (s : WalkState) : Option Path :=
  match _h : walkStep tree s with
  | .inr result => result
  | .inl s' => walk tree s'
termination_by (maxSymlinks - s.hops, s.queue.length)
decreasing_by exact walkStep_lt _h

/-- `relative(from, to)` -/
def relative (source dest : Path) : JsString := joinPath (relativeSegments source dest)

/-- `realRoot` is what `realpathSync(root)` returns. -/
def resolveRailPath (tree : FileTree) (realRoot : Path) (filePath : JsString) : JsString :=
  let final := (walk tree ⟨startOf realRoot filePath, true, 0, segmentsOf filePath⟩).getD
    (resolve realRoot filePath)
  (relative realRoot final).map fun c => if c = backslash then slash else c

/-! ## The walk ends -/

/-- Turns of the loop; what has been returned stays. -/
def walkTurns (tree : FileTree) : Nat → WalkState ⊕ Option Path → WalkState ⊕ Option Path
  | 0, s => s
  | n + 1, .inl s => walkTurns tree n (walkStep tree s)
  | _ + 1, .inr result => .inr result

theorem walk_returns (tree : FileTree) (s : WalkState) :
    ∃ n, walkTurns tree n (.inl s) = .inr (walk tree s) := by
  fun_induction walk tree s with
  | case1 s result h =>
    refine ⟨1, ?_⟩
    rw [walkTurns, h, walkTurns]
  | case2 s s' h ih =>
    obtain ⟨n, hn⟩ := ih
    refine ⟨n + 1, ?_⟩
    rw [walkTurns, h, hn]

/-! ## What the walk does with lookup's segments -/

variable {tree : FileTree} {cur final : Path} {hops : Nat} {queue : List JsString}

theorem walk_nil {exists_ : Bool} : walk tree ⟨cur, exists_, hops, []⟩ = some cur := by
  rw [walk]
  rfl

theorem walk_step {s s' : WalkState} (h : walkStep tree s = .inl s') : walk tree s = walk tree s' := by
  rw [walk]
  split
  · next result h' =>
    rw [h] at h'
    cases h'
  · next s'' h' =>
    rw [h] at h'
    rw [Sum.inl.inj h']

def notDot (segment : JsString) : Bool := segment ≠ js "."

/-- Up to the first segment that is no dot, the walk does nothing. -/
theorem walk_skip {exists_ : Bool} {name : JsString} {rest : List JsString}
    (h : queue.filter notDot = name :: rest) :
    ∃ queue', queue'.filter notDot = rest ∧
      walk tree ⟨cur, exists_, hops, queue⟩ = walk tree ⟨cur, exists_, hops, name :: queue'⟩ := by
  induction queue with
  | nil => cases h
  | cons segment queue ih =>
    by_cases hdot : segment = js "."
    · subst hdot
      obtain ⟨queue', hrest, hwalk⟩ := ih h
      refine ⟨queue', hrest, ?_⟩
      rw [← hwalk]
      exact walk_step rfl
    · rw [List.filter_cons_of_pos (by simpa [notDot] using hdot)] at h
      obtain ⟨rfl, hrest⟩ := List.cons.inj h
      exact ⟨queue, hrest, rfl⟩

theorem walk_dots {exists_ : Bool} (h : queue.filter notDot = []) :
    walk tree ⟨cur, exists_, hops, queue⟩ = some cur := by
  induction queue with
  | nil => exact walk_nil
  | cons segment queue ih =>
    have hdot : segment = js "." := by
      by_contra hne
      rw [List.filter_cons_of_pos (by simpa [notDot] using hne)] at h
      cases h
    subst hdot
    rw [← ih h]
    exact walk_step rfl

/-- Read as a path of this system: no separator or drive letter of another. -/
structure PlainText (text : JsString) : Prop where
  noBackslash : backslash ∉ text
  noDrive : dropDrive text = text

theorem splitOnP_congr {p q : UInt16 → Bool} {text : JsString} (h : ∀ c ∈ text, p c = q c) :
    text.splitOnP p = text.splitOnP q := by
  induction text with
  | nil => rfl
  | cons c text ih =>
    rw [List.forall_mem_cons] at h
    rw [List.splitOnP_cons_eq_if_modifyHead, List.splitOnP_cons_eq_if_modifyHead, h.1, ih h.2]

theorem segmentsOf_plain {text : JsString} (h : PlainText text) :
    (segmentsOf text).filter notDot = (lookupSegments text).filter notDot := by
  have hsplit : text.splitOnP isSeparator = text.splitOn slash := by
    apply splitOnP_congr
    intro c hc
    have hne : c ≠ backslash := by
      rintro rfl
      exact h.noBackslash hc
    simp [isSeparator, hne, BEq.beq]
  have hend : (if text.getLast? = some slash then [js "."] else []).filter notDot = [] := by
    split_ifs <;> rfl
  rw [segmentsOf, h.noDrive, hsplit, lookupSegments, List.filter_append, hend, List.append_nil]

theorem notDot_plain {name : JsString} (h : PlainName name) : notDot name = true := by
  simpa [notDot] using h.ne_dot

/-- The walk follows lookup. -/
theorem walk_of_lookup {left : Nat} {segments : List JsString}
    (h : Lookup tree PlainText left cur segments final) (hleft : left + hops = maxSymlinks)
    (hqueue : queue.filter notDot = segments.filter notDot) :
    walk tree ⟨cur, true, hops, queue⟩ = some final := by
  induction h generalizing hops queue with
  | done => exact walk_dots hqueue
  | dot _ _ ih => exact ih hleft hqueue
  | @dots left cur final segments hdir _ ih =>
    have hdots : queue.filter notDot = js ".." :: segments.filter notDot := hqueue
    obtain ⟨queue', hrest, hwalk⟩ := walk_skip hdots
    rw [hwalk, walk_step rfl]
    exact ih hleft hrest
  | @child left cur final name segments hnode _ ih =>
    have hsome : (tree.node (cur ++ [name])).isSome = true := by
      obtain hfile | hdir := hnode
      · rw [hfile]
        rfl
      · rw [hdir]
        rfl
    have hname := tree.named cur name hsome
    rw [List.filter_cons_of_pos (notDot_plain hname)] at hqueue
    obtain ⟨queue', hrest, hwalk⟩ := walk_skip hqueue
    have hstep : walkStep tree ⟨cur, true, hops, name :: queue'⟩ =
        .inl ⟨cur ++ [name], true, hops, queue'⟩ := by
      rw [walkStep]
      simp only [if_neg hname.ne_dot, if_neg hname.ne_dots, walkName, if_true]
      obtain hfile | hdir := hnode
      · rw [hfile]
      · rw [hdir]
    rw [hwalk, walk_step hstep]
    exact ih hleft hrest
  | @link left cur final name target segments hnode _ hplain _ ih =>
    have hname := tree.named cur name (by rw [hnode]; rfl)
    rw [List.filter_cons_of_pos (notDot_plain hname)] at hqueue
    obtain ⟨queue', hrest, hwalk⟩ := walk_skip hqueue
    have hspent : ¬maxSymlinks < hops + 1 := by omega
    have hstep : walkStep tree ⟨cur, true, hops, name :: queue'⟩ =
        .inl ⟨startOf cur target, true, hops + 1, segmentsOf target ++ queue'⟩ := by
      rw [walkStep]
      simp only [if_neg hname.ne_dot, if_neg hname.ne_dots, walkName, if_true, hnode,
        if_neg hspent]
    rw [hwalk, walk_step hstep]
    apply ih (by omega)
    rw [List.filter_append, List.filter_append, segmentsOf_plain hplain, hrest]

/-! ## The names on the way -/

/-- The path branches off the root's by names without a backslash. -/
def BranchesOff (realRoot path : Path) : Prop :=
  ∃ common names, path = common ++ names ∧ common <+: realRoot ∧ ∀ name ∈ names, backslash ∉ name

theorem BranchesOff.dropLast {realRoot path : Path} (h : BranchesOff realRoot path) :
    BranchesOff realRoot path.dropLast := by
  obtain ⟨common, names, rfl, hcommon, hnames⟩ := h
  cases names using List.reverseRecOn with
  | nil =>
    refine ⟨common.dropLast, [], by simp, (List.dropLast_prefix common).trans hcommon, by simp⟩
  | append_singleton names name =>
    refine ⟨common, names, ?_, hcommon, fun n hn => hnames n (List.mem_append_left _ hn)⟩
    rw [← List.append_assoc, List.dropLast_concat]

theorem BranchesOff.child {realRoot path : Path} (h : BranchesOff realRoot path) {name : JsString}
    (hname : backslash ∉ name) : BranchesOff realRoot (path ++ [name]) := by
  obtain ⟨common, names, rfl, hcommon, hnames⟩ := h
  refine ⟨common, names ++ [name], List.append_assoc .., hcommon, ?_⟩
  intro n hn
  obtain hn | hn := List.mem_append.mp hn
  · exact hnames n hn
  · rw [List.mem_singleton.mp hn]
    exact hname

theorem BranchesOff.start {realRoot path : Path} (h : BranchesOff realRoot path) (text : JsString) :
    BranchesOff realRoot (startOf path text) := by
  unfold startOf
  split_ifs
  · exact ⟨[], [], rfl, List.nil_prefix, by simp⟩
  · exact h

theorem mem_of_mem_splitOn {text segment : JsString} (h : segment ∈ text.splitOn slash) {c : UInt16}
    (hc : c ∈ segment) : c ∈ text := by
  induction text generalizing segment with
  | nil =>
    rw [List.splitOn_nil, List.mem_singleton] at h
    rw [h] at hc
    cases hc
  | cons d text ih =>
    rw [List.splitOn, List.splitOnP_cons_eq_if_modifyHead, ← List.splitOn] at h
    split_ifs at h
    · obtain rfl | h := List.mem_cons.mp h
      · cases hc
      · exact List.mem_cons_of_mem _ (ih h hc)
    · cases hsplit : text.splitOn slash with
      | nil =>
        rw [hsplit] at h
        cases h
      | cons first rest =>
        rw [hsplit] at h ih
        obtain rfl | h := List.mem_cons.mp h
        · obtain rfl | hc := List.mem_cons.mp hc
          · exact List.mem_cons_self
          · exact List.mem_cons_of_mem _ (ih List.mem_cons_self hc)
        · exact List.mem_cons_of_mem _ (ih (List.mem_cons_of_mem _ h) hc)

theorem lookupSegments_noBackslash {text : JsString} (h : PlainText text) :
    ∀ segment ∈ lookupSegments text, backslash ∉ segment := by
  intro segment hsegment hc
  obtain hm | hm := List.mem_append.mp hsegment
  · exact h.noBackslash (mem_of_mem_splitOn (List.mem_filter.mp hm).1 hc)
  · split_ifs at hm
    · rw [List.mem_singleton.mp hm] at hc
      exact absurd hc (by decide)
    · cases hm

theorem Lookup.branchesOff {realRoot : Path} {left : Nat} {segments : List JsString}
    (h : Lookup tree PlainText left cur segments final) (hcur : BranchesOff realRoot cur)
    (hsegments : ∀ segment ∈ segments, backslash ∉ segment) : BranchesOff realRoot final := by
  induction h with
  | done => exact hcur
  | dot _ _ ih => exact ih hcur fun s hs => hsegments s (List.mem_cons_of_mem _ hs)
  | dots _ _ ih => exact ih hcur.dropLast fun s hs => hsegments s (List.mem_cons_of_mem _ hs)
  | child _ _ ih =>
    rw [List.forall_mem_cons] at hsegments
    exact ih (hcur.child hsegments.1) hsegments.2
  | link _ _ hplain _ ih =>
    rw [List.forall_mem_cons] at hsegments
    apply ih (hcur.start _)
    intro segment hm
    obtain hm | hm := List.mem_append.mp hm
    · exact lookupSegments_noBackslash hplain segment hm
    · exact hsegments.2 segment hm

theorem relative_noBackslash {realRoot path : Path} (h : BranchesOff realRoot path) :
    backslash ∉ relative realRoot path := by
  obtain ⟨common, names, rfl, ⟨below, rfl⟩, hnames⟩ := h
  rw [relative, relativeSegments_common, joinPath]
  have hsegments : ∀ segment ∈ relativeSegments below names, backslash ∉ segment := by
    intro segment hm
    obtain rfl | hm := mem_relativeSegments hm
    · decide
    · exact hnames segment hm
  generalize relativeSegments below names = segments at hsegments
  induction segments with
  | nil => simp
  | cons segment segments ih =>
    rw [List.forall_mem_cons] at hsegments
    cases segments with
    | nil => simpa using hsegments.1
    | cons next segments =>
      rw [List.intercalate_cons_cons, List.append_assoc, List.mem_append, List.mem_append]
      rintro (hc | hc | hc)
      · exact hsegments.1 hc
      · exact absurd hc (by decide)
      · exact ih hsegments.2 hc

/-- Where lookup reaches a file, the rail path leads from the real root to it. -/
theorem resolveRailPath_lookup (tree : FileTree) (realRoot : Path)
    (hroot : tree.node realRoot = some .dir) :
    (∀ s, ∃ n, walkTurns tree n (.inl s) = .inr (walk tree s)) ∧
    ∀ filePath final, PlainText filePath → LooksUp tree PlainText realRoot filePath final →
      resolve realRoot (resolveRailPath tree realRoot filePath) = final := by
  refine ⟨walk_returns tree, ?_⟩
  rintro filePath final hplain ⟨-, hlookup⟩
  have hstart : (tree.node (startOf realRoot filePath)).isSome = true :=
    startOf_isSome (by rw [hroot]; rfl)
  have hnames := FileTree.names_plain (hlookup.final_isSome hstart)
  have hwalk := walk_of_lookup hlookup (Nat.add_zero _) (segmentsOf_plain hplain)
  have hbranch : BranchesOff realRoot final := by
    apply Lookup.branchesOff hlookup
    · apply BranchesOff.start
      exact ⟨realRoot, [], (List.append_nil _).symm, List.prefix_refl _, by simp⟩
    · exact lookupSegments_noBackslash hplain
  have hsame : (relative realRoot final).map (fun c => if c = backslash then slash else c) =
      relative realRoot final := by
    rw [List.map_congr_left, List.map_id']
    intro c hc
    rw [if_neg]
    rintro rfl
    exact relative_noBackslash hbranch hc
  rw [resolveRailPath, hwalk, Option.getD_some, hsame]
  exact resolve_relative hnames

/-! ### A link, and a name with a backslash -/

def backslashName : JsString := js "a" ++ [backslash] ++ js "b"

def sampleNodes : List (Path × Node) :=
  [([], .dir), ([js "repo"], .dir), ([js "repo", js "src"], .dir),
    ([js "repo", js "src", js "x"], .file), ([js "repo", js "alias"], .link (js "./src/")),
    ([js "repo", backslashName], .file)]

theorem sampleNodes_closed {path : Path} {name : JsString}
    (h : (sampleNodes.lookup (path ++ [name])).isSome = true) :
    sampleNodes.lookup path = some .dir ∧ PlainName name := by
  have hclosed : ClosedNodes sampleNodes := by decide
  exact hclosed.parent h

def sampleTree : FileTree where
  node path := sampleNodes.lookup path
  root := rfl
  parent _ _ h := (sampleNodes_closed h).1
  named _ _ h := (sampleNodes_closed h).2

theorem resolveRailPath_lookup_alias :
    resolve [js "repo"] (resolveRailPath sampleTree [js "repo"] (js "alias/../src/x")) =
      [js "repo", js "src", js "x"] := by
  apply (resolveRailPath_lookup sampleTree [js "repo"] rfl).2
  · exact ⟨by decide, rfl⟩
  · refine ⟨by decide, ?_⟩
    have halias : sampleTree.node [js "repo", js "alias"] = some (.link (js "./src/")) := by decide
    have hsrc : sampleTree.node [js "repo", js "src"] = some .dir := by decide
    apply Lookup.link halias (by decide) ⟨by decide, rfl⟩
    apply Lookup.dot rfl
    apply Lookup.child (Or.inr hsrc)
    apply Lookup.dot hsrc
    apply Lookup.dots hsrc
    apply Lookup.child (Or.inr hsrc)
    exact Lookup.child (Or.inl (by decide)) .done

/-- A name with a backslash is taken for two. -/
theorem backslash_separates :
    ∃ final, LooksUp sampleTree (fun _ => True) [js "repo"] backslashName final ∧
      resolve [js "repo"] (resolveRailPath sampleTree [js "repo"] backslashName) ≠ final := by
  refine ⟨[js "repo", backslashName], ⟨by decide, .child (Or.inl (by decide)) .done⟩, ?_⟩
  have ha : walkStep sampleTree ⟨[js "repo"], true, 0, [js "a", js "b"]⟩ =
      .inl ⟨[js "repo", js "a"], false, 0, [js "b"]⟩ := by decide
  have hb : walkStep sampleTree ⟨[js "repo", js "a"], false, 0, [js "b"]⟩ =
      .inl ⟨[js "repo", js "a", js "b"], false, 0, []⟩ := by decide
  have hpath : resolveRailPath sampleTree [js "repo"] backslashName = js "a/b" := by
    have hsegments : segmentsOf backslashName = [js "a", js "b"] := by decide
    have hstart : startOf [js "repo"] backslashName = [js "repo"] := by decide
    rw [resolveRailPath, hsegments, hstart, walk_step ha, walk_step hb, walk_nil]
    decide
  rw [hpath]
  decide

end Adlc.Core
