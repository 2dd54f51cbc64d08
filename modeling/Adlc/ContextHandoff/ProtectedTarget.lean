import Adlc.Core.RailPath
import Adlc.ContextHandoff.DenyMarker

namespace Adlc.ContextHandoff

open Adlc.Framework Adlc.Core

/-! ## Protected names -/

/-- `replace(/\\/g, '/')` -/
def forwardSlashes (text : JsString) : JsString := text.map fun c => if c = backslash then slash else c

def startsWith (text start : JsString) : Bool := start.isPrefixOf text

/-- `norm` -/
def collapsed (rel : JsString) : JsString :=
  joinPath (((forwardSlashes rel).splitOn slash).foldl pushSegment [])

def isProtectedHandoffPath (rel : JsString) : Bool :=
  let norm := collapsed rel
  let leaf := basename norm
  rel ≠ [] &&
    (norm = js ".adlc/.deny-store" || norm = js ".adlc/handoffs/.deny-store" ||
      norm = js ".adlc/handoffs/denies" || startsWith norm (js ".adlc/handoffs/denies/") ||
      norm = js ".adlc/handoffs/content" || startsWith norm (js ".adlc/handoffs/content/") ||
      (startsWith norm (js ".adlc/handoffs/") &&
        (endsWith leaf (js ".resume-auth.json") || endsWith leaf (js ".model-ok") ||
          endsWith leaf (js ".lock") || endsWith leaf (js ".bypass-grant.json"))))

/-! ## What a path resolves to -/

/-- `realpathSync(path)`; nothing where it throws. -/
def realpathSync (tree : FileTree) (path : Path) : Option Path :=
  seek tree false maxSymlinks [] path

def existsSync (tree : FileTree) (path : Path) : Bool := (realpathSync tree path).isSome

/-- The nearest path above that exists, and the names below it. -/
def nearestExisting (tree : FileTree) : Nat → Path → List JsString → Option (Path × List JsString)
  | 0, probe, trailing => if existsSync tree probe then some (probe, trailing) else none
  | turns + 1, probe, trailing =>
    if existsSync tree probe then some (probe, trailing)
    else
      match probe.getLast? with
      | none => none
      | some name => nearestExisting tree turns probe.dropLast (name :: trailing)

def resolvedRepoRelative (tree : FileTree) (root : Path) (rel : JsString) : Option JsString :=
  if rel = [] then none
  else
    match nearestExisting tree 64 (resolve root rel) [], realpathSync tree root with
    | some (probe, trailing), some realRoot =>
      match realpathSync tree probe with
      | none => none
      | some realProbe =>
        let back := forwardSlashes (relative realRoot (realProbe ++ trailing))
        if back = [] || startsWith back (js "..") then none else some back
    | _, _ => none

/-! ## The classification -/

inductive Via where
  | lexical
  | symlink
  | covers
  deriving DecidableEq

/-- Nothing where the path is not protected. -/
def classifyHandoffPath (tree : FileTree) (root : Path) (rel : JsString) : Option Via :=
  if isProtectedHandoffPath rel then some .lexical
  else
    match resolvedRepoRelative tree root rel with
    | some resolved =>
      if resolved ≠ rel && isProtectedHandoffPath resolved then some .symlink else none
    | none => none

/-- `PROTECTED_SHELL_ROOTS` -/
def protectedShellRoots : List JsString := [js ".adlc/handoffs", js ".adlc/.deny-store"]

def coversProtectedRoot (rel : JsString) : Bool :=
  rel ≠ [] && protectedShellRoots.any fun p =>
    p = rel || startsWith p (rel ++ [slash]) || startsWith rel (p ++ [slash])

def classifyProtectedTarget (tree : FileTree) (root : Path) (rel : JsString) : Option Via :=
  match classifyHandoffPath tree root rel with
  | some via => some via
  | none =>
    match resolvedRepoRelative tree root rel with
    | some resolved => if coversProtectedRoot resolved then some .covers else none
    | none => none

/-! ## What a write touches -/

def handoffs : Path := [js ".adlc", js "handoffs"]

/-- The files of the handoff store, below the root of the repository. -/
inductive HandoffArtifact : Path → Prop where
  | sentinel : HandoffArtifact [js ".adlc", js ".deny-store"]
  | legacySentinel : HandoffArtifact (handoffs ++ [js ".deny-store"])
  | denyMarker {sessionId : JsString} : isSafeSessionId sessionId = true →
      HandoffArtifact (handoffs ++ [js "denies", markerName sessionId])
  | bypassGrant {sessionId : JsString} : isSafeSessionId sessionId = true →
      HandoffArtifact (handoffs ++ [sessionId ++ js ".bypass-grant.json"])
  | resumeAuth {sessionId : JsString} : isSafeSessionId sessionId = true →
      HandoffArtifact (handoffs ++ [sessionId ++ js ".resume-auth.json"])
  | final {sessionId : JsString} : isSafeSessionId sessionId = true →
      HandoffArtifact (handoffs ++ [js "finals", sessionId ++ js ".json"])
  | capture {sessionId : JsString} : isSafeSessionId sessionId = true →
      HandoffArtifact (handoffs ++ [js "content", sessionId ++ js ".md"])

/-- The file that an open for writing of this path, from this directory, changes or makes. -/
def writes (tree : FileTree) (cwd : Path) (text : JsString) : Option Path :=
  if text = [] then none
  else (seek tree true maxSymlinks (startOf cwd text) (lookupSegments text)).filter fun place =>
    tree.node place ≠ some .dir

/-- A write of the path, from the root of the repository, changes or makes an artifact. -/
def TouchesArtifact (tree : FileTree) (root : Path) (rel : JsString) : Prop :=
  ∃ realRoot artifact place, realpathSync tree root = some realRoot ∧ HandoffArtifact artifact ∧
    writes tree realRoot (joinPath artifact) = some place ∧ writes tree realRoot rel = some place

/-- Up to the longest part that exists, the path is looked up; what is left, at most 64 names, is
appended. -/
def LeadsTo (tree : FileTree) (path place : Path) : Prop :=
  ∃ existing below reached, path = existing ++ below ∧ below.length ≤ 64 ∧
    Lookup tree (fun _ => True) maxSymlinks [] existing reached ∧ place = reached ++ below ∧
    ∀ more, more ≠ [] → more <+: below →
      ¬∃ final, Lookup tree (fun _ => True) maxSymlinks [] (existing ++ more) final

/-- The names below the root of the repository that stand for the handoff store. -/
def InHandoffStore (names : Path) : Prop :=
  let text := forwardSlashes (joinPath names)
  startsWith text (js "..") = false ∧
    (isProtectedHandoffPath text = true ∨ coversProtectedRoot text = true)

/-! ## The longest part that exists -/

variable {tree : FileTree}

theorem realpathSync_iff {path place : Path} : realpathSync tree path = some place ↔
    Lookup tree (fun _ => True) maxSymlinks [] path place := seek_iff_lookup

theorem existsSync_iff {path : Path} : existsSync tree path = true ↔
    ∃ place, Lookup tree (fun _ => True) maxSymlinks [] path place := by
  rw [existsSync, Option.isSome_iff_exists]
  exact exists_congr fun _ => realpathSync_iff

theorem existsSync_root : existsSync tree [] = true := rfl

/-- The part is the longest that exists, and what is below it has at most so many names. -/
structure Nearest (tree : FileTree) (turns : Nat) (probe existing below : Path) : Prop where
  parts : probe = existing ++ below
  short : below.length ≤ turns
  exists_ : existsSync tree existing = true
  longest : ∀ more, more ≠ [] → more <+: below → existsSync tree (existing ++ more) = false

theorem Nearest.self {turns : Nat} {probe : Path} (h : existsSync tree probe = true) :
    Nearest tree turns probe probe [] where
  parts := (List.append_nil probe).symm
  short := Nat.zero_le _
  exists_ := h
  longest _ hne hmore := absurd (List.prefix_nil.mp hmore) hne

/-- Nothing is below a part that exists. -/
theorem Nearest.eq_self {turns : Nat} {probe existing below : Path}
    (h : Nearest tree turns probe existing below) (hprobe : existsSync tree probe = true) :
    existing = probe ∧ below = [] := by
  have hbelow : below = [] := by
    by_contra hne
    have hmissing := h.longest below hne (List.prefix_refl below)
    rw [← h.parts, hprobe] at hmissing
    cases hmissing
  rw [h.parts, hbelow, List.append_nil]
  exact ⟨rfl, rfl⟩

theorem Nearest.push {turns : Nat} {probe existing below : Path} {name : JsString}
    (h : Nearest tree turns probe existing below) (hmissing : existsSync tree (probe ++ [name]) = false) :
    Nearest tree (turns + 1) (probe ++ [name]) existing (below ++ [name]) where
  parts := by rw [h.parts, List.append_assoc]
  short := by
    have hshort := h.short
    simp only [List.length_append, List.length_singleton]
    omega
  exists_ := h.exists_
  longest more hne hmore := by
    obtain rfl | hbelow := List.prefix_concat_iff.mp hmore
    · rwa [← List.append_assoc, ← h.parts]
    · exact h.longest more hne hbelow

theorem Nearest.pop {turns : Nat} {probe existing below : Path} {name : JsString}
    (h : Nearest tree (turns + 1) (probe ++ [name]) existing below)
    (hmissing : existsSync tree (probe ++ [name]) = false) :
    ∃ below', below = below' ++ [name] ∧ Nearest tree turns probe existing below' := by
  obtain rfl | ⟨below', last, rfl⟩ := List.eq_nil_or_concat below
  · have hexists := h.exists_
    rw [h.parts, List.append_nil, hexists] at hmissing
    cases hmissing
  · have hparts := h.parts
    rw [List.concat_eq_append, ← List.append_assoc] at hparts
    obtain ⟨hprobe, hname⟩ := List.append_inj' hparts rfl
    obtain rfl := List.singleton_inj.mp hname
    have hshort := h.short
    refine ⟨below', List.concat_eq_append, hprobe, ?_, h.exists_, ?_⟩
    · rw [List.length_concat] at hshort
      omega
    · intro more hne hmore
      apply h.longest more hne
      rw [List.concat_eq_append]
      exact hmore.trans (List.prefix_append _ _)

theorem nearestExisting_iff {turns : Nat} {probe existing : Path} {trailing names : List JsString} :
    nearestExisting tree turns probe trailing = some (existing, names) ↔
      ∃ below, names = below ++ trailing ∧ Nearest tree turns probe existing below := by
  induction turns generalizing probe trailing with
  | zero =>
    rw [nearestExisting]
    split_ifs with hprobe
    · simp only [Option.some.injEq, Prod.mk.injEq]
      constructor
      · rintro ⟨rfl, rfl⟩
        exact ⟨[], rfl, .self hprobe⟩
      · rintro ⟨below, rfl, hnearest⟩
        obtain ⟨rfl, rfl⟩ := hnearest.eq_self hprobe
        exact ⟨rfl, rfl⟩
    · simp only [false_iff, not_exists, not_and]
      intro below _ hnearest
      have hbelow := List.length_eq_zero_iff.mp (Nat.le_zero.mp hnearest.short)
      have hparts := hnearest.parts
      rw [hbelow, List.append_nil] at hparts
      rw [hparts] at hprobe
      exact hprobe hnearest.exists_
  | succ turns ih =>
    rw [nearestExisting]
    split_ifs with hprobe
    · simp only [Option.some.injEq, Prod.mk.injEq]
      constructor
      · rintro ⟨rfl, rfl⟩
        exact ⟨[], rfl, .self hprobe⟩
      · rintro ⟨below, rfl, hnearest⟩
        obtain ⟨rfl, rfl⟩ := hnearest.eq_self hprobe
        exact ⟨rfl, rfl⟩
    · obtain rfl | ⟨init, name, rfl⟩ := List.eq_nil_or_concat probe
      · exact absurd existsSync_root hprobe
      · rw [List.concat_eq_append] at hprobe ⊢
        have hmissing := Bool.eq_false_iff.mpr hprobe
        rw [List.getLast?_concat, List.dropLast_concat]
        simp only
        rw [ih]
        constructor
        · rintro ⟨below, rfl, hnearest⟩
          exact ⟨below ++ [name], by simp, hnearest.push hmissing⟩
        · rintro ⟨below, rfl, hnearest⟩
          obtain ⟨below', rfl, hnearest'⟩ := hnearest.pop hmissing
          exact ⟨below', by simp, hnearest'⟩

/-- What the collapsed path leads to, by its longest part that exists. -/
theorem leadsTo_iff {path place : Path} : LeadsTo tree path place ↔
    ∃ existing below reached, Nearest tree 64 path existing below ∧
      realpathSync tree existing = some reached ∧ place = reached ++ below := by
  constructor
  · rintro ⟨existing, below, reached, hpath, hshort, hlookup, hplace, hlongest⟩
    refine ⟨existing, below, reached, ⟨hpath, hshort, existsSync_iff.mpr ⟨_, hlookup⟩, ?_⟩,
      realpathSync_iff.mpr hlookup, hplace⟩
    intro more hne hmore
    have hnone := hlongest more hne hmore
    rwa [← existsSync_iff, Bool.not_eq_true] at hnone
  · rintro ⟨existing, below, reached, hnearest, hreal, hplace⟩
    refine ⟨existing, below, reached, hnearest.parts, hnearest.short, realpathSync_iff.mp hreal, hplace,
      ?_⟩
    intro more hne hmore
    rw [← existsSync_iff, hnearest.longest more hne hmore]
    exact Bool.false_ne_true

variable {root : Path} {rel : JsString}

theorem nearestExisting_leadsTo {path place : Path} : LeadsTo tree path place ↔
    ∃ existing below reached, nearestExisting tree 64 path [] = some (existing, below) ∧
      realpathSync tree existing = some reached ∧ place = reached ++ below := by
  rw [leadsTo_iff]
  constructor
  · rintro ⟨existing, below, reached, hnearest, hreal, hplace⟩
    exact ⟨existing, below, reached,
      nearestExisting_iff.mpr ⟨below, (List.append_nil below).symm, hnearest⟩, hreal, hplace⟩
  · rintro ⟨existing, below, reached, hfound, hreal, hplace⟩
    obtain ⟨below', hbelow, hnearest⟩ := nearestExisting_iff.mp hfound
    rw [List.append_nil] at hbelow
    rw [hbelow] at hplace
    exact ⟨existing, below', reached, hnearest, hreal, hplace⟩

/-- The text of what is below the root of the repository. -/
theorem resolvedRepoRelative_iff {back : JsString} : resolvedRepoRelative tree root rel = some back ↔
    rel ≠ [] ∧ ∃ realRoot place, realpathSync tree root = some realRoot ∧
      LeadsTo tree (resolve root rel) place ∧ back = forwardSlashes (relative realRoot place) ∧
      back ≠ [] ∧ startsWith back (js "..") = false := by
  rw [resolvedRepoRelative]
  by_cases hrel : rel = []
  · simp [hrel]
  · rw [if_neg hrel]
    constructor
    · intro h
      cases hfound : nearestExisting tree 64 (resolve root rel) [] with
      | none => simp [hfound] at h
      | some found =>
        obtain ⟨existing, below⟩ := found
        cases hroot : realpathSync tree root with
        | none => simp [hfound, hroot] at h
        | some realRoot =>
          simp only [hfound, hroot] at h
          cases hreal : realpathSync tree existing with
          | none => simp [hreal] at h
          | some reached =>
            simp only [hreal] at h
            split_ifs at h with hout
            obtain rfl := Option.some.inj h
            rw [Bool.or_eq_true, not_or, decide_eq_true_eq, Bool.not_eq_true] at hout
            exact ⟨hrel, realRoot, reached ++ below, rfl,
              nearestExisting_leadsTo.mpr ⟨existing, below, reached, hfound, hreal, rfl⟩, rfl, hout⟩
    · rintro ⟨-, realRoot, place, hroot, hleads, rfl, hne, hbelow⟩
      obtain ⟨existing, below, reached, hfound, hreal, rfl⟩ := nearestExisting_leadsTo.mp hleads
      simp only [hfound, hroot, hreal]
      rw [if_neg]
      simp [hne, hbelow]

theorem forwardSlashes_append (s t : JsString) :
    forwardSlashes (s ++ t) = forwardSlashes s ++ forwardSlashes t := List.map_append

/-- A step up shows at the start of the text. -/
theorem startsWith_up (rest : Path) :
    startsWith (forwardSlashes (joinPath (js ".." :: rest))) (js "..") = true := by
  obtain ⟨tail, htail⟩ : ∃ tail, joinPath (js ".." :: rest) = js ".." ++ tail := by
    cases rest with
    | nil => exact ⟨[], by simp [joinPath]⟩
    | cons name rest => exact ⟨slash :: joinPath (name :: rest), by simp [joinPath]⟩
  rw [htail, forwardSlashes_append, startsWith, List.isPrefixOf_iff_prefix]
  exact List.prefix_append _ _

/-- What is resolved and not outside the root is named by what is below the root. -/
theorem resolvedRepoRelative_names {P : JsString → Prop} (hnil : ¬P []) :
    (∃ back, resolvedRepoRelative tree root rel = some back ∧ P back) ↔
      rel ≠ [] ∧ ∃ realRoot names, realpathSync tree root = some realRoot ∧
        LeadsTo tree (resolve root rel) (realRoot ++ names) ∧
        startsWith (forwardSlashes (joinPath names)) (js "..") = false ∧
        P (forwardSlashes (joinPath names)) := by
  constructor
  · rintro ⟨back, hback, hP⟩
    obtain ⟨hrel, realRoot, place, hroot, hleads, rfl, -, hbelow⟩ := resolvedRepoRelative_iff.mp hback
    obtain ⟨names, rfl, hnames⟩ | ⟨rest, hup⟩ := relativeSegments_below realRoot place
    · rw [relative, hnames] at hbelow hP
      exact ⟨hrel, realRoot, names, hroot, hleads, hbelow, hP⟩
    · rw [relative, hup, startsWith_up] at hbelow
      cases hbelow
  · rintro ⟨hrel, realRoot, names, hroot, hleads, hbelow, hP⟩
    refine ⟨forwardSlashes (joinPath names), resolvedRepoRelative_iff.mpr ⟨hrel, realRoot,
      realRoot ++ names, hroot, hleads, ?_, ?_, hbelow⟩, hP⟩
    · rw [relative, relativeSegments_self_append]
    · intro hempty
      rw [hempty] at hP
      exact hnil hP

/-! ## Exactly when a write is reported -/

theorem classifyProtectedTarget_isSome :
    (classifyProtectedTarget tree root rel).isSome = true ↔ isProtectedHandoffPath rel = true ∨
      ∃ back, resolvedRepoRelative tree root rel = some back ∧
        (isProtectedHandoffPath back = true ∨ coversProtectedRoot back = true) := by
  rw [classifyProtectedTarget, classifyHandoffPath]
  cases hlexical : isProtectedHandoffPath rel with
  | true => simp
  | false =>
    cases hresolved : resolvedRepoRelative tree root rel with
    | none => simp
    | some back =>
      have hother : isProtectedHandoffPath back = true → back ≠ rel := by
        rintro hback rfl
        rw [hlexical] at hback
        cases hback
      cases hback : isProtectedHandoffPath back with
      | true => simp [hother hback, hback]
      | false => cases hcovers : coversProtectedRoot back <;> simp [hback, hcovers]

/-- A link to an artifact that is not there yet. -/
def danglingNodes : List (Path × Node) :=
  [([], .dir), ([js "repo"], .dir), ([js "repo", js ".adlc"], .dir),
    ([js "repo", js ".adlc", js "handoffs"], .dir),
    ([js "repo", js "alias"], .link (js ".adlc/handoffs/s.bypass-grant.json"))]

def danglingTree : FileTree := FileTree.ofNodes danglingNodes (by decide)

end Adlc.ContextHandoff
