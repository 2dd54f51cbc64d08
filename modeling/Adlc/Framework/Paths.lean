import Adlc.Framework.Text

namespace Adlc.Framework

/-- An absolute path, by its segments. -/
abbrev Path := List JsString

def slash : UInt16 := 47

/-- One segment of a path, after the segments before it. -/
def pushSegment (path : Path) (segment : JsString) : Path :=
  if segment = [] ∨ segment = js "." then path
  else if segment = js ".." then path.dropLast
  else path ++ [segment]

/-- `resolve(root, value)` -/
def resolve (root : Path) (value : JsString) : Path :=
  (value.splitOn slash).foldl pushSegment (if value.head? = some slash then [] else root)

/-- `join(…)` of the segments of a relative path. -/
def joinPath (segments : Path) : JsString := [slash].intercalate segments

/-- The child is below the parent. -/
def isWithin (parent child : Path) : Bool := decide (parent <+: child ∧ parent ≠ child)

/-- A file name: no separator in it, and it stands for itself. -/
structure PlainName (name : JsString) : Prop where
  noSlash : slash ∉ name
  ne_nil : name ≠ []
  ne_dot : name ≠ js "."
  ne_dots : name ≠ js ".."

instance (name : JsString) : Decidable (PlainName name) :=
  decidable_of_iff (slash ∉ name ∧ name ≠ [] ∧ name ≠ js "." ∧ name ≠ js "..")
    ⟨fun ⟨a, b, c, d⟩ => ⟨a, b, c, d⟩, fun ⟨a, b, c, d⟩ => ⟨a, b, c, d⟩⟩

theorem pushSegment_plain {name : JsString} (h : PlainName name) (path : Path) :
    pushSegment path name = path ++ [name] := by
  rw [pushSegment, if_neg (not_or.mpr ⟨h.ne_nil, h.ne_dot⟩), if_neg h.ne_dots]

theorem foldl_pushSegment {names : Path} (h : ∀ name ∈ names, PlainName name) (path : Path) :
    names.foldl pushSegment path = path ++ names := by
  induction names generalizing path with
  | nil => simp
  | cons name names ih =>
    rw [List.foldl_cons, pushSegment_plain (h name List.mem_cons_self),
      ih fun n hn => h n (List.mem_cons_of_mem _ hn), List.append_assoc, List.singleton_append]

/-- A path of segments that are not empty and hold no slash is followed segment by segment. -/
theorem resolve_segments {segments : List JsString}
    (h : ∀ segment ∈ segments, slash ∉ segment ∧ segment ≠ []) (root : Path) :
    resolve root (joinPath segments) = segments.foldl pushSegment root := by
  cases segments with
  | nil => rfl
  | cons segment rest =>
    have hs := h segment List.mem_cons_self
    have hhead : (joinPath (segment :: rest)).head? ≠ some slash := by
      obtain ⟨c, cs, rfl⟩ := List.exists_cons_of_ne_nil hs.2
      have hc : c ≠ slash := by
        rintro rfl
        exact hs.1 List.mem_cons_self
      cases rest <;> simpa [joinPath, List.intercalate, List.intersperse] using hc
    rw [resolve, if_neg hhead, joinPath,
      List.splitOn_intercalate slash (fun l hl => (h l hl).1) (List.cons_ne_nil _ _)]

end Adlc.Framework
