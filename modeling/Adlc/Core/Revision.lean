import Adlc.Framework.Records
import Adlc.Framework.Sha256
import Adlc.Framework.StableSort
import Adlc.Tickets.ManifestPrimitives
import Mathlib.Data.Set.Function

namespace Adlc.Core

open Adlc.Framework Adlc.Tickets

/-! ## The identity of a change set -/

/-- What git and the file system answer in a worktree. `none` is a command that fails. -/
structure Worktree where
  /-- `git rev-parse <ref>` -/
  revParse : JsString → Option Bytes
  /-- `git merge-base --all <tip> HEAD` -/
  mergeBase : JsString → Option Bytes
  /-- `git diff --raw --no-renames --abbrev=40 -z <commit>` -/
  diffRaw : JsString → Option Bytes
  /-- `git hash-object -- <path>…` -/
  hashObject : List JsString → Option Bytes
  /-- `git hash-object --stdin` on the target of a symbolic link -/
  hashTarget : JsString → Option Bytes
  /-- `ignoredPathSet(cwd, ignorePaths)` -/
  ignoredPaths : List JsString

/-- A field that does not decode to its own bytes is refused. -/
def decodeExact (field : Bytes) : Option JsString :=
  if utf8Encode (utf8Decode field) = field then some (utf8Decode field) else none

def splitNulPaths (raw : Bytes) : Option (List JsString) :=
  ((raw.splitOn 0).filter fun field => field != []).mapM decodeExact

/-- `path.replaceAll('\\', '/')` -/
def slashed (path : JsString) : JsString := path.map fun c => if c = 0x5C then 0x2F else c

def isIgnoredPath (relativePath : JsString) (ignoredPaths : List JsString) : Bool :=
  ignoredPaths.any fun path =>
    slashed relativePath == path || (path ++ [0x2F]).isPrefixOf (slashed relativePath)

/-- `text.split(/\s+/)`, where `gap` says that the last unit read was white space. -/
def splitSpaces (gap : Bool) : JsString → List JsString
  | [] => [[]]
  | c :: text =>
    if isTrimmed c then if gap then splitSpaces true text else [] :: splitSpaces true text
    else (splitSpaces false text).modifyHead (c :: ·)

/-- An element of `changed`. -/
structure ChangedEntry where
  path : JsString
  normalized : JsString
  srcMode : JsString
  dstMode : JsString
  srcSha : JsString

/-- `:<srcmode> <dstmode> <srcsha> <dstsha> <status>` and a path; a part that is missing reads
as the empty text, as it does in `join`. -/
def ChangedEntry.read (info path : JsString) : ChangedEntry :=
  let parts := splitSpaces false (if info.head? = some 0x3A then info.tail else info)
  { path, normalized := slashed path, srcMode := parts.getD 0 [], dstMode := parts.getD 1 [],
    srcSha := parts.getD 2 [] }

/-- The loop over the pairs of fields. -/
def readChanged (ignoredPaths : List JsString) : List JsString → List ChangedEntry
  | info :: path :: raw =>
    if info = [] ∨ path = [] then readChanged ignoredPaths raw
    else if isIgnoredPath path ignoredPaths then readChanged ignoredPaths raw
    else ChangedEntry.read info path :: readChanged ignoredPaths raw
  | _ => []

def deletedMode : JsString := js "000000"
def nullObject : JsString := List.replicate 40 48
def regularModes : List JsString := [js "100644", js "100755"]
def symlinkMode : JsString := js "120000"

/-- The chunks `batchWorkingTreeBlobs` flushes. -/
def blobChunks (chunk : List JsString) (chunkBytes : Nat) : List JsString → List (List JsString)
  | [] => if chunk = [] then [] else [chunk]
  | path :: paths =>
    let pathBytes := (utf8Encode path).length + 1
    if chunk ≠ [] ∧ chunkBytes + pathBytes > 128 * 1024 then
      chunk :: blobChunks [path] pathBytes paths
    else blobChunks (chunk ++ [path]) (chunkBytes + pathBytes) paths

/-- The lines `text.split('\n').filter(Boolean)` -/
def filledLines (text : JsString) : List JsString := (splitLines text).filter fun line => line != []

/-- `flush`: the objects of one chunk, by path. -/
def flushChunk (w : Worktree) (chunk : List JsString) : Option (List (JsString × JsString)) :=
  (w.hashObject chunk).map fun output => chunk.zip (filledLines (utf8Decode output))

def batchWorkingTreeBlobs (w : Worktree) (paths : List JsString) :
    Option (List (JsString × JsString)) :=
  ((blobChunks [] 0 paths).mapM (flushChunk w)).map List.flatten

/-- `Map.get`: the value that was set last. -/
def objectOf (blobs : List (JsString × JsString)) (path : JsString) : Option JsString :=
  blobs.reverse.lookup path

def symlinkBlob (w : Worktree) (path : JsString) : Option JsString :=
  (w.hashTarget path).map fun output => trim (utf8Decode output)

/-- The object on the current side; `none` makes the identity null. -/
def currentObject (w : Worktree) (blobs : List (JsString × JsString)) (entry : ChangedEntry) :
    Option JsString :=
  (if entry.dstMode = deletedMode then some nullObject
  else if entry.dstMode = symlinkMode then symlinkBlob w entry.path
  else if entry.dstMode ∈ regularModes then objectOf blobs entry.path
  else none).filter fun object => object != []

def joinSpaces (parts : List JsString) : JsString := [32].intercalate parts

def entryText (entry : ChangedEntry) (object : JsString) : JsString :=
  joinSpaces [entry.normalized, entry.srcMode, entry.srcSha, entry.dstMode, object]

/-- What the hash is given: the sorted entries, each followed by a NUL. -/
def hashedEntries (entries : List JsString) : Bytes :=
  terminated 0 ((entries.mergeSort unitLe).map utf8Encode)

/-- The entries of the changes since `baseSha`. -/
def changeEntries (w : Worktree) (baseSha : JsString) : Option (List JsString) := do
  let raw ← splitNulPaths (← w.diffRaw baseSha)
  let changed := readChanged w.ignoredPaths raw
  let regular := changed.filter fun entry => decide (entry.dstMode ∈ regularModes)
  let blobs ← batchWorkingTreeBlobs w (regular.map ChangedEntry.path)
  changed.mapM fun entry => (currentObject w blobs entry).map (entryText entry)

/-- `/^[0-9a-f]{40,64}$/` -/
def isFullSha (text : JsString) : Bool :=
  40 ≤ text.length && text.length ≤ 64 && text.all isHexUnit

/-- The one merge base of `base` and HEAD. -/
def mergeBaseOf (w : Worktree) (base : JsString) : Option JsString := do
  let baseTip := trim (utf8Decode (← w.revParse base))
  if baseTip = [] then none
  else
    match filledLines (trim (utf8Decode (← w.mergeBase baseTip))) with
    | [baseSha] => if isFullSha baseSha then some baseSha else none
    | _ => none

/-- `git-change:<base>:<digest>` -/
def changeIdentity (baseSha : JsString) (entries : List JsString) : JsString :=
  js "git-change" ++ 0x3A :: (baseSha ++ 0x3A :: sha256Hex (hashedEntries entries))

def resolveChangeSetRevision (w : Worktree) (base revision : Option JsString) : Option JsString :=
  if notBlank (revision.getD []) then revision
  else if notBlank (base.getD []) then do
    let baseSha ← mergeBaseOf w (base.getD [])
    return changeIdentity baseSha (← changeEntries w baseSha)
  else none

/-! ## The change set git reports -/

/-- Printable ASCII without a space, as modes, object ids and status letters are. -/
structure IsWord (word : JsString) : Prop where
  filled : word ≠ []
  printable : ∀ c ∈ word, 0x21 ≤ c.toNat ∧ c.toNat < 0x7F

/-- A line of `git diff --raw`, with the bytes of its path. -/
structure RawChange where
  srcMode : JsString
  dstMode : JsString
  srcSha : JsString
  dstSha : JsString
  status : JsString
  path : Bytes

structure RawChange.Ok (change : RawChange) : Prop where
  srcMode : IsWord change.srcMode
  dstMode : IsWord change.dstMode
  srcSha : IsWord change.srcSha
  dstSha : IsWord change.dstSha
  status : IsWord change.status
  path : change.path ≠ [] ∧ 0 ∉ change.path

def RawChange.info (change : RawChange) : JsString :=
  0x3A :: joinSpaces [change.srcMode, change.dstMode, change.srcSha, change.dstSha, change.status]

/-- The output of `git diff --raw -z`. -/
def rawListing (changes : List RawChange) : Bytes :=
  terminated 0 (changes.flatMap fun change => [utf8Encode change.info, change.path])

/-- A worktree whose commands report these changes since `baseSha`: `blob` are the object ids of
its files, `target` those of its links. -/
structure Worktree.Reports (w : Worktree) (baseSha : JsString) (changes : List RawChange)
    (blob target : JsString → JsString) : Prop where
  listing : w.diffRaw baseSha = some (rawListing changes)
  ok : ∀ change ∈ changes, change.Ok
  blobs : ∀ paths output, w.hashObject paths = some output →
    output = utf8Encode (unlines (paths.map blob))
  targets : ∀ path output, w.hashTarget path = some output →
    output = utf8Encode (unlines [target path])
  blobIds : ∀ path, IsWord (blob path)
  targetIds : ∀ path, IsWord (target path)

/-- A path with what it was and what it is now. -/
structure Change where
  path : Bytes
  srcMode : JsString
  srcSha : JsString
  dstMode : JsString
  object : JsString
  deriving DecidableEq

def RawChange.current (blob target : JsString → JsString) (change : RawChange) : Change where
  path := change.path
  srcMode := change.srcMode
  srcSha := change.srcSha
  dstMode := change.dstMode
  object :=
    if change.dstMode = deletedMode then nullObject
    else if change.dstMode = symlinkMode then target (utf8Decode change.path)
    else blob (utf8Decode change.path)

/-- The changes outside the ignored paths. -/
def changeSet (ignoredPaths : List JsString) (blob target : JsString → JsString)
    (changes : List RawChange) : List Change :=
  (changes.filter fun change => !isIgnoredPath (utf8Decode change.path) ignoredPaths).map
    (RawChange.current blob target)

/-- A change with its path as the identity has it. -/
structure SeenChange where
  path : JsString
  srcMode : JsString
  srcSha : JsString
  dstMode : JsString
  object : JsString
  deriving DecidableEq

def Change.seen (change : Change) : SeenChange where
  path := slashed (utf8Decode change.path)
  srcMode := change.srcMode
  srcSha := change.srcSha
  dstMode := change.dstMode
  object := change.object

def SeenChange.text (change : SeenChange) : JsString :=
  joinSpaces [change.path, change.srcMode, change.srcSha, change.dstMode, change.object]

/-! ## Text that encodes faithfully -/

theorem zero_mem_utf8Scalar {c : Nat} (h : c < 0x110000) : 0 ∈ utf8Scalar c ↔ c = 0 := by
  have hbyte : ∀ n, n < 256 → ((0 : UInt8) = byte n ↔ n = 0) := by
    intro n hn
    rw [← UInt8.toNat_inj, byte_toNat hn]
    exact eq_comm
  unfold utf8Scalar
  split_ifs with h1 h2 h3
  · rw [List.mem_singleton, hbyte c (by omega)]
  · simp only [List.mem_cons, List.not_mem_nil, or_false]
    rw [hbyte _ (by omega), hbyte _ (by omega)]
    omega
  · simp only [List.mem_cons, List.not_mem_nil, or_false]
    rw [hbyte _ (by omega), hbyte _ (by omega), hbyte _ (by omega)]
    omega
  · simp only [List.mem_cons, List.not_mem_nil, or_false]
    rw [hbyte _ (by omega), hbyte _ (by omega), hbyte _ (by omega), hbyte _ (by omega)]
    omega

theorem zero_mem_utf8Encode (s : JsString) : 0 ∈ utf8Encode s ↔ (0 : UInt16) ∈ s := by
  have hunit : ∀ c : UInt16, c.toNat = 0 ↔ (0 : UInt16) = c := by
    intro c
    rw [← UInt16.toNat_inj]
    exact eq_comm
  have hhigh : ∀ c : UInt16, isHigh c = true → (0 : UInt16) ≠ c := by
    rintro c hc rfl
    cases hc
  have hlow : ∀ c : UInt16, isLow c = true → (0 : UInt16) ≠ c := by
    rintro c hc rfl
    cases hc
  have hrep : (0 : UInt8) ∉ utf8Scalar 0xFFFD := by decide
  fun_induction utf8Encode s with
  | case1 => simp
  | case2 c hc => simp [hhigh c hc, hrep]
  | case3 c hc d r hd ih =>
    have hs := pairScalar_scalar c d hc hd
    have hne : pairScalar c d ≠ 0 := by
      unfold pairScalar
      omega
    have hz : (0 : UInt8) ∉ utf8Scalar (pairScalar c d) := by
      rw [zero_mem_utf8Scalar (by unfold IsScalar at hs; omega)]
      exact hne
    simp [hz, ih, hhigh c hc, hlow d hd]
  | case4 c hc d r hd ih => simp [hrep, ih, hhigh c hc]
  | case5 c r hc hl ih => simp [hrep, ih, hlow c hl]
  | case6 c r hc hl ih =>
    have hlt := c.toNat_lt
    have hz : 0 ∈ utf8Scalar c.toNat ↔ (0 : UInt16) = c :=
      (zero_mem_utf8Scalar (by omega)).trans (hunit c)
    rw [List.mem_append, List.mem_cons]
    exact or_congr hz ih

theorem decodeExact_spec {field : Bytes} {text : JsString} (h : decodeExact field = some text) :
    text = utf8Decode field ∧ utf8Encode text = field ∧ wellFormed text = true := by
  unfold decodeExact at h
  split_ifs at h with he
  have ht := Option.some.inj h
  subst ht
  refine ⟨rfl, he, ?_⟩
  have hd := utf8Decode_encode (utf8Decode field)
  rw [he] at hd
  rw [hd]
  exact wellFormed_toWellFormed _

theorem decodeExact_encode {text : JsString} (h : wellFormed text = true) :
    decodeExact (utf8Encode text) = some text := by
  rw [decodeExact, utf8Decode_encode_of_wellFormed text h, if_pos rfl]

theorem IsWord.wellFormed {word : JsString} (h : IsWord word) :
    Adlc.Framework.wellFormed word = true := by
  obtain ⟨-, h⟩ := h
  induction word with
  | nil => rfl
  | cons c word ih =>
    have hc := h c List.mem_cons_self
    have hh : ¬isHigh c = true := by simp [isHigh]; omega
    have hl : isLow c = false := by simp [isLow]; omega
    rw [wellFormed_plain _ hh, hl, ih fun d hd => h d (List.mem_cons_of_mem _ hd)]
    rfl

theorem IsWord.not_trimmed {word : JsString} (h : IsWord word) {c : UInt16} (hc : c ∈ word) :
    isTrimmed c = false := by
  have hp := h.printable c hc
  simp [isTrimmed]
  omega

theorem IsWord.noUnit {word : JsString} (h : IsWord word) {u : UInt16} (hu : u.toNat < 0x21) :
    u ∉ word := by
  intro hm
  have hp := h.printable u hm
  omega

theorem wellFormed_slashed (s : JsString) : wellFormed (slashed s) = wellFormed s := by
  have hhigh : ∀ c : UInt16, isHigh (if c = 0x5C then 0x2F else c) = isHigh c := by
    intro c
    split_ifs with hc
    · rw [hc]
      rfl
    · rfl
  have hlow : ∀ c : UInt16, isLow (if c = 0x5C then 0x2F else c) = isLow c := by
    intro c
    split_ifs with hc
    · rw [hc]
      rfl
    · rfl
  unfold slashed
  fun_induction wellFormed s with
  | case1 => rfl
  | case2 c hc =>
    rw [List.map_cons, wellFormed_cons, hhigh, if_pos hc]
    rfl
  | case3 c hc d r ih =>
    rw [List.map_cons, List.map_cons, wellFormed_pair _ ((hhigh c).trans hc), hlow, ih]
  | case4 c r hc ih =>
    rw [List.map_cons, wellFormed_plain _ (by rw [hhigh]; exact hc), hlow, ih]

theorem zero_mem_slashed {s : JsString} : (0 : UInt16) ∈ slashed s ↔ (0 : UInt16) ∈ s := by
  unfold slashed
  rw [List.mem_map]
  constructor
  · rintro ⟨c, hc, h⟩
    split_ifs at h with h1
    · cases h
    · exact h ▸ hc
  · intro h
    exact ⟨0, h, rfl⟩

theorem joinSpaces_cons_cons (a b : JsString) (parts : List JsString) :
    joinSpaces (a :: b :: parts) = a ++ 32 :: joinSpaces (b :: parts) := by
  simp [joinSpaces, List.intercalate]

theorem joinSpaces_one (a : JsString) : joinSpaces [a] = a := by
  simp [joinSpaces, List.intercalate]

theorem wellFormed_joinSpaces {parts : List JsString} (h : ∀ p ∈ parts, wellFormed p = true) :
    wellFormed (joinSpaces parts) = true := by
  induction parts with
  | nil => rfl
  | cons a parts ih =>
    have ha := h a List.mem_cons_self
    have htail : ∀ p ∈ parts, wellFormed p = true := fun p hp => h p (List.mem_cons_of_mem _ hp)
    cases parts with
    | nil => rw [joinSpaces_one, ha]
    | cons b parts =>
      rw [joinSpaces_cons_cons, wellFormed_append _ _ ha, wellFormed_plain _ (by decide), ih htail]
      rfl

theorem mem_joinSpaces {c : UInt16} {parts : List JsString} (h : c ∈ joinSpaces parts) :
    c = 32 ∨ ∃ p ∈ parts, c ∈ p := by
  induction parts with
  | nil => cases h
  | cons a parts ih =>
    cases parts with
    | nil => exact Or.inr ⟨a, List.mem_cons_self, by rwa [joinSpaces_one] at h⟩
    | cons b parts =>
      rw [joinSpaces_cons_cons, List.mem_append, List.mem_cons] at h
      obtain ha | h32 | hrest := h
      · exact Or.inr ⟨a, List.mem_cons_self, ha⟩
      · exact Or.inl h32
      · obtain h32 | ⟨p, hp, hcp⟩ := ih hrest
        · exact Or.inl h32
        · exact Or.inr ⟨p, List.mem_cons_of_mem _ hp, hcp⟩

/-! ## Reading the listing -/

theorem splitSpaces_run {run : JsString} (h : ∀ c ∈ run, isTrimmed c = false) (text : JsString) :
    splitSpaces false (run ++ 32 :: text) = run :: splitSpaces true text := by
  induction run with
  | nil => rfl
  | cons c run ih =>
    have hc := h c List.mem_cons_self
    rw [List.cons_append, splitSpaces, hc, ih fun d hd => h d (List.mem_cons_of_mem _ hd)]
    rfl

theorem splitSpaces_word {word : JsString} (h : IsWord word) (gap : Bool) (text : JsString) :
    splitSpaces gap (word ++ 32 :: text) = word :: splitSpaces true text := by
  have hfree : ∀ c ∈ word, isTrimmed c = false := fun c hc => h.not_trimmed hc
  obtain ⟨c, rest, rfl⟩ := List.exists_cons_of_ne_nil h.filled
  have hgap : splitSpaces gap (c :: (rest ++ 32 :: text)) =
      splitSpaces false (c :: (rest ++ 32 :: text)) := by
    rw [splitSpaces, splitSpaces, hfree c List.mem_cons_self]
    rfl
  rw [List.cons_append, hgap]
  exact splitSpaces_run hfree text

def RawChange.entry (change : RawChange) : ChangedEntry where
  path := utf8Decode change.path
  normalized := slashed (utf8Decode change.path)
  srcMode := change.srcMode
  dstMode := change.dstMode
  srcSha := change.srcSha

theorem RawChange.Ok.read {change : RawChange} (h : change.Ok) :
    ChangedEntry.read change.info (utf8Decode change.path) = change.entry := by
  have hparts : ∃ rest, splitSpaces false change.info.tail =
      change.srcMode :: change.dstMode :: change.srcSha :: rest := by
    refine ⟨splitSpaces true (change.dstSha ++ 32 :: change.status), ?_⟩
    simp only [RawChange.info, List.tail_cons, joinSpaces_cons_cons, joinSpaces_one]
    rw [splitSpaces_word h.srcMode, splitSpaces_word h.dstMode, splitSpaces_word h.srcSha]
  obtain ⟨rest, hparts⟩ := hparts
  have hhead : change.info.head? = some 0x3A := rfl
  simp only [ChangedEntry.read, hhead, if_true, hparts, RawChange.entry, List.getD_cons_zero,
    List.getD_cons_succ]

theorem RawChange.Ok.info_words {change : RawChange} (h : change.Ok) :
    ∀ p ∈ [change.srcMode, change.dstMode, change.srcSha, change.dstSha, change.status],
      IsWord p := by
  simp only [List.mem_cons, List.not_mem_nil, or_false, forall_eq_or_imp, forall_eq]
  exact ⟨h.srcMode, h.dstMode, h.srcSha, h.dstSha, h.status⟩

theorem RawChange.Ok.info_wellFormed {change : RawChange} (h : change.Ok) :
    wellFormed change.info = true := by
  have hw := wellFormed_joinSpaces fun p hp => (h.info_words p hp).wellFormed
  rw [RawChange.info, wellFormed_plain _ (by decide), hw]
  rfl

theorem RawChange.Ok.zero_not_mem_info {change : RawChange} (h : change.Ok) :
    (0 : UInt16) ∉ change.info := by
  intro hm
  rw [RawChange.info, List.mem_cons] at hm
  obtain h0 | hm := hm
  · cases h0
  · obtain h0 | ⟨p, hp, hm⟩ := mem_joinSpaces hm
    · cases h0
    · exact (h.info_words p hp).noUnit (by decide) hm

theorem mapM_spec {α β : Type*} {f : α → Option β} {g : α → β} {l : List α} {r : List β}
    (hfg : ∀ x ∈ l, ∀ y, f x = some y → y = g x) (h : l.mapM f = some r) :
    r = l.map g ∧ ∀ x ∈ l, f x = some (g x) := by
  induction l generalizing r with
  | nil =>
    rw [List.mapM_nil] at h
    exact ⟨(Option.some.inj h).symm, by simp⟩
  | cons x l ih =>
    rw [List.mapM_cons] at h
    obtain ⟨y, hy, h⟩ := Option.bind_eq_some_iff.mp h
    obtain ⟨ys, hys, h⟩ := Option.bind_eq_some_iff.mp h
    have hx := hfg x List.mem_cons_self y hy
    obtain ⟨hmap, hall⟩ := ih (fun z hz => hfg z (List.mem_cons_of_mem _ hz)) hys
    refine ⟨?_, ?_⟩
    · rw [List.map_cons, ← hx, ← hmap]
      exact (Option.some.inj h).symm
    · intro z hz
      obtain rfl | hz := List.mem_cons.mp hz
      · rw [hy, hx]
      · exact hall z hz

/-- The fields of the listing; each path decodes to its own bytes. -/
theorem splitNulPaths_listing {changes : List RawChange} (hok : ∀ change ∈ changes, change.Ok)
    {raw : List JsString} (h : splitNulPaths (rawListing changes) = some raw) :
    raw = changes.flatMap (fun change => [change.info, utf8Decode change.path]) ∧
      ∀ change ∈ changes, decodeExact change.path = some (utf8Decode change.path) := by
  have hfree : ∀ field ∈ changes.flatMap (fun change => [utf8Encode change.info, change.path]),
      (0 : UInt8) ∉ field ∧ field ≠ [] ∧
        ∀ text, decodeExact field = some text → text = utf8Decode field := by
    intro field hfield
    obtain ⟨change, hchange, hfield⟩ := List.mem_flatMap.mp hfield
    have hc := hok change hchange
    have hdecode : ∀ text, decodeExact field = some text → text = utf8Decode field :=
      fun text ht => (decodeExact_spec ht).1
    simp only [List.mem_cons, List.not_mem_nil, or_false] at hfield
    obtain rfl | rfl := hfield
    · refine ⟨?_, ?_, hdecode⟩
      · rw [zero_mem_utf8Encode]
        exact hc.zero_not_mem_info
      · intro e
        have hd := utf8Decode_encode_of_wellFormed _ hc.info_wellFormed
        rw [e] at hd
        cases hd
    · exact ⟨hc.path.2, hc.path.1, hdecode⟩
  have hfields : ((rawListing changes).splitOn 0).filter (fun field => field != []) =
      changes.flatMap fun change => [utf8Encode change.info, change.path] := by
    rw [rawListing, splitOn_terminated fun field hf => (hfree field hf).1, List.filter_append,
      List.filter_eq_self.mpr fun field hf => by simpa using (hfree field hf).2.1]
    simp
  rw [splitNulPaths, hfields] at h
  obtain ⟨hraw, hall⟩ := mapM_spec (fun field hf => (hfree field hf).2.2) h
  refine ⟨?_, ?_⟩
  · rw [hraw, List.map_flatMap]
    apply List.flatMap_congr
    intro change hchange
    rw [List.map_cons, List.map_cons, List.map_nil,
      utf8Decode_encode_of_wellFormed _ (hok change hchange).info_wellFormed]
  · intro change hchange
    exact hall change.path (List.mem_flatMap.mpr ⟨change, hchange, by simp⟩)

/-- What stays of the listing outside the ignored paths. -/
def considered (ignoredPaths : List JsString) (changes : List RawChange) : List RawChange :=
  changes.filter fun change => !isIgnoredPath (utf8Decode change.path) ignoredPaths

theorem readChanged_listing (ignoredPaths : List JsString) {changes : List RawChange}
    (hok : ∀ change ∈ changes, change.Ok)
    (hexact : ∀ change ∈ changes, decodeExact change.path = some (utf8Decode change.path)) :
    readChanged ignoredPaths
        (changes.flatMap fun change => [change.info, utf8Decode change.path]) =
      (considered ignoredPaths changes).map RawChange.entry := by
  induction changes with
  | nil => rfl
  | cons change changes ih =>
    have hc := hok change List.mem_cons_self
    have hne : ¬(change.info = [] ∨ utf8Decode change.path = []) := by
      rintro (h | h)
      · cases h
      · apply hc.path.1
        rw [← (decodeExact_spec (hexact change List.mem_cons_self)).2.1, h]
        rfl
    have htail := ih (fun c h => hok c (List.mem_cons_of_mem _ h))
      (fun c h => hexact c (List.mem_cons_of_mem _ h))
    rw [List.flatMap_cons, List.cons_append, List.cons_append, List.nil_append, readChanged,
      if_neg hne, htail]
    cases hi : isIgnoredPath (utf8Decode change.path) ignoredPaths with
    | true =>
      rw [if_pos rfl, considered, considered, List.filter_cons_of_neg (by simp [hi])]
    | false =>
      rw [if_neg Bool.false_ne_true, considered, considered, List.filter_cons_of_pos (by simp [hi]),
        List.map_cons, hc.read]

/-! ## The objects of the current side -/

theorem IsWord.lineOk {word : JsString} (h : IsWord word) : LineOk word := by
  refine ⟨?_, h.wellFormed, ?_⟩
  · rintro c hc rfl
    exact h.noUnit (by decide) hc
  · obtain ⟨c, rest, rfl⟩ := List.exists_cons_of_ne_nil h.filled
    rw [notBlank, List.any_cons, h.not_trimmed List.mem_cons_self]
    rfl

theorem splitLines_unlines {words : List JsString} (h : ∀ word ∈ words, IsWord word) :
    splitLines (unlines words) = words ++ [[]] := by
  induction words with
  | nil => rfl
  | cons word words ih =>
    have hw := (h word List.mem_cons_self).lineOk
    have e : unlines (word :: words) = word ++ 10 :: unlines words := by simp [unlines]
    rw [e, splitLines_append hw.noBreak, ih fun w hw => h w (List.mem_cons_of_mem _ hw)]
    rfl

theorem filledLines_unlines {words : List JsString} (h : ∀ word ∈ words, IsWord word) :
    filledLines (utf8Decode (utf8Encode (unlines words))) = words := by
  rw [utf8Decode_encode_of_wellFormed _ (unlines_wellFormed fun w hw => (h w hw).lineOk),
    filledLines, splitLines_unlines h, List.filter_append,
    List.filter_eq_self.mpr fun w hw => by simpa using (h w hw).filled]
  simp

theorem trim_word {word : JsString} (h : IsWord word) : trim (word ++ [10]) = word := by
  have hfree : ∀ c ∈ word, isTrimmed c = false := fun c hc => h.not_trimmed hc
  obtain ⟨c, rest, rfl⟩ := List.exists_cons_of_ne_nil h.filled
  have hhead : (c :: rest ++ [10]).dropWhile isTrimmed = c :: rest ++ [10] := by
    rw [List.cons_append, List.dropWhile_cons_of_neg (by simp [hfree c List.mem_cons_self])]
  rw [trim, hhead, List.rdropWhile_concat_pos _ _ _ (by decide), List.rdropWhile_eq_self_iff]
  intro hne
  rw [hfree _ (List.getLast_mem hne)]
  exact Bool.false_ne_true

variable {w : Worktree} {baseSha : JsString} {changes : List RawChange}
variable {blob target : JsString → JsString}

theorem Worktree.Reports.flushChunk (hw : w.Reports baseSha changes blob target)
    {chunk : List JsString} {pairs : List (JsString × JsString)}
    (h : Adlc.Core.flushChunk w chunk = some pairs) : pairs = chunk.map fun path => (path, blob path) := by
  obtain ⟨output, ho, rfl⟩ := Option.map_eq_some_iff.mp h
  rw [hw.blobs chunk output ho, filledLines_unlines, ← List.map_prod_left_eq_zip]
  intro word hword
  obtain ⟨path, -, rfl⟩ := List.mem_map.mp hword
  exact hw.blobIds path

theorem Worktree.Reports.objectOf (hw : w.Reports baseSha changes blob target)
    {paths : List JsString} {blobs : List (JsString × JsString)}
    (h : batchWorkingTreeBlobs w paths = some blobs) {path object : JsString}
    (ho : Adlc.Core.objectOf blobs path = some object) : object = blob path := by
  obtain ⟨parts, hparts, rfl⟩ := Option.map_eq_some_iff.mp h
  obtain ⟨rfl, -⟩ := mapM_spec (fun chunk _ pairs hp => hw.flushChunk hp) hparts
  obtain ⟨before, after, hsplit, -⟩ := List.lookup_eq_some_iff.mp ho
  have hmem : (path, object) ∈ before ++ (path, object) :: after := by simp
  rw [← hsplit, List.mem_reverse, List.mem_flatten] at hmem
  obtain ⟨pairs, hpairs, hmem⟩ := hmem
  obtain ⟨chunk, -, rfl⟩ := List.mem_map.mp hpairs
  obtain ⟨p, -, hp⟩ := List.mem_map.mp hmem
  obtain ⟨rfl, rfl⟩ := Prod.mk.inj hp
  rfl

/-- The object of an entry is that of its change. -/
theorem Worktree.Reports.currentObject (hw : w.Reports baseSha changes blob target)
    {paths : List JsString} {blobs : List (JsString × JsString)}
    (h : batchWorkingTreeBlobs w paths = some blobs) {change : RawChange} {object : JsString}
    (ho : Adlc.Core.currentObject w blobs change.entry = some object) :
    object = (change.current blob target).object := by
  obtain ⟨ho, -⟩ := Option.filter_eq_some_iff.mp ho
  simp only [RawChange.current]
  have hmode : change.entry.dstMode = change.dstMode := rfl
  rw [hmode] at ho
  split_ifs at ho ⊢ with h1 h2 h3
  · exact (Option.some.inj ho).symm
  · obtain ⟨output, hout, rfl⟩ := Option.map_eq_some_iff.mp ho
    have e : unlines [target (utf8Decode change.path)] = target (utf8Decode change.path) ++ [10] := by
      simp [unlines]
    have hid := hw.targetIds (utf8Decode change.path)
    have hline : ∀ line ∈ [target (utf8Decode change.path)], LineOk line := by
      intro line hl
      rw [List.mem_singleton.mp hl]
      exact hid.lineOk
    have hout : output = utf8Encode (unlines [target (utf8Decode change.path)]) :=
      hw.targets _ output hout
    rw [hout, utf8Decode_encode_of_wellFormed _ (unlines_wellFormed hline), e, trim_word hid]
  · exact hw.objectOf h ho

theorem isWord_nullObject : IsWord nullObject := by
  refine ⟨by decide, ?_⟩
  intro c hc
  rw [List.eq_of_mem_replicate hc]
  decide

theorem Worktree.Reports.object_isWord (hw : w.Reports baseSha changes blob target)
    (change : RawChange) : IsWord (change.current blob target).object := by
  simp only [RawChange.current]
  split_ifs
  · exact isWord_nullObject
  · exact hw.targetIds _
  · exact hw.blobIds _

/-- An entry's fields can be told apart. -/
structure SeenChange.Ok (change : SeenChange) : Prop where
  decoded : wellFormed change.path = true
  noNul : (0 : UInt16) ∉ change.path
  words : ∀ word ∈ [change.srcMode, change.srcSha, change.dstMode, change.object], IsWord word

/-- The entries are the texts of the change set. -/
theorem Worktree.Reports.changeEntries (hw : w.Reports baseSha changes blob target)
    {entries : List JsString} (h : Adlc.Core.changeEntries w baseSha = some entries) :
    entries = (changeSet w.ignoredPaths blob target changes).map (fun change => change.seen.text) ∧
      ∀ change ∈ changeSet w.ignoredPaths blob target changes,
        change.seen.Ok ∧ utf8Encode (utf8Decode change.path) = change.path := by
  unfold Adlc.Core.changeEntries at h
  rw [hw.listing] at h
  obtain ⟨listing, hlisting, h⟩ := Option.bind_eq_some_iff.mp h
  obtain ⟨raw, hraw, h⟩ := Option.bind_eq_some_iff.mp h
  rw [← Option.some.inj hlisting] at hraw
  obtain ⟨hfields, hexact⟩ := splitNulPaths_listing hw.ok hraw
  obtain ⟨blobs, hblobs, h⟩ := Option.bind_eq_some_iff.mp h
  rw [hfields, readChanged_listing _ hw.ok hexact] at h
  rw [List.mapM_map] at h
  obtain ⟨hentries, -⟩ := mapM_spec (g := fun change => (change.current blob target).seen.text)
    (by
      intro change _ text ht
      obtain ⟨object, ho, rfl⟩ := Option.map_eq_some_iff.mp ht
      rw [hw.currentObject hblobs ho]
      rfl) h
  refine ⟨?_, ?_⟩
  · rw [hentries, changeSet, List.map_map]
    rfl
  · intro change hchange
    obtain ⟨raw, hmem, rfl⟩ := List.mem_map.mp hchange
    have hmem := (List.mem_filter.mp hmem).1
    have hok := hw.ok raw hmem
    obtain ⟨-, he, hwf⟩ := decodeExact_spec (hexact raw hmem)
    refine ⟨⟨?_, ?_, ?_⟩, he⟩
    · exact (wellFormed_slashed _).trans hwf
    · intro h0
      apply hok.path.2
      rw [← he, zero_mem_utf8Encode]
      exact zero_mem_slashed.mp h0
    · simp only [List.mem_cons, List.not_mem_nil, or_false, forall_eq_or_imp, forall_eq]
      exact ⟨hok.srcMode, hok.srcSha, hok.dstMode, hw.object_isWord raw⟩

/-! ## What the text of an entry determines -/

theorem SeenChange.text_eq (change : SeenChange) :
    change.text = (((change.path ++ 32 :: change.srcMode) ++ 32 :: change.srcSha) ++
      32 :: change.dstMode) ++ 32 :: change.object := by
  simp only [SeenChange.text, joinSpaces_cons_cons, joinSpaces_one, List.append_assoc,
    List.cons_append]

theorem SeenChange.text_inj {x y : SeenChange} (hx : x.Ok) (hy : y.Ok) (h : x.text = y.text) :
    x = y := by
  have hfree : ∀ z : SeenChange, z.Ok → ∀ word ∈ [z.srcMode, z.srcSha, z.dstMode, z.object],
      (32 : UInt16) ∉ word := fun z hz word hword => (hz.words word hword).noUnit (by decide)
  have fx := hfree x hx
  have fy := hfree y hy
  simp only [List.mem_cons, List.not_mem_nil, or_false, forall_eq_or_imp, forall_eq] at fx fy
  rw [x.text_eq, y.text_eq] at h
  obtain ⟨h, hobject⟩ := lastField_inj fx.2.2.2 fy.2.2.2 h
  obtain ⟨h, hdst⟩ := lastField_inj fx.2.2.1 fy.2.2.1 h
  obtain ⟨h, hsha⟩ := lastField_inj fx.2.1 fy.2.1 h
  obtain ⟨hpath, hsrc⟩ := lastField_inj fx.1 fy.1 h
  cases x
  cases y
  simp only [SeenChange.mk.injEq]
  exact ⟨hpath, hsrc, hsha, hdst, hobject⟩

theorem SeenChange.Ok.text_parts {x : SeenChange} (hx : x.Ok) :
    wellFormed x.text = true ∧ (0 : UInt16) ∉ x.text := by
  refine ⟨?_, ?_⟩
  · apply wellFormed_joinSpaces
    intro p hp
    obtain rfl | hp := List.mem_cons.mp hp
    · exact hx.decoded
    · exact (hx.words p hp).wellFormed
  · intro h
    obtain h0 | ⟨p, hp, h⟩ := mem_joinSpaces h
    · cases h0
    · obtain rfl | hp := List.mem_cons.mp hp
      · exact hx.noNul h
      · exact (hx.words p hp).noUnit (by decide) h

/-- The hashed bytes determine the entries, their order aside. -/
theorem hashedEntries_iff {xs ys : List JsString}
    (hx : ∀ x ∈ xs, wellFormed x = true ∧ (0 : UInt16) ∉ x)
    (hy : ∀ y ∈ ys, wellFormed y = true ∧ (0 : UInt16) ∉ y) :
    hashedEntries xs = hashedEntries ys ↔ xs.Perm ys := by
  have hmem : ∀ zs : List JsString, (∀ z ∈ zs, wellFormed z = true ∧ (0 : UInt16) ∉ z) →
      ∀ z ∈ zs.mergeSort unitLe, wellFormed z = true ∧ (0 : UInt16) ∉ z :=
    fun zs h z hz => h z ((List.mergeSort_perm zs unitLe).mem_iff.mp hz)
  have hfree : ∀ zs : List JsString, (∀ z ∈ zs, wellFormed z = true ∧ (0 : UInt16) ∉ z) →
      ∀ r ∈ (zs.mergeSort unitLe).map utf8Encode, (0 : UInt8) ∉ r := by
    intro zs h r hr
    obtain ⟨z, hz, rfl⟩ := List.mem_map.mp hr
    rw [zero_mem_utf8Encode]
    exact (hmem zs h z hz).2
  have hdecode : ∀ zs : List JsString, (∀ z ∈ zs, wellFormed z = true ∧ (0 : UInt16) ∉ z) →
      ((zs.mergeSort unitLe).map utf8Encode).map utf8Decode = zs.mergeSort unitLe := by
    intro zs h
    rw [List.map_map, List.map_congr_left, List.map_id]
    intro z hz
    exact utf8Decode_encode_of_wellFormed z (hmem zs h z hz).1
  constructor
  · intro h
    have e := congrArg (List.map utf8Decode) (terminated_inj (hfree xs hx) (hfree ys hy) h)
    rw [hdecode xs hx, hdecode ys hy] at e
    exact (List.mergeSort_perm xs unitLe).symm.trans (e ▸ List.mergeSort_perm ys unitLe)
  · intro h
    rw [hashedEntries, hashedEntries, mergeSort_eq_of_perm unitLe_trans unitLe_total unitLe_antisymm h]

theorem isFullSha_noColon {text : JsString} (h : isFullSha text = true) : (0x3A : UInt16) ∉ text := by
  intro hm
  simp only [isFullSha, Bool.and_eq_true, List.all_eq_true] at h
  cases h.2 _ hm

theorem changeIdentity_iff (x y : JsString) (xs ys : List JsString) :
    changeIdentity x xs = changeIdentity y ys ↔
      x = y ∧ sha256Hex (hashedEntries xs) = sha256Hex (hashedEntries ys) := by
  have hdigest : ∀ m : Bytes, (0x3A : UInt16) ∉ sha256Hex m := by
    intro m hm
    cases (sha256Hex_spec m).2 _ hm
  constructor
  · intro h
    have h := (List.cons.inj (List.append_cancel_left h)).2
    exact lastField_inj (hdigest _) (hdigest _) h
  · rintro ⟨rfl, h⟩
    rw [changeIdentity, changeIdentity, h]

/-- Texts of entries agree when the entries do. -/
theorem perm_text_iff {xs ys : List SeenChange} (hx : ∀ x ∈ xs, x.Ok) (hy : ∀ y ∈ ys, y.Ok) :
    (xs.map SeenChange.text).Perm (ys.map SeenChange.text) ↔ xs.Perm ys := by
  refine ⟨?_, fun h => h.map _⟩
  intro h
  let good : Set SeenChange := {z | z.Ok}
  have hinj : Set.InjOn SeenChange.text good := fun a ha b hb e => SeenChange.text_inj ha hb e
  have hne : Nonempty SeenChange := ⟨⟨[], [], [], [], []⟩⟩
  have hback : ∀ zs : List SeenChange, (∀ z ∈ zs, z.Ok) →
      (zs.map SeenChange.text).map (Function.invFunOn SeenChange.text good) = zs := by
    intro zs hz
    rw [List.map_map, List.map_congr_left, List.map_id]
    intro z hzs
    exact hinj.leftInvOn_invFunOn (hz z hzs)
  have e := h.map (Function.invFunOn SeenChange.text good)
  rwa [hback xs hx, hback ys hy] at e

/-! ## Equal identities -/

/-- A worktree, what its commands report, and the identity computed for it. -/
structure Identified where
  worktree : Worktree
  base : Option JsString
  revision : Option JsString
  anchor : JsString
  changes : List RawChange
  blob : JsString → JsString
  target : JsString → JsString
  identity : JsString
  /-- no revision is given in place of the computed one -/
  computed : notBlank (revision.getD []) = false
  anchored : mergeBaseOf worktree (base.getD []) = some anchor
  reports : worktree.Reports anchor changes blob target
  identified : resolveChangeSetRevision worktree base revision = some identity

def Identified.changeSet (run : Identified) : List Change :=
  Adlc.Core.changeSet run.worktree.ignoredPaths run.blob run.target run.changes

/-- What is hashed for a change set. -/
def hashedChanges (changes : List Change) : Bytes :=
  hashedEntries (changes.map fun change => change.seen.text)

theorem Identified.spec (run : Identified) :
    run.identity = changeIdentity run.anchor (run.changeSet.map fun change => change.seen.text) ∧
      ∀ change ∈ run.changeSet,
        change.seen.Ok ∧ utf8Encode (utf8Decode change.path) = change.path := by
  have h := run.identified
  unfold resolveChangeSetRevision at h
  rw [run.computed, if_neg Bool.false_ne_true] at h
  split_ifs at h
  rw [run.anchored] at h
  obtain ⟨anchor, hanchor, h⟩ := Option.bind_eq_some_iff.mp h
  obtain ⟨entries, hentries, h⟩ := Option.bind_eq_some_iff.mp h
  rw [← Option.some.inj hanchor] at h hentries
  obtain ⟨htexts, hok⟩ := run.reports.changeEntries hentries
  refine ⟨?_, hok⟩
  rw [htexts] at h
  exact (Option.some.inj h).symm

theorem Identified.hashedChanges_iff (x y : Identified) :
    hashedChanges x.changeSet = hashedChanges y.changeSet ↔
      (x.changeSet.map Change.seen).Perm (y.changeSet.map Change.seen) := by
  have hseen : ∀ run : Identified, ∀ c ∈ run.changeSet.map Change.seen, c.Ok := by
    intro run c hc
    obtain ⟨change, hchange, rfl⟩ := List.mem_map.mp hc
    exact (run.spec.2 change hchange).1
  have hparts : ∀ run : Identified, ∀ t ∈ run.changeSet.map (fun change => change.seen.text),
      wellFormed t = true ∧ (0 : UInt16) ∉ t := by
    intro run t ht
    obtain ⟨change, hchange, rfl⟩ := List.mem_map.mp ht
    exact (run.spec.2 change hchange).1.text_parts
  rw [hashedChanges, hashedChanges, hashedEntries_iff (hparts x) (hparts y)]
  have h := perm_text_iff (hseen x) (hseen y)
  rw [List.map_map, List.map_map] at h
  exact h

/-- Where no considered path holds a backslash, the identity sees the paths themselves. -/
theorem Identified.perm_of_noBackslash (x y : Identified)
    (hx : ∀ c ∈ x.changeSet, (0x5C : UInt16) ∉ utf8Decode c.path)
    (hy : ∀ c ∈ y.changeSet, (0x5C : UInt16) ∉ utf8Decode c.path)
    (h : (x.changeSet.map Change.seen).Perm (y.changeSet.map Change.seen)) :
    x.changeSet.Perm y.changeSet := by
  have hsame : ∀ s : JsString, (0x5C : UInt16) ∉ s → slashed s = s := by
    intro s hs
    rw [slashed, List.map_congr_left, List.map_id]
    intro c hc
    have hne : c ≠ 0x5C := by
      rintro rfl
      exact hs hc
    rw [if_neg hne]
    rfl
  let unseen : SeenChange → Change := fun c => ⟨utf8Encode c.path, c.srcMode, c.srcSha, c.dstMode, c.object⟩
  have hback : ∀ run : Identified, (∀ c ∈ run.changeSet, (0x5C : UInt16) ∉ utf8Decode c.path) →
      (run.changeSet.map Change.seen).map unseen = run.changeSet := by
    intro run hrun
    rw [List.map_map, List.map_congr_left, List.map_id]
    intro c hc
    simp only [unseen, Function.comp_apply, Change.seen, hsame _ (hrun c hc), (run.spec.2 c hc).2]
    rfl
  have e := h.map unseen
  rwa [hback x hx, hback y hy] at e

/-! ## Sample worktrees -/

def sampleSha (digit : UInt16) : JsString := List.replicate 40 digit

def sampleChange (path : JsString) : RawChange where
  srcMode := js "100644"
  dstMode := js "100644"
  srcSha := sampleSha 49
  dstSha := nullObject
  status := js "M"
  path := utf8Encode path

/-- A worktree where every file has one content. -/
def sampleWorktree (changes : List RawChange) : Worktree where
  revParse := fun _ => some (utf8Encode (unlines [sampleSha 99]))
  mergeBase := fun _ => some (utf8Encode (unlines [sampleSha 98]))
  diffRaw := fun _ => some (rawListing changes)
  hashObject := fun paths => some (utf8Encode (unlines (paths.map fun _ => sampleSha 97)))
  hashTarget := fun _ => some (utf8Encode (unlines [sampleSha 97]))
  ignoredPaths := []

theorem isWord_of_all {word : JsString} (hne : word ≠ [])
    (h : (word.all fun c => decide (0x21 ≤ c.toNat ∧ c.toNat < 0x7F)) = true) : IsWord word :=
  ⟨hne, forall_mem_of_all h⟩

theorem sampleChange_ok {path : JsString}
    (h : utf8Encode path ≠ [] ∧ (0 : UInt8) ∉ utf8Encode path) : (sampleChange path).Ok := by
  have hmode : IsWord (js "100644") := isWord_of_all (by decide) (by decide)
  have hsha : IsWord (sampleSha 49) := isWord_of_all (by decide) (by decide)
  have hstatus : IsWord (js "M") := isWord_of_all (by decide) (by decide)
  exact ⟨hmode, hmode, hsha, isWord_nullObject, hstatus, h⟩

theorem sample_reports {changes : List RawChange} (hok : ∀ c ∈ changes, c.Ok) :
    (sampleWorktree changes).Reports (sampleSha 98) changes (fun _ => sampleSha 97)
      (fun _ => sampleSha 97) where
  listing := rfl
  ok := hok
  blobs := fun _ _ h => (Option.some.inj h).symm
  targets := fun _ _ h => (Option.some.inj h).symm
  blobIds := fun _ => isWord_of_all (by decide) (by decide)
  targetIds := fun _ => isWord_of_all (by decide) (by decide)

def sampleRun (changes : List RawChange) (entries : List JsString) (hok : ∀ c ∈ changes, c.Ok)
    (hbase : mergeBaseOf (sampleWorktree changes) (js "main") = some (sampleSha 98))
    (hentries : changeEntries (sampleWorktree changes) (sampleSha 98) = some entries) :
    Identified where
  worktree := sampleWorktree changes
  base := some (js "main")
  revision := none
  anchor := sampleSha 98
  changes := changes
  blob := fun _ => sampleSha 97
  target := fun _ => sampleSha 97
  identity := changeIdentity (sampleSha 98) entries
  computed := rfl
  anchored := hbase
  reports := sample_reports hok
  identified := by
    have hb : notBlank ((some (js "main")).getD []) = true := by decide
    have hr : notBlank ((none : Option JsString).getD []) = false := rfl
    rw [resolveChangeSetRevision, hr, if_neg Bool.false_ne_true, hb, if_pos rfl]
    simp only [Option.getD_some, hbase, hentries, Option.bind_eq_bind, Option.bind_some,
      Option.pure_def]

theorem sampleRun_identity (changes : List RawChange) (entries : List JsString)
    (hok : ∀ c ∈ changes, c.Ok)
    (hbase : mergeBaseOf (sampleWorktree changes) (js "main") = some (sampleSha 98))
    (hentries : changeEntries (sampleWorktree changes) (sampleSha 98) = some entries) :
    (sampleRun changes entries hok hbase hentries).identity =
      changeIdentity (sampleSha 98) entries := rfl

def sampleEntry (path : JsString) : JsString :=
  joinSpaces [path, js "100644", sampleSha 49, js "100644", sampleSha 97]

/-- Two changes, in either order of the listing. -/
def orderedRun : Identified :=
  sampleRun [sampleChange (js "a"), sampleChange (js "b")] [sampleEntry (js "a"), sampleEntry (js "b")]
    (by
      intro c hc
      simp only [List.mem_cons, List.not_mem_nil, or_false] at hc
      obtain rfl | rfl := hc <;> exact sampleChange_ok (by decide))
    (by decide +kernel) (by decide +kernel)

def reversedRun : Identified :=
  sampleRun [sampleChange (js "b"), sampleChange (js "a")] [sampleEntry (js "b"), sampleEntry (js "a")]
    (by
      intro c hc
      simp only [List.mem_cons, List.not_mem_nil, or_false] at hc
      obtain rfl | rfl := hc <;> exact sampleChange_ok (by decide))
    (by decide +kernel) (by decide +kernel)

/-- Two change sets share an identity only if they are one, exactly when reading a backslash as a
slash in their paths does not make one of two. -/
theorem resolveChangeSetRevision_injective_iff (x y : Identified)
    (hcollision : Set.InjOn sha256Hex {hashedChanges x.changeSet, hashedChanges y.changeSet}) :
    ((x.identity = y.identity → x.anchor = y.anchor ∧ x.changeSet.Perm y.changeSet) ↔
      (x.anchor = y.anchor →
        (x.changeSet.map Change.seen).Perm (y.changeSet.map Change.seen) →
          x.changeSet.Perm y.changeSet)) ∧
    ∀ c ∈ x.changeSet, ∀ d ∈ y.changeSet,
      (c.seen.text = d.seen.text → c.path = d.path) ↔ (c.seen = d.seen → c.path = d.path) := by
  have hid : x.identity = y.identity ↔ x.anchor = y.anchor ∧
      (x.changeSet.map Change.seen).Perm (y.changeSet.map Change.seen) := by
    rw [x.spec.1, y.spec.1, changeIdentity_iff, ← x.hashedChanges_iff y]
    exact and_congr_right fun _ => hcollision.eq_iff (Or.inl rfl) (Or.inr rfl)
  refine ⟨?_, ?_⟩
  · rw [hid]
    constructor
    · intro h hanchor hperm
      exact (h ⟨hanchor, hperm⟩).2
    · rintro h ⟨hanchor, hperm⟩
      exact ⟨hanchor, h hanchor hperm⟩
  · intro c hc d hd
    have htext : c.seen.text = d.seen.text ↔ c.seen = d.seen :=
      ⟨SeenChange.text_inj (x.spec.2 c hc).1 (y.spec.2 d hd).1, fun h => congrArg _ h⟩
    rw [htext]

theorem resolveChangeSetRevision_injective_iff_ordered :
    ((orderedRun.identity = reversedRun.identity →
        orderedRun.anchor = reversedRun.anchor ∧ orderedRun.changeSet.Perm reversedRun.changeSet) ↔
      (orderedRun.anchor = reversedRun.anchor →
        (orderedRun.changeSet.map Change.seen).Perm (reversedRun.changeSet.map Change.seen) →
          orderedRun.changeSet.Perm reversedRun.changeSet)) ∧
    ∀ c ∈ orderedRun.changeSet, ∀ d ∈ reversedRun.changeSet,
      (c.seen.text = d.seen.text → c.path = d.path) ↔ (c.seen = d.seen → c.path = d.path) := by
  have hseen : (orderedRun.changeSet.map Change.seen).Perm (reversedRun.changeSet.map Change.seen) := by
    decide +kernel
  apply resolveChangeSetRevision_injective_iff
  rw [(Identified.hashedChanges_iff _ _).mpr hseen, Set.pair_eq_singleton]
  exact Set.injOn_singleton _ _

/-- A change of the file `a\b`. -/
def backslashRun : Identified :=
  sampleRun [sampleChange (js "a\\b")] [sampleEntry (js "a/b")]
    (by
      intro c hc
      rw [List.mem_singleton.mp hc]
      exact sampleChange_ok (by decide))
    (by decide +kernel) (by decide +kernel)

/-- A change of the file `b` in the directory `a`. -/
def slashRun : Identified :=
  sampleRun [sampleChange (js "a/b")] [sampleEntry (js "a/b")]
    (by
      intro c hc
      rw [List.mem_singleton.mp hc]
      exact sampleChange_ok (by decide))
    (by decide +kernel) (by decide +kernel)

theorem backslash_same_identity :
    backslashRun.identity = slashRun.identity ∧
      Set.InjOn sha256Hex {hashedChanges backslashRun.changeSet, hashedChanges slashRun.changeSet} ∧
      ¬backslashRun.changeSet.Perm slashRun.changeSet := by
  have hseen : backslashRun.changeSet.map Change.seen = slashRun.changeSet.map Change.seen := by
    decide +kernel
  refine ⟨?_, ?_, by decide +kernel⟩
  · rw [backslashRun, slashRun, sampleRun_identity, sampleRun_identity]
  · rw [(Identified.hashedChanges_iff _ _).mpr (List.Perm.of_eq hseen), Set.pair_eq_singleton]
    exact Set.injOn_singleton _ _

end Adlc.Core
