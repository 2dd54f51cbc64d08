import Adlc.Framework.HashChain
import Adlc.GateManifest.Append
import Adlc.GateManifest.Valid
import Adlc.Tickets.SignedValue

namespace Adlc.GateManifest

open Adlc.Framework Adlc.Tickets

variable {ν : Type} [JsNumber ν]

/-! ## Chains of lines -/

/-- The `prev` of a line's entry. -/
def backLink (ν : Type) [JsNumber ν] (line : JsString) : Option (Json ν) := fieldOf ν line (js "prev")

/-- Each line's entry holds the digest of the line before. -/
def LinkedLines (ν : Type) [JsNumber ν] (lines : List JsString) : Prop :=
  HashLinked (backLink ν) (linkValue ν) lines.reverse

/-- The `seq` of a chain's entry, by its place. -/
def seqAt (ν : Type) [JsNumber ν] : Nat → ν
  | 0 => JsNumber.ofNat 1
  | n + 1 => JsNumber.add (seqAt ν n) (JsNumber.ofNat 1)

theorem seqAt_eq {n : Nat} (h : n < 2 ^ 53) : seqAt ν n = JsNumber.ofNat (n + 1) := by
  induction n with
  | zero => rfl
  | succ n ih => rw [seqAt, ih (by omega), JsNumber.add_ofNat _ _ (by omega)]

/-- The entry on a line is signed with the key, and its link and number are those of its place. -/
structure PlacedAt (key : JsString) (lines : List JsString) (i : Nat) (ms : Members ν) : Prop where
  signed : entrySigValid key (.obj ms) = .ok true
  prev : ms.lookup (js "prev") = linkValue ν (lines.take i).getLast?
  seq : ms.lookup (js "seq") = some (.num (seqAt ν i))

/-- In a chain that verifies with signatures required, every entry is signed and has its place. -/
theorem AcceptsAll.placed {key : JsString} {anchorOnFirst : Bool} {lines : List JsString}
    {last : ChainState ν} (h : AcceptsAll ⟨some key, true, anchorOnFirst⟩ .init lines last) :
    (∀ i line, lines[i]? = some line →
      ∃ ms : Members ν, parseJson line = some (.obj ms) ∧ PlacedAt key lines i ms) ∧
    LinkedLines ν lines ∧ (lines ≠ [] → last.prevSeq = seqAt ν (lines.length - 1)) := by
  induction lines using List.reverseRecOn generalizing last with
  | nil => exact ⟨by simp, trivial, fun h => absurd rfl h⟩
  | append_singleton lines line ih =>
    obtain ⟨mid, ms, hmid, ha⟩ := h.last
    obtain ⟨hall, hlinked, hseq⟩ := ih hmid
    have hprev : mid.prevRawLine = lines.getLast? := hmid.tail.1
    have hlink : ms.lookup (js "prev") = linkValue ν lines.getLast? := by
      rw [← hprev]
      exact linksTo_iff.mp ha.prev
    have hnum : last.prevSeq = seqAt ν lines.length := by
      rw [ha.contiguous, hprev]
      cases lines using List.reverseRecOn with
      | nil => rfl
      | append_singleton lines l =>
        rw [List.getLast?_concat, hseq (by simp)]
        simp [seqAt]
    have hsigned : entrySigValid key (.obj ms) = .ok true := by
      rcases ha.signature with hs | ⟨-, hs, -⟩
      · exact hs.1
      · cases hs
    refine ⟨?_, ?_, ?_⟩
    · intro i l hl
      by_cases hi : i < lines.length
      · rw [List.getElem?_append_left hi] at hl
        obtain ⟨ms', hp, hm⟩ := hall i l hl
        refine ⟨ms', hp, hm.signed, ?_, hm.seq⟩
        rw [hm.prev, List.take_append_of_le_length (by omega)]
      · have hle : lines.length ≤ i := by omega
        have hlt := (List.getElem?_eq_some_iff.mp hl).1
        rw [List.length_append, List.length_singleton] at hlt
        have he : i = lines.length := by omega
        subst he
        rw [List.getElem?_concat_length] at hl
        obtain rfl := Option.some.inj hl
        refine ⟨ms, ha.parsed, hsigned, ?_, ?_⟩
        · rw [List.take_left']
          · exact hlink
          · rfl
        · rw [ha.seq, hnum]
    · rw [LinkedLines, List.reverse_concat]
      refine ⟨?_, hlinked⟩
      rw [backLink, fieldOf_eq ha.parsed, hlink, List.head?_reverse]
    · intro _
      rw [hnum]
      simp

/-! ## What was signed -/

/-- The chains as they stood each time the holder of the key signed their last entry. -/
structure Signings (ν : Type) [JsNumber ν] where
  chains : Set (List JsString)
  linked : ∀ lines ∈ chains, LinkedLines ν lines

/-- The entry of the line that was signed last has that text. -/
def SignsLast (ν : Type) [JsNumber ν] (lines : List JsString) (text : JsString) : Prop :=
  ∃ (line : JsString) (entry : Json ν), lines.getLast? = some line ∧ parseJson line = some entry ∧
    canonicalEntryBytes entry = .ok text

/-- The root's lines, or a segment's. -/
def IsChainOf (ν : Type) [JsNumber ν] [Unicode] (files : ManifestFiles) (lines : List JsString) :
    Prop :=
  lines = linesOf files.root ∨
    ∃ name ∈ (discoverSegments ν files).valid, lines = linesOf (files.segmentFile name)

/-- Whatever carries the key's signature in the files was signed by its holder. -/
def Unforged [Unicode] (key : JsString) (signings : Signings ν) (files : ManifestFiles) : Prop :=
  ∀ lines, IsChainOf ν files lines → ∀ line ∈ lines, ∀ (entry : Json ν) (text : JsString),
    parseJson line = some entry → entrySigValid key entry = .ok true →
    canonicalEntryBytes entry = .ok text → ∃ signed ∈ signings.chains, SignsLast ν signed text

/-- The lines there are, in the files and in what was signed. -/
def allLines [Unicode] (signings : Signings ν) (files : ManifestFiles) : Set JsString :=
  {line | (∃ lines, IsChainOf ν files lines ∧ line ∈ lines) ∨ ∃ lines ∈ signings.chains, line ∈ lines}

theorem linkValue_injOn {s : Set JsString} (h : Set.InjOn sha256 s) :
    Set.InjOn (linkValue ν) {line | ∀ l ∈ line, l ∈ s} := by
  intro a ha b hb e
  rw [linkValue, linkValue, Option.some.injEq] at e
  cases a with
  | none =>
    cases b with
    | none => rfl
    | some b => cases e
  | some a =>
    cases b with
    | none => cases e
    | some b =>
      have e : sha256 a = sha256 b := Json.str.inj e
      rw [h (ha a rfl) (hb b rfl) e]

theorem linkValue_scalar (line : Option JsString) : ∃ v : Json ν, linkValue ν line = some v ∧
    scalar v = true := by
  cases line with
  | none => exact ⟨_, rfl, rfl⟩
  | some line => exact ⟨_, rfl, rfl⟩

/-- A chain of signed, linked lines is one that the holder of the key signed, but for what the
signature of its last entry leaves open. -/
theorem signed_chain [Unicode] {key : JsString} {signings : Signings ν} {files : ManifestFiles}
    (hu : Unforged key signings files) (hc : Set.InjOn sha256 (allLines signings files))
    {init : List JsString} {line : JsString} {ms : Members ν} (hm : IsChainOf ν files (init ++ [line]))
    (hlinked : LinkedLines ν (init ++ [line])) (hp : parseJson line = some (.obj ms))
    (hs : entrySigValid key (.obj ms) = .ok true) :
    ∃ signed ∈ signings.chains, signed.dropLast = init ∧
      ∃ text, canonicalEntryBytes (.obj ms) = .ok text ∧ SignsLast ν signed text := by
  obtain ⟨text, ht⟩ := canonicalEntryBytes_of_valid hs
  have hmem : line ∈ init ++ [line] := by simp
  obtain ⟨signed, hsigned, hlast⟩ := hu _ hm line hmem _ _ hp hs ht
  obtain ⟨line', entry', hl', hp', ht'⟩ := id hlast
  obtain ⟨init', rfl⟩ := List.getLast?_eq_some_iff.mp hl'
  have hlinked' := signings.linked _ hsigned
  rw [LinkedLines, List.reverse_concat] at hlinked hlinked'
  have hback : backLink ν line = backLink ν line' := by
    obtain ⟨v, hv, scalarV⟩ := linkValue_scalar (ν := ν) init.reverse.head?
    obtain ⟨w, hw, scalarW⟩ := linkValue_scalar (ν := ν) init'.reverse.head?
    have g1 : backLink ν line = some v := hlinked.1.trans hv
    have g2 : backLink ν line' = some w := hlinked'.1.trans hw
    have f1 : (Json.obj ms).get? (js "prev") = some v := by
      rw [backLink, fieldOf, hp] at g1
      exact g1
    have f2 : entry'.get? (js "prev") = some w := by
      rw [backLink, fieldOf, hp'] at g2
      exact g2
    have hk : js "prev" ∈ v1Fields := by decide
    rw [g1, g2, get?_eq_of_signed (parseJson_ordered hp) (parseJson_ordered hp') ht ht' hk f1 f2
      scalarV scalarW]
  have holder : init.reverse = init'.reverse := by
    apply hlinked.older_eq (linkValue_injOn hc) _ hlinked' _ _ hback
    · intro l hl
      cases hl
    · intro x hx l hl
      obtain rfl := Option.some.inj hl
      exact Or.inl ⟨_, hm, by simp [List.mem_reverse.mp hx]⟩
    · intro y hy l hl
      obtain rfl := Option.some.inj hl
      exact Or.inr ⟨_, hsigned, by simp [List.mem_reverse.mp hy]⟩
  refine ⟨_, hsigned, ?_, text, ht, hlast⟩
  rw [List.dropLast_concat]
  exact (List.reverse_inj.mp holder).symm

/-- On a forest that verifies with signatures required, every entry is signed with the key and has
its place; and each chain is one that the holder of the key signed, line by line but for the last,
whose entry signs the text that was signed in its place. -/
theorem verify_tamper_evident [Unicode] {key : JsString} {signings : Signings ν}
    {files : ManifestFiles} (hu : Unforged key signings files)
    (hc : Set.InjOn sha256 (allLines signings files))
    (hv : ∃ result : VerifyResult ν, verify files true false (some key) = .ok result ∧
      result.valid = true) {lines : List JsString} (hl : IsChainOf ν files lines) :
    (∀ i line, lines[i]? = some line →
      ∃ ms : Members ν, parseJson line = some (.obj ms) ∧ PlacedAt key lines i ms) ∧
    (lines ≠ [] → ∃ signed ∈ signings.chains, signed.dropLast = lines.dropLast ∧
      ∃ text, SignsLast ν lines text ∧ SignsLast ν signed text) := by
  have hf := verify_valid_iff.mp hv
  have hchain : ∃ anchorOnFirst, ∃ last : ChainState ν,
      AcceptsAll ⟨some key, true, anchorOnFirst⟩ .init lines last := by
    rcases hl with rfl | ⟨name, hm, rfl⟩
    · exact ⟨false, hf.root.2⟩
    · exact ⟨true, (hf.segments name hm).2⟩
  obtain ⟨anchorOnFirst, last, hlast⟩ := hchain
  obtain ⟨hall, hlinked, -⟩ := hlast.placed
  refine ⟨hall, ?_⟩
  intro hne
  obtain ⟨init, line, rfl⟩ : ∃ init line, lines = init ++ [line] :=
    ⟨_, _, (List.dropLast_append_getLast hne).symm⟩
  obtain ⟨ms, hp, hm⟩ := hall init.length line (by simp)
  obtain ⟨signed, hsigned, hdrop, text, ht, hs⟩ := signed_chain hu hc hl hlinked hp hm.signed
  refine ⟨signed, hsigned, ?_, text, ⟨line, _, by simp, hp, ht⟩, hs⟩
  rw [hdrop, List.dropLast_concat]

/-! ## What a version-1 signature leaves open -/

def chainKey : JsString := js "k"

def plainFields : Members Int :=
  [(js "seq", .num 1), (js "gate", .str (js "g")), (js "ts", .str (js "t")), (js "files", .obj []),
    (js "prev", .null)]

def v1Signature : JsString :=
  hmacSha256Hex (utf8Encode chainKey) (utf8Encode (stringify (v1Object (.obj plainFields))))

def signedEntry : Members Int := plainFields ++ [(js "sig", .str v1Signature)]

/-- The entry with a field more that its signature does not cover. -/
def alteredEntry : Members Int :=
  plainFields ++ [(js "note", .str (js "x")), (js "sig", .str v1Signature)]

def rootOf (entry : Members Int) : ManifestFiles :=
  ⟨some (appendLine none (stringify (.obj entry))), none⟩

theorem linesOf_rootOf (entry : Members Int) :
    linesOf (rootOf entry).root = [stringify (.obj entry)] := by
  have h : rawLines ([] ++ (stringify (.obj entry) ++ [10])) = rawLines [] ++ [stringify (.obj entry)] :=
    (rawLines_append_iff (lineOk_stringify _)).mpr (by simp)
  rw [rootOf, linesOf, utf8Decode_appendLine]
  exact h

theorem isChainOf_rootOf {entry : Members Int} {lines : List JsString}
    (h : @IsChainOf Int _ asciiUnicode (rootOf entry) lines) : lines = [stringify (.obj entry)] := by
  rcases h with rfl | ⟨name, hm, -⟩
  · exact linesOf_rootOf entry
  · cases hm

theorem canonicalEntryBytes_v1 {entry : Members Int} (hv : isV2 (Json.obj entry) = false)
    (hc : v1Object (.obj entry) = v1Object (.obj plainFields)) :
    canonicalEntryBytes (Json.obj entry) = .ok (stringify (v1Object (.obj plainFields))) := by
  rw [canonicalEntryBytes, hv, hc]
  · rfl
  · intro h
    cases h

theorem entrySigValid_v1 {entry : Members Int}
    (hs : (Json.obj entry).get? (js "sig") = some (.str v1Signature))
    (hv : isV2 (Json.obj entry) = false)
    (hc : v1Object (.obj entry) = v1Object (.obj plainFields)) :
    entrySigValid chainKey (.obj entry) = .ok true := by
  have hb := canonicalEntryBytes_v1 hv hc
  have hne : ¬v1Signature = [] := hmacSha256Hex_ne_nil _ _
  unfold entrySigValid
  rw [hs]
  simp only
  rw [if_neg hne, signEntry, hb]
  simp [Except.map, v1Signature]

/-- One signed entry, alone in the root, verifies. -/
theorem verify_rootOf {entry : Members Int} (hj : (Json.obj entry).IsJson)
    (hq : entry.lookup (js "seq") = some (.num 1)) (hp : entry.lookup (js "prev") = some .null)
    (ha : entry.lookup (js "anchor") = none) (hs : entrySigValid chainKey (.obj entry) = .ok true) :
    ∃ result : VerifyResult Int,
      @verify Int _ asciiUnicode (rootOf entry) true false (some chainKey) = .ok result ∧
        result.valid = true := by
  apply (@verify_valid_iff Int _ asciiUnicode _ _ _).mpr
  have hroot : ChainOk Int ⟨some chainKey, true, false⟩ (linesOf (rootOf entry).root) := by
    rw [linesOf_rootOf]
    refine ⟨(fun h => by cases h), ⟨some (stringify (.obj entry)), 1, none, true⟩, entry, _,
      ⟨parseJson_stringify hj, hq, rfl, rfl, ?_, rfl, ?_, ?_, Or.inl ⟨hs, rfl⟩, rfl⟩, rfl⟩
    · exact linksTo_iff.mpr hp
    · rw [ha]
      rfl
    · exact ha.symm
  exact @ForestOk.mk Int _ asciiUnicode _ _ _ (by decide) rfl hroot (fun name hm => by cases hm)
    ⟨rfl, rfl⟩

theorem signedEntry_isJson : (Json.obj signedEntry).IsJson := by
  refine ⟨by decide, rfl, trivial, trivial, ⟨by decide, trivial⟩, trivial, trivial, trivial⟩

theorem alteredEntry_isJson : (Json.obj alteredEntry).IsJson := by
  refine ⟨by decide, rfl, trivial, trivial, ⟨by decide, trivial⟩, trivial, trivial, trivial, trivial⟩

/-- The key's holder signed one entry. -/
def oneSigning : Signings Int where
  chains := {[stringify (.obj signedEntry)]}
  linked lines h := by
    rw [Set.mem_singleton_iff.mp h]
    refine ⟨?_, trivial⟩
    rw [backLink, fieldOf_eq (parseJson_stringify signedEntry_isJson)]
    rfl

/-- An entry of the same covered fields carries a signature that was made. -/
theorem unforged_rootOf {entry : Members Int} (hj : (Json.obj entry).IsJson)
    (hv : isV2 (Json.obj entry) = false)
    (hc : v1Object (.obj entry) = v1Object (.obj plainFields)) :
    @Unforged Int _ asciiUnicode chainKey oneSigning (rootOf entry) := by
  intro lines hl line hm e text hp _ ht
  rw [isChainOf_rootOf hl] at hm
  rw [List.mem_singleton.mp hm, parseJson_stringify hj] at hp
  obtain rfl := Option.some.inj hp
  rw [canonicalEntryBytes_v1 hv hc] at ht
  have hsigned : canonicalEntryBytes (Json.obj signedEntry) = .ok text := by
    rw [← ht]
    exact canonicalEntryBytes_v1 rfl rfl
  exact ⟨_, rfl, _, _, rfl, parseJson_stringify signedEntry_isJson, hsigned⟩

theorem sha256_injOn_rootOf {entry : Members Int}
    (h : sha256 (stringify (.obj entry)) = sha256 (stringify (.obj signedEntry)) →
      stringify (.obj entry) = stringify (.obj signedEntry)) :
    Set.InjOn sha256 (@allLines Int _ asciiUnicode oneSigning (rootOf entry)) := by
  have hline : ∀ line ∈ @allLines Int _ asciiUnicode oneSigning (rootOf entry),
      line = stringify (.obj entry) ∨ line = stringify (.obj signedEntry) := by
    rintro line (⟨lines, hl, hm⟩ | ⟨lines, hl, hm⟩)
    · rw [isChainOf_rootOf hl] at hm
      exact Or.inl (List.mem_singleton.mp hm)
    · rw [Set.mem_singleton_iff.mp hl] at hm
      exact Or.inr (List.mem_singleton.mp hm)
  intro a ha b hb e
  rcases hline a ha with rfl | rfl <;> rcases hline b hb with rfl | rfl
  · rfl
  · exact h e
  · exact (h e.symm).symm
  · rfl

theorem verify_tamper_evident_signed :
    (∀ i line, [stringify (.obj signedEntry)][i]? = some line → ∃ ms : Members Int,
      parseJson line = some (.obj ms) ∧ PlacedAt chainKey [stringify (.obj signedEntry)] i ms) ∧
    ([stringify (.obj signedEntry)] ≠ [] → ∃ signed ∈ oneSigning.chains,
      signed.dropLast = [stringify (.obj signedEntry)].dropLast ∧
        ∃ text, SignsLast Int [stringify (.obj signedEntry)] text ∧ SignsLast Int signed text) :=
  @verify_tamper_evident Int _ asciiUnicode chainKey oneSigning (rootOf signedEntry)
    (unforged_rootOf signedEntry_isJson rfl rfl) (sha256_injOn_rootOf fun _ => rfl)
    (verify_rootOf signedEntry_isJson rfl rfl rfl (entrySigValid_v1 rfl rfl rfl))
    [stringify (.obj signedEntry)] (Or.inl (linesOf_rootOf signedEntry).symm)

/-- A field that a version-1 signature does not cover can be added to the last entry of a chain. -/
theorem altered_entry_verifies :
    @Unforged Int _ asciiUnicode chainKey oneSigning (rootOf alteredEntry) ∧
    Set.InjOn sha256 (@allLines Int _ asciiUnicode oneSigning (rootOf alteredEntry)) ∧
    (∃ result : VerifyResult Int,
      @verify Int _ asciiUnicode (rootOf alteredEntry) true false (some chainKey) = .ok result ∧
        result.valid = true) ∧
    ∀ signed ∈ oneSigning.chains, ¬linesOf (rootOf alteredEntry).root <+: signed := by
  refine ⟨unforged_rootOf alteredEntry_isJson rfl rfl, sha256_injOn_rootOf ?_,
    verify_rootOf alteredEntry_isJson rfl rfl rfl (entrySigValid_v1 rfl rfl rfl), ?_⟩
  · have hne : ¬sha256 (stringify (.obj alteredEntry)) = sha256 (stringify (.obj signedEntry)) := by
      decide +kernel
    exact fun h => absurd h hne
  · intro signed hs
    rw [Set.mem_singleton_iff.mp hs, linesOf_rootOf]
    intro hpart
    have e : stringify (.obj alteredEntry) = stringify (.obj signedEntry) := by
      obtain ⟨rest, e⟩ := hpart
      exact (List.cons.inj e).1
    have hv := stringify_injective alteredEntry_isJson signedEntry_isJson e
    have hn : (Json.obj alteredEntry).get? (js "note") = none := by
      rw [hv]
      rfl
    cases hn

end Adlc.GateManifest
