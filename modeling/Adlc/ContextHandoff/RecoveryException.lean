import Adlc.ContextHandoff.DenyMarker
import Adlc.Framework.ShellWords

namespace Adlc.ContextHandoff

open Adlc.Framework Adlc.Framework.Shell

/-! ## The grammar -/

/-- `[A-Za-z0-9_./=-]` -/
def isPathUnit (c : UInt16) : Bool := isNameUnit c || c = 46 || c = slash || c = equals || c = 45

/-- `[A-Za-z0-9_./=:-]` -/
def isValueUnit (c : UInt16) : Bool := isPathUnit c || c = 58

/-- `PATH_UNQUOTED_RE` -/
def isUnquotedPath (token : JsString) : Bool := token ≠ [] && token.all isPathUnit

/-- `VALUE_RE` -/
def isValue (token : JsString) : Bool := token ≠ [] && token.all isValueUnit

inductive Subcommand where
  | bypass
  | unlock
  | repair
  | write
  | resume
  deriving DecidableEq

def Subcommand.name : Subcommand → JsString
  | .bypass => js "bypass"
  | .unlock => js "unlock"
  | .repair => js "repair"
  | .write => js "write"
  | .resume => js "resume"

/-- `SUBCOMMANDS` -/
def subcommands : List Subcommand := [.bypass, .unlock, .repair, .write, .resume]

inductive FlagKind where
  | value
  | boolean
  deriving DecidableEq

def sessionFlag : JsString := js "--session"

/-- `SUBCOMMAND_FLAGS` -/
def Subcommand.flags : Subcommand → List (JsString × FlagKind)
  | .bypass => [(sessionFlag, .value), (js "--ticket", .value), (js "--dir", .value),
      (js "--write", .boolean), (js "--json", .boolean)]
  | .unlock => [(sessionFlag, .value), (js "--pid", .value), (js "--started-at", .value),
      (js "--host", .value), (js "--nonce", .value), (js "--write", .boolean), (js "--json", .boolean)]
  | .repair => [(sessionFlag, .value), (js "--ticket", .value), (js "--content-hash", .value),
      (js "--host", .value), (js "--write", .boolean), (js "--json", .boolean)]
  | .write => [(sessionFlag, .value), (js "--ticket", .value), (js "--host", .value),
      (js "--content-hash", .value), (js "--write", .boolean), (js "--json", .boolean)]
  | .resume => [(sessionFlag, .value), (js "--deny-session", .value), (js "--write", .boolean),
      (js "--json", .boolean)]

/-! ## The matcher -/

/-- The tokens from `cur` on; nothing where a quote is not closed, or is closed before a unit that is
no space. -/
def tokenizeFrom (cur : JsString) (quoted : Bool) : JsString → Option (List JsString)
  | [] => if quoted then none else some [cur]
  | c :: rest =>
    if quoted then
      if c = singleQuote then
        if rest.head?.all (· = space) then tokenizeFrom (cur ++ [c]) false rest else none
      else tokenizeFrom (cur ++ [c]) true rest
    else if c = space then (tokenizeFrom [] false rest).map (cur :: ·)
    else tokenizeFrom (cur ++ [c]) (c = singleQuote) rest

/-- `[\r\n]` -/
def isBreak (c : UInt16) : Bool := c = 13 || c = 10

def tokenize (raw : JsString) : Option (List JsString) :=
  if raw.any isBreak then none else tokenizeFrom [] false raw

def parsePathToken (token : JsString) : Option JsString :=
  if 2 ≤ token.length && token.head? = some singleQuote && token.getLast? = some singleQuote then
    let inner := (token.drop 1).dropLast
    if inner.contains 0 || inner.any isBreak then none else some inner
  else if isUnquotedPath token then some token
  else none

def isLetter (c : UInt16) : Bool :=
  let n := c.toNat
  (65 ≤ n && n ≤ 90) || (97 ≤ n && n ≤ 122)

/-- `WINDOWS_DRIVE_ABS_RE` -/
def isDriveAbsolute : JsString → Bool
  | drive :: colon :: separator :: _ =>
    isLetter drive && colon = 58 && (separator = escape || separator = slash)
  | _ => false

def isAbsoluteCandidatePath (p : JsString) : Bool := p.head? = some slash || isDriveAbsolute p

structure RecoveryOpts where
  interpreterPath : JsString
  scriptPath : JsString
  sessionId : Option JsString
  /-- `realpathSync`; nothing where it throws. -/
  realpath : JsString → Option JsString

/-- Both paths lead to the same file. -/
def RecoveryOpts.sameFile (opts : RecoveryOpts) (candidatePath expectedPath : JsString) : Bool :=
  match opts.realpath candidatePath, opts.realpath expectedPath with
  | some candidate, some expected => candidate = expected
  | _, _ => false

def identityMatches (opts : RecoveryOpts) (candidatePath : Option JsString) (expectedPath : JsString) :
    Bool :=
  candidatePath.any fun candidate =>
    isAbsoluteCandidatePath candidate && opts.sameFile candidate expectedPath

def isFlagName (token : JsString) : Bool := (js "--").isPrefixOf token

/-- The session that the flag names is this one. -/
def sessionBound (opts : RecoveryOpts) (flagTok valueTok : JsString) : Bool :=
  flagTok ≠ sessionFlag || opts.sessionId.any fun sessionId => sessionId ≠ [] && valueTok = sessionId

/-- The flags seen in the end; nothing where a token is refused. -/
def matchFlags (opts : RecoveryOpts) (flagSpec : List (JsString × FlagKind)) (seenFlags : List JsString) :
    List JsString → Option (List JsString)
  | [] => some seenFlags
  | flagTok :: rest =>
    if !(isFlagName flagTok && isValue flagTok) || seenFlags.contains flagTok then none
    else
      match flagSpec.lookup flagTok with
      | none => none
      | some .boolean => matchFlags opts flagSpec (seenFlags ++ [flagTok]) rest
      | some .value =>
        match rest with
        | [] => none
        | valueTok :: rest =>
          if isValue valueTok && !isFlagName valueTok && sessionBound opts flagTok valueTok then
            matchFlags opts flagSpec (seenFlags ++ [flagTok]) rest
          else none

def matchTokens (opts : RecoveryOpts) : List JsString → Option Subcommand
  | interpreterTok :: scriptTok :: subcommandTok :: rest =>
    if !identityMatches opts (parsePathToken interpreterTok) opts.interpreterPath then none
    else if !identityMatches opts (parsePathToken scriptTok) opts.scriptPath then none
    else if !isValue subcommandTok then none
    else
      match subcommands.find? fun subcommand => subcommand.name = subcommandTok with
      | none => none
      | some subcommand =>
        match matchFlags opts subcommand.flags [] rest with
        | none => none
        | some seenFlags => if seenFlags.contains sessionFlag then some subcommand else none
  | _ => none

def matchRecoveryCommand (commandText : JsString) (opts : RecoveryOpts) : Option Subcommand :=
  (tokenize commandText).bind (matchTokens opts)

/-! ## The printer -/

def quotePathForDisplay (p : JsString) : Option JsString :=
  if p.contains singleQuote || p.any isBreak then none
  else if isUnquotedPath p then some p
  else some (singleQuote :: p ++ [singleQuote])

/-- What a diagnostic says of the way out. -/
inductive RecoveryMessage where
  | noSessionId
  | unsafeInstallPath (interpreterPath scriptPath sessionId : JsString)
  | command (line : JsString)

def RecoveryMessage.text : RecoveryMessage → JsString
  | .noSessionId => js "No session id could be resolved for this session, so no session-specific " ++
      js "recovery command can be printed. End this session and start a new one — the host will mint a " ++
      js "fresh session id, unaffected by this resolution failure. In the interim, `pwd` remains usable."
  | .unsafeInstallPath interpreterPath scriptPath sessionId =>
    js "The recovery command cannot be printed as a safe, copy-pasteable shell command: the resolved " ++
      js "install path contains a character (a literal apostrophe or a newline) that cannot be represented " ++
      js "in one. Run the operator recovery CLI manually — interpreter at " ++ interpreterPath ++
      js ", script at " ++ scriptPath ++ js ", subcommand \"bypass --session " ++ sessionId ++
      js "\" to inspect (mutates nothing). Clearing the deny needs a human operator holding " ++
      js "ADLC_MANIFEST_KEY to review why it fired and add --write themselves — that is deliberately not " ++
      js "spelled out as a single runnable line. `pwd` remains usable in the interim."
  | .command line => line ++ 10 :: (js "(dry run — inspects only, mutates nothing). Clearing the deny " ++
      js "needs a human operator holding ADLC_MANIFEST_KEY to add --write themselves; that is deliberately " ++
      js "not spelled out as a single runnable line.")

def formatRecoveryCommand (interpreterPath scriptPath sessionId : JsString) : RecoveryMessage :=
  if !isValue sessionId then .noSessionId
  else
    match quotePathForDisplay interpreterPath, quotePathForDisplay scriptPath with
    | some interpreterDisplay, some scriptDisplay =>
      .command (interpreterDisplay ++ js " " ++ scriptDisplay ++ js " bypass --session " ++ sessionId)
    | _, _ => .unsafeInstallPath interpreterPath scriptPath sessionId

/-! ## What the tokens are -/

/-- A token has no quote, or it ends with the only quoted span it has. -/
def OneSpan (token : JsString) : Prop :=
  singleQuote ∉ token ∨ ∃ before inner, singleQuote ∉ before ∧ singleQuote ∉ inner ∧
    token = before ++ singleQuote :: inner ++ [singleQuote]

/-- What has been read of a token, and what can follow. -/
def Reading (cur : JsString) (raw : JsString) : Bool → Prop
  | false => singleQuote ∉ cur ∨ OneSpan cur ∧ raw.head?.all (· = space) = true
  | true => ∃ before inner, singleQuote ∉ before ∧ singleQuote ∉ inner ∧
      cur = before ++ singleQuote :: inner

theorem not_mem_append_singleton {cur : JsString} {c : UInt16} (h : singleQuote ∉ cur)
    (hc : c ≠ singleQuote) : singleQuote ∉ cur ++ [c] := by
  simp [h, hc.symm]

theorem Reading.next {cur rest : JsString} {c : UInt16} (h : Reading cur (c :: rest) false)
    (hc : c ≠ space) : Reading (cur ++ [c]) rest (decide (c = singleQuote)) := by
  have hcur : singleQuote ∉ cur := by
    obtain hcur | ⟨-, hspace⟩ := h
    · exact hcur
    · exact absurd (of_decide_eq_true hspace) hc
  by_cases hquote : c = singleQuote
  · subst hquote
    rw [decide_eq_true rfl]
    exact ⟨cur, [], hcur, List.not_mem_nil, rfl⟩
  · rw [decide_eq_false hquote]
    exact Or.inl (not_mem_append_singleton hcur hquote)

theorem tokenizeFrom_spec {cur raw : JsString} {quoted : Bool} {tokens : List JsString}
    (h : tokenizeFrom cur quoted raw = some tokens) (hreading : Reading cur raw quoted) :
    tokens ≠ [] ∧ cur ++ raw = [space].intercalate tokens ∧ ∀ token ∈ tokens, OneSpan token := by
  induction raw generalizing cur quoted tokens with
  | nil =>
    rw [tokenizeFrom] at h
    cases quoted with
    | true => cases h
    | false =>
      obtain rfl := Option.some.inj h
      refine ⟨List.cons_ne_nil _ _, by simp, ?_⟩
      rw [List.forall_mem_singleton]
      obtain hcur | ⟨hcur, -⟩ := hreading
      · exact Or.inl hcur
      · exact hcur
  | cons c rest ih =>
    rw [tokenizeFrom] at h
    cases quoted with
    | true =>
      obtain ⟨before, inner, hbefore, hinner, rfl⟩ := hreading
      rw [if_pos rfl] at h
      split_ifs at h with hquote hspace
      · subst hquote
        obtain ⟨hne, htext, htokens⟩ :=
          ih h (Or.inr ⟨Or.inr ⟨before, inner, hbefore, hinner, rfl⟩, hspace⟩)
        exact ⟨hne, by simpa using htext, htokens⟩
      · have hnext : Reading (before ++ singleQuote :: inner ++ [c]) rest true :=
          ⟨before, inner ++ [c], hbefore, not_mem_append_singleton hinner hquote, by simp⟩
        obtain ⟨hne, htext, htokens⟩ := ih h hnext
        exact ⟨hne, by simpa using htext, htokens⟩
    | false =>
      rw [if_neg Bool.false_ne_true] at h
      split_ifs at h with hspace
      · subst hspace
        obtain ⟨tail, htail, rfl⟩ := Option.map_eq_some_iff.mp h
        obtain ⟨hne, htext, htokens⟩ := ih htail (Or.inl List.not_mem_nil)
        have hcur : OneSpan cur := by
          obtain hcur | ⟨hcur, -⟩ := hreading
          · exact Or.inl hcur
          · exact hcur
        refine ⟨List.cons_ne_nil _ _, ?_, List.forall_mem_cons.mpr ⟨hcur, htokens⟩⟩
        obtain ⟨next, tail, rfl⟩ := List.exists_cons_of_ne_nil hne
        rw [List.nil_append] at htext
        rw [htext]
        simp
      · obtain ⟨hne, htext, htokens⟩ := ih h (hreading.next hspace)
        exact ⟨hne, by simpa using htext, htokens⟩

/-! ## The words the tokens spell -/

theorem isOrdinary_of_isValueUnit {c : UInt16} (h : isValueUnit c = true) : isOrdinary c = true := by
  have hexcluded : ∀ d ∈ specialUnits, isValueUnit d = false := forall_mem_of_all (by decide)
  by_contra hspecial
  have hmem : c ∈ specialUnits := by simpa [isOrdinary] using hspecial
  rw [hexcluded c hmem] at h
  cases h

theorem not_mem_expansionUnits {c : UInt16} (h : isValueUnit c = true) : c ∉ expansionUnits := by
  have hexcluded : ∀ d ∈ expansionUnits, isValueUnit d = false := forall_mem_of_all (by decide)
  intro hmem
  rw [hexcluded c hmem] at h
  cases h

theorem isValue_units {token : JsString} (h : isValue token = true) :
    token ≠ [] ∧ ∀ c ∈ token, isValueUnit c = true := by
  simpa [isValue] using h

theorem isValueUnit_of_isPathUnit {c : UInt16} (h : isPathUnit c = true) : isValueUnit c = true := by
  rw [isValueUnit, h, Bool.true_or]

theorem isUnquotedPath_units {token : JsString} (h : isUnquotedPath token = true) :
    token ≠ [] ∧ ∀ c ∈ token, isPathUnit c = true := by
  simpa [isUnquotedPath] using h

theorem isValue_of_isUnquotedPath {token : JsString} (h : isUnquotedPath token = true) :
    isValue token = true := by
  obtain ⟨hne, hunits⟩ := isUnquotedPath_units h
  rw [isValue, Bool.and_eq_true]
  exact ⟨decide_eq_true hne, List.all_eq_true.mpr fun c hc => isValueUnit_of_isPathUnit (hunits c hc)⟩

theorem spells_value {token : JsString} (h : isValue token = true) : Spells token (bareWord token) := by
  obtain ⟨hne, hunits⟩ := isValue_units h
  exact spells_bare hne fun c hc => isOrdinary_of_isValueUnit (hunits c hc)

theorem expands_value {token : JsString} (h : isValue token = true) :
    (bareWord token).expands = false :=
  expands_bareWord fun c hc => not_mem_expansionUnits ((isValue_units h).2 c hc)

/-- The inside of a token that is one quoted span. -/
theorem OneSpan.inner {token : JsString} (h : OneSpan token) (hlength : 2 ≤ token.length)
    (hhead : token.head? = some singleQuote) (hlast : token.getLast? = some singleQuote) :
    ∃ inner, singleQuote ∉ inner ∧ token = singleQuote :: inner ++ [singleQuote] := by
  have hmem : singleQuote ∈ token := List.mem_of_mem_head? hhead
  obtain hnone | ⟨before, inner, hbefore, hinner, rfl⟩ := h
  · exact absurd hmem hnone
  · cases before with
    | nil => exact ⟨inner, hinner, rfl⟩
    | cons c before =>
      obtain rfl := Option.some.inj hhead
      exact absurd List.mem_cons_self hbefore

/-- A token that is taken for an absolute path spells that path, which is no assignment and no reserved
word. -/
structure SpellsPath (token path : JsString) (word : Word) : Prop where
  spells : Spells token word
  value : word.value = path
  expands : word.expands = false
  isAssignment : word.isAssignment = false
  isReserved : word.isReserved = false

theorem reservedWords_head : ∀ word ∈ reservedWords, word.head? ≠ some slash := by decide

theorem absolute_ne_nil {path : JsString} (h : isAbsoluteCandidatePath path = true) : path ≠ [] := by
  rintro rfl
  cases h

/-- A drive letter is followed by a colon, which only a quoted path can hold. -/
theorem head_of_unquoted {path : JsString} (hunits : ∀ c ∈ path, isPathUnit c = true)
    (habsolute : isAbsoluteCandidatePath path = true) : ∃ rest, path = slash :: rest := by
  rw [isAbsoluteCandidatePath, Bool.or_eq_true] at habsolute
  obtain hslash | hdrive := habsolute
  · obtain ⟨rest, hrest⟩ := List.head?_eq_some_iff.mp (of_decide_eq_true hslash)
    exact ⟨rest, hrest⟩
  · match path, hdrive with
    | drive :: colon :: separator :: rest, hdrive =>
      simp only [isDriveAbsolute, Bool.and_eq_true, decide_eq_true_eq] at hdrive
      have hcolon := hunits colon (by simp)
      rw [hdrive.1.2] at hcolon
      exact absurd hcolon (by decide)

theorem spellsPath_of_parse {token path : JsString} (hspan : OneSpan token)
    (hparse : parsePathToken token = some path) (habsolute : isAbsoluteCandidatePath path = true) :
    ∃ word, SpellsPath token path word := by
  rw [parsePathToken] at hparse
  split_ifs at hparse with hquoted hpath
  · simp only [Bool.and_eq_true, decide_eq_true_eq] at hquoted
    obtain ⟨inner, hnone, rfl⟩ := hspan.inner hquoted.1.1 hquoted.1.2 hquoted.2
    obtain ⟨-, rfl⟩ : (0 ∉ inner ∧ ∀ c ∈ inner, isBreak c = false) ∧ inner = path := by
      simpa using hparse
    obtain ⟨c, rest, rfl⟩ := List.exists_cons_of_ne_nil (absolute_ne_nil habsolute)
    have hspells : Spells (singleQuote :: (c :: rest) ++ [singleQuote]) (hardWord (c :: rest)) := by
      apply spells_quoted
      rintro d hd rfl
      exact hnone hd
    exact ⟨hardWord (c :: rest), hspells, value_hardWord _, expands_hardWord _, rfl, rfl⟩
  · obtain rfl := Option.some.inj hparse
    have hvalue := isValue_of_isUnquotedPath hpath
    obtain ⟨rest, rfl⟩ := head_of_unquoted (isUnquotedPath_units hpath).2 habsolute
    have hreserved : (bareWord (slash :: rest)).isReserved = false := by
      rw [Word.isReserved, value_bareWord, Bool.and_eq_false_iff]
      right
      rw [List.contains_eq_mem, decide_eq_false_iff_not]
      intro hmem
      exact reservedWords_head _ hmem rfl
    exact ⟨bareWord (slash :: rest), spells_value hvalue, value_bareWord _, expands_value hvalue, rfl,
      hreserved⟩

/-! ## Flags -/

/-- A flag as it is given. -/
structure FlagUse where
  flag : JsString
  value : Option JsString

def FlagUse.tokens (use : FlagUse) : List JsString := use.flag :: use.value.toList

def FlagUse.kind (use : FlagUse) : FlagKind :=
  match use.value with
  | some _ => .value
  | none => .boolean

/-- The flag is one of the subcommand's, and names this session where it names one. -/
def FlagUse.Allowed (opts : RecoveryOpts) (flagSpec : List (JsString × FlagKind)) (use : FlagUse) :
    Prop :=
  flagSpec.lookup use.flag = some use.kind ∧
    ∀ value, use = ⟨sessionFlag, some value⟩ → opts.sessionId = some value

theorem sessionBound_session {opts : RecoveryOpts} {value : JsString}
    (h : sessionBound opts sessionFlag value = true) : opts.sessionId = some value := by
  have hany : (opts.sessionId.any fun sessionId => sessionId ≠ [] && value = sessionId) = true := by
    simpa [sessionBound] using h
  cases hsession : opts.sessionId with
  | none =>
    rw [hsession] at hany
    cases hany
  | some sessionId =>
    rw [hsession] at hany
    have hvalue : sessionId ≠ [] ∧ value = sessionId := by simpa using hany
    rw [hvalue.2]

theorem matchFlags_uses {opts : RecoveryOpts} {flagSpec : List (JsString × FlagKind)}
    {seenFlags rest seen : List JsString} (h : matchFlags opts flagSpec seenFlags rest = some seen)
    (hnodup : seenFlags.Nodup) :
    (∀ token ∈ rest, isValue token = true) ∧ ∃ uses : List FlagUse,
      rest = uses.flatMap FlagUse.tokens ∧ seen = seenFlags ++ uses.map FlagUse.flag ∧ seen.Nodup ∧
      ∀ use ∈ uses, use.Allowed opts flagSpec := by
  induction seenFlags, rest using matchFlags.induct opts flagSpec generalizing seen with
  | case1 seenFlags =>
    rw [matchFlags] at h
    obtain rfl := Option.some.inj h
    exact ⟨by simp, [], rfl, by simp, hnodup, by simp⟩
  | case2 seenFlags flagTok rest hrefused =>
    rw [matchFlags.eq_def] at h
    simp only [if_pos hrefused] at h
    cases h
  | case3 seenFlags flagTok rest hflag hlookup =>
    rw [matchFlags.eq_def] at h
    simp only [if_neg hflag, hlookup] at h
    cases h
  | case4 seenFlags flagTok rest hflag hlookup ih =>
    rw [matchFlags.eq_def] at h
    simp only [if_neg hflag, hlookup] at h
    obtain ⟨⟨-, hvalue⟩, hnew⟩ : (isFlagName flagTok = true ∧ isValue flagTok = true) ∧
        flagTok ∉ seenFlags := by simpa using hflag
    have hseen : (seenFlags ++ [flagTok]).Nodup := by
      rw [List.nodup_append_comm]
      exact List.nodup_cons.mpr ⟨hnew, hnodup⟩
    obtain ⟨hvalues, uses, hrest, hflags, hdistinct, hallowed⟩ := ih h hseen
    refine ⟨List.forall_mem_cons.mpr ⟨hvalue, hvalues⟩, ⟨flagTok, none⟩ :: uses, ?_, ?_, hdistinct,
      List.forall_mem_cons.mpr ⟨⟨hlookup, ?_⟩, hallowed⟩⟩
    · rw [hrest]
      rfl
    · rw [hflags, List.append_assoc]
      rfl
    · intro value huse
      cases huse
  | case5 seenFlags flagTok hflag hlookup =>
    rw [matchFlags.eq_def] at h
    simp only [if_neg hflag, hlookup] at h
    cases h
  | case6 seenFlags flagTok hflag hlookup valueTok rest haccepted ih =>
    rw [matchFlags.eq_def] at h
    simp only [if_neg hflag, hlookup, if_pos haccepted] at h
    obtain ⟨⟨-, hvalue⟩, hnew⟩ : (isFlagName flagTok = true ∧ isValue flagTok = true) ∧
        flagTok ∉ seenFlags := by simpa using hflag
    have hseen : (seenFlags ++ [flagTok]).Nodup := by
      rw [List.nodup_append_comm]
      exact List.nodup_cons.mpr ⟨hnew, hnodup⟩
    obtain ⟨hvalues, uses, hrest, hflags, hdistinct, hallowed⟩ := ih h hseen
    simp only [Bool.and_eq_true] at haccepted
    obtain ⟨⟨hvalueTok, -⟩, hbound⟩ := haccepted
    refine ⟨List.forall_mem_cons.mpr ⟨hvalue, List.forall_mem_cons.mpr ⟨hvalueTok, hvalues⟩⟩,
      ⟨flagTok, some valueTok⟩ :: uses, ?_, ?_, hdistinct,
      List.forall_mem_cons.mpr ⟨⟨hlookup, ?_⟩, hallowed⟩⟩
    · rw [hrest]
      rfl
    · rw [hflags, List.append_assoc]
      rfl
    · rintro value huse
      cases huse
      exact sessionBound_session hbound
  | case7 seenFlags flagTok hflag hlookup valueTok rest hrefused =>
    rw [matchFlags.eq_def] at h
    simp only [if_neg hflag, hlookup, if_neg hrefused] at h
    cases h

theorem sessionFlag_kind (subcommand : Subcommand) :
    subcommand.flags.lookup sessionFlag = some .value := by
  cases subcommand <;> rfl

theorem sessionUse {opts : RecoveryOpts} {subcommand : Subcommand} {use : FlagUse}
    (hallowed : use.Allowed opts subcommand.flags) (hflag : use.flag = sessionFlag) :
    ∃ sessionId, opts.sessionId = some sessionId ∧ use = ⟨sessionFlag, some sessionId⟩ := by
  obtain ⟨flag, value⟩ := use
  obtain rfl : flag = sessionFlag := hflag
  obtain ⟨hkind, hsession⟩ := hallowed
  rw [sessionFlag_kind] at hkind
  cases value with
  | none => cases hkind
  | some value => exact ⟨value, hsession value rfl, rfl⟩

/-! ## Soundness -/

theorem identityMatches_spec {opts : RecoveryOpts} {candidate : Option JsString} {expected : JsString}
    (h : identityMatches opts candidate expected = true) :
    ∃ path, candidate = some path ∧ isAbsoluteCandidatePath path = true ∧
      opts.sameFile path expected = true := by
  cases candidate with
  | none => cases h
  | some path =>
    rw [identityMatches, Option.any_some, Bool.and_eq_true] at h
    exact ⟨path, rfl, h.1, h.2⟩

/-- A command that is let through is one simple command: the interpreter, the script, a subcommand, and
flags of it that name this session. -/
theorem matchRecoveryCommand_sound (commandText : JsString) (opts : RecoveryOpts)
    (subcommand : Subcommand) (h : matchRecoveryCommand commandText opts = some subcommand) :
    ∃ (interpreter script : JsString) (uses : List FlagUse) (sessionId : JsString),
      plainCommand commandText = some
        (interpreter :: script :: subcommand.name :: uses.flatMap FlagUse.tokens) ∧
      isAbsoluteCandidatePath interpreter = true ∧
      opts.sameFile interpreter opts.interpreterPath = true ∧
      isAbsoluteCandidatePath script = true ∧ opts.sameFile script opts.scriptPath = true ∧
      (∀ use ∈ uses, subcommand.flags.lookup use.flag = some use.kind) ∧
      (uses.map FlagUse.flag).Nodup ∧
      opts.sessionId = some sessionId ∧ ⟨sessionFlag, some sessionId⟩ ∈ uses := by
  obtain ⟨tokens, htokens, hmatch⟩ := Option.bind_eq_some_iff.mp h
  rw [tokenize] at htokens
  split_ifs at htokens with hbreak
  obtain ⟨-, htext, hspans⟩ := tokenizeFrom_spec htokens (Or.inl List.not_mem_nil)
  rw [List.nil_append] at htext
  match tokens, hmatch with
  | interpreterTok :: scriptTok :: subcommandTok :: rest, hmatch =>
    rw [matchTokens] at hmatch
    split_ifs at hmatch with hinterpreter hscript hvalue
    simp only [Bool.not_eq_true', Bool.not_eq_false] at hinterpreter hscript hvalue
    obtain ⟨interpreter, hparse, habsolute, hsame⟩ := identityMatches_spec hinterpreter
    obtain ⟨script, hparse', habsolute', hsame'⟩ := identityMatches_spec hscript
    cases hfind : subcommands.find? fun subcommand => subcommand.name = subcommandTok with
    | none =>
      rw [hfind] at hmatch
      cases hmatch
    | some found =>
      rw [hfind] at hmatch
      cases hflags : matchFlags opts found.flags [] rest with
      | none => simp [hflags] at hmatch
      | some seen =>
        simp only [hflags] at hmatch
        split_ifs at hmatch with hsession
        obtain rfl := Option.some.inj hmatch
        have hname : found.name = subcommandTok := by simpa using List.find?_some hfind
        obtain ⟨hvalues, uses, hrest, hseen, hdistinct, hallowed⟩ :=
          matchFlags_uses hflags List.nodup_nil
        rw [List.nil_append] at hseen
        rw [hseen, List.contains_iff_mem] at hsession
        rw [hseen] at hdistinct
        obtain ⟨use, huse, hflag⟩ := List.mem_map.mp hsession
        obtain ⟨sessionId, hid, rfl⟩ := sessionUse (hallowed use huse) hflag
        obtain ⟨first, hfirst⟩ :=
          spellsPath_of_parse (hspans interpreterTok (by simp)) hparse habsolute
        obtain ⟨second, hsecond⟩ := spellsPath_of_parse (hspans scriptTok (by simp)) hparse' habsolute'
        have hspells : List.Forall₂ Spells (interpreterTok :: scriptTok :: subcommandTok :: rest)
            (first :: second :: bareWord subcommandTok :: rest.map bareWord) := by
          refine .cons hfirst.spells (.cons hsecond.spells (.cons (spells_value hvalue) ?_))
          rw [List.forall₂_map_right_iff, List.forall₂_same]
          exact fun token hm => spells_value (hvalues token hm)
        have hexpands : ∀ w ∈ first :: second :: bareWord subcommandTok :: rest.map bareWord,
            Word.expands w = false := by
          simp only [List.forall_mem_cons, List.forall_mem_map]
          exact ⟨hfirst.expands, hsecond.expands, expands_value hvalue,
            fun token hm => expands_value (hvalues token hm)⟩
        have hplain := plainCommand_intercalate hspells hfirst.isAssignment hfirst.isReserved hexpands
        have hrestValues : (rest.map bareWord).map Word.value = rest := by
          rw [List.map_map]
          exact List.map_id'' value_bareWord rest
        rw [← htext, List.map_cons, List.map_cons, List.map_cons, hfirst.value, hsecond.value,
          value_bareWord, hrestValues, ← hname, hrest] at hplain
        exact ⟨interpreter, script, uses, sessionId, hplain, habsolute, hsame, habsolute', hsame',
          fun use hm => (hallowed use hm).1, hdistinct, hid, huse⟩

def plainInstall : RecoveryOpts := ⟨js "/usr/bin/node", js "/my adlc/handoff.mjs", some (js "s1"), some⟩

theorem matchRecoveryCommand_sound_quoted :
    ∃ (interpreter script : JsString) (uses : List FlagUse) (sessionId : JsString),
      plainCommand (js "/usr/bin/node '/my adlc/handoff.mjs' bypass --write --session s1") = some
        (interpreter :: script :: Subcommand.bypass.name :: uses.flatMap FlagUse.tokens) ∧
      isAbsoluteCandidatePath interpreter = true ∧
      plainInstall.sameFile interpreter plainInstall.interpreterPath = true ∧
      isAbsoluteCandidatePath script = true ∧
      plainInstall.sameFile script plainInstall.scriptPath = true ∧
      (∀ use ∈ uses, Subcommand.bypass.flags.lookup use.flag = some use.kind) ∧
      (uses.map FlagUse.flag).Nodup ∧
      plainInstall.sessionId = some sessionId ∧ ⟨sessionFlag, some sessionId⟩ ∈ uses := by
  apply matchRecoveryCommand_sound _ plainInstall .bypass
  decide +kernel

/-- A relative path in the current directory that leads to the interpreter. -/
def driveInstall : RecoveryOpts where
  interpreterPath := js "/usr/bin/node"
  scriptPath := js "/handoff.mjs"
  sessionId := some (js "s1")
  realpath p := if p = js "C:/node" then some (js "/usr/bin/node") else some p

theorem matchRecoveryCommand_drive :
    matchRecoveryCommand (js "'C:/node' /handoff.mjs bypass --session s1") driveInstall = some .bypass ∧
    plainCommand (js "'C:/node' /handoff.mjs bypass --session s1") =
      some [js "C:/node", js "/handoff.mjs", js "bypass", js "--session", js "s1"] ∧
    (js "C:/node").head? ≠ some slash := by
  constructor
  · decide +kernel
  · decide +kernel

/-! ## What is printed is let through -/

theorem tokenizeFrom_units {text rest : JsString} (h : ∀ c ∈ text, c ≠ space ∧ c ≠ singleQuote)
    (cur : JsString) : tokenizeFrom cur false (text ++ rest) = tokenizeFrom (cur ++ text) false rest := by
  induction text generalizing cur with
  | nil => rw [List.nil_append, List.append_nil]
  | cons c text ih =>
    obtain ⟨hspace, hquote⟩ := h c List.mem_cons_self
    rw [List.cons_append, tokenizeFrom, if_neg Bool.false_ne_true, if_neg hspace,
      decide_eq_false hquote, ih fun d hd => h d (List.mem_cons_of_mem _ hd), List.append_assoc]
    rfl

theorem tokenizeFrom_quoted {inner rest : JsString} (h : singleQuote ∉ inner)
    (hrest : rest.head?.all (· = space) = true) (cur : JsString) :
    tokenizeFrom cur true (inner ++ singleQuote :: rest) =
      tokenizeFrom (cur ++ inner ++ [singleQuote]) false rest := by
  induction inner generalizing cur with
  | nil =>
    rw [List.nil_append, tokenizeFrom, if_pos rfl, if_pos rfl, if_pos hrest, List.append_nil]
  | cons c inner ih =>
    rw [List.mem_cons, not_or] at h
    rw [List.cons_append, tokenizeFrom, if_pos rfl, if_neg (Ne.symm h.1), ih h.2]
    simp

/-- The text that is printed for a path reads back as one token, and as that path. -/
structure Displays (display path : JsString) : Prop where
  token : ∀ rest, tokenizeFrom [] false (display ++ space :: rest) =
    (tokenizeFrom [] false rest).map (display :: ·)
  path : parsePathToken display = some path
  unbroken : display.any isBreak = false

theorem isValueUnit_plain {c : UInt16} (h : isValueUnit c = true) :
    c ≠ space ∧ c ≠ singleQuote ∧ isBreak c = false := by
  refine ⟨?_, ?_, ?_⟩
  · rintro rfl
    exact absurd h (by decide)
  · rintro rfl
    exact absurd h (by decide)
  · cases hbreak : isBreak c with
    | false => rfl
    | true =>
      obtain rfl | rfl : c = 13 ∨ c = 10 := by simpa [isBreak] using hbreak
      · exact absurd h (by decide)
      · exact absurd h (by decide)

theorem tokenizeFrom_value {token : JsString} (h : isValue token = true) (rest : JsString) :
    tokenizeFrom [] false (token ++ rest) = tokenizeFrom token false rest := by
  have hplain : ∀ c ∈ token, c ≠ space ∧ c ≠ singleQuote := by
    intro c hc
    obtain ⟨hspace, hquote, -⟩ := isValueUnit_plain ((isValue_units h).2 c hc)
    exact ⟨hspace, hquote⟩
  rw [tokenizeFrom_units hplain, List.nil_append]

theorem tokenizeFrom_space (cur rest : JsString) :
    tokenizeFrom cur false (space :: rest) = (tokenizeFrom [] false rest).map (cur :: ·) := by
  rw [tokenizeFrom, if_neg Bool.false_ne_true, if_pos rfl]

theorem value_unbroken {token : JsString} (h : isValue token = true) : token.any isBreak = false := by
  rw [List.any_eq_false]
  intro c hc
  rw [(isValueUnit_plain ((isValue_units h).2 c hc)).2.2]
  exact Bool.false_ne_true

theorem displays_of_quote {p display : JsString} (hnul : (0 : UInt16) ∉ p)
    (h : quotePathForDisplay p = some display) : Displays display p := by
  rw [quotePathForDisplay] at h
  split_ifs at h with hrefused hunquoted
  · obtain rfl := Option.some.inj h
    have hvalue := isValue_of_isUnquotedPath hunquoted
    refine ⟨?_, ?_, value_unbroken hvalue⟩
    · intro rest
      rw [tokenizeFrom_value hvalue, tokenizeFrom_space]
    · have hhead : p.head? ≠ some singleQuote := by
        intro hhead
        exact (isValueUnit_plain ((isValue_units hvalue).2 _ (List.mem_of_mem_head? hhead))).2.1 rfl
      rw [parsePathToken, if_neg (by simp [hhead]), if_pos hunquoted]
  · obtain rfl := Option.some.inj h
    obtain ⟨hquote, hbreak⟩ : singleQuote ∉ p ∧ p.any isBreak = false := by simpa using hrefused
    refine ⟨?_, ?_, ?_⟩
    · intro rest
      have hspan := @tokenizeFrom_quoted p (space :: rest) hquote rfl [singleQuote]
      have hopen : tokenizeFrom [] false (singleQuote :: (p ++ singleQuote :: space :: rest)) =
          tokenizeFrom [singleQuote] true (p ++ singleQuote :: space :: rest) := by
        rw [tokenizeFrom]
        rfl
      rw [List.append_assoc, List.singleton_append, List.cons_append, hopen, hspan,
        tokenizeFrom_space]
      rfl
    · have hinner : ((singleQuote :: p ++ [singleQuote]).drop 1).dropLast = p := by simp
      have hlast : (singleQuote :: p ++ [singleQuote]).getLast? = some singleQuote :=
        List.getLast?_concat
      have hquoted : (2 ≤ (singleQuote :: p ++ [singleQuote]).length &&
          (singleQuote :: p ++ [singleQuote]).head? = some singleQuote &&
          (singleQuote :: p ++ [singleQuote]).getLast? = some singleQuote) = true := by
        rw [hlast]
        simp
      rw [parsePathToken, if_pos hquoted, hinner]
      simp only
      rw [if_neg (by simp [hnul, hbreak])]
    · simp [hbreak, isBreak, singleQuote]

theorem sameFile_self {opts : RecoveryOpts} {p : JsString} (h : (opts.realpath p).isSome = true) :
    opts.sameFile p p = true := by
  obtain ⟨path, hpath⟩ := Option.isSome_iff_exists.mp h
  rw [RecoveryOpts.sameFile, hpath]
  exact decide_eq_true rfl

theorem identityMatches_self {opts : RecoveryOpts} {display p : JsString} (h : Displays display p)
    (habsolute : isAbsoluteCandidatePath p = true) (hreal : (opts.realpath p).isSome = true) :
    identityMatches opts (parsePathToken display) p = true := by
  rw [h.path, identityMatches, Option.any_some, habsolute, sameFile_self hreal]
  rfl

theorem formatRecoveryCommand_command {interpreterPath scriptPath sessionId line : JsString}
    (h : formatRecoveryCommand interpreterPath scriptPath sessionId = .command line) :
    isValue sessionId = true ∧ ∃ interpreterDisplay scriptDisplay,
      quotePathForDisplay interpreterPath = some interpreterDisplay ∧
      quotePathForDisplay scriptPath = some scriptDisplay ∧
      line = interpreterDisplay ++ space :: (scriptDisplay ++ space :: (js "bypass" ++
        space :: (sessionFlag ++ space :: (sessionId ++ [])))) := by
  rw [formatRecoveryCommand] at h
  split_ifs at h with hvalue
  refine ⟨by simpa using hvalue, ?_⟩
  cases hinterpreter : quotePathForDisplay interpreterPath with
  | none => simp [hinterpreter] at h
  | some interpreterDisplay =>
    cases hscript : quotePathForDisplay scriptPath with
    | none => simp [hinterpreter, hscript] at h
    | some scriptDisplay =>
      simp only [hinterpreter, hscript, RecoveryMessage.command.injEq] at h
      have hbypass : js " bypass --session " = space :: (js "bypass" ++ space :: (sessionFlag ++ [space])) := by
        decide
      refine ⟨interpreterDisplay, scriptDisplay, rfl, rfl, ?_⟩
      rw [← h, hbypass]
      simp [show js " " = [space] by decide]

theorem bypass_isValue : isValue (js "bypass") = true := by decide
theorem sessionFlag_isValue : isValue sessionFlag = true := by decide

theorem formatRecoveryCommand_unbroken {interpreterPath scriptPath sessionId line : JsString}
    (hnul : (0 : UInt16) ∉ interpreterPath ∧ (0 : UInt16) ∉ scriptPath)
    (h : formatRecoveryCommand interpreterPath scriptPath sessionId = .command line) :
    line.any isBreak = false := by
  obtain ⟨hvalue, interpreterDisplay, scriptDisplay, hi, hs, rfl⟩ := formatRecoveryCommand_command h
  simp [List.any_append, (displays_of_quote hnul.1 hi).unbroken, (displays_of_quote hnul.2 hs).unbroken,
    value_unbroken bypass_isValue, value_unbroken sessionFlag_isValue, value_unbroken hvalue, isBreak,
    space]

/-- The command is the first line of what is printed. -/
theorem formatRecoveryCommand_firstLine {interpreterPath scriptPath sessionId line : JsString}
    (hnul : (0 : UInt16) ∉ interpreterPath ∧ (0 : UInt16) ∉ scriptPath)
    (h : formatRecoveryCommand interpreterPath scriptPath sessionId = .command line) :
    (splitLines (formatRecoveryCommand interpreterPath scriptPath sessionId).text).head? = some line := by
  have hbreak := List.any_eq_false.mp (formatRecoveryCommand_unbroken hnul h)
  have hline : ∀ c ∈ line, c ≠ 10 := by
    rintro c hc rfl
    exact hbreak 10 hc rfl
  rw [h, RecoveryMessage.text, splitLines_append hline]
  rfl

/-- The command that is printed for a session is let through, unless the session's id looks like a
flag. -/
theorem formatRecoveryCommand_accepted_iff (interpreterPath scriptPath sessionId line : JsString)
    (realpath : JsString → Option JsString)
    (hinterpreter : isAbsoluteCandidatePath interpreterPath = true)
    (hscript : isAbsoluteCandidatePath scriptPath = true)
    (hnul : (0 : UInt16) ∉ interpreterPath ∧ (0 : UInt16) ∉ scriptPath)
    (hreal : (realpath interpreterPath).isSome = true ∧ (realpath scriptPath).isSome = true)
    (hformat : formatRecoveryCommand interpreterPath scriptPath sessionId = .command line) :
    (matchRecoveryCommand line ⟨interpreterPath, scriptPath, some sessionId, realpath⟩).isSome = true ↔
      isFlagName sessionId = false := by
  have hbreak := formatRecoveryCommand_unbroken hnul hformat
  obtain ⟨hvalue, interpreterDisplay, scriptDisplay, hi, hs, rfl⟩ :=
    formatRecoveryCommand_command hformat
  have hdisplay := displays_of_quote hnul.1 hi
  have hdisplay' := displays_of_quote hnul.2 hs
  rw [matchRecoveryCommand, tokenize, hbreak, if_neg Bool.false_ne_true, hdisplay.token,
    hdisplay'.token, tokenizeFrom_value bypass_isValue, tokenizeFrom_space,
    tokenizeFrom_value sessionFlag_isValue, tokenizeFrom_space, tokenizeFrom_value hvalue, tokenizeFrom]
  have hflags : matchFlags ⟨interpreterPath, scriptPath, some sessionId, realpath⟩
      Subcommand.bypass.flags [] [sessionFlag, sessionId] =
      if isFlagName sessionId then none else some [sessionFlag] := by
    have hbound : sessionBound ⟨interpreterPath, scriptPath, some sessionId, realpath⟩ sessionFlag
        sessionId = true := by
      simp [sessionBound, (isValue_units hvalue).1]
    have hflag : (!(isFlagName sessionFlag && isValue sessionFlag) || ([] : List JsString).contains
        sessionFlag) = false := by decide
    rw [matchFlags.eq_def]
    simp only [hflag, if_neg Bool.false_ne_true, sessionFlag_kind, hvalue, hbound, matchFlags]
    cases isFlagName sessionId <;> rfl
  have htokens : matchTokens ⟨interpreterPath, scriptPath, some sessionId, realpath⟩
      [interpreterDisplay, scriptDisplay, js "bypass", sessionFlag, sessionId] =
      if isFlagName sessionId then none else some .bypass := by
    have hfind : (subcommands.find? fun subcommand => subcommand.name = js "bypass") = some .bypass := by
      decide
    rw [matchTokens, identityMatches_self hdisplay hinterpreter hreal.1,
      identityMatches_self hdisplay' hscript hreal.2, bypass_isValue, hfind]
    simp only [Bool.not_true, if_neg Bool.false_ne_true, hflags]
    cases isFlagName sessionId <;> rfl
  simp only [if_neg Bool.false_ne_true, Option.map_some, Option.bind_some, htokens]
  cases isFlagName sessionId <;> simp

/-- A marker can carry the id, a command is printed for it, and the command is refused. -/
theorem formatRecoveryCommand_refused :
    isSafeSessionId (js "--s1") = true ∧
    (readMarkerText (ν := Int) (js "--s1")
      (js "\x7b\"session_id\":\"--s1\",\"status\":\"open\"\x7d")).isOk = true ∧
    formatRecoveryCommand (js "/node") (js "/h.mjs") (js "--s1") =
      .command (js "/node /h.mjs bypass --session --s1") ∧
    matchRecoveryCommand (js "/node /h.mjs bypass --session --s1")
      ⟨js "/node", js "/h.mjs", some (js "--s1"), some⟩ = none := by
  refine ⟨by decide +kernel, by decide +kernel, ?_, by decide +kernel⟩
  rfl

theorem formatRecoveryCommand_accepted :
    (matchRecoveryCommand (js "/node '/my adlc/h.mjs' bypass --session s1")
      ⟨js "/node", js "/my adlc/h.mjs", some (js "s1"), some⟩).isSome = true ↔
      isFlagName (js "s1") = false := by
  apply formatRecoveryCommand_accepted_iff
  · decide
  · decide
  · decide
  · decide
  · rfl

end Adlc.ContextHandoff
