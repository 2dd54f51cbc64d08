import Adlc.BacklogGroom.Apply

namespace Adlc.BacklogGroom

open Adlc.Framework

/-! ## Slots -/

/-- What a review is spent on: the issue, the action, the field and the content hash. -/
def Action.combination (action : Action) : Nat × ActionName × Option JsString × JsString :=
  (action.number, action.action, action.field, action.contentHash)

def NoColon (s : JsString) : Prop := ∀ c ∈ s, c ≠ 58

/-- The form of the actions that pass revalidation: no part of their slot has a colon. -/
def Action.Slotted (action : Action) : Prop :=
  NoColon action.contentHash ∧
    match action.action with
    | .close => action.field = none
    | .relabel => action.field = some (js "priority") ∨ action.field = some (js "area")

theorem split_colon {a b x y : JsString} (ha : NoColon a) (hb : NoColon b)
    (h : a ++ 58 :: x = b ++ 58 :: y) : a = b ∧ x = y := by
  induction a generalizing b with
  | nil =>
    cases b with
    | nil => simpa using h
    | cons d b =>
      have hd : (58 : UInt16) = d := by simpa using congrArg List.head? h
      exact absurd hd.symm (hb d List.mem_cons_self)
  | cons c a ih =>
    cases b with
    | nil =>
      have hc : c = 58 := by simpa using congrArg List.head? h
      exact absurd hc (ha c List.mem_cons_self)
    | cons d b =>
      obtain ⟨hcd, hrest⟩ := List.cons.inj h
      obtain ⟨hab, hxy⟩ := ih (fun e he => ha e (List.mem_cons_of_mem c he))
        (fun e he => hb e (List.mem_cons_of_mem d he)) hrest
      exact ⟨by rw [hcd, hab], hxy⟩

theorem natText_noColon (n : Nat) : NoColon (natText n) := by
  have digit : ∀ c, isDigit c = true → c ≠ 58 := by
    intro c hc hcolon
    subst hcolon
    exact absurd hc (by decide)
  rcases natText_cases n with h | ⟨c, s, h, hc, -, hs⟩
  · rw [h]
    intro c hc
    simp at hc
    rw [hc]
    decide
  · rw [h]
    intro d hd
    rcases List.mem_cons.1 hd with hd | hd
    · rw [hd]
      exact digit c hc
    · exact digit d (List.all_eq_true.1 hs d hd)

theorem literal_noColon {l : List Char}
    (h : (l.all fun c => (scalarUnits c.toNat).all fun u => decide (u ≠ 58)) = true) :
    NoColon (js (String.ofList l)) := forall_mem_of_all (js_all h)

theorem actionName_noColon (name : ActionName) : NoColon name.text := by
  cases name with
  | close => exact literal_noColon (l := ['c', 'l', 'o', 's', 'e']) (by decide)
  | relabel => exact literal_noColon (l := ['r', 'e', 'l', 'a', 'b', 'e', 'l']) (by decide)

theorem actionName_text_injective {a b : ActionName} (h : a.text = b.text) : a = b := by
  cases a <;> cases b <;> first | rfl | exact absurd h (by decide)

theorem priority_noColon : NoColon (js "priority") :=
  literal_noColon (l := ['p', 'r', 'i', 'o', 'r', 'i', 't', 'y']) (by decide)

theorem area_noColon : NoColon (js "area") :=
  literal_noColon (l := ['a', 'r', 'e', 'a']) (by decide)

/-- The slot of a close, and that of a relabel. -/
theorem Action.Slotted.gateKey_eq {action : Action} (h : action.Slotted) :
    ∃ tail, gateKey action = natText action.number ++ 58 :: (action.action.text ++ 58 :: tail) ∧
      (action.action = .close → action.field = none ∧ tail = action.contentHash) ∧
      (action.action = .relabel →
        ∃ field, NoColon field ∧ action.field = some field ∧ tail = field ++ 58 :: action.contentHash) := by
  have colon : js ":" = [58] := by decide
  obtain ⟨-, hfield⟩ := h
  unfold gateKey
  rw [colon]
  cases hname : action.action with
  | close =>
    rw [hname] at hfield
    refine ⟨action.contentHash, ?_, fun _ => ⟨hfield, rfl⟩, fun h => nomatch h⟩
    rw [hfield]
    simp
  | relabel =>
    rw [hname] at hfield
    have hsome : ∃ field, NoColon field ∧ field ≠ [] ∧ action.field = some field := by
      rcases hfield with hfield | hfield
      · exact ⟨_, priority_noColon, by decide, hfield⟩
      · exact ⟨_, area_noColon, by decide, hfield⟩
    obtain ⟨field, hcolon, hne, hfield⟩ := hsome
    refine ⟨field ++ 58 :: action.contentHash, ?_, (fun h => nomatch h),
      fun _ => ⟨field, hcolon, hfield, rfl⟩⟩
    rw [hfield]
    simp [hne]

/-- Actions of one slot are of one combination. -/
theorem Action.Slotted.combination_eq {a b : Action} (ha : a.Slotted) (hb : b.Slotted)
    (h : gateKey a = gateKey b) : a.combination = b.combination := by
  obtain ⟨s, hs, hsClose, hsRelabel⟩ := ha.gateKey_eq
  obtain ⟨t, ht, htClose, htRelabel⟩ := hb.gateKey_eq
  rw [hs, ht] at h
  obtain ⟨hnumber, hrest⟩ := split_colon (natText_noColon _) (natText_noColon _) h
  obtain ⟨hname, htail⟩ := split_colon (actionName_noColon _) (actionName_noColon _) hrest
  have hnumber : a.number = b.number := by rw [← readNat_natText a.number, hnumber, readNat_natText]
  have hname : a.action = b.action := actionName_text_injective hname
  have hslot : a.field = b.field ∧ a.contentHash = b.contentHash := by
    cases hb' : b.action with
    | close =>
      obtain ⟨hfa, hta⟩ := hsClose (hname.trans hb')
      obtain ⟨hfb, htb⟩ := htClose hb'
      exact ⟨by rw [hfa, hfb], by rw [← hta, ← htb, htail]⟩
    | relabel =>
      obtain ⟨f, hf, hfa, hta⟩ := hsRelabel (hname.trans hb')
      obtain ⟨g, hg, hfb, htb⟩ := htRelabel hb'
      rw [hta, htb] at htail
      obtain ⟨hfg, hhash⟩ := split_colon hf hg htail
      exact ⟨by rw [hfa, hfb, hfg], hhash⟩
  unfold combination
  rw [hnumber, hname, hslot.1, hslot.2]

/-! ## The world of the runs -/

/-- A reviewer that was started, and its exit code if it ended with one. -/
structure Review where
  action : Action
  decider : JsString
  reviewer : JsString
  code : Option Int

/-- The ledger file (`none`: it cannot be read), the contents that were ever written to it signed, the
reviews that were started and the mutations that were made. -/
structure GateWorld where
  ledger : Option Ledger
  written : EntryContent → Prop
  reviews : List Review
  performed : List Action
  /-- A review was started, or a write of the ledger was cut short, since the last whole write. -/
  unsaved : Bool

def GateWorld.empty : GateWorld := ⟨some fun _ => none, fun _ => False, [], [], false⟩

variable (hashes : Hashes) (key : JsString)

def GateWorld.review (w : GateWorld) (review : Review) : GateWorld :=
  { w with reviews := review :: w.reviews, unsaved := true }

def GateWorld.perform (w : GateWorld) (action : Action) : GateWorld :=
  { w with performed := action :: w.performed }

/-- An entry of a ledger that is signed with the key. -/
def Holds (ledger : Ledger) (slot : JsString) (content : EntryContent) : Prop :=
  ∃ sig, ledger slot = some (.entry ⟨content, sig⟩) ∧
    verifyLedgerEntry hashes (some key) (some (.entry ⟨content, sig⟩)) = true

/-- The ledger file is written, in whole or cut short. -/
def GateWorld.write (w : GateWorld) (ledger : Ledger) (whole : Bool) : GateWorld :=
  { w with
    ledger := if whole then some ledger else none
    written := fun content => w.written content ∨ ∃ slot, Holds hashes key ledger slot content
    unsaved := !whole }

/-- What a call does, also when it raises: a write of the ledger may then be whole, cut short, or not
have begun. -/
def GateWorld.does (w : GateWorld) : (call : GroomCall) → Except GroomError call.Answer → GateWorld → Prop
  | .runReview action decider reviewer, .ok code, t => t = w.review ⟨action, decider, reviewer, some code⟩
  | .runReview action decider reviewer, .error _, t =>
    t = w.review ⟨action, decider, reviewer, none⟩ ∨ t = w
  | .persist ledger, .ok _, t => t = w.write hashes key ledger true
  | .persist ledger, .error _, t => (∃ whole, t = w.write hashes key ledger whole) ∨ t = w
  | .apply action, .ok _, t => t = w.perform action
  | .apply action, .error _, t => t = w.perform action ∨ t = w
  | _, _, t => t = w

/-- A party without the key writes the ledger: it leaves the signed entries where they are, and what
it puts there signed was written signed before. -/
def Planted (w t : GateWorld) : Prop :=
  ∃ ledger, t = { w with ledger := ledger } ∧
    match w.ledger, ledger with
    | some old, some new => ∀ slot, new slot = old slot ∨
      (∀ content, ¬Holds hashes key old slot content) ∧
        ∀ content, Holds hashes key new slot content → w.written content
    | none, some new => ∀ slot content, Holds hashes key new slot content → w.written content
    | old, none => old = none

def gateServes : Dialogue.Serves GroomError GateWorld GroomCall GroomCall.Answer := fun w call r t =>
  ∃ m, w.does hashes key call r m ∧ Planted hashes key m t

/-- A run is started on the ledger file, with the key or without one. -/
def gateStarts (w : GateWorld) (p : Groom ApplyReport) : Prop :=
  ∃ run ledger, (run.key = none ∨ run.key = some key) ∧ w.ledger = some ledger ∧
    p = applyRun hashes run ledger

/-- The runs of the history, which may stop where `stops` says. -/
abbrev GateHistory (stops : GateWorld → Prop) (w : GateWorld) : Prop :=
  Dialogue.History (gateServes hashes key) (gateStarts hashes key) stops (Planted hashes key)
    GateWorld.empty w

/-! ## What every run keeps -/

/-- An approval is a review that ended with approve, on the artifact of that digest. -/
def GateWorld.Backed (w : GateWorld) (content : EntryContent) : Prop :=
  content.verdict = .approve → ∃ r ∈ w.reviews, r.reviewer ≠ r.decider ∧ r.code = some reviewApprove ∧
    r.action.contentHash = content.contentHash ∧ artifactDigest hashes r.action = content.artifactDigest

/-- A mutation was reviewed, as far as the digest of its artifact tells. -/
def GateWorld.Reviewed (w : GateWorld) (action : Action) : Prop :=
  ∃ r ∈ w.reviews, r.reviewer ≠ r.decider ∧ r.code = some reviewApprove ∧
    r.action.contentHash = action.contentHash ∧ artifactDigest hashes r.action = artifactDigest hashes action

/-- The signed entries of a ledger are backed. -/
def GateWorld.Sound (w : GateWorld) (ledger : Ledger) : Prop :=
  ∀ slot content, Holds hashes key ledger slot content → w.Backed hashes content

/-- A review has its signed entry in its slot. -/
def Spent (ledger : Ledger) (action : Action) : Prop :=
  ∃ content, Holds hashes key ledger (gateKey action) content ∧ entryBindsSlot content action = true

/-- No signed entry about the action is in its slot. -/
def Fresh (ledger : Ledger) (action : Action) : Prop :=
  ∀ content, Holds hashes key ledger (gateKey action) content → entryBindsSlot content action = false

structure GateWorld.Licensed (w : GateWorld) : Prop where
  written : ∀ content, w.written content → w.Backed hashes content
  ledger : ∀ ledger, w.ledger = some ledger → w.Sound hashes key ledger
  performed : ∀ action ∈ w.performed, w.Reviewed hashes action

structure GateWorld.Once (w : GateWorld) : Prop where
  slotted : ∀ r ∈ w.reviews, r.action.Slotted
  single : (w.reviews.map (·.action.combination)).Nodup
  saved : w.unsaved = false → ∃ ledger, w.ledger = some ledger ∧
    ∀ r ∈ w.reviews, Spent hashes key ledger r.action

/-- The ledger that a run has in memory. -/
structure GateWorld.Knows (w : GateWorld) (once : Prop) (ledger : Ledger) : Prop where
  sound : w.Sound hashes key ledger
  spent : once → ∀ r ∈ w.reviews, Spent hashes key ledger r.action

/-- The invariant inside the runs; `once` tells whether the reviews are counted. -/
def GateWorld.Kept (once : Prop) (w : GateWorld) : Prop :=
  w.Licensed hashes key ∧ (once → w.Once hashes key)

/-- Where a run is, with that ledger in memory. -/
structure GateWorld.At (once : Prop) (ledger : Ledger) (w : GateWorld) : Prop where
  kept : w.Kept hashes key once
  knows : w.Knows hashes key once ledger

variable {hashes key} {w m t : GateWorld} {once : Prop} {ledger : Ledger} {action : Action}

theorem spent_of_slot {old new : Ledger} (h : new (gateKey action) = old (gateKey action))
    (hspent : Spent hashes key old action) : Spent hashes key new action := by
  obtain ⟨content, ⟨sig, hslot, hsig⟩, hbinds⟩ := hspent
  exact ⟨content, ⟨sig, h.trans hslot, hsig⟩, hbinds⟩

theorem GateWorld.Kept.planted (h : m.Kept hashes key once) (hplanted : Planted hashes key m t) :
    t.Kept hashes key once := by
  obtain ⟨new, ht, hnew⟩ := hplanted
  subst ht
  obtain ⟨hlicensed, honce⟩ := h
  refine ⟨⟨hlicensed.written, ?_, hlicensed.performed⟩, fun ho => ?_⟩
  · intro ledger hledger slot content hholds
    have hledger : new = some ledger := hledger
    subst hledger
    cases hold : m.ledger with
    | none =>
      rw [hold] at hnew
      exact hlicensed.written content (hnew slot content hholds)
    | some old =>
      rw [hold] at hnew
      rcases hnew slot with hsame | ⟨-, hcopied⟩
      · obtain ⟨sig, hslot, hsig⟩ := hholds
        exact hlicensed.ledger old hold slot content ⟨sig, hsame ▸ hslot, hsig⟩
      · exact hlicensed.written content (hcopied content hholds)
  · obtain ⟨hslotted, hsingle, hsaved⟩ := honce ho
    refine ⟨hslotted, hsingle, fun hunsaved => ?_⟩
    obtain ⟨old, hold, hspent⟩ := hsaved hunsaved
    rw [hold] at hnew
    cases new with
    | none => exact absurd hnew (by simp)
    | some new =>
      refine ⟨new, rfl, fun r hr => ?_⟩
      rcases hnew (gateKey r.action) with hsame | ⟨hnone, -⟩
      · exact spent_of_slot hsame (hspent r hr)
      · obtain ⟨content, hholds, -⟩ := hspent r hr
        exact absurd hholds (hnone content)

theorem GateWorld.At.planted (h : m.At hashes key once ledger) (hplanted : Planted hashes key m t) :
    t.At hashes key once ledger := by
  have hkept := h.kept.planted hplanted
  obtain ⟨new, ht, -⟩ := hplanted
  subst ht
  exact ⟨hkept, h.knows.sound, h.knows.spent⟩

/-- What is backed stays so when a further reviewer is started. -/
theorem GateWorld.Backed.review {content : EntryContent} (h : w.Backed hashes content) (r : Review) :
    (w.review r).Backed hashes content := by
  intro happrove
  obtain ⟨s, hs, hrest⟩ := h happrove
  exact ⟨s, List.mem_cons_of_mem r hs, hrest⟩

theorem GateWorld.Licensed.review (h : w.Licensed hashes key) (r : Review) :
    (w.review r).Licensed hashes key := by
  constructor
  · intro content hwritten
    exact (h.written content hwritten).review r
  · intro ledger hledger slot content hholds
    exact (h.ledger ledger hledger slot content hholds).review r
  · intro action hperformed
    obtain ⟨s, hs, hrest⟩ := h.performed action hperformed
    exact ⟨s, List.mem_cons_of_mem r hs, hrest⟩

theorem GateWorld.At.write (h : w.At hashes key once ledger) (whole : Bool) :
    (w.write hashes key ledger whole).At hashes key once ledger := by
  obtain ⟨⟨hlicensed, honce⟩, hknows⟩ := h
  refine ⟨⟨⟨?_, ?_, hlicensed.performed⟩, fun ho => ?_⟩, hknows.sound, hknows.spent⟩
  · intro content hwritten
    rcases hwritten with hwritten | ⟨slot, hholds⟩
    · exact hlicensed.written content hwritten
    · exact hknows.sound slot content hholds
  · intro new hnew
    cases whole with
    | false => exact absurd hnew (by simp [GateWorld.write])
    | true =>
      have hnew : some ledger = some new := hnew
      cases hnew
      exact hknows.sound
  · obtain ⟨hslotted, hsingle, -⟩ := honce ho
    refine ⟨hslotted, hsingle, fun hunsaved => ⟨ledger, ?_, hknows.spent ho⟩⟩
    have hwhole : whole = true := by simpa [GateWorld.write] using hunsaved
    rw [hwhole]
    rfl

theorem GateWorld.At.perform (h : w.At hashes key once ledger) (hreviewed : w.Reviewed hashes action) :
    (w.perform action).At hashes key once ledger := by
  obtain ⟨⟨hlicensed, honce⟩, hknows⟩ := h
  refine ⟨⟨⟨hlicensed.written, hlicensed.ledger, ?_⟩, fun ho => ?_⟩, hknows.sound, hknows.spent⟩
  · intro other hother
    rcases List.mem_cons.1 hother with hother | hother
    · rw [hother]
      exact hreviewed
    · exact hlicensed.performed other hother
  · exact ⟨(honce ho).slotted, (honce ho).single, (honce ho).saved⟩

/-! ## A review -/

theorem binds_slot_iff {content : EntryContent} :
    entryBindsSlot content action = true ↔ content.contentHash = action.contentHash ∧
      content.number = action.number ∧ content.action = action.action ∧ content.field = action.field := by
  simp [entryBindsSlot]

theorem binds_slot_of_combination {other : Action} {content : EntryContent}
    (h : other.combination = action.combination) (hbinds : entryBindsSlot content other = true) :
    entryBindsSlot content action = true := by
  obtain ⟨hnumber, hname, hfield, hhash⟩ : other.number = action.number ∧ other.action = action.action ∧
      other.field = action.field ∧ other.contentHash = action.contentHash := by
    simpa [Action.combination] using h
  rw [binds_slot_iff] at hbinds ⊢
  rw [← hnumber, ← hname, ← hfield, ← hhash]
  exact hbinds

theorem gateKey_of_combination {other : Action} (h : other.combination = action.combination) :
    gateKey other = gateKey action := by
  obtain ⟨hnumber, hname, hfield, hhash⟩ : other.number = action.number ∧ other.action = action.action ∧
      other.field = action.field ∧ other.contentHash = action.contentHash := by
    simpa [Action.combination] using h
  unfold gateKey
  rw [hnumber, hname, hfield, hhash]

theorem fresh_combination (hspent : ∀ r ∈ w.reviews, Spent hashes key ledger r.action)
    (hfresh : Fresh hashes key ledger action) :
    action.combination ∉ w.reviews.map (·.action.combination) := by
  intro hmem
  obtain ⟨r, hr, hcombination⟩ := List.mem_map.1 hmem
  obtain ⟨content, hholds, hbinds⟩ := hspent r hr
  rw [gateKey_of_combination hcombination] at hholds
  have hbinds := binds_slot_of_combination hcombination hbinds
  rw [hfresh content hholds] at hbinds
  exact absurd hbinds (by simp)

theorem holds_set {slot place : JsString} {content : EntryContent} {entry : LedgerEntry}
    (h : Holds hashes key (ledger.set place (.entry entry)) slot content) :
    (slot = place ∧ content = entry.content) ∨ Holds hashes key ledger slot content := by
  obtain ⟨sig, hslot, hsig⟩ := h
  by_cases hplace : slot = place
  · left
    rw [hplace, Ledger.set, Function.update_self] at hslot
    have hentry : entry = ⟨content, sig⟩ := by simpa using hslot
    exact ⟨hplace, by rw [hentry]⟩
  · right
    rw [Ledger.set, Function.update_of_ne hplace] at hslot
    exact ⟨sig, hslot, hsig⟩

theorem holds_sealed {slot : JsString} {content : EntryContent} (hkey : key ≠ [])
    (hfull : ∀ text, hashes.hmac key text ≠ []) :
    Holds hashes key (ledger.set slot (.entry (sealLedgerEntry hashes key content))) slot content := by
  refine ⟨signLedgerEntry hashes key content, ?_, ?_⟩
  · rw [Ledger.set, Function.update_self]
    rfl
  · have hsig : signLedgerEntry hashes key content ≠ [] := hfull _
    simp [verifyLedgerEntry, hkey, hsig]

theorem spent_set_other {place : JsString} {entry : LedgerEntry} (h : Spent hashes key ledger action)
    (hother : gateKey action ≠ place) :
    Spent hashes key (ledger.set place (.entry entry)) action := by
  apply spent_of_slot ?_ h
  rw [Ledger.set, Function.update_of_ne hother]

theorem record_binds (pair : JsString × JsString) (verdict : Verdict) (reason : Option JsString) :
    entryBindsSlot (recordContent hashes action pair verdict reason) action = true := by
  simp [binds_slot_iff, recordContent]

/-- A review is approved by one exit code only. -/
theorem reviewVerdict_approve {r : Except GroomError Int} (h : (reviewVerdict r).1 = .approve) :
    r = .ok reviewApprove := by
  cases r with
  | error e => exact absurd h (by simp [reviewVerdict])
  | ok code =>
    simp only [reviewVerdict] at h
    split_ifs at h with hcode
    · rw [hcode]

theorem reviewerPair_ne {providers : Providers} {pair : JsString × JsString}
    (h : reviewerPair providers = some pair) : pair.2 ≠ pair.1 := by
  simp only [reviewerPair] at h
  split_ifs at h with hd hr hne
  cases h
  exact hne

/-- A reviewer on a fresh action: the verdict is recorded in the ledger in memory. -/
theorem GateWorld.At.reviews {pair : JsString × JsString} {r : Except GroomError Int}
    (h : w.At hashes key once ledger) (hpair : pair.2 ≠ pair.1) (hkey : key ≠ [])
    (hfull : once → ∀ text, hashes.hmac key text ≠ []) (hslotted : action.Slotted)
    (hfresh : Fresh hashes key ledger action)
    (hserves : gateServes hashes key w (.runReview action pair.1 pair.2) r t) :
    t.At hashes key once (ledger.set (gateKey action) (.entry (sealLedgerEntry hashes key
      (recordContent hashes action pair (reviewVerdict r).1 (reviewVerdict r).2)))) := by
  obtain ⟨m, hdoes, hplanted⟩ := hserves
  refine GateWorld.At.planted ?_ hplanted
  obtain ⟨⟨hlicensed, honce⟩, hknows⟩ := h
  have hspent : once → ∀ s ∈ w.reviews, Spent hashes key (ledger.set (gateKey action)
      (.entry (sealLedgerEntry hashes key (recordContent hashes action pair (reviewVerdict r).1
        (reviewVerdict r).2)))) s.action := by
    intro ho s hs
    refine spent_set_other (hknows.spent ho s hs) fun hslot => ?_
    have hcombination := ((honce ho).slotted s hs).combination_eq hslotted hslot
    exact fresh_combination (hknows.spent ho) hfresh (List.mem_map.2 ⟨s, hs, hcombination⟩)
  -- the reviewer has started, and its exit code is that of the answer
  have started : ∀ code, (∀ c, r = .ok c → code = some c) → m = w.review ⟨action, pair.1, pair.2, code⟩ →
      m.At hashes key once (ledger.set (gateKey action) (.entry (sealLedgerEntry hashes key
        (recordContent hashes action pair (reviewVerdict r).1 (reviewVerdict r).2)))) := by
    intro code hcode hm
    subst hm
    refine ⟨⟨hlicensed.review _, fun ho => ⟨?_, ?_, fun hsaved => nomatch hsaved⟩⟩, ?_, fun ho s hs => ?_⟩
    · intro s hs
      rcases List.mem_cons.1 hs with hs | hs
      · rw [hs]
        exact hslotted
      · exact (honce ho).slotted s hs
    · apply List.nodup_cons.2
      exact ⟨fresh_combination (hknows.spent ho) hfresh, (honce ho).single⟩
    · intro slot content hholds
      rcases holds_set hholds with ⟨-, hcontent⟩ | hholds
      · subst hcontent
        intro happrove
        have hr := reviewVerdict_approve happrove
        exact ⟨_, List.mem_cons_self, hpair, hcode _ hr, rfl, rfl⟩
      · exact (hknows.sound slot content hholds).review _
    · rcases List.mem_cons.1 hs with hs | hs
      · rw [hs]
        exact ⟨_, holds_sealed hkey (hfull ho), record_binds ..⟩
      · exact hspent ho s hs
  cases r with
  | ok code => exact started (some code) (fun c hc => by cases hc; rfl) hdoes
  | error e =>
    rcases hdoes with hm | hm
    · exact started none (fun c hc => nomatch hc) hm
    · subst hm
      refine ⟨⟨hlicensed, honce⟩, ?_, hspent⟩
      intro slot content hholds
      rcases holds_set hholds with ⟨-, hcontent⟩ | hholds
      · subst hcontent
        intro happrove
        exact absurd (reviewVerdict_approve happrove) (by simp)
      · exact hknows.sound slot content hholds

/-! ## The steps of a run -/

variable {α : Type}

/-- Calls that leave the world as it is. -/
def GroomCall.Quiet : GroomCall → Prop
  | .fetchIssue _ => True
  | .comments _ => True
  | .comment _ _ _ => True
  | _ => False

theorem GateWorld.At.quiet {call : GroomCall} {r : Except GroomError call.Answer}
    (h : w.At hashes key once ledger) (hserves : gateServes hashes key w call r t) (hquiet : call.Quiet) :
    t.At hashes key once ledger := by
  obtain ⟨m, hdoes, hplanted⟩ := hserves
  have hm : m = w := by
    cases call with
    | fetchIssue number => exact hdoes
    | comments number => exact hdoes
    | comment number action body => exact hdoes
    | runReview action decider reviewer => exact absurd hquiet id
    | persist ledger => exact absurd hquiet id
    | apply action => exact absurd hquiet id
  subst hm
  exact h.planted hplanted

theorem GateWorld.At.persist {r : Except GroomError Unit} (h : w.At hashes key once ledger)
    (hserves : gateServes hashes key w (.persist ledger) r t) : t.At hashes key once ledger := by
  obtain ⟨m, hdoes, hplanted⟩ := hserves
  refine GateWorld.At.planted ?_ hplanted
  cases r with
  | ok _ =>
    have hm : m = w.write hashes key ledger true := hdoes
    rw [hm]
    exact h.write true
  | error e =>
    rcases hdoes with ⟨whole, hm⟩ | hm
    · rw [hm]
      exact h.write whole
    · rw [hm]
      exact h

theorem GateWorld.At.apply {r : Except GroomError Unit} (h : w.At hashes key once ledger)
    (hreviewed : w.Reviewed hashes action) (hserves : gateServes hashes key w (.apply action) r t) :
    t.At hashes key once ledger := by
  obtain ⟨m, hdoes, hplanted⟩ := hserves
  refine GateWorld.At.planted ?_ hplanted
  cases r with
  | ok _ =>
    have hm : m = w.perform action := hdoes
    rw [hm]
    exact h.perform hreviewed
  | error e =>
    rcases hdoes with hm | hm
    · rw [hm]
      exact h.perform hreviewed
    · rw [hm]
      exact h

variable (hashes key once) in
/-- A part of a run that keeps the invariant, and ends with a ledger that fits the world. -/
def Keeps (p : Groom (α × Ledger)) (w : GateWorld) : Prop :=
  p.Safe (gateServes hashes key) (GateWorld.Kept hashes key once)
    (fun result t => ∀ a ledger, result = .ok (a, ledger) → t.At hashes key once ledger) w

theorem keeps_pure (a : α) (h : w.At hashes key once ledger) :
    Keeps hashes key once (pure (a, ledger) : Groom (α × Ledger)) w := by
  intro b new hnew
  cases hnew
  exact h

theorem keeps_fail (e : GroomError) :
    Keeps hashes key once (Dialogue.fail e : Groom (α × Ledger)) w := by
  intro b new hnew
  exact absurd hnew (by simp)

/-- A bind: the rest runs from where the first part has come. -/
theorem Keeps.bind {β : Type} {p : Groom (α × Ledger)} {f : α × Ledger → Groom (β × Ledger)}
    (h : Keeps hashes key once p w)
    (hf : ∀ a ledger t, t.At hashes key once ledger → Keeps hashes key once (f (a, ledger)) t) :
    Keeps hashes key once (p >>= f) w := by
  apply Dialogue.Safe.bind
  refine Dialogue.Safe.mono h fun result t ht => ?_
  cases result with
  | ok a =>
    obtain ⟨a, ledger⟩ := a
    exact hf a ledger t (ht a ledger rfl)
  | error e =>
    intro b new hnew
    exact absurd hnew (by simp)

/-- An action is demoted at once, or a reviewer is started on it and its slot is fresh. -/
theorem gateAction_cases (hashes : Hashes) (providers : Providers) (runKey : Option JsString)
    (action : Action) (ledger : Ledger) :
    gateAction hashes providers runKey action ledger = pure (.demote, ledger) ∨
      ∃ pair key, reviewerPair providers = some pair ∧ runKey = some key ∧ key ≠ [] ∧
        Fresh hashes key ledger action ∧
        gateAction hashes providers runKey action ledger = gateAction.review hashes action ledger pair key := by
  unfold gateAction
  cases hpair : reviewerPair providers with
  | none => exact Or.inl rfl
  | some pair =>
    cases runKey with
    | none => exact Or.inl rfl
    | some key =>
      dsimp only
      split_ifs with hkey hhash
      · exact Or.inl rfl
      · exact Or.inl rfl
      · split
        · rename_i entry hentry
          split_ifs with hspent
          · exact Or.inl rfl
          · refine Or.inr ⟨pair, key, rfl, rfl, hkey, ?_, rfl⟩
            intro content hholds
            obtain ⟨sig, hslot, hsig⟩ := hholds
            rw [hentry] at hslot
            cases hslot
            rw [← Bool.not_eq_true]
            intro hbinds
            exact hspent ⟨hsig, hbinds⟩
        · rename_i hentry
          refine Or.inr ⟨pair, key, rfl, rfl, hkey, ?_, rfl⟩
          intro content hholds
          obtain ⟨sig, hslot, -⟩ := hholds
          exact absurd hslot (hentry _)

theorem gateAction_keeps {providers : Providers} {runKey : Option JsString}
    (hrun : runKey = none ∨ runKey = some key) (hfull : once → ∀ text, hashes.hmac key text ≠ [])
    (hslotted : action.Slotted) (h : w.At hashes key once ledger) :
    Keeps hashes key once (gateAction hashes providers runKey action ledger) w := by
  rcases gateAction_cases hashes providers runKey action ledger with
    hdemoted | ⟨pair, used, hpair, hused, hkey, hfresh, hreview⟩
  · rw [hdemoted]
    exact keeps_pure _ h
  · rw [hreview]
    have hsame : used = key := by
      rcases hrun with hrun | hrun
      · rw [hrun] at hused
        exact absurd hused (by simp)
      · rw [hrun] at hused
        cases hused
        rfl
    subst hsame
    intro r t hserves
    have hat := h.reviews (reviewerPair_ne hpair) hkey hfull hslotted hfresh hserves
    exact ⟨hat.kept, keeps_pure _ hat⟩

theorem gateAll_keeps {run : ApplyRun} (hrun : run.key = none ∨ run.key = some key)
    (hfull : once → ∀ text, hashes.hmac key text ≠ []) {actions : List Action}
    (hslotted : ∀ action ∈ actions, action.Slotted) (h : w.At hashes key once ledger) :
    Keeps hashes key once (gateAll hashes run actions ledger) w := by
  induction actions generalizing w ledger with
  | nil => exact keeps_pure _ h
  | cons action rest ih =>
    have hhead := hslotted action List.mem_cons_self
    refine (gateAction_keeps hrun hfull hhead h).bind fun verdict new t ht => ?_
    intro r u hserves
    have hu := ht.persist hserves
    refine ⟨hu.kept, ?_⟩
    cases r with
    | error e => exact keeps_fail e
    | ok _ =>
      refine (ih (fun a ha => hslotted a (List.mem_cons_of_mem action ha)) hu).bind ?_
      intro gated last v hv
      exact keeps_pure _ hv

/-- A licence is a signed approval of the action's artifact in its slot. -/
theorem approves_spec {runKey : Option JsString} (hrun : runKey = none ∨ runKey = some key)
    (h : ledgerApproves hashes ledger action runKey = true) :
    runKey = some key ∧ key ≠ [] ∧ ∃ content, Holds hashes key ledger (gateKey action) content ∧
      content.verdict = .approve ∧ content.contentHash = action.contentHash ∧
      content.artifactDigest = artifactDigest hashes action := by
  obtain ⟨content, hcontent, happrove⟩ := (Option.any_eq_true ..).1 h
  unfold ledgerEntryFor at hcontent
  split at hcontent
  · rename_i entry hentry
    split_ifs at hcontent with hboth
    cases hcontent
    obtain ⟨hsig, hbinds⟩ := hboth
    obtain ⟨hslot, hdigest⟩ : entryBindsSlot entry.content action = true ∧
        entry.content.artifactDigest = artifactDigest hashes action := by
      simpa [entryBindsAction] using hbinds
    have hkey : runKey = some key := by
      rcases hrun with hrun | hrun
      · rw [hrun] at hsig
        exact absurd hsig (by simp [verifyLedgerEntry])
      · exact hrun
    rw [hkey] at hsig
    have hne : key ≠ [] := by
      intro hnil
      rw [hnil] at hsig
      exact absurd hsig (by simp [verifyLedgerEntry])
    exact ⟨hkey, hne, entry.content, ⟨entry.sig, hentry, hsig⟩, of_decide_eq_true happrove,
      (binds_slot_iff.1 hslot).1, hdigest⟩
  · exact absurd hcontent (by simp)

theorem GateWorld.At.reviewed {runKey : Option JsString} (h : w.At hashes key once ledger)
    (hrun : runKey = none ∨ runKey = some key)
    (happroves : ledgerApproves hashes ledger action runKey = true) : w.Reviewed hashes action := by
  obtain ⟨-, -, content, hholds, happrove, hhash, hdigest⟩ := approves_spec hrun happroves
  obtain ⟨r, hr, hne, hcode, hrhash, hrdigest⟩ := h.knows.sound _ content hholds happrove
  exact ⟨r, hr, hne, hcode, hrhash.trans hhash, hrdigest.trans hdigest⟩

/-- The entry of a licensed action may be sealed again as applied. -/
theorem GateWorld.At.markApplied {runKey : Option JsString} (h : w.At hashes key once ledger)
    (hrun : runKey = none ∨ runKey = some key) (hfull : once → ∀ text, hashes.hmac key text ≠ [])
    (happroves : ledgerApproves hashes ledger action runKey = true) :
    w.At hashes key once (markApplied hashes runKey action ledger) := by
  obtain ⟨hkey, hne, content, ⟨sig, hslot, hsig⟩, -⟩ := approves_spec hrun happroves
  have hmark : BacklogGroom.markApplied hashes runKey action ledger = ledger.set (gateKey action)
      (.entry (sealLedgerEntry hashes key { content with applied := true })) := by
    unfold BacklogGroom.markApplied
    rw [hslot, hkey]
  rw [hmark]
  refine ⟨h.kept, ?_, fun ho r hr => ?_⟩
  · intro slot other hholds
    rcases holds_set hholds with ⟨-, hother⟩ | hholds
    · rw [hother]
      exact h.knows.sound (gateKey action) content ⟨sig, hslot, hsig⟩
    · exact h.knows.sound slot other hholds
  · by_cases hsame : gateKey r.action = gateKey action
    · obtain ⟨other, ⟨sig', hslot', -⟩, hbinds⟩ := h.knows.spent ho r hr
      rw [hsame, hslot] at hslot'
      cases hslot'
      refine ⟨{ content with applied := true }, ?_, hbinds⟩
      rw [hsame]
      exact holds_sealed hne (hfull ho)
    · exact spent_set_other (h.knows.spent ho r hr) hsame

theorem recheck_keeps {facts : Facts} {profile : Profile}
    {f : Except Stale Revalidated → Groom (α × Ledger)} (h : w.At hashes key once ledger)
    (hf : ∀ check t, t.At hashes key once ledger → Keeps hashes key once (f check) t) :
    Keeps hashes key once (revalidateAction facts profile action >>= f) w := by
  intro r t hserves
  have ht := h.quiet hserves trivial
  refine ⟨ht.kept, ?_⟩
  cases r with
  | error e => exact hf _ t ht
  | ok issue =>
    cases issue with
    | none => exact hf _ t ht
    | some issue => exact hf _ t ht

section Execution

variable {run : ApplyRun} (hrun : run.key = none ∨ run.key = some key)
  (hfull : once → ∀ text, hashes.hmac key text ≠ [])

include hrun hfull

theorem perform_keeps (happroves : ledgerApproves hashes ledger action run.key = true) (resumed : Bool)
    (h : w.At hashes key once ledger) :
    Keeps hashes key once (perform hashes run action resumed ledger) w := by
  intro r t hserves
  have ht := h.apply (h.reviewed hrun happroves) hserves
  refine ⟨ht.kept, ?_⟩
  cases r with
  | error e => exact keeps_pure _ ht
  | ok _ =>
    intro r u hserves
    have hu := (ht.markApplied hrun hfull happroves).persist hserves
    refine ⟨hu.kept, ?_⟩
    cases r with
    | error e => exact keeps_fail _
    | ok _ => exact keeps_pure _ hu

theorem commentAndPerform_keeps (happroves : ledgerApproves hashes ledger action run.key = true)
    (h : w.At hashes key once ledger) :
    Keeps hashes key once (commentAndPerform hashes run action ledger) w := by
  intro r t hserves
  have ht := h.quiet hserves trivial
  refine ⟨ht.kept, ?_⟩
  cases r with
  | error e => exact keeps_pure _ ht
  | ok existing =>
    dsimp only
    split_ifs with hcommented
    · exact perform_keeps hrun hfull happroves true ht
    · intro r u hserves
      have hu := ht.quiet hserves trivial
      refine ⟨hu.kept, ?_⟩
      cases r with
      | error e => exact keeps_pure _ hu
      | ok _ => exact perform_keeps hrun hfull happroves false hu

theorem executeAction_keeps (h : w.At hashes key once ledger) :
    Keeps hashes key once (executeAction hashes run action ledger) w := by
  unfold executeAction
  split_ifs with happlied hfloor hlicence
  · exact keeps_pure _ h
  · exact keeps_pure _ h
  · exact keeps_pure _ h
  · have happroves : ledgerApproves hashes ledger action run.key = true := by simpa using hlicence
    refine recheck_keeps h fun check t ht => ?_
    cases check with
    | error stale => exact keeps_pure _ ht
    | ok check => exact commentAndPerform_keeps hrun hfull happroves ht

theorem executeActions_keeps {actions : List Action} (h : w.At hashes key once ledger) :
    Keeps hashes key once (executeActions hashes run actions ledger) w := by
  induction actions generalizing w ledger with
  | nil => exact keeps_pure _ h
  | cons action rest ih =>
    refine (executeAction_keeps hrun hfull h).bind fun outcome new t ht => ?_
    refine (ih ht).bind fun outcomes last u hu => ?_
    exact keeps_pure _ hu

end Execution

/-! ## The actions that are gated -/

theorem actionsFromSet_field {set : GroomedSet} {action : Action} (h : action ∈ actionsFromSet set)
    (hclose : action.action = .close) : action.field = none := by
  rcases List.mem_append.1 h with h | h
  · obtain ⟨issue, -, hissue⟩ := List.mem_filterMap.1 h
    unfold closeOf at hissue
    split_ifs at hissue
    cases hissue
    rfl
  · obtain ⟨proposal, -, hproposal⟩ := List.mem_filterMap.1 h
    obtain ⟨issue, -, hissue⟩ := Option.bind_eq_some_iff.1 hproposal
    split_ifs at hissue
    cases hissue
    exact absurd hclose (by simp)

theorem revalidateRelabel_field {facts : Facts} {profile : Profile} {issue : Issue}
    (h : revalidateRelabel facts profile action issue = none) :
    action.field = some (js "priority") ∨ action.field = some (js "area") := by
  simp only [revalidateRelabel] at h
  split_ifs at h with hfield
  all_goals
    have hsome : action.field.getD [] = js "priority" ∨ action.field.getD [] = js "area" := by
      by_contra hno
      exact hfield (not_or.1 hno)
    cases hf : action.field with
    | none =>
      rw [hf] at hsome
      rcases hsome with hsome | hsome <;> exact absurd hsome (by decide)
    | some field =>
      rw [hf] at hsome
      simpa using hsome

/-- What passes revalidation has a slot without a stray colon. -/
theorem revalidate_slotted {facts : Facts} {profile : Profile} {issue : Issue} {check : Revalidated}
    (hfield : action.action = .close → action.field = none)
    (h : revalidate facts profile action issue = .ok check) : (action.withCheck check).Slotted := by
  dsimp only [revalidate] at h
  have hhash : facts.contentHash (facts.references issue) = some action.contentHash := by
    by_contra hne
    rw [if_pos hne] at h
    exact absurd h (by simp)
  have hrelabel : action.action = .relabel → revalidateRelabel facts profile action issue = none := by
    intro hname
    by_contra hsome
    obtain ⟨stale, hstale⟩ := Option.ne_none_iff_exists'.1 hsome
    rw [if_pos hname, hstale, if_neg (not_not.2 hhash)] at h
    split_ifs at h
  refine ⟨facts.hex _ _ hhash, ?_⟩
  show match action.action with
    | .close => action.field = none
    | .relabel => action.field = some (js "priority") ∨ action.field = some (js "area")
  cases hname : action.action with
  | close => exact hfield hname
  | relabel => exact revalidateRelabel_field (hrelabel hname)

variable (hashes key once ledger) in
/-- The first loop, which leaves the ledger as it is: the actions of the set that still hold are
slotted. -/
def Revalidates (p : Groom (List Action × List (Action × Stale))) (w : GateWorld) : Prop :=
  p.Safe (gateServes hashes key) (GateWorld.Kept hashes key once)
    (fun result t => t.At hashes key once ledger ∧
      ∀ valid stale, result = .ok (valid, stale) → ∀ action ∈ valid, action.Slotted) w

theorem revalidateAll_slotted {run : ApplyRun} {actions : List Action}
    (hfield : ∀ action ∈ actions, action.action = .close → action.field = none)
    (h : w.At hashes key once ledger) :
    Revalidates hashes key once ledger (revalidateAll run actions) w := by
  induction actions generalizing w with
  | nil =>
    refine ⟨h, fun valid stale hresult action haction => ?_⟩
    cases hresult
    exact absurd haction (by simp)
  | cons action rest ih =>
    have hrest : ∀ a ∈ rest, a.action = .close → a.field = none :=
      fun a ha => hfield a (List.mem_cons_of_mem action ha)
    -- after the issue was fetched the rest is checked, then the valid ones are put together
    have after : ∀ (check : Except Stale Revalidated) t, t.At hashes key once ledger →
        (∀ c, check = .ok c → (action.withCheck c).Slotted) →
        Revalidates hashes key once ledger (revalidateAll run rest >>= putChecked action check) t := by
      intro check t ht hcheck
      apply Dialogue.Safe.bind
      refine Dialogue.Safe.mono (ih hrest ht) fun result u hu => ?_
      obtain ⟨hat, hvalid⟩ := hu
      cases result with
      | error e => exact ⟨hat, fun valid stale hresult => nomatch hresult⟩
      | ok pair =>
        obtain ⟨valid, stale⟩ := pair
        have hvalid := hvalid valid stale rfl
        cases check with
        | error reason =>
          refine ⟨hat, fun valid' stale' hresult => ?_⟩
          cases hresult
          exact hvalid
        | ok check =>
          refine ⟨hat, fun valid' stale' hresult a ha => ?_⟩
          cases hresult
          rcases List.mem_cons.1 ha with ha | ha
          · rw [ha]
            exact hcheck check rfl
          · exact hvalid a ha
    intro r t hserves
    have ht := h.quiet hserves trivial
    refine ⟨ht.kept, ?_⟩
    cases r with
    | error e => exact after (.error .unread) t ht fun c hc => nomatch hc
    | ok issue =>
      cases issue with
      | none => exact after (.error .unread) t ht fun c hc => nomatch hc
      | some issue =>
        refine after (revalidate run.facts run.profile action issue) t ht fun c hc => ?_
        exact revalidate_slotted (hfield action List.mem_cons_self) hc

theorem applyRun_safe {run : ApplyRun} (hrun : run.key = none ∨ run.key = some key)
    (hfull : once → ∀ text, hashes.hmac key text ≠ []) (h : w.At hashes key once ledger) :
    (applyRun hashes run ledger).Safe (gateServes hashes key) (GateWorld.Kept hashes key once)
      (fun _ _ => True) w := by
  unfold applyRun
  split
  · trivial
  · apply Dialogue.Safe.bind
    refine Dialogue.Safe.mono (revalidateAll_slotted (fun a ha => actionsFromSet_field ha) h) ?_
    intro result t ht
    obtain ⟨hat, hvalid⟩ := ht
    cases result with
    | error e => trivial
    | ok pair =>
      obtain ⟨valid, stale⟩ := pair
      apply Dialogue.Safe.bind
      refine Dialogue.Safe.mono (gateAll_keeps hrun hfull (hvalid valid stale rfl) hat) ?_
      intro result u hu
      cases result with
      | error e => trivial
      | ok pair =>
        obtain ⟨gated, ledger⟩ := pair
        apply Dialogue.Safe.bind
        refine Dialogue.Safe.mono (executeActions_keeps hrun hfull (hu gated ledger rfl)) ?_
        intro result v _
        cases result with
        | error e => trivial
        | ok pair => trivial

/-! ## Histories -/

variable (hashes key) in
/-- The invariant between the runs: every review that is counted is in the ledger file. -/
def GateWorld.Rests (once : Prop) (w : GateWorld) : Prop :=
  w.Kept hashes key once ∧ (once → w.unsaved = false)

theorem rests_empty : GateWorld.empty.Rests hashes key once := by
  have hnone : ∀ slot content, ¬Holds hashes key (fun _ => none) slot content := by
    intro slot content hholds
    obtain ⟨sig, hslot, -⟩ := hholds
    exact absurd hslot (by simp)
  refine ⟨⟨⟨fun content hwritten => absurd hwritten id, ?_, fun a ha => absurd ha (by simp [GateWorld.empty])⟩,
    fun _ => ⟨fun r hr => absurd hr (by simp [GateWorld.empty]), List.nodup_nil, fun _ => ?_⟩⟩, fun _ => rfl⟩
  · intro ledger hledger slot content hholds
    cases hledger
    exact absurd hholds (hnone slot content)
  · exact ⟨_, rfl, fun r hr => absurd hr (by simp [GateWorld.empty])⟩

/-- A run finds a ledger file that fits the world. -/
theorem GateWorld.Rests.at (h : w.Rests hashes key once) (hledger : w.ledger = some ledger) :
    w.At hashes key once ledger := by
  obtain ⟨⟨hlicensed, honce⟩, hsaved⟩ := h
  refine ⟨⟨hlicensed, honce⟩, hlicensed.ledger ledger hledger, fun ho => ?_⟩
  obtain ⟨saved, hsome, hspent⟩ := (honce ho).saved (hsaved ho)
  rw [hledger] at hsome
  cases hsome
  exact hspent

theorem GateWorld.Rests.history {stops : GateWorld → Prop} (hstops : once → ∀ w, stops w → w.unsaved = false)
    (hfull : once → ∀ text, hashes.hmac key text ≠ []) (h : GateHistory hashes key stops w) :
    w.Rests hashes key once := by
  refine Dialogue.History.invariant (GateWorld.Rests hashes key once) h rests_empty
    (fun t ht => ht.1) ?_ (fun t hkept hstop => ⟨hkept, fun ho => hstops ho t hstop⟩) ?_
  · intro t p ht hstart
    obtain ⟨run, ledger, hrun, hledger, hp⟩ := hstart
    rw [hp]
    exact applyRun_safe hrun hfull (ht.at hledger)
  · intro t u ht hplanted
    refine ⟨ht.1.planted hplanted, fun ho => ?_⟩
    obtain ⟨ledger, hu, -⟩ := hplanted
    rw [hu]
    exact ht.2 ho

/-- The texts that were hashed for the reviews and the mutations. -/
def GateWorld.artifacts (w : GateWorld) : Set JsString :=
  {text | (∃ r ∈ w.reviews, buildActionArtifact r.action digestFenceTag = text) ∨
    ∃ action ∈ w.performed, buildActionArtifact action digestFenceTag = text}

/-- Every mutation was approved by a reviewer other than the decider, on the artifact of the action as
it was performed, at its content hash. -/
def GateWorld.AllReviewed (w : GateWorld) : Prop :=
  ∀ action ∈ w.performed, ∃ r ∈ w.reviews, r.reviewer ≠ r.decider ∧ r.code = some reviewApprove ∧
    r.action.contentHash = action.contentHash ∧
    buildActionArtifact r.action digestFenceTag = buildActionArtifact action digestFenceTag

def GateWorld.ReviewedOnce (w : GateWorld) : Prop := (w.reviews.map (·.action.combination)).Nodup

/-- Mutations are licensed wherever the runs stop, and the reviews are single when no run stops between
the start of a review and the whole write of the ledger after it. -/
theorem writes_licensed_and_reviewed_once (hashes : Hashes) (key : JsString)
    (hfull : ∀ text, hashes.hmac key text ≠ []) :
    (∀ w, GateHistory hashes key (fun _ => True) w → Set.InjOn hashes.sha256 w.artifacts →
      w.AllReviewed) ∧
    ∀ w, GateHistory hashes key (fun w => w.unsaved = false) w → w.ReviewedOnce := by
  constructor
  · intro w h hcollision action haction
    have hrests : w.Rests hashes key False := GateWorld.Rests.history (fun ho => ho.elim) (fun ho => ho.elim) h
    obtain ⟨r, hr, hne, hcode, hhash, hdigest⟩ := hrests.1.1.performed action haction
    have hartifact := hcollision (Or.inl ⟨r, hr, rfl⟩) (Or.inr ⟨action, haction, rfl⟩) hdigest
    exact ⟨r, hr, hne, hcode, hhash, hartifact⟩
  · intro w h
    have hrests : w.Rests hashes key True := GateWorld.Rests.history (fun _ t ht => ht) (fun _ => hfull) h
    exact (hrests.1.2 trivial).single

/-! ### One close -/

def sampleHashes : Hashes := ⟨fun key text => key ++ text, id⟩

def sampleKey : JsString := js "key"

def sampleIssue : Issue := ⟨7, js "Crash", js "It crashes.", [], some (js "t1")⟩

def sampleFacts : Facts where
  references := fun _ => []
  contentHash := fun _ => some (js "ab12")
  verifyIssue := fun _ => ⟨js "fixed", []⟩
  unitsForIssue := fun _ => []
  globMatch := fun _ _ => false
  hex := by
    intro paths hash h
    cases h
    exact literal_noColon (l := ['a', 'b', '1', '2']) (by decide)

def sampleRun : ApplyRun where
  set := ⟨some (List.replicate 40 97),
    [⟨7, js "fixed", some (js "ab12"), false, .text (js "gone"), some (js "t1")⟩], []⟩
  profile := ⟨⟨some (js "one"), some (js "two")⟩, [], [], [], none, [], []⟩
  baseFloor := some []
  baseFrozenPaths := none
  basePolicy := some []
  revision := some (List.replicate 40 97)
  self := some (js "bot")
  key := some sampleKey
  facts := sampleFacts

/-- A world where every call succeeds and every review approves. -/
def obliging (w : GateWorld) : (call : GroomCall) → Except GroomError call.Answer × GateWorld
  | .fetchIssue _ => (.ok (some sampleIssue), w)
  | .runReview action decider reviewer =>
    (.ok reviewApprove, w.review ⟨action, decider, reviewer, some reviewApprove⟩)
  | .persist ledger => (.ok (), w.write sampleHashes sampleKey ledger true)
  | .comments _ => (.ok [], w)
  | .comment _ _ _ => (.ok (), w)
  | .apply action => (.ok (), w.perform action)

theorem planted_refl (w : GateWorld) : Planted hashes key w w := by
  refine ⟨w.ledger, rfl, ?_⟩
  cases w.ledger with
  | none => rfl
  | some ledger => exact fun slot => Or.inl rfl

theorem serves_obliging (w : GateWorld) (call : GroomCall) :
    gateServes sampleHashes sampleKey w call (obliging w call).1 (obliging w call).2 := by
  refine ⟨(obliging w call).2, ?_, planted_refl _⟩
  cases call <;> rfl

def sampleCalls (calls : Nat) (w : GateWorld) : GateWorld :=
  (Dialogue.drive obliging calls (applyRun sampleHashes sampleRun (w.ledger.getD fun _ => none)) w).2

theorem sampleCalls_history (calls : Nat) {stops : GateWorld → Prop} {w : GateWorld}
    (h : GateHistory sampleHashes sampleKey stops w) (hledger : w.ledger.isSome = true)
    (hstops : stops (sampleCalls calls w)) :
    GateHistory sampleHashes sampleKey stops (sampleCalls calls w) := by
  obtain ⟨ledger, hledger⟩ := Option.isSome_iff_exists.1 hledger
  have hruns := Dialogue.runs_drive serves_obliging calls (applyRun sampleHashes sampleRun ledger) w
  have hcalls : (Dialogue.drive obliging calls (applyRun sampleHashes sampleRun ledger) w).2 =
      sampleCalls calls w := by
    unfold sampleCalls
    rw [hledger]
    rfl
  rw [hcalls] at hruns
  exact h.run ⟨sampleRun, ledger, Or.inr rfl, hledger, rfl⟩ hruns hstops

/-- A close is reviewed, commented, performed and recorded. -/
theorem writes_licensed_and_reviewed_once_close : ∃ w : GateWorld, w.performed.length = 1 ∧ w.reviews.length = 1 ∧
    w.AllReviewed ∧ w.ReviewedOnce := by
  have all := writes_licensed_and_reviewed_once sampleHashes sampleKey fun text => List.cons_ne_nil _ _
  obtain ⟨hperformed, hreviews, hstops⟩ :
      (sampleCalls 8 GateWorld.empty).performed.length = 1 ∧
        (sampleCalls 8 GateWorld.empty).reviews.length = 1 ∧
        (sampleCalls 8 GateWorld.empty).unsaved = false := by
    decide +kernel
  refine ⟨sampleCalls 8 GateWorld.empty, hperformed, hreviews, ?_, ?_⟩
  · exact all.1 _ (sampleCalls_history 8 .start rfl trivial) (Set.injOn_id _)
  · exact all.2 _ (sampleCalls_history 8 .start rfl hstops)

/-- A run that stops while its reviewer works leaves no record, and the next run starts another. -/
theorem review_started_again : ¬∀ w, GateHistory sampleHashes sampleKey (fun _ => True) w →
    w.ReviewedOnce := by
  intro hall
  have hfirst : GateHistory sampleHashes sampleKey (fun _ => True) (sampleCalls 2 GateWorld.empty) :=
    sampleCalls_history 2 .start rfl trivial
  have hsecond := sampleCalls_history 2 hfirst (by decide +kernel) trivial
  have honce := hall _ hsecond
  unfold GateWorld.ReviewedOnce at honce
  revert honce
  decide +kernel

end Adlc.BacklogGroom
