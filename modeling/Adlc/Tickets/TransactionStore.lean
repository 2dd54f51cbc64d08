import Adlc.Tickets.TransactionRuns

namespace Adlc.Tickets

open Adlc.Framework Program

section Store

variable {ν : Type} [JsNumber ν] [Unicode] {id : JsString} {self recoverer : TransactionProcess ν id}
  {tickets : List (Json ν)} {o : TransactionOptions} {ro : RecoveryOptions} {s0 s s' : Repo}
  {before : TicketSnapshot ν} {t : Transaction} {plan : List PlannedChange} {entry : JsString × Json ν}

/-! ## The shards that a transaction makes -/

omit [JsNumber ν] in
theorem byFilename_mem (h : entry ∈ byFilename tickets) :
    entry.2 ∈ tickets ∧ entry.1 = ticketFilename (idOf entry.2) := by
  rw [byFilename_eq, lastByKey] at h
  obtain ⟨name, -, h⟩ := List.mem_filterMap.mp h
  obtain ⟨ticket, hlast, rfl⟩ := Option.map_eq_some_iff.mp h
  have hmem := List.mem_of_getLast? hlast
  exact ⟨(List.mem_filter.mp hmem).1, (of_decide_eq_true (List.mem_filter.mp hmem).2).symm⟩

/-- The tickets as a store holds them, one for each shard. -/
def storedTickets (tickets : List (Json ν)) : List (Json ν) := (byFilename tickets).map fun entry => normal entry.2

omit [Unicode] in
theorem shard_not_incidental (hid : isTransactionId id = true) {name : JsString}
    (hname : isShardFilename name = true) : ¬Incidental id plan (shardPlace name) := by
  generalize hplace : shardPlace name = place
  intro hin
  cases hin with
  | @temporary p hp suffix hsuffix =>
    obtain ⟨c, hc, hne⟩ := transactionId_last hid
    have hlast := shardFilename_last hname
    rw [show name = _ from congrArg Place.name hplace] at hlast
    simp only [temporaryOf, List.getLast?_append, hc, Option.some_or, Option.some.injEq] at hlast
    exact hne hlast
  | manifest => cases hplace
  | segment name => cases hplace

/-- A change of an active shard is one of the ticket whose shard it is, or it deletes one that no ticket has. -/
theorem shardPlan_cases {p : PlannedChange} {name : JsString} (hrequest : Requested self.root o)
    (hprepared : Prepared self tickets o s0 before t plan) (hp : p ∈ plan) (htarget : p.target = shardPlace name) :
    (∃ entry ∈ byFilename tickets, entry.1 = name ∧ planTicket s0 entry = [p]) ∨
      name ∈ obsoleteFilenames before tickets ∧ p.after = none := by
  rw [hprepared.planned, transactionPlan_eq] at hp
  obtain hp | hp := List.mem_append.mp hp
  · obtain hp | hp := List.mem_append.mp hp
    · obtain ⟨entry, hentry, hp⟩ := List.mem_flatMap.mp hp
      obtain hnone | ⟨text, -, hone⟩ := planTicket_cases s0 entry
      · rw [hnone] at hp
        cases hp
      · have hsame := hp
        rw [hone] at hsame
        obtain rfl := List.mem_singleton.mp hsame
        exact .inl ⟨entry, hentry, congrArg Place.name htarget, hone⟩
    · obtain ⟨filename, hfilename, hp⟩ := List.mem_flatMap.mp hp
      obtain rfl := List.mem_singleton.mp hp
      obtain rfl : filename = name := congrArg Place.name htarget
      exact .inr ⟨hfilename, rfl⟩
  · obtain hnone | ⟨q, hone, hq⟩ := auxiliaryPlan_cases hrequest s0
    · rw [hnone] at hp
      cases hp
    · rw [hone] at hp
      obtain rfl := List.mem_singleton.mp hp
      obtain ⟨ticketId, -, harchive⟩ := hq.target
      rw [harchive] at htarget
      cases htarget

/-- A shard that does not hold its ticket's text is planned to be written. -/
theorem Prepared.shard (h : Prepared self tickets o s0 before t plan) (hentry : entry ∈ byFilename tickets)
    {text : JsString} (htext : prettyCanonicalJson entry.2 = .ok text)
    (hne : (s0.file (shardPlace entry.1)).map utf8Decode ≠ some text) :
    shardPlace entry.1 ∈ plan.map PlannedChange.target := by
  have hplan : planTicket s0 entry = [⟨.ticket, entry.1, entry.1, shardPlace entry.1,
      s0.file (shardPlace entry.1), some (utf8Encode text)⟩] := by
    unfold planTicket
    rw [htext]
    exact if_neg hne
  have hmem : (⟨.ticket, entry.1, entry.1, shardPlace entry.1, s0.file (shardPlace entry.1),
      some (utf8Encode text)⟩ : PlannedChange) ∈ plan := by
    rw [h.planned, transactionPlan_eq]
    refine List.mem_append_left _ (List.mem_append_left _ (List.mem_flatMap.mpr ⟨entry, hentry, ?_⟩))
    rw [hplan]
    exact List.mem_singleton.mpr rfl
  exact List.mem_map_of_mem hmem

/-- A shard that no ticket has is planned to be deleted. -/
theorem Prepared.obsolete (h : Prepared self tickets o s0 before t plan) {name : JsString}
    (hname : name ∈ obsoleteFilenames before tickets) : shardPlace name ∈ plan.map PlannedChange.target := by
  have hmem : (⟨.ticket, name, name, shardPlace name, s0.file (shardPlace name), none⟩ : PlannedChange) ∈ plan := by
    rw [h.planned, transactionPlan_eq]
    exact List.mem_append_left _ (List.mem_append_right _
      (List.mem_flatMap.mpr ⟨_, hname, List.mem_singleton.mpr rfl⟩))
  exact List.mem_map_of_mem hmem

/-- Made, a plan has each ticket's text in the ticket's shard. -/
theorem Finished.shard (hprepared : Prepared self tickets o s0 before t plan) (hid : isTransactionId id = true)
    (hrequest : Requested self.root o) (h : Finished ν t plan s0 .complete s) (hentry : entry ∈ byFilename tickets)
    (hjson : entry.2.IsJson) :
    ∃ bytes, s.file (shardPlace entry.1) = some bytes ∧ parseJson (utf8Decode bytes) = some (normal entry.2) := by
  have hnodup := List.nodup_append.mp (shards_nodup before tickets)
  have htext := prettyCanonicalJson_shardText ((Json.isJson_iff _).mp hjson).2
  have hread : parseJson (shardText entry.2) = some (normal entry.2) :=
    parseJson_write spaces_two (forall_mem_of_all (by decide)) (normal_isJson hjson)
  have hname : isShardFilename entry.1 = true := by
    rw [(byFilename_mem hentry).2]
    exact ticketFilename_isShard _
  obtain rfl : t.id = id := hprepared.identity
  by_cases htarget : shardPlace entry.1 ∈ plan.map PlannedChange.target
  · obtain ⟨p, hp, htarget⟩ := List.mem_map.mp htarget
    obtain ⟨other, hother, hsame, hone⟩ | ⟨hobsolete, -⟩ := shardPlan_cases hrequest hprepared hp htarget
    · obtain rfl : other = entry := List.inj_on_of_nodup_map hnodup.1 hother hentry hsame
      have hafter : p.after = some (shardBytes other.2) := by
        obtain hnone | ⟨text, hok, hplan⟩ := planTicket_cases s0 other
        · rw [hnone] at hone
          cases hone
        · rw [htext] at hok
          obtain rfl := Except.ok.inj hok
          rw [hplan] at hone
          obtain rfl := List.singleton_inj.mp hone
          rfl
      refine ⟨shardBytes other.2, ?_, parse_shardBytes hjson⟩
      rw [← htarget, ← hafter]
      exact h.settled _ (List.mem_map_of_mem hp)
    · exact absurd rfl (hnodup.2.2 _ (List.mem_map_of_mem hentry) _ hobsolete)
  · have hsame : s.file (shardPlace entry.1) = s0.file (shardPlace entry.1) :=
      h.beside.files _ rfl htarget (shard_not_incidental hid hname)
    -- no change is planned for the shard, so it held the text before
    have hheld : (s0.file (shardPlace entry.1)).map utf8Decode = some (shardText entry.2) := by
      by_contra hne
      exact htarget (hprepared.shard hentry htext hne)
    obtain ⟨bytes, hbytes, hdecoded⟩ := Option.map_eq_some_iff.mp hheld
    exact ⟨bytes, hsame.trans hbytes, by rw [hdecoded]; exact hread⟩

/-- Made, a plan leaves no other shard. -/
theorem Finished.only (hprepared : Prepared self tickets o s0 before t plan) (hid : isTransactionId id = true)
    (hrequest : Requested self.root o) (h : Finished ν t plan s0 .complete s) {name : JsString} {bytes : Bytes}
    (hname : isShardFilename name = true) (hfile : s.file (shardPlace name) = some bytes) :
    ∃ entry ∈ byFilename tickets, entry.1 = name := by
  obtain rfl : t.id = id := hprepared.identity
  by_cases htarget : shardPlace name ∈ plan.map PlannedChange.target
  · obtain ⟨p, hp, htarget⟩ := List.mem_map.mp htarget
    obtain ⟨entry, hentry, hsame, -⟩ | ⟨-, hafter⟩ := shardPlan_cases hrequest hprepared hp htarget
    · exact ⟨entry, hentry, hsame⟩
    · have hgone : s.file p.target = p.after := h.settled _ (List.mem_map_of_mem hp)
      rw [htarget, hfile, hafter] at hgone
      cases hgone
  · have hsame : s.file (shardPlace name) = s0.file (shardPlace name) :=
      h.beside.files _ rfl htarget (shard_not_incidental hid hname)
    have hload := hprepared.loaded
    rw [hfile] at hsame
    by_contra hnone
    cases hdir : s0.dirs .tickets with
    | none =>
      rw [Repo.file, shardPlace, hdir] at hsame
      cases hsame
    | some dir =>
      rw [hdir] at hload
      obtain ⟨us, hholds, hbefore⟩ := (load_ok_iff _ _ _).mp hload
      have hlookup : dir.lookup name = some bytes := by
        rw [hsame, Repo.file, shardPlace, hdir]
        rfl
      have hmarker : name ≠ storeMarker := by
        rintro rfl
        revert hname
        decide
      obtain ⟨ticket, hticket, -, rfl⟩ := hholds.only name bytes hlookup hmarker
      -- a shard of the store from before that no ticket has is deleted
      have hobsolete : ticketFilename (idOf ticket) ∈ obsoleteFilenames before tickets := by
        refine List.mem_filter.mpr ⟨?_, decide_eq_true fun hmem => ?_⟩
        · rw [currentFilenames, mem_firstSeen, hbefore]
          exact List.mem_map.mpr ⟨ticket, (sortById_perm us).mem_iff.mpr hticket, rfl⟩
        · obtain ⟨entry, hentry, hsame⟩ := List.mem_map.mp hmem
          exact hnone ⟨entry, hentry, hsame⟩
      exact htarget (hprepared.obsolete hobsolete)

/-! ## The store once a plan is made -/

theorem storedTickets_nodup (hjson : ∀ ticket ∈ tickets, ticket.IsJson) : (storedTickets tickets).Nodup := by
  have hnames := (List.nodup_append.mp (shards_nodup (snapshotOf tickets) tickets)).1
  refine List.Nodup.map_on ?_ hnames.of_map
  intro a ha b hb hab
  have hid : ∀ entry ∈ byFilename tickets, idOf (normal entry.2) = idOf entry.2 := by
    intro entry hentry
    rw [idOf, id?_normal ((Json.isJson_iff _).mp (hjson _ (byFilename_mem hentry).1)).1, idOf]
  refine List.inj_on_of_nodup_map hnames ha hb ?_
  rw [(byFilename_mem ha).2, (byFilename_mem hb).2, ← hid a ha, ← hid b hb, hab]

/-- A store that loads after everything was made is one of the transaction's tickets, and of no others. -/
theorem Finished.holds (hprepared : Prepared self tickets o s0 before t plan) (hid : isTransactionId id = true)
    (hrequest : Requested self.root o) (hjson : ∀ ticket ∈ tickets, ticket.IsJson)
    (h : Finished ν t plan s0 .complete s) {snapshot : TicketSnapshot ν}
    (hload : activeStore.load (s.dirs .tickets) = .ok snapshot) :
    snapshot = snapshotOf (storedTickets tickets) ∧
      ∃ dir, s.dirs .tickets = some dir ∧ Holds activeStore dir (storedTickets tickets) := by
  have hentries : ∀ entry ∈ byFilename tickets, entry.2.IsJson := fun entry hentry =>
    hjson _ (byFilename_mem hentry).1
  cases hdir : s.dirs .tickets with
  | none =>
    rw [hdir] at hload
    cases hload
  | some dir =>
    rw [hdir] at hload
    obtain ⟨us, hholds, rfl⟩ := (load_ok_iff _ _ _).mp hload
    have hfile : ∀ name, s.file (shardPlace name) = dir.lookup name := by
      intro name
      rw [Repo.file, shardPlace, hdir]
      rfl
    have hmem : ∀ ticket, ticket ∈ us ↔ ticket ∈ storedTickets tickets := by
      intro ticket
      constructor
      · intro hticket
        obtain ⟨bytes, hbytes, hparse⟩ := hholds.has ticket hticket
        obtain ⟨entry, hentry, hname⟩ := h.only hprepared hid hrequest (ticketFilename_isShard (idOf ticket))
          ((hfile _).trans hbytes)
        obtain ⟨found, hfound, hread⟩ := h.shard hprepared hid hrequest hentry (hentries entry hentry)
        rw [hname, hfile, hbytes] at hfound
        rw [← Option.some.inj hfound, hparse] at hread
        rw [Option.some.inj hread]
        exact List.mem_map_of_mem hentry
      · intro hticket
        obtain ⟨entry, hentry, rfl⟩ := List.mem_map.mp hticket
        obtain ⟨bytes, hbytes, hread⟩ := h.shard hprepared hid hrequest hentry (hentries entry hentry)
        have hmarker : entry.1 ≠ storeMarker := by
          rw [(byFilename_mem hentry).2]
          exact ticketFilename_ne_marker _
        obtain ⟨found, hfound, hparse, -⟩ := hholds.only entry.1 bytes ((hfile _).symm.trans hbytes) hmarker
        rw [hread] at hparse
        rw [Option.some.inj hparse]
        exact hfound
    have hperm : us.Perm (storedTickets tickets) :=
      (List.perm_ext_iff_of_nodup (hholds.valid.spec.2.of_map id?) (storedTickets_nodup hjson)).mpr hmem
    exact ⟨hholds.snapshotOf_eq (hholds.perm hperm), dir, rfl, hholds.perm hperm⟩

/-- The store that the transaction was to make, or the one from before it, byte for byte. -/
def StoreIn (tickets : List (Json ν)) (s0 : Repo) (d : Direction) (snapshot : TicketSnapshot ν) (s : Repo) : Prop :=
  match d with
  | .complete => snapshot = snapshotOf (storedTickets tickets) ∧
      ∃ dir, s.dirs .tickets = some dir ∧ Holds activeStore dir (storedTickets tickets)
  | .rollback => activeStore.load (s0.dirs .tickets) = .ok snapshot ∧
      ∀ name, s.file ⟨.tickets, name⟩ = s0.file ⟨.tickets, name⟩

end Store

/-! ## The store after a transaction -/

section Marked

attribute [local instance] plainUnicode

end Marked

end Adlc.Tickets
