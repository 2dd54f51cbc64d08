import Adlc.Autopilot.Lock

namespace Adlc.Autopilot

open Adlc.Framework Adlc.Tickets

variable {ν : Type} [JsNumber ν] {ι : Type} [DecidableEq ι]

/-! ## What a step does to the lock -/

/-- Nothing, or an empty directory. -/
def Vacant (folder : Option Folder) : Prop := ∀ f ∈ folder, f.files = []

/-- What a step leaves at the lock's name, and to the process that takes it. -/
inductive Effect (displaced : Prop) (before : Option Folder) (mine : Option Nat) :
    Option Folder → Option Nat → Prop where
  | still : Effect displaced before mine before mine
  | idle : Effect displaced before mine before none
  | touched {folder folder' : Folder} {mine' : Option Nat} (found : before = some folder)
      (ino : folder'.ino = folder.ino) (solid : folder'.files ≠ []) (same : mine' = mine) :
      Effect displaced before mine (some folder') mine'
  | published {folder : Folder} (vacant : Vacant before) (solid : folder.files ≠ []) :
      Effect displaced before mine (some folder) (some folder.ino)
  | takenAside (ours : mine.isSome ∨ displaced) : Effect displaced before mine none none
  | putBack {folder : Option Folder} (vacant : Vacant before) :
      Effect displaced before mine folder none

variable {process : ι → Process ν} {self : Process ν} {p : ι} {answer : Answer ν}
  {disk : Disk (LockName ι)} {point : LockPoint ν} {r : Disk (LockName ι) × LockPoint ν}

omit [JsNumber ν] [DecidableEq ι] in
theorem Effect.of_folder {displaced : Prop} {before folder : Option Folder} {mine mine' : Option Nat}
    (hf : folder = before) (hm : mine' = none) : Effect displaced before mine folder mine' := by
  rw [hf, hm]
  exact .idle

theorem vacant_of_rename {source : LockName ι} {moved : Disk (LockName ι)} (hne : source ≠ .lock)
    (h : disk.rename source .lock = .ok moved) : Vacant (disk.folders .lock) := by
  obtain ⟨-, -, hold, -⟩ := Disk.rename_ok h hne
  intro f hf
  exact hold f hf

theorem reclaimStep_effect (h : reclaimStep self disk point answer = some r) :
    Effect (movesAside self disk point answer = true) (disk.folders .lock) point.holds
      (r.1.folders .lock) r.2.holds := by
  cases point with
  | moving judged =>
    cases answer <;> simp only [reclaimStep, Option.some.injEq, reduceCtorEq] at h
    case works =>
      split at h
      · next moved hmoved =>
        cases h
        obtain ⟨folder, -, -, hgone, -⟩ := Disk.rename_ok hmoved (by simp)
        rw [hgone]
        refine .takenAside (.inr ?_)
        rw [movesAside, hmoved]
        rfl
      · cases h
        exact .idle
      · cases h
        exact .idle
    case fails =>
      subst h
      exact .idle
  | puttingBack moved =>
    cases answer <;> simp only [reclaimStep, Option.some.injEq, reduceCtorEq] at h
    case works =>
      split at h
      · next restored hrestored =>
        cases h
        exact .putBack (vacant_of_rename (by simp) hrestored)
      · cases h
        exact .idle
    case fails =>
      subst h
      exact .idle
  | removing =>
    cases answer <;> simp only [reclaimStep, Option.some.injEq, reduceCtorEq] at h
    case works =>
      have hlock := Disk.removeStep_other disk
        (show LockName.lock ≠ .stale self.token by simp)
      split at h
      all_goals
        next hremoved =>
          cases h
          rw [hremoved] at hlock
          exact Effect.of_folder hlock rfl
    case fails =>
      subst h
      exact .idle
  | looking | reading | lookingAtLock | judging | lookingAtMoved | readingMoved =>
    cases answer <;> simp only [reclaimStep, Option.some.injEq, reduceCtorEq] at h
    all_goals
      subst h
      apply Effect.of_folder rfl
      first
      | rfl
      | (split_ifs <;> rfl)
  | _ => cases answer <;> cases h

/-- A process is about to publish a staging directory only with its owner file in it. -/
def Staged (p : ι) (disk : Disk (LockName ι)) (point : LockPoint ν) : Prop :=
  point = .publishing → ∀ f ∈ disk.folders (.staging p), f.files ≠ []

theorem publishStep_effect {displaced : Prop} (hstaged : Staged p disk point)
    (h : publishStep self p disk point answer = some r) :
    Effect displaced (disk.folders .lock) point.holds (r.1.folders .lock) r.2.holds := by
  have hne : LockName.lock ≠ .staging p := by simp
  cases point with
  | staging =>
    cases answer <;> simp only [publishStep, Option.some.injEq, reduceCtorEq] at h
    case stamp heartbeatAt =>
      split at h
      · next made hmade =>
        cases h
        exact .of_folder ((Disk.mkdir_ok hmade).2.2 _ hne) rfl
      · cases h
        exact .idle
    case fails =>
      subst h
      exact .idle
  | opening owner =>
    cases answer <;> simp only [publishStep, Option.some.injEq, reduceCtorEq] at h
    case temp random =>
      split at h
      · next opened fd hopened =>
        cases h
        obtain ⟨-, -, -, -, -, -, hother⟩ := Disk.openFile_ok hopened
        exact .of_folder (hother _ hne) rfl
      · cases h
        exact .idle
    case fails =>
      subst h
      exact .idle
  | writing tmp fd rest =>
    cases rest <;> cases answer <;> cases h <;> exact .idle
  | settling tmp =>
    cases answer <;> simp only [publishStep, Option.some.injEq, reduceCtorEq] at h
    case works =>
      split at h
      · next renamed hrenamed =>
        cases h
        obtain ⟨-, -, -, -, -, -, hother⟩ := Disk.renameFile_ok hrenamed
        exact .of_folder (hother _ hne) rfl
      · cases h
        exact .idle
    case fails =>
      subst h
      exact .idle
  | publishing =>
    cases answer <;> simp only [publishStep, Option.some.injEq, reduceCtorEq] at h
    case works =>
      split at h
      · next dir published hdir hpublished =>
        cases h
        have hvacant := vacant_of_rename hne.symm hpublished
        obtain ⟨folder, hfolder, -, -, hlock, -⟩ := Disk.rename_ok hpublished hne.symm
        have hino : dir = folder.ino := by
          rw [Disk.inoAt, hfolder] at hdir
          exact (Option.some.inj hdir).symm
        rw [hlock, hino]
        exact .published hvacant (hstaged rfl folder hfolder)
      · cases h
        exact .idle
      · cases h
        exact .idle
    all_goals
      subst h
      exact .idle
  | discarding heldByOther =>
    cases answer <;> simp only [publishStep, Option.some.injEq, reduceCtorEq] at h
    case works =>
      have hlock := Disk.removeStep_other disk hne
      split at h
      · next hremoved =>
        cases h
        rw [hremoved] at hlock
        apply Effect.of_folder hlock
        split_ifs <;> rfl
      · next hremoved =>
        cases h
        rw [hremoved] at hlock
        exact .of_folder hlock rfl
    case fails =>
      subst h
      exact .idle
  | lookingAtHolder =>
    cases answer <;> simp only [publishStep, Option.some.injEq, reduceCtorEq] at h
    all_goals
      subst h
      apply Effect.of_folder rfl
      first
      | rfl
      | (split_ifs <;> rfl)
  | readingHolder => cases answer <;> cases h <;> exact .idle
  | inspecting dir => cases answer <;> cases h <;> exact .still
  | _ => cases answer <;> cases h

theorem beatStep_effect {displaced : Prop} (h : beatStep self disk point answer = some r) :
    Effect displaced (disk.folders .lock) point.holds (r.1.folders .lock) r.2.holds := by
  cases point with
  | beatOpening hold next =>
    cases answer <;> simp only [beatStep, Option.some.injEq, reduceCtorEq] at h
    case temp random =>
      split at h
      · next opened fd hopened =>
        cases h
        obtain ⟨folder, folder', hbefore, hafter, hino, hsolid, -⟩ := Disk.openFile_ok hopened
        rw [hafter]
        exact .touched hbefore hino hsolid rfl
      · cases h
        exact .still
    case fails =>
      subst h
      exact .still
  | beatRenaming hold tmp =>
    cases answer <;> simp only [beatStep, Option.some.injEq, reduceCtorEq] at h
    case works =>
      split at h
      · next renamed hrenamed =>
        cases h
        obtain ⟨folder, folder', hbefore, hafter, hino, hsolid, -⟩ := Disk.renameFile_ok hrenamed
        rw [hafter]
        exact .touched hbefore hino hsolid rfl
      · cases h
        exact .still
    case fails =>
      subst h
      exact .still
  | beatWriting hold tmp fd rest =>
    cases rest <;> cases answer <;> cases h <;> exact .still
  | beatLooking hold =>
    cases answer <;> simp only [beatStep, Option.some.injEq, reduceCtorEq] at h
    case works =>
      subst h
      have hsame : (if (disk.fileAt .lock ownerFile).isSome then LockPoint.beatReading hold
          else .holding hold : LockPoint ν).holds = some hold.dir := by
        split_ifs <;> rfl
      rw [hsame]
      exact .still
    case fails =>
      subst h
      exact .still
  | beatReading hold =>
    cases answer <;> simp only [beatStep, Option.some.injEq, reduceCtorEq] at h
    case works =>
      subst h
      have hsame : (if self.owns (readOwner disk .lock) then
          LockPoint.beatStamping hold (readOwner disk .lock)
          else .holding hold : LockPoint ν).holds = some hold.dir := by
        split_ifs <;> rfl
      rw [hsame]
      exact .still
    case fails =>
      subst h
      exact .still
  | holding hold =>
    cases answer <;> cases h
    exact .still
  | beatStamping hold cur =>
    cases answer <;> cases h
    exact .still
  | _ => cases answer <;> cases h

theorem releaseStep_effect {displaced : Prop} (h : releaseStep self disk point answer = some r) :
    Effect displaced (disk.folders .lock) point.holds (r.1.folders .lock) r.2.holds := by
  cases point with
  | holding hold =>
    cases answer <;> cases h
    exact .still
  | releaseLooking hold =>
    cases answer <;> simp only [releaseStep, Option.some.injEq, reduceCtorEq] at h
    case works =>
      subst h
      split_ifs
      · exact .still
      · exact .idle
    case fails =>
      subst h
      exact .idle
  | releaseReading hold =>
    cases answer <;> simp only [releaseStep, Option.some.injEq, reduceCtorEq] at h
    case works =>
      subst h
      split_ifs
      · exact .still
      · exact .still
      · exact .idle
    case fails =>
      subst h
      exact .idle
  | releaseInspecting hold =>
    cases answer <;> simp only [releaseStep, Option.some.injEq, reduceCtorEq] at h
    case works =>
      subst h
      split_ifs
      · exact .still
      · exact .idle
    case fails =>
      subst h
      exact .idle
  | releaseMoving hold =>
    cases answer <;> simp only [releaseStep, Option.some.injEq, reduceCtorEq] at h
    case works =>
      split at h
      · next moved hmoved =>
        cases h
        obtain ⟨folder, -, -, hgone, -⟩ := Disk.rename_ok hmoved (by simp)
        rw [hgone]
        exact .takenAside (.inl rfl)
      · cases h
        exact .idle
    case fails =>
      subst h
      exact .idle
  | releasePuttingBack =>
    cases answer <;> simp only [releaseStep, Option.some.injEq, reduceCtorEq] at h
    case works =>
      split at h
      · next restored hrestored =>
        cases h
        exact .putBack (vacant_of_rename (by simp) hrestored)
      · cases h
        exact .idle
    case fails =>
      subst h
      exact .idle
  | releaseRemoving =>
    cases answer <;> simp only [releaseStep, Option.some.injEq, reduceCtorEq] at h
    case works =>
      have hlock := Disk.removeStep_other disk
        (show LockName.lock ≠ .release self.token by simp)
      split at h
      all_goals
        next hremoved =>
          cases h
          rw [hremoved] at hlock
          exact Effect.of_folder hlock rfl
    case fails =>
      subst h
      exact .idle
  | releaseLookingAtMoved | releaseReadingMoved =>
    cases answer <;> simp only [releaseStep, Option.some.injEq, reduceCtorEq] at h
    all_goals
      subst h
      apply Effect.of_folder rfl
      first
      | rfl
      | (split_ifs <;> rfl)
  | _ => cases answer <;> cases h

/-- A step is a crash or a step of one of the four calls. -/
theorem autopilotLock_cases (h : autopilotLock process p answer disk point = some r) :
    r = (disk, .crashed) ∨ reclaimStep (process p) disk point answer = some r ∨
      publishStep (process p) p disk point answer = some r ∨
      beatStep (process p) disk point answer = some r ∨
      releaseStep (process p) disk point answer = some r := by
  unfold autopilotLock at h
  split at h
  · split_ifs at h
    cases h
    exact .inl rfl
  · right
    rcases (Option.orElse_eq_some ..).1 h with h | ⟨-, h⟩
    · exact .inl h
    right
    rcases (Option.orElse_eq_some ..).1 h with h | ⟨-, h⟩
    · exact .inl h
    right
    exact ((Option.orElse_eq_some ..).1 h).imp_right And.right

theorem autopilotLock_effect (hstaged : Staged p disk point)
    (h : autopilotLock process p answer disk point = some r) :
    Effect (movesAside (process p) disk point answer = true) (disk.folders .lock) point.holds
      (r.1.folders .lock) r.2.holds := by
  rcases autopilotLock_cases h with rfl | h | h | h | h
  · exact .idle
  · exact reclaimStep_effect h
  · exact publishStep_effect hstaged h
  · exact beatStep_effect h
  · exact releaseStep_effect h

/-! ## The staging directories -/

variable {q : ι}

theorem reclaimStep_staging (h : reclaimStep self disk point answer = some r) :
    r.1.folders (.staging q) = disk.folders (.staging q) := by
  unfold reclaimStep at h
  split at h
  all_goals try (cases h; rfl)
  · split at h <;> cases h
    · next hmoved => exact Disk.rename_other hmoved (by simp) (by simp)
    · rfl
    · rfl
  · split at h <;> cases h
    · next hrestored => exact Disk.rename_other hrestored (by simp) (by simp)
    · rfl
  · have hother := Disk.removeStep_other disk
      (show LockName.staging q ≠ .stale self.token by simp)
    split at h
    all_goals
      next hremoved =>
        cases h
        rw [hremoved] at hother
        exact hother
  · cases h

theorem publishStep_staging (hq : q ≠ p) (h : publishStep self p disk point answer = some r) :
    r.1.folders (.staging q) = disk.folders (.staging q) := by
  have hne : LockName.staging q ≠ .staging p := by simp [hq]
  unfold publishStep at h
  split at h
  all_goals try (cases h; rfl)
  · split at h <;> cases h
    · next hmade => exact (Disk.mkdir_ok hmade).2.2 _ hne
    · rfl
  · split at h <;> cases h
    · next hopened =>
      obtain ⟨-, -, -, -, -, -, hother⟩ := Disk.openFile_ok hopened
      exact hother _ hne
    · rfl
  · split at h <;> cases h
    · next hrenamed =>
      obtain ⟨-, -, -, -, -, -, hother⟩ := Disk.renameFile_ok hrenamed
      exact hother _ hne
    · rfl
  · split at h <;> cases h
    · next hpublished => exact Disk.rename_other hpublished hne (by simp)
    · rfl
    · rfl
  · have hother := Disk.removeStep_other disk hne
    split at h
    all_goals
      next hremoved =>
        cases h
        rw [hremoved] at hother
        exact hother
  · cases h

theorem beatStep_staging (h : beatStep self disk point answer = some r) :
    r.1.folders (.staging q) = disk.folders (.staging q) := by
  have hne : LockName.staging q ≠ .lock := by simp
  unfold beatStep at h
  split at h
  all_goals try (cases h; rfl)
  · split at h <;> cases h
    · next hopened =>
      obtain ⟨-, -, -, -, -, -, hother⟩ := Disk.openFile_ok hopened
      exact hother _ hne
    · rfl
  · split at h <;> cases h
    · next hrenamed =>
      obtain ⟨-, -, -, -, -, -, hother⟩ := Disk.renameFile_ok hrenamed
      exact hother _ hne
    · rfl
  · cases h

theorem releaseStep_staging (h : releaseStep self disk point answer = some r) :
    r.1.folders (.staging q) = disk.folders (.staging q) := by
  unfold releaseStep at h
  split at h
  all_goals try (cases h; rfl)
  · split at h <;> cases h
    · next hmoved => exact Disk.rename_other hmoved (by simp) (by simp)
    · rfl
  · split at h <;> cases h
    · next hrestored => exact Disk.rename_other hrestored (by simp) (by simp)
    · rfl
  · have hother := Disk.removeStep_other disk
      (show LockName.staging q ≠ .release self.token by simp)
    split at h
    all_goals
      next hremoved =>
        cases h
        rw [hremoved] at hother
        exact hother
  · cases h

/-- A process touches no other's staging directory. -/
theorem autopilotLock_staging (hq : q ≠ p)
    (h : autopilotLock process p answer disk point = some r) :
    r.1.folders (.staging q) = disk.folders (.staging q) := by
  rcases autopilotLock_cases h with rfl | h | h | h | h
  · rfl
  · exact reclaimStep_staging h
  · exact publishStep_staging hq h
  · exact beatStep_staging h
  · exact releaseStep_staging h

theorem reclaimStep_not_publishing (h : reclaimStep self disk point answer = some r) :
    r.2 ≠ .publishing := by
  unfold reclaimStep at h
  split at h
  all_goals try split at h
  all_goals cases h
  all_goals try split_ifs
  all_goals simp

theorem beatStep_not_publishing (h : beatStep self disk point answer = some r) :
    r.2 ≠ .publishing := by
  unfold beatStep at h
  split at h
  all_goals try split at h
  all_goals cases h
  all_goals try split_ifs
  all_goals simp

theorem releaseStep_not_publishing (h : releaseStep self disk point answer = some r) :
    r.2 ≠ .publishing := by
  unfold releaseStep at h
  split at h
  all_goals try split at h
  all_goals cases h
  all_goals try split_ifs
  all_goals simp

/-- A process that is about to publish has just put its owner file in place. -/
theorem autopilotLock_staged (h : autopilotLock process p answer disk point = some r) :
    Staged p r.1 r.2 := by
  intro hpublishing
  rcases autopilotLock_cases h with rfl | h | h | h | h
  · cases hpublishing
  · exact absurd hpublishing (reclaimStep_not_publishing h)
  · unfold publishStep at h
    split at h
    case h_5 =>
      split at h <;> cases h
      · next hrenamed =>
        obtain ⟨-, folder', -, hafter, -, hsolid, -⟩ := Disk.renameFile_ok hrenamed
        intro f hf
        rw [hafter] at hf
        cases hf
        exact hsolid
      · cases hpublishing
    all_goals try split at h
    all_goals cases h
    all_goals try split_ifs at hpublishing
    all_goals cases hpublishing
  · exact absurd hpublishing (beatStep_not_publishing h)
  · exact absurd hpublishing (releaseStep_not_publishing h)

/-! ## Mutual exclusion -/

omit [JsNumber ν] [DecidableEq ι] in
theorem Effect.slotStep {displaced unclaimed : Prop} {before after : Option Folder}
    {mine mine' : Option Nat} (hdisplaced : displaced → unclaimed)
    (hvacant : Vacant before → unclaimed) (h : Effect displaced before mine after mine') :
    SlotStep unclaimed (before.map Folder.ino) mine (after.map Folder.ino) mine' := by
  cases h with
  | still => exact .keep
  | idle => exact .drop
  | touched found ino solid same =>
    rw [found, same, Option.map_some, Option.map_some, ino]
    exact .keep
  | published vacant solid => exact .seize (hvacant vacant)
  | takenAside ours =>
    rcases ours with held | dead
    · exact .clear held
    · exact .evict (hdisplaced dead)
  | putBack vacant => exact .evict (hvacant vacant)

omit [JsNumber ν] in
/-- While somebody claims the lock's directory, it is not empty. -/
theorem Effect.solid {displaced : Prop} {before after : Option Folder} {mine' : Option Nat}
    {claim : ι → Option Nat} {a : Nat} (h : Effect displaced before (claim p) after mine')
    (hsolid : ∀ q a, claim q = some a → ∀ f ∈ before, f.files ≠ [])
    (hclaim : Function.update claim p mine' q = some a) (hfree : Vacant before → claim q ≠ some a) :
    ∀ f ∈ after, f.files ≠ [] := by
  have hother : mine' = none → claim q = some a := by
    intro hnone
    by_cases hqp : q = p
    · subst hqp
      rw [Function.update_self, hnone] at hclaim
      cases hclaim
    · rwa [Function.update_of_ne hqp] at hclaim
  cases h with
  | still =>
    rw [Function.update_eq_self] at hclaim
    exact hsolid q a hclaim
  | idle => exact hsolid q a (hother rfl)
  | touched found ino solid same =>
    intro f hf
    cases hf
    exact solid
  | published vacant solid =>
    intro f hf
    cases hf
    exact solid
  | takenAside ours =>
    intro f hf
    cases hf
  | putBack vacant => exact absurd (hother rfl) (hfree vacant)

/-- What holds in every state of a run that reclaims no live lock. -/
structure Sound (c : Config ι (Disk (LockName ι)) (LockPoint ν)) : Prop where
  exclusive : Exclusive (c.shared.inoAt .lock) (c.claims LockPoint.holds)
  solid : ∀ p a, c.claims LockPoint.holds p = some a →
    ∀ f ∈ c.shared.folders .lock, f.files ≠ []
  staged : ∀ p, Staged p c.shared (c.loc p)

variable {c : Config ι (Disk (LockName ι)) (LockPoint ν)}

omit [JsNumber ν] [DecidableEq ι] in
theorem Sound.not_claimed (h : Sound c) (hv : Vacant (c.shared.folders .lock)) (a : Nat) :
    c.claims LockPoint.holds q ≠ some a := by
  intro hq
  have hslot := h.exclusive.placed hq
  obtain ⟨f, hf, -⟩ := Option.map_eq_some_iff.1 hslot
  exact h.solid q a hq f hf (hv f hf)

theorem Sound.step (h : Sound c) (hok : ReclaimsNoLive process c p answer)
    (hr : autopilotLock process p answer c.shared (c.loc p) = some r) : Sound (c.put p r) := by
  have heffect : Effect _ (c.shared.folders .lock) (c.claims LockPoint.holds p) _ _ :=
    autopilotLock_effect (h.staged p) hr
  constructor
  · rw [Config.claims_put, Config.put_shared]
    apply h.exclusive.step
    apply heffect.slotStep hok
    intro hv q a hq
    exact absurd hq (h.not_claimed hv a)
  · intro q a hq
    rw [Config.claims_put] at hq
    exact heffect.solid h.solid hq fun hv => h.not_claimed hv a
  · intro q
    rw [Config.put_loc, Config.put_shared]
    by_cases hqp : q = p
    · subst hqp
      rw [Function.update_self]
      exact autopilotLock_staged hr
    · rw [Function.update_of_ne hqp, Staged, autopilotLock_staging hqp hr]
      exact h.staged q

/-- Every process is about to acquire the lock; directories may be left from before. -/
def beforeAcquire (disk : Disk (LockName ι)) : Config ι (Disk (LockName ι)) (LockPoint ν) :=
  ⟨disk, fun _ => .looking⟩

omit [JsNumber ν] [DecidableEq ι] in
theorem sound_beforeAcquire (disk : Disk (LockName ι)) :
    Sound (beforeAcquire disk : Config ι (Disk (LockName ι)) (LockPoint ν)) where
  exclusive := exclusive_of_idle fun _ => rfl
  solid p a h := by cases h
  staged p h := by cases h

theorem sound_of_runs {disk : Disk (LockName ι)}
    (h : Runs (autopilotLock process) (ReclaimsNoLive process) (beforeAcquire disk) c) :
    Sound c := by
  apply Runs.invariant Sound h (sound_beforeAcquire disk)
  intro d p answer r hd hok hr
  exact hd.step hok hr

omit [JsNumber ν] in
theorem LockPoint.holds_of_believes (h : point.believes = true) :
    ∃ dir, point.holds = some dir := by
  cases point <;> cases h
  all_goals exact ⟨_, rfl⟩

/-- The process is in `release()`. -/
def LockPoint.releases : LockPoint ν → Bool
  | .releaseLooking _ | .releaseReading _ | .releaseInspecting _ | .releaseMoving _
  | .releaseLookingAtMoved | .releaseReadingMoved | .releasePuttingBack | .releaseRemoving => true
  | _ => false

/-- At most one process believes it holds the lock. -/
def OneBeliever (c : Config ι (Disk (LockName ι)) (LockPoint ν)) : Prop :=
  ∀ p q, (c.loc p).believes = true → (c.loc q).believes = true → p = q

/-- Whatever a process does in `release()`, the directory of another holder stays at the lock's
name. -/
def ReleaseSparesOthers (process : ι → Process ν)
    (c : Config ι (Disk (LockName ι)) (LockPoint ν)) : Prop :=
  ∀ p answer r, (c.loc p).releases = true →
    autopilotLock process p answer c.shared (c.loc p) = some r →
    ∀ q dir, q ≠ p → (c.loc q).holds = some dir → r.1.inoAt .lock = some dir

omit [JsNumber ν] in
theorem reclaimsNoLive_of_releases (h : (c.loc p).releases = true) :
    ReclaimsNoLive process c p answer := by
  intro hmoves
  cases hloc : c.loc p <;> simp only [hloc, LockPoint.releases, Bool.false_eq_true] at h
  all_goals cases answer <;> simp [hloc, movesAside] at hmoves

theorem Sound.releaseSparesOthers (h : Sound c) : ReleaseSparesOthers process c := by
  intro p answer r hreleases hr q dir hqp hq
  have hafter := (h.step (reclaimsNoLive_of_releases hreleases) hr).exclusive
  apply hafter.placed (p := q)
  rw [Config.claims_put, Function.update_of_ne hqp]
  exact hq

/-- In every run in which no reclaim moves a live process's lock aside, at most one process
believes it holds the lock and no release touches another's. -/
theorem autopilotLock_exclusive (process : ι → Process ν) (disk : Disk (LockName ι))
    {c : Config ι (Disk (LockName ι)) (LockPoint ν)}
    (h : Runs (autopilotLock process) (ReclaimsNoLive process) (beforeAcquire disk) c) :
    OneBeliever c ∧ ReleaseSparesOthers process c := by
  have hsound := sound_of_runs h
  refine ⟨?_, hsound.releaseSparesOthers⟩
  intro p q hp hq
  obtain ⟨dir, hdir⟩ := LockPoint.holds_of_believes hp
  obtain ⟨dir', hdir'⟩ := LockPoint.holds_of_believes hq
  exact hsound.exclusive.one hdir hdir'

end Adlc.Autopilot

namespace Adlc.Autopilot

open Adlc.Framework

/-! ## Four processes, one of which dies -/

def epoch : JsString := js "1970-01-01T00:00:00.000Z"

def parseEpoch : Json Int → Option Int
  | .str s => if s = epoch then some 0 else none
  | _ => none

def fourProcesses (p : Fin 4) : Process Int where
  pid := 100 + p
  pidStartTime := some (natText p)
  token := natText p
  dateParse := parseEpoch

def noDirectory : Disk (LockName (Fin 4)) := ⟨fun _ => none, fun _ => [], 0⟩

/-- Process 0 is dead and its heartbeat is hours old. -/
def firstDead : Probes Int := ⟨10000000, fun pid => pid != 100, fun _ => none⟩

def publishes (p : Fin 4) : List (Fin 4 × Answer Int) :=
  [(p, .stamp epoch), (p, .temp (js "00")), (p, .wrote 1000), (p, .works), (p, .works), (p, .works),
    (p, .works)]

/-- A process finds no lock and publishes its own. -/
def findsNone (p : Fin 4) : List (Fin 4 × Answer Int) :=
  [(p, .works), (p, .works)] ++ publishes p

/-- A process judges the lock of the dead process. -/
def judgesDead (p : Fin 4) : List (Fin 4 × Answer Int) :=
  [(p, .works), (p, .works), (p, .probes firstDead)]

/-- A process moves the lock aside, removes it and publishes its own. -/
def reclaims (p : Fin 4) : List (Fin 4 × Answer Int) :=
  [(p, .works), (p, .works), (p, .works), (p, .works), (p, .works)] ++ publishes p

instance (c : Config (Fin 4) (Disk (LockName (Fin 4))) (LockPoint Int)) (p : Fin 4)
    (answer : Answer Int) : Decidable (ReclaimsNoLive fourProcesses c p answer) :=
  inferInstanceAs (Decidable (_ → _))

theorem autopilotLock_exclusive_reclaim :
    ∃ c, Runs (autopilotLock fourProcesses) (ReclaimsNoLive fourProcesses)
        (beforeAcquire noDirectory) c ∧
      (c.loc 1).believes = true ∧ OneBeliever c ∧ ReleaseSparesOthers fourProcesses c := by
  have hplay : (Machine.play (autopilotLock fourProcesses) (ReclaimsNoLive fourProcesses)
      (beforeAcquire noDirectory)
      (findsNone 0 ++ [(0, .crash)] ++ judgesDead 1 ++ reclaims 1)).any
      (fun c => (c.loc 1).believes) = true := by decide +kernel
  obtain ⟨c, hruns, hc⟩ := Machine.exists_run_of_play hplay
  exact ⟨c, hruns, hc, autopilotLock_exclusive fourProcesses noDirectory hruns⟩

/-- Processes 1 and 2 judge the same dead lock. Process 2 moves the lock of process 1 aside, and
process 3 publishes its own before process 2 can put it back. -/
def movesTheWinner : List (Fin 4 × Answer Int) :=
  findsNone 0 ++ [(0, .crash)] ++ judgesDead 1 ++ judgesDead 2 ++ reclaims 1 ++ [(2, .works)] ++
    findsNone 3

theorem two_autopilots_believe :
    ¬∀ c, Runs (autopilotLock fourProcesses) (fun _ _ _ => True) (beforeAcquire noDirectory) c →
      OneBeliever c ∧ ReleaseSparesOthers fourProcesses c := by
  intro hall
  have hplay : (Machine.play (autopilotLock fourProcesses) (fun _ _ _ => True)
      (beforeAcquire noDirectory) movesTheWinner).any
      (fun c => (c.loc 1).believes && (c.loc 3).believes) = true := by decide +kernel
  obtain ⟨c, hruns, hc⟩ := Machine.exists_run_of_play hplay
  rw [Bool.and_eq_true] at hc
  have h13 := (hall c hruns).1 1 3 hc.1 hc.2
  cases h13

end Adlc.Autopilot
