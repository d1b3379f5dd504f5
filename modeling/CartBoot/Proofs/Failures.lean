import CartBoot.Proofs.Confinement

/-!
# Errors are told as they are

An operation on a file fails in one of two ways. Either the chain is corrupt, which
the cursor finds out from the table, or the device refuses an access. Which of the
two it was can be told from the log: an operation stops at the first access that
does not go through, so all accesses went through when the chain is blamed, and the
last one, and no other, did not when the device is. The device's code is passed on.

There is no third kind of error, but an operation may not get to one. Numbers are
words of 32 bits, and where one is not, the loader stops. Where the transfer ends at
a word and all table entries are within reach this does not happen. That much has to
be said of the table: a packed entry may be out of reach of a cursor in the middle
of a short file.

Nothing else is assumed here, neither of what the disk holds nor of when it fails
nor of the window. What an operation asks of its drive is a trace of commands, and
the account of what went through is kept along the trace.

The first error stays. All that a cursor is asked after it ends with the same error,
and nothing moves: neither the cursor nor the device.
-/

namespace CartBoot

open Fat

/-! ## What went through -/

namespace Disk

variable {d e f : Disk} {e? : Option Error}

/-- An access that goes through: it reaches the medium, lies on it and touches no sector that
fails. -/
def Grants (d : Disk) (a : Access) : Prop :=
  a.reached = true ∧ d.readable a.direction a.sector a.count = true

/-- `e` is `d` after accesses of which `P` is so of all but the last. -/
def LogsUntil (P : Access → Prop) (d e : Disk) : Prop :=
  ∃ (new : Array Access) (last : Access),
    e.log = (d.log ++ new).push last ∧ (∀ a ∈ new, P a) ∧ ¬ P last

/-- A device as it was made: how large it is and when it fails. -/
structure SameDevice (d e : Disk) : Prop where
  sectorCount : e.sectorCount = d.sectorCount
  faults : e.faults = d.faults

theorem SameDevice.refl (d : Disk) : d.SameDevice d := ⟨rfl, rfl⟩

theorem SameDevice.trans (h : d.SameDevice e) (h' : e.SameDevice f) : d.SameDevice f :=
  ⟨h'.sectorCount.trans h.sectorCount, h'.faults.trans h.faults⟩

theorem SameDevice.grants (h : d.SameDevice e) : e.Grants = d.Grants := by
  funext a
  unfold Grants readable
  rw [h.sectorCount, h.faults]

/-- What an error, or none, says of the accesses since `d`: all went through, or all but the last,
and then the error is the device's. -/
inductive Told (d : Disk) : Option Error → Disk → Prop where
  | all {e : Disk} : d.SameDevice e → d.Logs d.Grants e → Told d none e
  | refused {e : Disk} : d.SameDevice e → d.LogsUntil d.Grants e →
      Told d (some (.device d.faults.code)) e

theorem Told.refl (d : Disk) : d.Told none d := .all (.refl d) (.refl d)

theorem Told.sameDevice (h : d.Told e? e) : d.SameDevice e := by
  cases h with
  | all hsame _ => exact hsame
  | refused hsame _ => exact hsame

theorem Told.logs (h : d.Told none e) : d.Logs d.Grants e := by
  cases h with
  | all _ hlogs => exact hlogs

/-- Two ways to fail, and the accesses tell which, unless a number was no word. -/
theorem Told.of_failing {err : Error} (h : d.Told err.failing e) :
    err = .integrity ∧ d.Logs d.Grants e
      ∨ err = .device d.faults.code ∧ d.LogsUntil d.Grants e
      ∨ err = .overflow ∧ d.Logs d.Grants e := by
  cases err with
  | integrity => exact .inl ⟨rfl, h.logs⟩
  | overflow => exact .inr (.inr ⟨rfl, h.logs⟩)
  | device code =>
      cases h with
      | refused _ huntil => exact .inr (.inl ⟨rfl, huntil⟩)
  | _ => cases h

theorem Logs.trans_until {P : Access → Prop} (h : d.Logs P e) (h' : e.LogsUntil P f) :
    d.LogsUntil P f := by
  obtain ⟨new, hlog, hnew⟩ := h
  obtain ⟨more, last, hlog', hmore, hlast⟩ := h'
  refine ⟨new ++ more, last, by rw [hlog', hlog, Array.append_assoc], fun a ha => ?_, hlast⟩
  rcases Array.mem_append.mp ha with ha | ha
  · exact hnew a ha
  · exact hmore a ha

theorem Told.trans (h : d.Told none e) (h' : e.Told e? f) : d.Told e? f := by
  have hsame := h.sameDevice
  cases h' with
  | all hsame' hlogs =>
      rw [hsame.grants] at hlogs
      exact .all (hsame.trans hsame') (h.logs.trans hlogs)
  | refused hsame' huntil =>
      rw [hsame.grants] at huntil
      rw [hsame.faults]
      exact .refused (hsame.trans hsame') (h.logs.trans_until huntil)

/-- One call: the answer says whether it goes through. -/
theorem told_attempt (d : Disk) (direction : Direction) (first count : Nat) :
    ((d.attempt direction first count).1 = true → d.Told none (d.attempt direction first count).2)
      ∧ ((d.attempt direction first count).1 = false →
        d.Told (some (.device (d.attempt direction first count).2.faults.code))
          (d.attempt direction first count).2) := by
  let last : Access :=
    ⟨direction, first, count, !d.faults.failsCall direction (d.calls direction)⟩
  have hgrants : (d.attempt direction first count).1 = true ↔ d.Grants last := by
    unfold attempt Grants
    rw [Bool.and_eq_true]
  refine ⟨fun hthrough => .all ⟨rfl, rfl⟩ ⟨#[last], Array.push_eq_append, fun a ha => ?_⟩,
    fun hrefused =>
      .refused ⟨rfl, rfl⟩ ⟨#[], last, by simp [attempt, last], nofun, fun hlast => ?_⟩⟩
  · rw [Array.mem_singleton] at ha
    rw [ha]
    exact hgrants.mp hthrough
  · rw [hgrants.mpr hlast] at hrefused
    cases hrefused

theorem told_read (d : Disk) (first count : Nat) :
    Ends (read first count d) (fun _ e => d.Told none e) (fun err e => d.Told (some err) e) := by
  obtain ⟨hthrough, hrefused⟩ := told_attempt d .read first count
  unfold read
  cases ha : d.attempt .read first count with
  | mk through e =>
      rw [ha] at hthrough hrefused
      cases through with
      | true => exact hthrough rfl
      | false => exact hrefused rfl

theorem told_write (d : Disk) (first count : Nat) (data : ByteArray) :
    Ends (write first count data d) (fun _ e => d.Told none e)
      (fun err e => d.Told (some err) e) := by
  obtain ⟨hthrough, hrefused⟩ := told_attempt d .write first count
  unfold write
  cases ha : d.attempt .write first count with
  | mk through e =>
      rw [ha] at hthrough hrefused
      cases through with
      | true =>
          have h := hthrough rfl
          obtain ⟨new, hlog, hnew⟩ := h.logs
          refine .all (h.sameDevice.trans ⟨by simp, by simp⟩) ⟨new, ?_, hnew⟩
          rw [log_setSectors, hlog]
      | false => exact hrefused rfl

end Disk

/-! ## Along a trace -/

namespace Drive

theorem told_ensure (sector : Nat) (v : Drive) :
    Ends (ensure sector v) (fun _ w => v.disk.Told none w.disk)
      (fun e w => v.disk.Told (some e) w.disk) := by
  refine ends_ensure_of_fetch (fun _ _ => .refl _) ?_
  unfold fetch
  simp only [ends_bind, ends_modify, ends_pure, ends_onDisk]
  exact Disk.told_read v.disk sector 1

/-- A command that fails has the device to blame, for its last access. -/
theorem Command.told (c : Command) (v : Drive) :
    Ends (c.perform v) (fun _ w => v.disk.Told none w.disk)
      (fun e w => v.disk.Told (some e) w.disk) := by
  unfold perform
  cases c with
  | look sector =>
      simp only [ends_bind, ends_pure]
      exact told_ensure sector v
  | patch sector offset data =>
      unfold writeThrough
      simp only [ends_bind, ends_modify, ends_onDisk]
      refine (told_ensure sector v).mono ?_ fun _ _ h => h
      intro held w hlooked
      exact (Disk.told_write _ _ _ _).mono (fun _ _ h => hlooked.trans h) fun _ _ h =>
        hlooked.trans h
  | readRun first count =>
      simp only [ends_bind, ends_pure, ends_onDisk]
      exact Disk.told_read v.disk first count
  | writeRun first count data =>
      simp only [ends_bind, ends_modify, ends_onDisk, disk_invalidateRange]
      exact Disk.told_write v.disk first count data

theorem Trace.told {P : Command → Prop} {u v : Drive} {e? : Option Error} (h : Trace P u e? v) :
    u.disk.Told e? v.disk := by
  induction h with
  | nil v => exact .refl v.disk
  | fail hc hfail => exact (Command.told _ _).of_error hfail
  | cons hc hok _ ih => exact ((Command.told _ _).of_ok hok).trans ih

end Drive

/-! ## Words -/

namespace ChainStream

section Words

variable {α β : Type} {s t u : ChainStream} {m n k : Nat}

/-- There is room for `n` bytes more: all entries are within reach, and the position behind the
bytes is a word. -/
structure Room (s : ChainStream) (n : Nat) : Prop where
  reach : s.volume.geometry.OffsetsFit
  word : 0 < n → s.position + n < wordLimit

/-- `t` is `s` moved on by `n` bytes. -/
structure On (s : ChainStream) (n : Nat) (t : ChainStream) : Prop where
  geometry : t.volume.geometry = s.volume.geometry
  failure : t.failure = s.failure
  position : t.position = s.position + n

theorem On.refl (s : ChainStream) : s.On 0 s := ⟨rfl, rfl, rfl⟩

theorem On.trans (h : s.On m t) (h' : t.On n u) : s.On (m + n) u :=
  ⟨h'.geometry.trans h.geometry, h'.failure.trans h.failure, by
    rw [h'.position, h.position, Nat.add_assoc]⟩

/-- There is room for the rest. -/
theorem On.room (h : s.On m t) (hs : s.Room (m + n)) : t.Room n :=
  ⟨h.geometry ▸ hs.reach, fun hn => by
    rw [h.position, Nat.add_assoc]
    exact hs.word (Nat.add_pos_right m hn)⟩

theorem Room.of_le (hs : s.Room n) (h : m ≤ n) : s.Room m :=
  ⟨hs.reach, fun hm =>
    Nat.lt_of_le_of_lt (Nat.add_le_add_left h _) (hs.word (Nat.lt_of_lt_of_le hm h))⟩

/-- An operation with enough room moves the cursor on by `n` bytes, or it fails; it does not stop at
a number. -/
def Goes (s : ChainStream) (n : Nat) (r : EStateM.Result Error ChainStream α) : Prop :=
  s.Room n → Ends r (fun _ t => s.On n t) (fun e _ => e ≠ .overflow)

theorem goes_pure (a : α) : s.Goes 0 ((pure a : EStateM Error ChainStream α) s) := fun _ => .refl s

theorem Goes.bind {x : EStateM Error ChainStream α} {f : α → EStateM Error ChainStream β}
    (hx : s.Goes m (x s)) (hf : ∀ a t, s.On m t → t.Goes n (f a t)) (hk : m + n = k) :
    s.Goes k ((x >>= f) s) := by
  subst hk
  intro hs
  rw [ends_bind]
  refine (hx (hs.of_le (Nat.le_add_right m n))).mono ?_ fun _ _ h => h
  intro a t ht
  exact (hf a t ht (ht.room hs)).mono (fun _ _ h => ht.trans h) fun _ _ h => h

/-- Changing the place in the chain moves nothing on. -/
theorem goes_modify {f : ChainStream → ChainStream} (h : s.On 0 (f s)) :
    s.Goes 0 ((modify f : EStateM Error ChainStream PUnit) s) := fun _ => h

theorem goes_entry (cluster : Nat) : s.Goes 0 ( entry? cluster s) := by
  intro hs
  unfold entry? onVolume
  by_cases hc : s.volume.geometry.HasCluster cluster
  · have h := Volume.traced_nextCluster hc
    cases hr : Volume.nextCluster cluster s.volume with
    | ok n w =>
        simp only [hr]
        exact ⟨(h.of_ok hr).1, rfl, rfl⟩
    | error e w =>
        rcases (h.of_error hr).1 with ⟨code, rfl⟩ | ⟨_, hout⟩
        · simp only [hr]
          exact nofun
        · exact absurd (hs.reach.offsetFits hc) hout
  · simp only [Volume.nextCluster_invalid hc]
    exact .refl s

theorem goes_follow (cluster : Nat) : s.Goes 0 (follow cluster s) := by
  unfold follow
  refine (goes_entry cluster).bind (n := 0) (fun next t _ => ?_) rfl
  cases next with
  | none => exact fun _ => nofun
  | some next =>
      dsimp only
      split
      · exact goes_pure next
      · exact fun _ => nofun

theorem goes_followMany (hops cluster : Nat) : s.Goes 0 (followMany hops cluster s) := by
  induction hops generalizing cluster s with
  | zero => exact goes_pure cluster
  | succ hops ih => exact (goes_follow cluster).bind (n := 0) (fun next t _ => ih next) rfl

/-- A cursor that has not failed does as it is asked. -/
theorem goes_guarded {operation : EStateM Error ChainStream α} (hs : s.failure = none)
    (h : s.Goes n (operation s)) : s.Goes n (guarded operation s) := by
  intro hroom
  exact ends_guarded (fun e he => by cases hs.symm.trans he) fun _ => h hroom

theorem goes_clusterSector (cluster : Nat) : s.Goes 0 (clusterSector cluster s) := by
  unfold clusterSector Goes
  rw [ends_bind, ends_get]
  cases s.volume.geometry.firstSector? cluster with
  | none => exact fun _ => nofun
  | some sector => exact goes_pure sector

theorem goes_enterSector (index : Nat) : s.Goes 0 (enterSector index s) := by
  have hsector : ∀ t : ChainStream, t.Goes 0 ((do
      let base ← clusterSector (← get).cluster
      return base + index : EStateM Error ChainStream Nat) t) := by
    intro t
    unfold Goes
    rw [ends_bind, ends_get]
    exact (goes_clusterSector t.cluster).bind (n := 0) (fun base u _ => goes_pure _) rfl
  unfold enterSector Goes
  rw [ends_bind, ends_get]
  dsimp only
  split
  · refine (goes_follow s.cluster).bind (n := 0) (fun next t _ => ?_) rfl
    exact (goes_modify ⟨rfl, rfl, rfl⟩).bind (n := 0) (fun _ u _ => hsector u) rfl
  · exact hsector s

theorem goes_foldRun {g : Geometry} {goal : Nat} (run : Nat) : s.Goes 0 (foldRun g goal run s) := by
  induction hn : goal - run using Nat.strongRecOn generalizing run s with
  | ind n ih =>
      have hpos := g.clusterSize_pos
      rw [foldRun]
      split
      · unfold Goes
        rw [ends_bind, ends_get]
        refine (goes_entry s.cluster).bind (n := 0) (fun next t _ => ?_) rfl
        cases next with
        | none => exact goes_pure 0
        | some next =>
            dsimp only
            split
            · refine (goes_modify ⟨rfl, rfl, rfl⟩).bind (n := 0) (fun _ u _ => ?_) rfl
              refine Goes.bind (n := 0) ?_ (fun folded v _ => goes_pure _) rfl
              exact ih (goal - (run + g.clusterSize)) (by omega) _ rfl
            · exact goes_pure 0
      · exact goes_pure 0

theorem goes_nextSpan {left : Nat} (pos : 0 < left) : s.Goes 0 (nextSpan left pos s) := by
  unfold nextSpan Goes
  rw [ends_bind, ends_get]
  dsimp only
  split
  · exact goes_pure _
  · refine (goes_enterSector _).bind (n := 0) (fun sector t _ => ?_) rfl
    split
    · exact (goes_modify ⟨rfl, rfl, rfl⟩).bind (n := 0) (fun _ _ _ => goes_pure _) rfl
    · split
      · exact (goes_foldRun _).bind (n := 0) (fun _ _ _ => goes_pure _) rfl
      · exact (goes_pure _).bind (n := 0) (fun _ _ _ => goes_pure _) rfl

/-- A seek goes to a given position, so all it can stop at is the table. -/
theorem word_seekFrom (hs : s.volume.geometry.OffsetsFit) (position : Nat) :
    Ends (seekFrom position s) (fun _ _ => True) (fun e _ => e ≠ .overflow) := by
  unfold seekFrom
  rw [ends_bind, ends_get, ends_bind]
  refine (goes_followMany _ _ ⟨hs, nofun⟩).mono ?_ fun _ _ h => h
  intro cluster t ht
  rw [ends_bind, ends_modify]
  split
  · have hsector := goes_clusterSector (s := { t with cluster, position }) cluster
      ⟨ht.geometry ▸ hs, nofun⟩
    rw [ends_bind]
    exact hsector.mono (fun _ _ _ => trivial) fun _ _ h => h
  · trivial

/-- The drive knows no positions. -/
theorem goes_onDrive {access : EStateM Error Drive α}
    (h : Ends (access s.volume.drive) (fun _ _ => True) (fun e _ => ∃ code, e = .device code)) :
    s.Goes 0 (onDrive access s) := by
  intro _
  rw [ends_onDrive]
  refine h.mono (fun _ _ _ => ⟨rfl, rfl, rfl⟩) ?_
  rintro _ d ⟨code, rfl⟩
  exact nofun

theorem goes_advance (hn : 0 < n) : s.Goes n (advance n s) := by
  intro hs
  rw [ends_advance]
  exact ⟨fun _ => ⟨rfl, rfl, rfl⟩, fun hlarge => absurd (hs.word hn) hlarge⟩

theorem goes_readSpan {left : Nat} (span : Span left) : s.Goes span.size (readSpan span s) := by
  have hfetch : s.Goes 0 (fetchSpan span s) := by
    unfold fetchSpan
    cases span with
    | whole sector count pos fits =>
        exact (goes_onDrive (Drive.device_of_read sector count _)).bind (n := 0)
          (fun _ _ _ => goes_pure _) rfl
    | part sector offset len pos fits inside =>
        exact (goes_onDrive (Drive.device_of_ensure sector _)).bind (n := 0)
          (fun _ _ _ => goes_pure _) rfl
  unfold readSpan
  refine hfetch.bind (fun data t _ => ?_) (Nat.zero_add _)
  exact (goes_advance span.size_pos).bind (n := 0) (fun _ _ _ => goes_pure data) rfl

theorem goes_writeSpan {left : Nat} (span : Span left) (data : ByteArray) :
    s.Goes span.size (writeSpan span data s) := by
  have hstore : s.Goes 0 (storeSpan data span s) := by
    have hcommand := goes_onDrive ((writeCommand data span).device_of_error s.volume.drive)
    unfold storeSpan
    cases span with
    | whole sector count pos fits =>
        unfold Goes writeCommand Drive.Command.perform at *
        simpa only [ends_bind, ends_modify, ends_onDrive] using hcommand
    | part sector offset len pos fits inside => exact hcommand
  unfold writeSpan
  exact hstore.bind (fun _ _ _ => goes_advance span.size_pos) (Nat.zero_add _)

/-- A read with enough room does not stop at a number. -/
theorem word_readFrom (got : ByteArray) (left : Nat) (hs : s.Room left) :
    (readFrom got left s).error? ≠ some .overflow := by
  induction left using Nat.strongRecOn generalizing got s with
  | ind left ih =>
      rw [readFrom]
      split
      · exact (Option.some_ne_none _).symm
      · rename_i hleft
        have hnext := goes_nextSpan (Nat.pos_of_ne_zero hleft) (hs.of_le (Nat.zero_le left))
        split
        · rename_i e t hfail
          exact fun he => hnext.of_error hfail (Option.some.inj he)
        · rename_i span t hfound
          have hle := span.size_le
          have hpos := span.size_pos
          have ht : t.Room left := (hnext.of_ok hfound).room (by rwa [Nat.zero_add])
          have hread := goes_readSpan span (ht.of_le hle)
          split
          · rename_i e u hfail
            exact fun he => hread.of_error hfail (Option.some.inj he)
          · rename_i data u hok
            refine ih (left - span.size) (by omega) _ ((hread.of_ok hok).room ?_)
            rwa [Nat.add_sub_cancel' hle]

theorem goes_writeFrom (data : ByteArray) (left : Nat) : s.Goes left (writeFrom data left s) := by
  induction left using Nat.strongRecOn generalizing s with
  | ind left ih =>
      rw [writeFrom]
      split
      · rename_i hzero
        subst hzero
        exact goes_pure ()
      · rename_i hne
        refine (goes_nextSpan (Nat.pos_of_ne_zero hne)).bind (fun span t _ => ?_) (Nat.zero_add _)
        have hle := span.size_le
        have hpos := span.size_pos
        refine (goes_writeSpan span _).bind (fun _ u _ => ?_) (Nat.add_sub_cancel' hle)
        exact ih (left - span.size) (by omega)

/-- A fill is a sequence of writes, each of which goes on where the one before it ended. -/
theorem goes_fill (hs : s.failure = none) (value : UInt8) (len : Nat) :
    s.Goes len (fill value len s) := by
  induction len using Nat.strongRecOn generalizing s with
  | ind len ih =>
      rw [fill]
      split
      · rename_i hzero
        subst hzero
        exact goes_pure ()
      · have hle := Nat.min_le_right fillPiece len
        have hsize := ByteArray.size_replicate (n := min fillPiece len) (x := value)
        refine (goes_guarded hs (goes_writeFrom _ _)).bind (n := len - min fillPiece len)
          (fun _ t ht => ?_) (by rw [hsize, Nat.add_sub_cancel' hle])
        have hless : len - min fillPiece len < len := by
          unfold fillPiece
          omega
        exact ih _ hless (ht.failure.trans hs)

end Words

end ChainStream

/-! ## Operations of a cursor -/

namespace ChainStream

variable {s t : ChainStream} {α : Type}

/-- Nothing is said of what is asked. -/
def Anything (_ : Drive.Command) : Prop :=
  True

theorem traced_readFrom (got : ByteArray) (left : Nat) :
    s.Works Anything ((readFrom got left s).error?.bind Error.failing)
      (readFrom got left s).stream := by
  refine works_readFrom_of_spans (I := fun _ => True) ?_ got left trivial
  intro s left pos _
  refine (traced_nextSpan pos).mono ?_ fun _ _ h => h.mono fun _ _ => trivial
  intro span t hlooked
  refine ⟨hlooked.mono fun _ _ => trivial, (traced_readSpan trivial).mono ?_ fun _ _ h => h⟩
  intro _ u hmoved
  exact ⟨hmoved, trivial⟩

theorem traced_writeFrom (data : ByteArray) :
    Traced Anything s (writeFrom data data.size s) := by
  refine traced_writeFrom_of_spans (I := fun _ => True) ?_ data.size (Nat.le_refl _) trivial
  intro s left pos _ _
  refine (traced_nextSpan pos).mono ?_ fun _ _ h => h.mono fun _ _ => trivial
  intro span t hlooked
  refine ⟨hlooked.mono fun _ _ => trivial, (traced_writeSpan trivial).mono ?_ fun _ _ h => h⟩
  intro _ u hmoved
  exact ⟨hmoved, trivial⟩

/-- A cursor that has not failed, after an operation: it has not failed and all accesses went
through, or it keeps the error, which tells what happened. -/
def Reports (s : ChainStream) (r : EStateM.Result Error ChainStream α) : Prop :=
  Ends r
    (fun _ t => t.failure = none ∧ t.volume.geometry = s.volume.geometry
      ∧ s.volume.disk.Told none t.volume.disk)
    (fun e t => t.failure = some e ∧ t.volume.geometry = s.volume.geometry
      ∧ s.volume.disk.Told e.failing t.volume.disk)

theorem reports_guarded {P : Drive.Command → Prop} {operation : EStateM Error ChainStream α}
    (hs : s.failure = none) (h : Traced P s (operation s)) : s.Reports (guarded operation s) := by
  unfold Traced at h
  cases hr : operation s with
  | ok a t =>
      rw [guarded_of_ok hs hr]
      have hworks := h.of_ok hr
      exact ⟨hworks.failure.trans hs, hworks.geometry, hworks.drive.told⟩
  | error e t =>
      rw [guarded_of_error hs hr]
      have hworks := h.of_error hr
      exact ⟨rfl, hworks.geometry, hworks.drive.told⟩

/-- A read guards itself, since what it delivered before it failed is part of its answer. -/
theorem ends_readExact_of_readFrom {len : Nat} {done : ByteArray → ChainStream → Prop}
    {failed : Error → ChainStream → Prop} (hs : s.failure = none)
    (hdone : ∀ data t, readFrom .empty len s = ⟨data, none, t⟩ → done data t)
    (hfailed : ∀ data e t, readFrom .empty len s = ⟨data, some e, t⟩ →
      failed e { t with failure := some e }) : Ends (readExact len s) done failed := by
  have hread : ReadStream.read s len = read s len := rfl
  unfold read at hread
  rw [hs] at hread
  dsimp only at hread
  cases hr : readFrom .empty len s with
  | mk data error? t =>
      rw [hr] at hread
      cases error? with
      | none =>
          rw [readExact_of_none hread]
          exact hdone data t hr
      | some e =>
          rw [readExact_of_some hread]
          exact hfailed data e t hr

theorem reports_read (hs : s.failure = none) (len : Nat) : s.Reports (readExact len s) := by
  have hworks := traced_readFrom (s := s) .empty len
  refine ends_readExact_of_readFrom hs (fun data t hr => ?_) fun data e t hr => ?_
  · rw [hr] at hworks
    exact ⟨hworks.failure.trans hs, hworks.geometry, hworks.drive.told⟩
  · rw [hr] at hworks
    exact ⟨rfl, hworks.geometry, hworks.drive.told⟩

/-- A fill is a sequence of writes; it ends at the first that fails. -/
theorem reports_fill (hs : s.failure = none) (value : UInt8) (len : Nat) :
    s.Reports (fill value len s) := by
  unfold Reports
  induction len using Nat.strongRecOn generalizing s with
  | ind len ih =>
      rw [fill]
      split
      · exact ⟨hs, rfl, .refl _⟩
      · rw [ends_bind]
        refine Ends.mono (reports_guarded hs (traced_writeFrom _)) ?_ fun _ _ h => h
        intro _ t ht
        obtain ⟨hnone, hgeometry, htold⟩ := ht
        refine (ih _ (by unfold fillPiece; omega) hnone).mono ?_ ?_
        · intro _ u hu
          exact ⟨hu.1, hu.2.1.trans hgeometry, htold.trans hu.2.2⟩
        · intro e u hu
          exact ⟨hu.1, hu.2.1.trans hgeometry, htold.trans hu.2.2⟩

/-- A cursor that has failed refuses to fill even its first piece. -/
theorem fill_of_failed {e : Error} (hs : s.failure = some e) (value : UInt8) {len : Nat}
    (hlen : len ≠ 0) : fill value len s = .error e s := by
  rw [fill, dif_neg hlen]
  exact bind_of_error (guarded_of_failed hs)

end ChainStream

/-! ## Requests -/

namespace Request

variable {s : ChainStream}

theorem reports_perform (r : Request) (hs : s.failure = none) : s.Reports (r.perform s) := by
  unfold perform ChainStream.Reports
  cases r with
  | seek position =>
      simp only [ends_bind, ends_pure]
      exact ChainStream.reports_guarded hs (ChainStream.traced_seekFrom position.toNat)
  | read len => exact ChainStream.reports_read hs len
  | write data =>
      simp only [ends_bind, ends_pure]
      exact ChainStream.reports_guarded hs (ChainStream.traced_writeFrom data)
  | fill value len =>
      simp only [ends_bind, ends_pure]
      exact ChainStream.reports_fill hs value len

/-- A request that gets no further than the last word does not stop there. -/
theorem word_perform (r : Request) (hs : s.failure = none) (hreach : s.volume.geometry.OffsetsFit)
    (hfits : r.Fits s) : Ends (r.perform s) (fun _ _ => True) (fun e _ => e ≠ .overflow) := by
  have hroom : ∀ {n}, s.Within n → s.Room n := fun hin => ⟨hreach, fun _ => hin hs⟩
  unfold perform
  cases r with
  | seek position =>
      simp only [ends_bind, ends_pure]
      exact ChainStream.ends_guarded (fun e he => by cases hs.symm.trans he) fun _ =>
        ChainStream.word_seekFrom hreach position.toNat
  | read len =>
      have hread := ChainStream.word_readFrom .empty len (hroom hfits)
      refine ChainStream.ends_readExact_of_readFrom hs (fun _ _ _ => trivial) fun _ e _ hr he => ?_
      rw [hr, he] at hread
      exact hread rfl
  | write data =>
      simp only [ends_bind, ends_pure]
      exact (ChainStream.goes_guarded hs (ChainStream.goes_writeFrom data data.size)
        (hroom hfits)).mono (fun _ _ _ => trivial) fun _ _ h => h
  | fill value len =>
      simp only [ends_bind, ends_pure]
      exact (ChainStream.goes_fill hs value len (hroom hfits)).mono (fun _ _ _ => trivial)
        fun _ _ h => h

/-- All requests but to fill no bytes, which does not even ask the cursor. -/
def Active (r : Request) : Prop :=
  ∀ value, r ≠ .fill value 0

/-- A cursor that has failed refuses every request with the error it has kept. -/
theorem perform_of_failed {e : Error} (hs : s.failure = some e) {r : Request} (hr : r.Active) :
    r.perform s = .error e s := by
  unfold perform
  cases r with
  | seek position => exact bind_of_error (ChainStream.guarded_of_failed hs)
  | read len => exact readExact_of_some (ChainStream.read_of_failed hs len)
  | write data => exact bind_of_error (ChainStream.guarded_of_failed hs)
  | fill value len =>
      have hlen : len ≠ 0 := fun hzero => hr value (hzero ▸ rfl)
      exact bind_of_error (ChainStream.fill_of_failed hs value hlen)

/-- Whatever is asked of it, a cursor that has failed stays as it is. -/
theorem state_of_failed {e : Error} (hs : s.failure = some e) (r : Request) :
    (outcome (r.perform s)).2 = s := by
  by_cases hr : r.Active
  · rw [perform_of_failed hs hr]
    rfl
  · obtain ⟨value, hvalue⟩ := Classical.not_forall.mp hr
    rw [Classical.not_not.mp hvalue]
    unfold perform
    dsimp only
    rw [CartBoot.fill]
    rfl

end Request

/-! ## Runs -/

/-- The first error among the answers of a run. -/
def firstError? {ε α : Type} (answers : List (Except ε α)) : Option ε :=
  answers.findSome? fun
    | .ok _ => none
    | .error e => some e

section Runs

variable {s : ChainStream} (rs : List Request)

theorem runAll_of_failed {e : Error} (hs : s.failure = some e) :
    (runAll Request.perform rs s).2 = s := by
  induction rs with
  | nil => rfl
  | cons r rs ih =>
      show (runAll Request.perform rs (outcome (r.perform s)).2).2 = s
      rw [Request.state_of_failed hs r]
      exact ih

/-- What a cursor keeps after a run is the first error of the run, and it tells what happened. -/
theorem failure_runAll (hs : s.failure = none) :
    (runAll Request.perform rs s).2.failure = firstError? (runAll Request.perform rs s).1
      ∧ (runAll Request.perform rs s).2.volume.geometry = s.volume.geometry
      ∧ s.volume.disk.SameDevice (runAll Request.perform rs s).2.volume.disk
      ∧ ∀ e, firstError? (runAll Request.perform rs s).1 = some e →
        e = .integrity ∨ e = .device s.volume.disk.faults.code ∨ e = .overflow := by
  induction rs generalizing s with
  | nil => exact ⟨hs, rfl, .refl _, nofun⟩
  | cons r rs ih =>
      have hreports := r.reports_perform hs
      unfold runAll
      cases hr : r.perform s with
      | ok a t =>
          obtain ⟨hnone, hgeometry, htold⟩ := hreports.of_ok hr
          obtain ⟨hfailure, hgeometry', hsame, hkinds⟩ := ih hnone
          refine ⟨hfailure, hgeometry'.trans hgeometry, htold.sameDevice.trans hsame,
            fun e he => ?_⟩
          have := hkinds e he
          rwa [htold.sameDevice.faults] at this
      | error e t =>
          obtain ⟨hfailed, hgeometry, htold⟩ := hreports.of_error hr
          dsimp only [outcome]
          rw [runAll_of_failed rs hfailed]
          refine ⟨hfailed, hgeometry, htold.sameDevice, fun e' he' => ?_⟩
          cases he'
          exact htold.of_failing.imp And.left (.imp And.left And.left)

/-- A run of which no request gets past the last word does not stop at a number. -/
theorem word_runAll (hs : s.failure = none) (hreach : s.volume.geometry.OffsetsFit)
    (hfits : Admits Request.perform Request.Fits rs s) :
    firstError? (runAll Request.perform rs s).1 ≠ some .overflow := by
  induction rs generalizing s with
  | nil => exact nofun
  | cons r rs ih =>
      have hword := r.word_perform hs hreach hfits.1
      have hreports := r.reports_perform hs
      unfold runAll
      unfold Admits at hfits
      cases hr : r.perform s with
      | ok a t =>
          obtain ⟨hnone, hgeometry, _⟩ := hreports.of_ok hr
          rw [hr] at hfits
          exact ih hnone (hgeometry ▸ hreach) hfits.2
      | error e t => exact fun he => hword.of_error hr (Option.some.inj he)

end Runs

/-- **Errors are told truly, and stay.** Whatever the disk holds and whenever it fails, an operation
on a file that nothing has failed on goes through with all its accesses, or blames the chain with
all its accesses through, or passes on the code of the device that refused its last access; unless
the loader stops, because the operation goes past the last word or an entry of the table is out of
reach. After the first error every operation ends with that error and moves nothing. -/
theorem errors_told (v : Volume) (cluster : Nat) (before : List Request) {r : Request}
    (hr : r.Active) :
    let s := (runAll Request.perform before (v.openAt cluster)).2
    match firstError? (runAll Request.perform before (v.openAt cluster)).1 with
    | none =>
        Ends (r.perform s) (fun _ t => s.volume.disk.Logs v.disk.Grants t.volume.disk)
          (fun e t => e = .integrity ∧ s.volume.disk.Logs v.disk.Grants t.volume.disk
            ∨ e = .device v.disk.faults.code
              ∧ s.volume.disk.LogsUntil v.disk.Grants t.volume.disk
            ∨ e = .overflow ∧ s.volume.disk.Logs v.disk.Grants t.volume.disk
              ∧ (v.geometry.OffsetsFit → ¬ r.Fits s))
    | some e =>
        (e = .integrity ∨ e = .device v.disk.faults.code
            ∨ e = .overflow ∧ (v.geometry.OffsetsFit →
              ¬ Admits Request.perform Request.Fits before (v.openAt cluster)))
          ∧ r.perform s = .error e s := by
  intro s
  obtain ⟨hfailure, hgeometry, hdevice, hkinds⟩ := failure_runAll before (s := v.openAt cluster) rfl
  cases hfirst : firstError? (runAll Request.perform before (v.openAt cluster)).1 with
  | none =>
      rw [hfirst] at hfailure
      dsimp only
      have hreports := r.reports_perform hfailure
      cases hresult : r.perform s with
      | ok a t =>
          have hlogs := (hreports.of_ok hresult).2.2.logs
          rwa [hdevice.grants] at hlogs
      | error e t =>
          have hkind := (hreports.of_error hresult).2.2.of_failing
          rw [hdevice.grants, hdevice.faults] at hkind
          refine hkind.imp id (.imp id fun ⟨he, hlogs⟩ => ⟨he, hlogs, fun hreach hfits => ?_⟩)
          exact (r.word_perform hfailure (hgeometry ▸ hreach) hfits).of_error hresult he
  | some e =>
      rw [hfirst] at hfailure
      refine ⟨?_, Request.perform_of_failed hfailure hr⟩
      refine (hkinds e hfirst).imp id (.imp id fun he => ⟨he, fun hreach hfits => ?_⟩)
      exact word_runAll before rfl hreach hfits (he ▸ hfirst)

/-- A device that fails its first read, and goes on as if nothing had been. -/
def failingDisk : Disk :=
  { smallDisk with faults := { code := 7, failsCall := fun _ n => n = 0 } }

/-- The seek is refused its first access and says so. The error stays, although the device would
work again: a fill is refused without asking it. -/
theorem failingDisk_error_stays :
    let v := Volume.ofDisk failingDisk smallGeometry true
    let s := (runAll Request.perform [.seek 513, .read 512] (v.openAt 2)).2
    (Request.seek 513).Active ∧ (Request.fill 0xFF 10).Active
      ∧ (∃ t, (Request.seek 513).perform (v.openAt 2) = .error (.device 7) t
        ∧ v.disk.LogsUntil v.disk.Grants t.volume.disk)
      ∧ (Request.fill 0xFF 10).perform s = .error (.device 7) s := by
  have hseek : (Request.seek 513).Active := nofun
  have hfill : (Request.fill 0xFF 10).Active := nofun
  have hfirst := errors_told (Volume.ofDisk failingDisk smallGeometry true) 2 [] hseek
  have hlater := errors_told (Volume.ofDisk failingDisk smallGeometry true) 2
    [.seek 513, .read 512] hfill
  have hrefused := hfirst.resolve_left nofun |>.resolve_right nofun
  exact ⟨hseek, hfill, ⟨_, rfl, hrefused.2⟩, hlater.2⟩

/-- A read of two sectors from the last cluster that is a packed one too many: all positions are
words, and no access is refused, but the loader stops. -/
theorem overfull_read_stops :
    let s := (Volume.ofDisk overfullDisk overfullGeometry true).openAt 0xAAAAAAAA
    overfullDisk.Faultless ∧ (Request.read 1024).Active ∧ (Request.read 1024).Fits s
      ∧ ∃ t, (Request.read 1024).perform s = .error .overflow t := by
  refine ⟨⟨fun _ _ => rfl, fun _ _ => rfl⟩, nofun, fun _ => by decide, ?_⟩
  with_unfolding_all exact ⟨_, rfl⟩

end CartBoot
