import CartBoot.Proofs.Requests

/-!
# What a cursor asks of its drive

Whatever a cursor does, all that happens to the drive is a sequence of four kinds
of commands: a sector is asked for through the window, part of a sector is
overwritten through the window, and runs of whole sectors are read or written past
it. A `Trace` is such a sequence. Every command of it goes through but, where the
cursor fails because the device did, the last. That a chain is broken, or a number no
word, is found out without a command.

Which commands a cursor gives is said by a predicate. To find its way it asks for
sectors of the table only; what it asks for besides is said by the spans of its
transfers.
-/

namespace CartBoot

open Fat

namespace Drive

/-- One thing asked of a drive. -/
inductive Command where
  /-- Ask for a sector through the window. -/
  | look (sector : Nat)
  /-- Overwrite part of a sector through the window. -/
  | patch (sector offset : Nat) (data : ByteArray)
  /-- Read whole sectors past the window. -/
  | readRun (first count : Nat)
  /-- Write whole sectors past the window. -/
  | writeRun (first count : Nat) (data : ByteArray)

def Command.perform : Command → EStateM Error Drive Unit
  | .look sector => do
      let _ ← ensure sector
  | .patch sector offset data => writeThrough sector offset data
  | .readRun first count => do
      let _ ← onDisk (Disk.read first count)
  | .writeRun first count data => do
      modify (·.invalidateRange first count)
      onDisk (Disk.write first count data)

/-- Commands that take one drive to another. All of them go through, or the last one fails with
the error given. -/
inductive Trace (P : Command → Prop) : Drive → Option Error → Drive → Prop where
  | nil (v : Drive) : Trace P v none v
  | fail {u v : Drive} {c : Command} {e : Error} :
      P c → c.perform u = .error e v → Trace P u (some e) v
  | cons {u v w : Drive} {c : Command} {e? : Option Error} :
      P c → c.perform u = .ok () v → Trace P v e? w → Trace P u e? w

variable {P Q : Command → Prop} {u v w : Drive} {e? : Option Error}

theorem Trace.append (h : Trace P u none v) (h' : Trace P v e? w) : Trace P u e? w := by
  generalize hnone : (none : Option Error) = n? at h
  induction h with
  | nil => exact h'
  | fail hc hfail => cases hnone
  | cons hc hok _ ih => exact .cons hc hok (ih h' hnone)

theorem Trace.mono (h : Trace P u e? v) (hPQ : ∀ c, P c → Q c) : Trace Q u e? v := by
  induction h with
  | nil => exact .nil _
  | fail hc hfail => exact .fail (hPQ _ hc) hfail
  | cons hc hok _ ih => exact .cons (hPQ _ hc) hok ih

theorem device_of_read (first count : Nat) (v : Drive) :
    Ends (onDisk (Disk.read first count) v) (fun _ _ => True)
      (fun e _ => ∃ code, e = .device code) := by
  rw [ends_onDisk]
  unfold Disk.read
  split
  · trivial
  · exact ⟨_, rfl⟩

theorem device_of_write (first count : Nat) (data : ByteArray) (v : Drive) :
    Ends (onDisk (Disk.write first count data) v) (fun _ _ => True)
      (fun e _ => ∃ code, e = .device code) := by
  rw [ends_onDisk]
  unfold Disk.write
  split
  · trivial
  · exact ⟨_, rfl⟩

theorem device_of_ensure (sector : Nat) (v : Drive) :
    Ends (ensure sector v) (fun _ _ => True) (fun e _ => ∃ code, e = .device code) := by
  refine ends_ensure_of_fetch (fun _ _ => trivial) ?_
  unfold fetch
  simp only [ends_bind, ends_modify, ends_pure]
  exact device_of_read sector 1 _

/-- Commands fail only as the device does. -/
theorem Command.device_of_error (c : Command) (v : Drive) :
    Ends (c.perform v) (fun _ _ => True) (fun e _ => ∃ code, e = .device code) := by
  unfold perform
  cases c with
  | look sector =>
      simp only [ends_bind, ends_pure]
      exact device_of_ensure sector v
  | patch sector offset data =>
      unfold writeThrough
      simp only [ends_bind, ends_modify]
      exact (device_of_ensure sector v).mono (fun _ _ _ => device_of_write _ _ _ _) fun _ _ h => h
  | readRun first count =>
      simp only [ends_bind, ends_pure]
      exact device_of_read first count v
  | writeRun first count data =>
      simp only [ends_bind, ends_modify]
      exact device_of_write first count data _

/-- One command is a trace. -/
theorem Command.trace {c : Command} (hc : P c) (v : Drive) :
    Ends (c.perform v) (fun _ w => Trace P v none w)
      (fun e w => (∃ code, e = .device code) ∧ Trace P v (some e) w) := by
  have hdevice := c.device_of_error v
  cases h : c.perform v with
  | ok a w => exact .cons hc h (.nil w)
  | error e w => exact ⟨hdevice.of_error h, .fail hc h⟩

/-- What every command keeps, a trace keeps. -/
theorem Trace.invariant {I : Drive → Prop} (h : Trace P u e? v)
    (hI : ∀ c, P c → ∀ v, I v → Ends (c.perform v) (fun _ w => I w) (fun _ w => I w)) (hu : I u) :
    I v := by
  induction h with
  | nil => exact hu
  | fail hc hfail => exact (hI _ hc _ hu).of_error hfail
  | cons hc hok _ ih => exact ih ((hI _ hc _ hu).of_ok hok)

theorem traced_ensure {sector : Nat} (h : P (.look sector)) (v : Drive) :
    Ends (ensure sector v) (fun _ w => Trace P v none w)
      (fun e w => (∃ code, e = .device code) ∧ Trace P v (some e) w) := by
  have htrace := Command.trace h v
  unfold Command.perform at htrace
  simpa only [ends_bind, ends_pure] using htrace

theorem traced_readRun {first count : Nat} (h : P (.readRun first count)) (v : Drive) :
    Ends (onDisk (Disk.read first count) v) (fun _ w => Trace P v none w)
      (fun e w => (∃ code, e = .device code) ∧ Trace P v (some e) w) := by
  have htrace := Command.trace h v
  unfold Command.perform at htrace
  simpa only [ends_bind, ends_pure] using htrace

end Drive

/-! ## Finding the way -/

/-- The command that failed when an operation ended with that error, if one did. -/
def Error.failing : Error → Option Error
  | .integrity | .overflow => none
  | e => some e

namespace Fat

/-- The commands that look up table entries. -/
def Geometry.LooksUp (g : Geometry) : Drive.Command → Prop
  | .look sector => ∃ c, g.HasCluster c ∧ sector ∈ g.entrySectors c
  | _ => False

/-- A look-up asks for the sectors of its entry. -/
theorem Volume.traced_nextCluster {v : Volume} {cluster : Nat}
    (hc : v.geometry.HasCluster cluster) :
    Ends (nextCluster cluster v)
      (fun _ w => w.geometry = v.geometry ∧ Drive.Trace v.geometry.LooksUp v.drive none w.drive)
      (fun e w => ((∃ code, e = .device code) ∨ e = .overflow ∧ ¬ v.geometry.OffsetFits cluster)
        ∧ w.geometry = v.geometry
        ∧ Drive.Trace v.geometry.LooksUp v.drive e.failing w.drive) := by
  have hlook : ∀ (v' : Volume) (sector : Nat), v'.geometry = v.geometry →
      sector ∈ v.geometry.entrySectors cluster →
      Ends (onDrive (Drive.ensure sector) v')
        (fun _ w => w.geometry = v.geometry ∧ Drive.Trace v.geometry.LooksUp v'.drive none w.drive)
        (fun e w => ((∃ code, e = .device code) ∨ e = .overflow ∧ ¬ v.geometry.OffsetFits cluster)
          ∧ w.geometry = v.geometry
          ∧ Drive.Trace v.geometry.LooksUp v'.drive e.failing w.drive) := by
    intro v' sector hg hsector
    rw [ends_onDrive]
    have hc' : v.geometry.LooksUp (.look sector) := ⟨cluster, hc, hsector⟩
    refine (Drive.traced_ensure hc' v'.drive).mono ?_ ?_
    · intro _ w h
      exact ⟨hg, h⟩
    · rintro _ w ⟨⟨code, rfl⟩, h⟩
      exact ⟨.inl ⟨code, rfl⟩, hg, h⟩
  unfold nextCluster
  simp only [ends_bind, ends_get, hc, not_true, if_false]
  unfold Geometry.entrySectors at hlook
  cases hf : v.geometry.format with
  | fat12 =>
      simp only [hf] at hlook
      unfold tableByte
      simp only [ends_bind, ends_pure, ends_word]
      -- an offset that is no word is found out before the next command
      refine ⟨fun _ => ?_, fun hlarge => ?_⟩
      · refine (hlook v _ rfl (.head _)).mono ?_ fun _ _ h => h
        intro _ w h
        refine ⟨fun _ => ?_, fun hlarge => ⟨.inr ⟨trivial, fun hfit => hlarge (hfit hf)⟩, h⟩⟩
        refine (hlook w _ h.1 (.tail _ (.head _))).mono ?_ ?_
        · intro _ u h'
          exact ⟨h'.1, h.2.append h'.2⟩
        · intro e u h'
          exact ⟨h'.1, h'.2.1, h.2.append h'.2.2⟩
      · have hout : ¬ v.geometry.OffsetFits cluster := fun hfit =>
          hlarge (Nat.lt_of_succ_lt (hfit hf))
        exact ⟨.inr ⟨trivial, hout⟩, trivial, .nil _⟩
  | fat16 =>
      simp only [hf] at hlook
      simp only [ends_bind, ends_pure]
      exact hlook v _ rfl (.head _)
  | fat32 =>
      simp only [hf] at hlook
      simp only [ends_bind, ends_pure]
      exact hlook v _ rfl (.head _)

end Fat

namespace ChainStream

/-- `t` is `s` after a trace of commands. -/
structure Works (P : Drive.Command → Prop) (s : ChainStream) (e? : Option Error)
    (t : ChainStream) : Prop where
  geometry : t.volume.geometry = s.volume.geometry
  start : t.start = s.start
  failure : t.failure = s.failure
  drive : Drive.Trace P s.volume.drive e? t.volume.drive

/-- An operation on `s` is a trace of commands, all of which go through if it does. -/
def Traced {α : Type} (P : Drive.Command → Prop) (s : ChainStream)
    (r : EStateM.Result Error ChainStream α) : Prop :=
  Ends r (fun _ t => s.Works P none t) (fun e t => s.Works P e.failing t)

section Traced

variable {α β : Type} {P Q : Drive.Command → Prop} {s t u : ChainStream} {e? : Option Error}

theorem Works.refl (s : ChainStream) : s.Works P none s := ⟨rfl, rfl, rfl, .nil _⟩

theorem Works.trans (h : s.Works P none t) (h' : t.Works P e? u) : s.Works P e? u :=
  ⟨h'.geometry.trans h.geometry, h'.start.trans h.start, h'.failure.trans h.failure,
    h.drive.append h'.drive⟩

theorem Works.mono (h : s.Works P e? t) (hPQ : ∀ c, P c → Q c) : s.Works Q e? t :=
  ⟨h.geometry, h.start, h.failure, h.drive.mono hPQ⟩

theorem traced_pure (a : α) : Traced P s ((pure a : EStateM Error ChainStream α) s) := .refl s

/-- After a trace comes another. -/
theorem Works.traced {r : EStateM.Result Error ChainStream α} (h : s.Works P none t)
    (hr : Traced P t r) : Traced P s r :=
  Ends.mono hr (fun _ _ h' => h.trans h') fun _ _ h' => h.trans h'

theorem Traced.bind {x : EStateM Error ChainStream α} {f : α → EStateM Error ChainStream β}
    (hx : Traced P s (x s)) (hf : ∀ a t, s.Works P none t → Traced P t (f a t)) :
    Traced P s ((x >>= f) s) := by
  unfold Traced
  rw [ends_bind]
  exact Ends.mono hx (fun a t h => h.traced (hf a t h)) fun _ _ h => h

/-- Moving the cursor asks nothing of the drive. -/
theorem traced_modify {f : ChainStream → ChainStream} (hvolume : (f s).volume = s.volume)
    (hstart : (f s).start = s.start) (hfailure : (f s).failure = s.failure) :
    Traced P s ((modify f : EStateM Error ChainStream PUnit) s) :=
  ⟨congrArg Volume.geometry hvolume, hstart, hfailure, hvolume ▸ .nil _⟩

end Traced

variable {s : ChainStream}

theorem traced_entry (cluster : Nat) :
    Traced s.volume.geometry.LooksUp s ( entry? cluster s) := by
  unfold entry? onVolume
  by_cases hc : s.volume.geometry.HasCluster cluster
  · have h := Volume.traced_nextCluster hc
    cases hr : Volume.nextCluster cluster s.volume with
    | ok n w =>
        simp only [hr]
        exact ⟨(h.of_ok hr).1, rfl, rfl, (h.of_ok hr).2⟩
    | error e w =>
        rcases h.of_error hr with ⟨⟨code, rfl⟩ | ⟨rfl, _⟩, hg, htrace⟩
        · simp only [hr]
          exact ⟨hg, rfl, rfl, htrace⟩
        · simp only [hr]
          exact ⟨hg, rfl, rfl, htrace⟩
  · simp only [Volume.nextCluster_invalid hc]
    exact Works.refl s

theorem traced_follow (cluster : Nat) :
    Traced s.volume.geometry.LooksUp s (follow cluster s) := by
  unfold follow
  refine (traced_entry cluster).bind fun next t h => ?_
  cases next with
  | none => exact Works.refl t
  | some next =>
      dsimp only
      split
      · exact Works.refl t
      · exact Works.refl t

theorem traced_followMany (hops cluster : Nat) :
    Traced s.volume.geometry.LooksUp s (followMany hops cluster s) := by
  induction hops generalizing cluster s with
  | zero => exact Works.refl s
  | succ hops ih =>
      refine (traced_follow cluster).bind fun next t h => ?_
      rw [← h.geometry]
      exact ih next

theorem traced_clusterSector {P : Drive.Command → Prop} (cluster : Nat) :
    Traced P s (clusterSector cluster s) := by
  unfold clusterSector Traced
  rw [ends_bind, ends_get]
  cases s.volume.geometry.firstSector? cluster with
  | none => exact Works.refl s
  | some sector => exact Works.refl s

theorem traced_enterSector (index : Nat) :
    Traced s.volume.geometry.LooksUp s (enterSector index s) := by
  have hsector : ∀ t : ChainStream, Traced s.volume.geometry.LooksUp t
      ((do
        let base ← clusterSector (← get).cluster
        return base + index : EStateM Error ChainStream Nat) t) := by
    intro t
    unfold Traced
    rw [ends_bind, ends_get]
    exact (traced_clusterSector t.cluster).bind fun base u _ => traced_pure _
  unfold enterSector Traced
  rw [ends_bind, ends_get]
  dsimp only
  split
  · refine (traced_follow s.cluster).bind fun next t _ => ?_
    exact (traced_modify rfl rfl rfl).bind fun _ u _ => hsector u
  · exact hsector s

theorem traced_foldRun {g : Geometry} {goal : Nat} (run : Nat) (hg : s.volume.geometry = g) :
    Traced g.LooksUp s (foldRun g goal run s) := by
  induction hn : goal - run using Nat.strongRecOn generalizing run s with
  | ind n ih =>
      have hpos := g.clusterSize_pos
      rw [foldRun]
      split
      · rename_i hlt
        unfold Traced
        rw [ends_bind, ends_get]
        refine (hg ▸ traced_entry s.cluster : Traced g.LooksUp s _).bind fun next t h => ?_
        cases next with
        | none => exact Works.refl t
        | some next =>
            dsimp only
            split
            · refine (traced_modify rfl rfl rfl).bind fun _ u hu => ?_
              refine (ih _ (by omega) _ ?_ rfl).bind fun _ _ _ => traced_pure _
              rw [hu.geometry, h.geometry, hg]
            · exact Works.refl t
      · exact Works.refl s

/-- To find its next span a cursor looks up table entries. -/
theorem traced_nextSpan {left : Nat} (pos : 0 < left) :
    Traced s.volume.geometry.LooksUp s (nextSpan left pos s) := by
  unfold nextSpan Traced
  rw [ends_bind, ends_get]
  dsimp only
  split
  · exact Works.refl s
  · refine (traced_enterSector _).bind fun sector t h => ?_
    split
    · exact (traced_modify rfl rfl rfl).bind fun _ _ _ => traced_pure _
    · split
      · exact (traced_foldRun _ h.geometry).bind fun _ _ _ => traced_pure _
      · exact (traced_pure _).bind fun _ _ _ => traced_pure _

/-- To find a position a cursor looks up table entries. -/
theorem traced_seekFrom (position : Nat) :
    Traced s.volume.geometry.LooksUp s (seekFrom position s) := by
  unfold seekFrom Traced
  rw [ends_bind, ends_get]
  refine (traced_followMany _ _).bind fun cluster t _ => ?_
  refine (traced_modify rfl rfl rfl).bind fun _ u _ => ?_
  split
  · exact (traced_clusterSector cluster).bind fun _ _ _ => traced_modify rfl rfl rfl
  · exact Works.refl u

/-! ## Moving bytes -/

/-- What reading a span asks for. -/
def readCommand {left : Nat} : Span left → Drive.Command
  | .whole sector count _ _ => .readRun sector count
  | .part sector _ _ _ _ _ => .look sector

/-- What writing a span asks for. -/
def writeCommand {left : Nat} (data : ByteArray) : Span left → Drive.Command
  | .whole sector count _ _ => .writeRun sector count data
  | .part sector offset _ _ _ _ => .patch sector offset data

section Spans

variable {P : Drive.Command → Prop} {left : Nat} {span : Span left} {data : ByteArray}

/-- What is a trace of the drive is a trace of the cursor. -/
theorem traced_onDrive {α : Type} {access : EStateM Error Drive α}
    (h : Ends (access s.volume.drive) (fun _ w => Drive.Trace P s.volume.drive none w)
      (fun e w => (∃ code, e = .device code) ∧ Drive.Trace P s.volume.drive (some e) w)) :
    Traced P s (onDrive access s) := by
  unfold Traced
  rw [ends_onDrive]
  refine h.mono ?_ ?_
  · intro _ d hd
    exact ⟨rfl, rfl, rfl, hd⟩
  · intro e d hd
    rcases hd with ⟨⟨code, rfl⟩, hd⟩
    exact ⟨rfl, rfl, rfl, hd⟩

/-- Moving on asks nothing of the drive. -/
theorem traced_advance (n : Nat) : Traced P s (advance n s) := by
  unfold Traced
  rw [ends_advance]
  exact ⟨fun _ => ⟨rfl, rfl, rfl, .nil _⟩, fun _ => .refl s⟩

theorem traced_readSpan (h : P (readCommand span)) : Traced P s (readSpan span s) := by
  have hfetch : Traced P s (fetchSpan span s) := by
    unfold fetchSpan
    cases span with
    | whole sector count pos fits =>
        exact (traced_onDrive (Drive.traced_readRun h _)).bind fun _ _ _ => traced_pure _
    | part sector offset len pos fits inside =>
        exact (traced_onDrive (Drive.traced_ensure h _)).bind fun _ _ _ => traced_pure _
  unfold readSpan
  exact hfetch.bind fun data _ _ => (traced_advance _).bind fun _ _ _ => traced_pure data

theorem traced_writeSpan (h : P (writeCommand data span)) : Traced P s (writeSpan span data s) := by
  have hstore : Traced P s (storeSpan data span s) := by
    have hcommand := traced_onDrive (Drive.Command.trace h s.volume.drive)
    unfold storeSpan
    cases span with
    | whole sector count pos fits =>
        unfold Traced writeCommand Drive.Command.perform at *
        simpa only [ends_bind, ends_modify, ends_onDrive] using hcommand
    | part sector offset len pos fits inside => exact hcommand
  unfold writeSpan
  exact hstore.bind fun _ _ _ => traced_advance _

end Spans

/-- **From the spans to the read.** If a cursor of which `I` is so finds and reads its next span
with such commands only, and `I` is so again when it has, a whole read consists of such
commands. -/
theorem works_readFrom_of_spans {P : Drive.Command → Prop} {I : ChainStream → Prop}
    (hspan : ∀ (s : ChainStream) (left : Nat) (pos : 0 < left), I s → Ends (nextSpan left pos s)
      (fun span t => s.Works P none t ∧ Ends (readSpan span t)
        (fun _ u => t.Works P none u ∧ I u) (fun e u => t.Works P e.failing u))
      (fun e t => s.Works P e.failing t))
    (got : ByteArray) (left : Nat) {s : ChainStream} (hs : I s) :
    s.Works P ((readFrom got left s).error?.bind Error.failing) (readFrom got left s).stream := by
  induction left using Nat.strongRecOn generalizing got s with
  | ind left ih =>
      rw [readFrom]
      split
      · exact .refl s
      · rename_i hleft
        have hnext := hspan s left (Nat.pos_of_ne_zero hleft) hs
        split
        · rename_i e t hfail
          exact hnext.of_error hfail
        · rename_i span t hfound
          obtain ⟨hlooked, hread⟩ := hnext.of_ok hfound
          split
          · rename_i e u hfail
            exact hlooked.trans (hread.of_error hfail)
          · rename_i data u hok
            obtain ⟨hmoved, hu⟩ := hread.of_ok hok
            have hpos := span.size_pos
            have hle := span.size_le
            exact (hlooked.trans hmoved).trans (ih (left - span.size) (by omega) (got ++ data) hu)

/-- **From the spans to the write.** The same of a cursor that finds and writes its next span. -/
theorem traced_writeFrom_of_spans {P : Drive.Command → Prop} {I : ChainStream → Prop}
    {data : ByteArray}
    (hspan : ∀ (s : ChainStream) (left : Nat) (pos : 0 < left), left ≤ data.size → I s →
      Ends (nextSpan left pos s)
        (fun span t => s.Works P none t ∧
          Ends (writeSpan span
              (data.extract (data.size - left) (data.size - left + span.size)) t)
            (fun _ u => t.Works P none u ∧ I u) (fun e u => t.Works P e.failing u))
        (fun e t => s.Works P e.failing t))
    (left : Nat) (hleft : left ≤ data.size) {s : ChainStream} (hs : I s) :
    Traced P s (writeFrom data left s) := by
  induction left using Nat.strongRecOn generalizing s with
  | ind left ih =>
      unfold Traced
      rw [writeFrom]
      split
      · exact Works.refl s
      · rename_i hne
        simp only [ends_bind]
        refine (hspan s left (Nat.pos_of_ne_zero hne) hleft hs).mono ?_ fun _ _ h => h
        intro span t h
        obtain ⟨hlooked, hwrite⟩ := h
        have hpos := span.size_pos
        refine hwrite.mono ?_ fun _ _ h => hlooked.trans h
        intro _ u h
        obtain ⟨hmoved, hu⟩ := h
        exact (hlooked.trans hmoved).traced (ih (left - span.size) (by omega) (by omega) hu)

end ChainStream

end CartBoot
