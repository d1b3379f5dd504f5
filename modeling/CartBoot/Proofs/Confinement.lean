import CartBoot.Proofs.Coherence
import CartBoot.Proofs.Refinement
import CartBoot.Proofs.Traffic

/-!
# A cursor stays in its file

The allocation table may say anything: its entries may be free or reserved, name
clusters that the volume does not have, or lead in circles, and the device may fail
at any call. All the same, what a cursor writes, and what it reads past the window,
are sectors of clusters of the volume. Everything else it asks for is the table.

Which clusters these are is said by a set of clusters. It has the first cluster of
the file in it, and the table does not lead out of it, whatever is written to the
data area. All clusters together are such a set. If the table lies outside the data
area, the clusters that can be reached from the first one are such a set too.

So a run of requests changes nothing but sectors of the file, and entries of the
table not at all.
-/

namespace CartBoot

open Fat

variable {g : Geometry} {R : Nat → Prop}

/-! ## Sectors of clusters -/

namespace Fat.Geometry

/-- A sector of the data area, in a cluster of which `R` is so. -/
structure Within (g : Geometry) (R : Nat → Prop) (sector : Nat) : Prop where
  low : g.dataBase ≤ sector
  high : sector < g.dataEnd
  cluster : ∃ c, g.HasCluster c ∧ R c ∧ g.firstSector c ≤ sector
    ∧ sector < g.firstSector c + g.clusterSize

theorem within_of_cluster {c sector : Nat} (hc : g.HasCluster c) (hR : R c)
    (hlow : g.firstSector c ≤ sector) (hhigh : sector < g.firstSector c + g.clusterSize) :
    g.Within R sector where
  low := Nat.le_trans (Nat.le_add_right _ _) hlow
  high := Nat.lt_of_lt_of_le hhigh (firstSector_add_le hc)
  cluster := ⟨c, hc, hR, hlow, hhigh⟩

/-- The bytes of a cluster lie in its sectors. -/
theorem within_byteAddress {c position : Nat} (hc : g.HasCluster c) (hR : R c) :
    g.Within R (g.byteAddress c position / sectorSize) := by
  rw [byteAddress_div]
  exact within_of_cluster hc hR (Nat.le_add_right _ _)
    (Nat.add_lt_add_left (g.mod_clusterBytes_div_lt position) _)

end Fat.Geometry

/-! ## Confined commands -/

/-- An access that covers only sectors of such clusters, or reads one sector of a table entry. -/
def Access.Confined (g : Geometry) (R : Nat → Prop) (a : Access) : Prop :=
  (∀ s, a.sector ≤ s → s < a.sector + a.count → g.Within R s)
    ∨ a.direction = .read ∧ a.count = 1 ∧ ∃ c, g.HasCluster c ∧ a.sector ∈ g.entrySectors c

/-- `e` is `d` after accesses of which `P` is so. -/
def Disk.Logs (P : Access → Prop) (d e : Disk) : Prop :=
  ∃ new : Array Access, e.log = d.log ++ new ∧ ∀ a ∈ new, P a

namespace Disk

variable {P : Access → Prop} {d e f : Disk} {first count : Nat}

theorem Logs.refl (d : Disk) : Logs P d d := ⟨#[], by simp, by simp⟩

theorem Logs.trans (h : Logs P d e) (h' : Logs P e f) : Logs P d f := by
  rcases h with ⟨new, hlog, hnew⟩
  rcases h' with ⟨more, hlog', hmore⟩
  refine ⟨new ++ more, by rw [hlog', hlog, Array.append_assoc], fun a ha => ?_⟩
  rcases Array.mem_append.mp ha with ha | ha
  · exact hnew a ha
  · exact hmore a ha

@[simp] theorem log_setSectors (d : Disk) (first : Nat) (data : ByteArray) (count : Nat) :
    (d.setSectors first data count).log = d.log := by
  induction count with
  | zero => rfl
  | succ count ih => exact ih

theorem logs_attempt {direction : Direction}
    (h : ∀ reached, P ⟨direction, first, count, reached⟩) (d : Disk) :
    Logs P d (d.attempt direction first count).2 := by
  refine ⟨#[⟨direction, first, count, !d.faults.failsCall direction (d.calls direction)⟩],
    Array.push_eq_append, fun a ha => ?_⟩
  rw [Array.mem_singleton] at ha
  subst ha
  exact h _

theorem logs_read (h : ∀ reached, P ⟨.read, first, count, reached⟩) (d : Disk) :
    Ends (read first count d) (fun _ e => Logs P d e) (fun _ e => Logs P d e) := by
  have hlogs := logs_attempt h d
  unfold read
  split <;> rename_i e ha <;> rw [ha] at hlogs
  · exact hlogs
  · exact hlogs

theorem logs_write {data : ByteArray} (h : ∀ reached, P ⟨.write, first, count, reached⟩)
    (d : Disk) :
    Ends (write first count data d) (fun _ e => Logs P d e) (fun _ e => Logs P d e) := by
  have hlogs := logs_attempt h d
  unfold write
  split <;> rename_i e ha <;> rw [ha] at hlogs
  · rcases hlogs with ⟨new, hlog, hnew⟩
    exact ⟨new, by rw [log_setSectors]; exact hlog, hnew⟩
  · exact hlogs

end Disk

namespace Drive

variable {u v w : Drive}

/-- Asking for a sector is one read of it, or none. -/
theorem logs_ensure {P : Access → Prop} {sector : Nat}
    (h : ∀ reached, P ⟨.read, sector, 1, reached⟩) (v : Drive) :
    Ends (ensure sector v) (fun _ w => v.disk.Logs P w.disk) (fun _ w => v.disk.Logs P w.disk) := by
  refine ends_ensure_of_fetch (fun _ _ => .refl _) ?_
  unfold fetch
  simp only [ends_bind, ends_modify, ends_pure, ends_onDisk]
  exact Disk.logs_read h v.disk

/-- What every command of a trace asks of the device, the trace asks of it. -/
theorem Trace.logs {Q : Command → Prop} {P : Access → Prop} {e? : Option Error}
    (h : Trace Q u e? v) (hP : ∀ c, Q c → ∀ v, Ends (c.perform v)
      (fun _ w => v.disk.Logs P w.disk) (fun _ w => v.disk.Logs P w.disk)) :
    u.disk.Logs P v.disk := by
  refine h.invariant (I := fun w => u.disk.Logs P w.disk) (fun c hc w hw => ?_) (.refl _)
  exact (hP c hc w).mono (fun _ _ => hw.trans) fun _ _ => hw.trans

/-- A look-up asks for sectors of table entries. -/
theorem Command.logs_looksUp {c : Command} {P : Access → Prop} (hc : g.LooksUp c)
    (hP : ∀ cluster sector, g.HasCluster cluster → sector ∈ g.entrySectors cluster →
      ∀ reached, P ⟨.read, sector, 1, reached⟩) (v : Drive) :
    Ends (c.perform v) (fun _ w => v.disk.Logs P w.disk) (fun _ w => v.disk.Logs P w.disk) := by
  cases c with
  | look sector =>
      rcases hc with ⟨cluster, hhas, hsector⟩
      unfold perform
      simp only [ends_bind, ends_pure]
      exact logs_ensure (hP cluster sector hhas hsector) v
  | patch sector offset data => exact hc.elim
  | readRun first count => exact hc.elim
  | writeRun first count data => exact hc.elim

/-- What a command may ask for: to look at sectors of the table, and sectors of such clusters for
everything else. What is written fits where it is written to. -/
def Command.Confined (g : Geometry) (R : Nat → Prop) : Command → Prop
  | .look sector => (∃ c, g.HasCluster c ∧ sector ∈ g.entrySectors c) ∨ g.Within R sector
  | .patch sector offset data => g.Within R sector ∧ offset + data.size ≤ sectorSize
  | .readRun first count => ∀ s, first ≤ s → s < first + count → g.Within R s
  | .writeRun first count data =>
      (∀ s, first ≤ s → s < first + count → g.Within R s) ∧ data.size = sectorSize * count

theorem confined_of_looksUp {c : Command} (h : g.LooksUp c) : c.Confined g R := by
  cases c with
  | look sector => exact .inl h
  | patch sector offset data => exact h.elim
  | readRun first count => exact h.elim
  | writeRun first count data => exact h.elim

/-- `w` is `v` after accesses that touched nothing but the table and such clusters, and changed
nothing but the latter. -/
structure Spares (g : Geometry) (R : Nat → Prop) (v w : Drive) : Prop where
  log : v.disk.Logs (·.Confined g R) w.disk
  changed (a : Nat) : w.disk.byte a ≠ v.disk.byte a → g.Within R (a / sectorSize)

theorem Spares.trans (h : u.Spares g R v) (h' : v.Spares g R w) : u.Spares g R w where
  log := h.log.trans h'.log
  changed := by
    intro a ha
    by_cases hv : v.disk.byte a = u.disk.byte a
    · exact h'.changed a fun hw => ha (hw.trans hv)
    · exact h.changed a hv

/-- Reading changes nothing. -/
theorem Reads.spares (h : v.Reads w) (hlog : v.disk.Logs (·.Confined g R) w.disk) :
    v.Spares g R w :=
  ⟨hlog, fun a ha => absurd (congrFun h.medium.byte a) ha⟩

/-- Writing changes what is written to. -/
theorem Stores.spares {address : Nat} {data : ByteArray} (h : v.Stores address data w)
    (hlog : v.disk.Logs (·.Confined g R) w.disk)
    (hin : ∀ a, address ≤ a → a < address + data.size → g.Within R (a / sectorSize)) :
    v.Spares g R w := by
  refine ⟨hlog, fun a ha => ?_⟩
  rw [h.medium.byte] at ha
  split at ha
  · rename_i ha'
    exact hin a ha'.1 ha'.2
  · exact absurd rfl ha

/-- A confined command makes confined accesses. -/
theorem Command.logs_confined {c : Command} (hc : c.Confined g R) (v : Drive) :
    Ends (c.perform v) (fun _ w => v.disk.Logs (·.Confined g R) w.disk)
      (fun _ w => v.disk.Logs (·.Confined g R) w.disk) := by
  have hone : ∀ {sector : Nat}, g.Within R sector → ∀ s, sector ≤ s → s < sector + 1 →
      g.Within R s := fun h s hlow hhigh => Nat.le_antisymm (Nat.le_of_lt_succ hhigh) hlow ▸ h
  unfold perform
  cases c with
  | look sector =>
      simp only [ends_bind, ends_pure]
      refine logs_ensure (fun _ => ?_) v
      exact hc.elim (fun h => .inr ⟨rfl, rfl, h⟩) fun h => .inl (hone h)
  | patch sector offset data =>
      unfold writeThrough
      simp only [ends_bind, ends_modify, ends_onDisk]
      refine (logs_ensure (fun _ => .inl (hone hc.1)) v).mono ?_ fun _ _ h => h
      intro _ w hw
      exact (Disk.logs_write (fun _ => .inl (hone hc.1)) w.disk).mono
        (fun _ _ h => hw.trans h) fun _ _ h => hw.trans h
  | readRun first count =>
      simp only [ends_bind, ends_pure, ends_onDisk]
      exact Disk.logs_read (fun _ => .inl hc) v.disk
  | writeRun first count data =>
      simp only [ends_bind, ends_modify, ends_onDisk, disk_invalidateRange]
      exact Disk.logs_write (fun _ => .inl hc.1) v.disk

/-- **A confined command spares everything else**, also if it fails. -/
theorem Command.ends_confined {c : Command} (hc : c.Confined g R) (hv : v.Coherent) :
    Ends (c.perform v) (fun _ w => w.Coherent ∧ v.Spares g R w)
      (fun _ w => w.Coherent ∧ v.Spares g R w) := by
  have hlogs := Command.logs_confined hc v
  unfold perform at hlogs ⊢
  cases c with
  | look sector =>
      simp only [ends_bind, ends_pure] at hlogs ⊢
      refine ((ends_ensure hv sector).and hlogs).mono ?_ ?_
      · intro _ w h
        exact ⟨h.1.2.1.coherent, h.1.2.1.spares h.2⟩
      · intro _ w h
        exact ⟨h.1.2.1.coherent, h.1.2.1.spares h.2⟩
  | patch sector offset data =>
      rcases hc with ⟨hin, hfit⟩
      refine ((ends_writeThrough hv hfit).and hlogs).mono ?_ ?_
      · intro _ w h
        refine ⟨h.1.coherent, h.1.spares h.2 fun a hlow hhigh => ?_⟩
        have hsector : a / sectorSize = sector := by
          unfold sectorSize at *
          omega
        rw [hsector]
        exact hin
      · intro _ w h
        exact ⟨h.1.2.1.coherent, h.1.2.1.spares h.2⟩
  | readRun first count =>
      simp only [ends_bind, ends_pure] at hlogs ⊢
      refine ((ends_readDisk hv first count).and hlogs).mono ?_ ?_
      · intro _ w h
        exact ⟨h.1.2.1.coherent, h.1.2.1.spares h.2⟩
      · intro _ w h
        exact ⟨h.1.2.1.coherent, h.1.2.1.spares h.2⟩
  | writeRun first count data =>
      rcases hc with ⟨hin, hsize⟩
      simp only [ends_bind, ends_modify] at hlogs ⊢
      refine ((ends_writeDisk hv hsize).and hlogs).mono ?_ ?_
      · intro _ w h
        refine ⟨h.1.coherent, h.1.spares h.2 fun a hlow hhigh => hin _ ?_ ?_⟩
        · unfold sectorSize at *
          omega
        · rw [hsize] at hhigh
          unfold sectorSize at *
          omega
      · intro _ w h
        exact ⟨h.1.2.1.coherent, h.1.2.1.spares h.2⟩

/-- `w` is `v` after confined commands, and nothing else. -/
structure KeepsTo (g : Geometry) (R : Nat → Prop) (v w : Drive) : Prop
    extends v.Spares g R w where
  commands : ∃ cs, (∀ c ∈ cs, Command.Confined g R c) ∧ (runAll Command.perform cs v).2 = w

theorem KeepsTo.refl (v : Drive) : v.KeepsTo g R v where
  log := .refl _
  changed := fun a ha => absurd rfl ha
  commands := ⟨[], by simp, rfl⟩

/-- One more command. -/
theorem KeepsTo.perform (h : u.KeepsTo g R v) {c : Command} (hc : c.Confined g R)
    (hv : v.Coherent) :
    Ends (c.perform v) (fun _ w => w.Coherent ∧ u.KeepsTo g R w)
      (fun _ w => w.Coherent ∧ u.KeepsTo g R w) := by
  have hspares := Command.ends_confined hc hv
  rcases h.commands with ⟨cs, hcs, hrun⟩
  have hcs' : ∀ c' ∈ cs ++ [c], Command.Confined g R c' := by
    intro c' hc'
    rcases List.mem_append.mp hc' with hc' | hc'
    · exact hcs c' hc'
    · rw [List.mem_singleton] at hc'
      exact hc' ▸ hc
  have hrun' := runAll_concat Command.perform cs c u
  rw [hrun] at hrun'
  cases hr : c.perform v with
  | ok a w =>
      rw [hr] at hrun' hspares
      exact ⟨hspares.1, h.toSpares.trans hspares.2, cs ++ [c], hcs', hrun'⟩
  | error e w =>
      rw [hr] at hrun' hspares
      exact ⟨hspares.1, h.toSpares.trans hspares.2, cs ++ [c], hcs', hrun'⟩

end Drive

/-! ## Sets that the table does not lead out of -/

namespace Fat.Geometry

/-- Two media that differ in the data area only. -/
def SameOutside (g : Geometry) (byte byte' : Nat → UInt8) : Prop :=
  ∀ a, byte' a ≠ byte a → g.dataBase ≤ a / sectorSize ∧ a / sectorSize < g.dataEnd

/-- The table does not lead out of `R`, whatever the data area holds. -/
def Closed (g : Geometry) (byte : Nat → UInt8) (R : Nat → Prop) : Prop :=
  ∀ byte', g.SameOutside byte byte' → ∀ c, g.HasCluster c → R c → R (g.tableEntry byte' c)

/-- The clusters that the table leads to from `start`. -/
inductive Reachable (g : Geometry) (byte : Nat → UInt8) (start : Nat) : Nat → Prop where
  | start : Reachable g byte start start
  | next {c : Nat} : Reachable g byte start c → g.HasCluster c →
      Reachable g byte start (g.tableEntry byte c)

theorem closed_true (g : Geometry) (byte : Nat → UInt8) : g.Closed byte fun _ => True :=
  fun _ _ _ _ _ => trivial

/-- Outside the data area the table says what it said. -/
theorem SameOutside.tableEntry {byte byte' : Nat → UInt8} (h : g.SameOutside byte byte')
    (apart : g.TableApart) {c : Nat} (hc : g.HasCluster c) :
    g.tableEntry byte' c = g.tableEntry byte c := by
  refine tableEntry_congr hc fun a ha => Decidable.not_not.mp fun hne => ?_
  have hlow := (h a hne).1
  have hlt : a / sectorSize < g.tableEnd := Nat.div_lt_of_lt_mul ha
  exact absurd (Nat.lt_of_lt_of_le hlt apart) (Nat.not_lt.mpr hlow)

theorem closed_reachable {byte : Nat → UInt8} (apart : g.TableApart) (start : Nat) :
    g.Closed byte (g.Reachable byte start) := by
  intro byte' h c hc hR
  rw [h.tableEntry apart hc]
  exact hR.next hc

section Closed

variable {byte byte' : Nat → UInt8} {cluster position : Nat}

theorem Closed.hop (hR : g.Closed byte R) (h : g.SameOutside byte byte') (hc : R cluster) {n : Nat}
    (hhas : ∀ k, k < n → g.HasCluster (g.hop byte' cluster k)) : R (g.hop byte' cluster n) := by
  induction n with
  | zero => exact hc
  | succ n ih =>
      rw [hop_succ]
      exact hR byte' h _ (hhas n (Nat.lt_succ_self n))
        (ih fun k hk => hhas k (Nat.lt_succ_of_lt hk))

theorem Closed.holder? (hR : g.Closed byte R) (h : g.SameOutside byte byte') (hc : R cluster)
    {c : Nat} (hholder : g.holder? byte' cluster position = some c) : R c := by
  by_cases hb : position ≠ 0 ∧ position % g.clusterBytes = 0
  · rw [Geometry.holder?_boundary hb] at hholder
    split at hholder
    · rename_i hhas
      cases hholder
      exact hR byte' h _ hhas.1 hc
    · cases hholder
  · rw [Geometry.holder?_within hb] at hholder
    split at hholder
    · cases hholder
      exact hc
    · cases hholder

/-- A walk does not leave the set. -/
theorem Closed.walk? (hR : g.Closed byte R) (h : g.SameOutside byte byte') (hc : R cluster)
    {n c : Nat} (hwalk : g.walk? byte' cluster position n = some c) : R c := by
  induction n generalizing c with
  | zero =>
      cases hwalk
      exact hc
  | succ n ih =>
      rw [walk?_succ] at hwalk
      rcases Option.bind_eq_some_iff.mp hwalk with ⟨d, hd, hholder⟩
      exact hR.holder? h (ih hd) hholder

end Closed

end Fat.Geometry

/-! ## Cursors that stay -/

namespace ChainStream

variable {u : Drive} {s t : ChainStream}

/-- A cursor whose file starts in `R`, on a drive that has been `u` and was given confined commands
only since. -/
structure Stays (g : Geometry) (R : Nat → Prop) (u : Drive) (s : ChainStream) : Prop where
  geometry : s.volume.geometry = g
  start : R s.start
  coherent : s.volume.drive.Coherent
  drive : u.KeepsTo g R s.volume.drive

theorem Stays.sameOutside (h : s.Stays g R u) :
    g.SameOutside u.disk.byte s.volume.disk.byte := fun a ha =>
  have hin := h.drive.changed a ha
  ⟨hin.low, hin.high⟩

/-- It stays so over confined commands. -/
theorem Stays.works {e? : Option Error} (h : s.Stays g R u)
    (hw : s.Works (Drive.Command.Confined g R) e? t) : t.Stays g R u := by
  have hdrive : t.volume.drive.Coherent ∧ u.KeepsTo g R t.volume.drive := by
    refine hw.drive.invariant (I := fun v => v.Coherent ∧ u.KeepsTo g R v) ?_ ⟨h.coherent, h.drive⟩
    intro c hc v hv
    exact hv.2.perform hc hv.1
  refine ⟨hw.geometry.trans h.geometry, ?_, hdrive.1, hdrive.2⟩
  rw [hw.start]
  exact h.start

theorem Stays.looks {e? : Option Error} (h : s.Stays g R u)
    (hw : s.Works s.volume.geometry.LooksUp e? t) : t.Stays g R u :=
  h.works (hw.mono fun _ hc => Drive.confined_of_looksUp (h.geometry ▸ hc))

/-- The walk of a cursor passes no clusters but those of which `R` is so. -/
def Passes (s : ChainStream) (R : Nat → Prop) : Prop :=
  ∀ n c, s.walk? n = some c → R c

theorem Ahead.passes {n : Nat} (h : s.Ahead t n) (hR : s.Passes R) : t.Passes R := by
  intro i c hc
  rw [h.walk?_eq] at hc
  exact hR _ c hc

section Spans

variable {left : Nat} {span : Span left} {data : ByteArray}

/-- Reading a span that lies in such clusters asks for nothing else. -/
theorem confined_readCommand
    (hin : ∀ i, i < span.size → g.Within R ((span.address + i) / sectorSize)) :
    (readCommand span).Confined g R := by
  unfold Span.address Span.size at hin
  cases span with
  | whole sector count pos fits =>
      intro x hlow hhigh
      have hsector : (sectorSize * sector + sectorSize * (x - sector)) / sectorSize = x := by
        unfold sectorSize
        omega
      have hx := hin (sectorSize * (x - sector))
        (Nat.mul_lt_mul_of_pos_left (by omega) sectorSize_pos)
      rwa [hsector] at hx
  | part sector offset len pos fits inside =>
      have hsector : (sectorSize * sector + offset + 0) / sectorSize = sector := by
        unfold sectorSize at *
        omega
      have hx := hin 0 pos
      rw [hsector] at hx
      exact .inr hx

/-- Writing a span that lies in such clusters asks for nothing else. -/
theorem confined_writeCommand
    (hin : ∀ i, i < span.size → g.Within R ((span.address + i) / sectorSize))
    (hsize : data.size = span.size) : (writeCommand data span).Confined g R := by
  have hfirst := hin 0 span.size_pos
  have hread := confined_readCommand hin
  cases span with
  | whole sector count pos fits => exact ⟨hread, hsize⟩
  | part sector offset len pos fits inside =>
      have hsector : (sectorSize * sector + offset + 0) / sectorSize = sector := by
        unfold Span.size at hsize
        unfold sectorSize at *
        omega
      unfold Span.address at hfirst
      dsimp only at hfirst
      rw [hsector] at hfirst
      exact ⟨hfirst, by rw [hsize]; exact inside⟩

/-- The bytes of the next span are in clusters that the walk passes. -/
theorem Aims.within (h : s.Aims t span) (hg : s.volume.geometry = g) (hR : s.Passes R) {i : Nat}
    (hi : i < span.size) : g.Within R ((span.address + i) / sectorSize) := by
  subst hg
  obtain ⟨c, hwalk, haddress⟩ := Option.map_eq_some_iff.mp (h.spot i hi)
  rw [← haddress]
  exact Geometry.within_byteAddress (Geometry.hasCluster_of_walk? hwalk) (hR _ c hwalk)

end Spans

/-- To resolve its next span a cursor looks at the table only. -/
theorem works_nextSpan (hg : s.volume.geometry = g) (hs : s.Ready) {left : Nat} (pos : 0 < left) :
    Ends (nextSpan left pos s)
      (fun span t => s.Aims t span ∧ s.Works (Drive.Command.Confined g R) none t)
      (fun e t => s.Works (Drive.Command.Confined g R) e.failing t) := by
  subst hg
  refine ((ends_nextSpan hs pos .read).and (traced_nextSpan pos)).mono ?_ ?_
  · intro span t ht
    exact ⟨ht.1, ht.2.mono fun _ => Drive.confined_of_looksUp⟩
  · intro e t ht
    exact ht.2.mono fun _ => Drive.confined_of_looksUp

/-- A read works with the clusters that its walk passes, and with the table. -/
theorem works_readFrom (got : ByteArray) (left : Nat) (hg : s.volume.geometry = g) (hs : s.Ready)
    (hR : s.Passes R) :
    ∃ e?, s.Works (Drive.Command.Confined g R) e? (readFrom got left s).stream := by
  refine ⟨_, works_readFrom_of_spans (I := fun s => s.volume.geometry = g ∧ s.Ready ∧ s.Passes R) ?_
    got left ⟨hg, hs, hR⟩⟩
  intro s left pos ⟨hg, hs, hR⟩
  refine (works_nextSpan hg hs pos).mono ?_ fun _ _ hlost => hlost
  intro span t ht
  obtain ⟨haims, hlooked⟩ := ht
  refine ⟨hlooked, ((ends_readSpan haims).and (traced_readSpan (s := t)
    (confined_readCommand fun _ => haims.within hg hR))).mono ?_ fun _ _ h => h.2⟩
  intro _ u hu
  obtain ⟨⟨_, _, _, hahead, _⟩, hmoved⟩ := hu
  exact ⟨hmoved, hahead.kept.geometry.trans hg, hahead.ready, hahead.passes hR⟩

/-- Where a walk leads the cursor is in the file. -/
theorem Stays.passes (h : s.Stays g R u) (hR : g.Closed u.disk.byte R) (hc : R s.cluster) :
    s.Passes R := by
  intro n c hwalk
  unfold ChainStream.walk? at hwalk
  rw [h.geometry] at hwalk
  exact hR.walk? h.sameOutside hc hwalk

/-- A read stays in the file. -/
theorem stays_readFrom (hR : g.Closed u.disk.byte R) (got : ByteArray) (left : Nat)
    (h : s.Stays g R u) (hs : s.Ready) (hc : R s.cluster) :
    (readFrom got left s).stream.Stays g R u := by
  obtain ⟨e?, hworks⟩ := works_readFrom got left h.geometry hs (h.passes hR hc)
  exact h.works hworks

/-- A write stays in the file. -/
theorem stays_writeFrom (hR : g.Closed u.disk.byte R) (data : ByteArray) (left : Nat)
    (hleft : left ≤ data.size) (h : s.Stays g R u) (hs : s.Ready) (hc : R s.cluster) :
    Ends (writeFrom data left s) (fun _ t => t.Stays g R u ∧ t.Ready ∧ R t.cluster)
      (fun _ t => t.Stays g R u) := by
  induction left using Nat.strongRecOn generalizing s with
  | ind left ih =>
      rw [writeFrom]
      split
      · exact ⟨h, hs, hc⟩
      · rename_i hne
        simp only [ends_bind]
        have hpasses := h.passes hR hc
        refine (works_nextSpan h.geometry hs (Nat.pos_of_ne_zero hne)).mono ?_ fun _ _ => h.works
        intro span t ht
        rcases ht with ⟨haims, hlooked⟩
        have ht := h.works hlooked
        have hpos := span.size_pos
        have hle := span.size_le
        have hsize : (data.extract (data.size - left) (data.size - left + span.size)).size
            = span.size := by
          rw [ByteArray.size_extract]
          omega
        refine ((ends_writeSpan haims hsize).and
          (traced_writeSpan (s := t) (confined_writeCommand
            (fun _ => haims.within h.geometry hpasses) hsize))).mono ?_ ?_
        · intro _ v hv
          exact ih (left - span.size) (by omega) (by omega) (ht.works hv.2) hv.1.ready
            (hpasses _ _ hv.1.walk)
        · intro e v hv
          exact ht.works hv.2

/-- A seek stays in the file. -/
theorem stays_seekFrom (hR : g.Closed u.disk.byte R) (position : Nat) (h : s.Stays g R u) :
    Ends (seekFrom position s) (fun _ t => t.Stays g R u ∧ t.Ready ∧ R t.cluster)
      (fun _ t => t.Stays g R u) := by
  refine ((ends_seekFrom position h.coherent).and (traced_seekFrom position)).mono ?_ ?_
  · intro _ t ht
    rcases ht with ⟨⟨_, hready, _, hcluster, hhas⟩, hworks⟩
    refine ⟨h.looks hworks, hready, ?_⟩
    rw [h.geometry] at hcluster hhas
    rw [hcluster]
    exact hR.hop h.sameOutside h.start fun k hk => (hhas k hk).1
  · intro e t ht
    exact h.looks ht.2

/-! ## Requests -/

/-- A cursor between requests that stays: unless it has failed it is in its file, ready for the
next. -/
structure Bound (g : Geometry) (R : Nat → Prop) (u : Drive) (s : ChainStream) : Prop
    extends s.Stays g R u where
  ready : s.failure = none → s.Ready
  cluster : s.failure = none → R s.cluster

theorem Stays.bound (h : s.Stays g R u) (hs : s.Ready) (hc : R s.cluster) : s.Bound g R u :=
  ⟨h, fun _ => hs, fun _ => hc⟩

theorem Stays.failed (h : s.Stays g R u) (e : Error) : Bound g R u { s with failure := some e } :=
  ⟨⟨h.geometry, h.start, h.coherent, h.drive⟩, nofun, nofun⟩

/-- A guarded operation leaves a bound cursor if the operation stays in the file. -/
theorem bound_guarded {α : Type} {operation : EStateM Error ChainStream α} (h : s.Bound g R u)
    (hop : s.Ready → R s.cluster → Ends (operation s)
      (fun _ t => t.Stays g R u ∧ t.Ready ∧ R t.cluster) (fun _ t => t.Stays g R u)) :
    Ends (guarded operation s) (fun _ t => t.Bound g R u) (fun _ t => t.Bound g R u) := by
  refine ends_guarded (fun _ _ => h) fun hf => (hop (h.ready hf) (h.cluster hf)).mono ?_ ?_
  · intro _ t ⟨ht, hready, hc⟩
    exact ht.bound hready hc
  · intro e t ht
    exact ht.failed e

theorem bound_seek (hR : g.Closed u.disk.byte R) (position : Nat) (h : s.Bound g R u) :
    Ends (seek position s) (fun _ t => t.Bound g R u) (fun _ t => t.Bound g R u) :=
  bound_guarded h fun _ _ => stays_seekFrom hR position h.toStays

theorem bound_write (hR : g.Closed u.disk.byte R) (data : ByteArray) (h : s.Bound g R u) :
    Ends (write data s) (fun _ t => t.Bound g R u) (fun _ t => t.Bound g R u) :=
  bound_guarded h fun hs hc => stays_writeFrom hR data data.size (Nat.le_refl _) h.toStays hs hc

theorem bound_readExact (hR : g.Closed u.disk.byte R) (len : Nat) (h : s.Bound g R u) :
    Ends (readExact len s) (fun _ t => t.Bound g R u) (fun _ t => t.Bound g R u) := by
  cases hf : s.failure with
  | some e =>
      rw [readExact_of_some (read_of_failed hf len)]
      exact h
  | none =>
      have hs := h.ready hf
      have hstays := stays_readFrom hR .empty len h.toStays hs (h.cluster hf)
      have hread := read_eq_readFrom hs hf len
      rcases readFrom_delivers .empty len hs with ⟨_, _, hdelivers⟩
      cases he : (readFrom .empty len s).error? with
      | none =>
          rw [he] at hread
          rw [readExact_of_none hread]
          have hahead := (hdelivers.done he).2
          refine ⟨⟨hstays.geometry, hstays.start, hstays.coherent, hstays.drive⟩, fun _ => ?_,
            fun _ => h.toStays.passes hR (h.cluster hf) _ _ hahead.walk⟩
          exact ⟨hahead.ready.coherent, hahead.ready.cluster, hahead.ready.sector⟩
      | some e =>
          rw [he] at hread
          rw [readExact_of_some hread]
          exact hstays.failed e

end ChainStream

/-- Every request stays in the file, whichever way it ends. -/
theorem Request.bound_perform {u : Drive} (hR : g.Closed u.disk.byte R) (r : Request)
    {s : ChainStream} (h : s.Bound g R u) :
    Ends (r.perform s) (fun _ t => t.Bound g R u) (fun _ t => t.Bound g R u) :=
  r.invariant_perform (fun position _ _ hs => ChainStream.bound_seek hR position.toNat hs)
    (fun len _ hs => ChainStream.bound_readExact hR len hs)
    (fun _ data _ hs => ChainStream.bound_write hR data hs) h

/-! ## Whole runs -/

/-- A file of a volume, worked with, stays in a set that its first cluster is in and that the table
does not lead out of. -/
theorem Fat.Volume.keepsTo_requests {v : Volume} (hg : v.geometry = g) (hv : v.drive.Coherent)
    (hR : g.Closed v.disk.byte R) {start : Nat} (hstart : R start) (requests : List Request) :
    v.drive.KeepsTo g R (runAll Request.perform requests (v.openAt start)).2.volume.drive := by
  have hopen : (v.openAt start).Bound g R v.drive := by
    refine ChainStream.Stays.bound ⟨hg, hstart, hv, .refl _⟩ ?_ hstart
    exact ⟨hv, fun h => absurd rfl h, fun h => absurd rfl h⟩
  exact (runAll_invariant (fun r s hs => r.bound_perform hR hs) requests hopen).drive

/-- A volume in use keeps its geometry, and its window agrees with the medium. -/
theorem Action.ends_perform (a : Action) {s : ChainStream} (hs : s.Sound) :
    Ends (a.perform s) (fun _ t => t.Sound ∧ t.volume.geometry = s.volume.geometry)
      (fun _ t => t.Sound ∧ t.volume.geometry = s.volume.geometry) := by
  refine (a.sound_perform hs).and ?_
  unfold perform
  cases a with
  | lookUp cluster =>
      simp only [ends_bind, ends_pure, ChainStream.ends_onVolume]
      by_cases hc : s.volume.geometry.HasCluster cluster
      · exact (Volume.traced_nextCluster hc).mono (fun _ _ h => h.1) fun _ _ h => h.2.1
      · rw [Volume.nextCluster_invalid hc]
        exact rfl
  | openAt cluster => exact rfl
  | request r =>
      have hbound : s.Bound s.volume.geometry (fun _ => True) s.volume.drive :=
        ⟨⟨rfl, trivial, hs.coherent, .refl _⟩, hs.ready, fun _ => trivial⟩
      simp only [ends_bind, ends_pure]
      exact (r.bound_perform (Geometry.closed_true _ _) hbound).mono (fun _ _ h => h.geometry)
        fun _ _ h => h.geometry

/-- **Requests touch nothing but the file and the table.** On a volume that has been in use,
whatever its table says and whichever calls of the device fail: writes, and reads past the window,
keep to clusters of the volume, and nothing else changes. If the table lies outside the data area,
they keep to the clusters that it leads to from the first one, and no entry changes. -/
theorem keepsTo_runAll (disk : Disk) (g : Geometry) (foldRuns : Bool) (first : Nat)
    (earlier : List Action) (start : Nat) (requests : List Request) :
    let v := (runAll Action.perform earlier ((Volume.ofDisk disk g foldRuns).openAt first)).2.volume
    let w := (runAll Request.perform requests (v.openAt start)).2.volume
    v.drive.KeepsTo g (fun _ => True) w.drive
      ∧ (g.TableApart → v.drive.KeepsTo g (g.Reachable v.disk.byte start) w.drive
        ∧ ∀ c, g.HasCluster c →
          g.tableEntry w.disk.byte c = g.tableEntry v.disk.byte c) := by
  intro v w
  have hsound : ((Volume.ofDisk disk g foldRuns).openAt first).Sound :=
    ChainStream.sound_openAt (Drive.coherent_of_empty rfl) first
  have hstep : ∀ (a : Action) (s : ChainStream), s.Sound ∧ s.volume.geometry = g →
      Ends (a.perform s) (fun _ t => t.Sound ∧ t.volume.geometry = g)
        (fun _ t => t.Sound ∧ t.volume.geometry = g) := by
    intro a s hs
    refine (a.ends_perform hs.1).mono ?_ ?_
    · intro _ t h
      exact ⟨h.1, h.2.trans hs.2⟩
    · intro _ t h
      exact ⟨h.1, h.2.trans hs.2⟩
  rcases runAll_invariant hstep earlier ⟨hsound, rfl⟩ with ⟨hv, hg⟩
  have hdata : v.drive.KeepsTo g (fun _ => True) w.drive :=
    v.keepsTo_requests hg hv.coherent (Geometry.closed_true g _) trivial requests
  refine ⟨hdata, fun apart => ⟨?_, fun c hc => ?_⟩⟩
  · exact v.keepsTo_requests hg hv.coherent (Geometry.closed_reachable apart start) .start requests
  · have hsame : g.SameOutside v.disk.byte w.disk.byte := fun a ha =>
      have hin := hdata.changed a ha
      ⟨hin.low, hin.high⟩
    exact hsame.tableEntry apart hc

/-- The first cluster is linked to itself. -/
def circleDisk : Disk where
  sectorCount := 4
  blank a := if a = 4 then 2 else 0

/-- Whatever is asked of a file that is a circle of one cluster, that one cluster changes. -/
theorem circle_keepsTo :
    smallGeometry.TableApart ∧ ∀ requests a,
      (runAll Request.perform requests
        ((Volume.ofDisk circleDisk smallGeometry true).openAt 2)).2.volume.drive.disk.byte a
          ≠ circleDisk.byte a → smallGeometry.Within (· = 2) (a / sectorSize) := by
  have hcircle : ∀ c, smallGeometry.Reachable circleDisk.byte 2 c → c = 2 := by
    intro c hc
    induction hc with
    | start => rfl
    | next _ _ ih =>
        subst ih
        decide
  refine ⟨smallGeometry_apart, fun requests a ha => ?_⟩
  have hkeeps := ((keepsTo_runAll circleDisk smallGeometry true 2 [] 2 requests).2
    smallGeometry_apart).1
  rcases hkeeps.changed a ha with ⟨hlow, hhigh, c, hhas, hc, hin⟩
  exact ⟨hlow, hhigh, c, hhas, hcircle c hc, hin⟩

end CartBoot
