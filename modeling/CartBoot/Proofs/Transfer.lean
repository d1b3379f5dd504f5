import CartBoot.Proofs.Cursor

/-!
# Transfers are byte by byte

However a transfer is cut into spans, it does what moving one byte at a time along
the walk would do. A read delivers the bytes that the walk names, up to where it
breaks off. A write puts its bytes there, one after the other, and when it breaks
off it has put those before.

For a write this needs the table to lie outside the data area, since otherwise the
walk could run over what the write itself changes. What needs no such condition is
that the cursor stays one that can be worked with. A write that would lead behind
the last word stops with a span stored that the position does not count.
-/

namespace CartBoot

open Fat

/-! ## Storing byte by byte -/

/-- Put `n` values, one after the other, at the addresses that `spot` gives. -/
def storeAlong (spot : Nat → Option Nat) (value : Nat → UInt8) (byte : Nat → UInt8) :
    (n : Nat) → Nat → UInt8
  | 0 => byte
  | n + 1 => fun a =>
      if spot n = some a then value n else storeAlong spot value byte n a

section Along

variable {spot : Nat → Option Nat} {value : Nat → UInt8} {byte : Nat → UInt8}

theorem storeAlong_succ (n a : Nat) : storeAlong spot value byte (n + 1) a =
    if spot n = some a then value n else storeAlong spot value byte n a := rfl

theorem storeAlong_add (m n : Nat) : storeAlong spot value byte (m + n) =
    storeAlong (fun i => spot (m + i)) (fun i => value (m + i))
      (storeAlong spot value byte m) n := by
  induction n with
  | zero => rfl
  | succ n ih =>
      funext a
      rw [← Nat.add_assoc, storeAlong_succ, storeAlong_succ, ih]

theorem storeAlong_of_ne {n a : Nat} (h : ∀ i, i < n → spot i ≠ some a) :
    storeAlong spot value byte n a = byte a := by
  induction n with
  | zero => rfl
  | succ n ih =>
      rw [storeAlong_succ, if_neg (h n (Nat.lt_succ_self n))]
      exact ih fun i hi => h i (Nat.lt_succ_of_lt hi)

/-- Where no later value goes to the same place, a value stays. -/
theorem storeAlong_of_eq {n i a : Nat} (hi : i < n) (ha : spot i = some a)
    (h : ∀ j, i < j → j < n → spot j ≠ some a) : storeAlong spot value byte n a = value i := by
  induction n with
  | zero => omega
  | succ n ih =>
      rw [storeAlong_succ]
      rcases Nat.lt_or_eq_of_le (Nat.le_of_lt_succ hi) with hlt | rfl
      · rw [if_neg (h n hlt (Nat.lt_succ_self n))]
        exact ih hlt fun j hj hjn => h j hj (Nat.lt_succ_of_lt hjn)
      · rw [if_pos ha]

theorem storeAlong_congr {spot' : Nat → Option Nat} {value' : Nat → UInt8} {n : Nat}
    (hspot : ∀ i, i < n → spot i = spot' i) (hvalue : ∀ i, i < n → value i = value' i) :
    storeAlong spot value byte n = storeAlong spot' value' byte n := by
  induction n with
  | zero => rfl
  | succ n ih =>
      funext a
      rw [storeAlong_succ, storeAlong_succ, hspot n (Nat.lt_succ_self n),
        hvalue n (Nat.lt_succ_self n),
        ih (fun i hi => hspot i (Nat.lt_succ_of_lt hi)) fun i hi => hvalue i (Nat.lt_succ_of_lt hi)]

/-- What is at an address afterwards depends on what was there before. -/
theorem storeAlong_congr_byte {byte' : Nat → UInt8} {a : Nat} (h : byte a = byte' a) (n : Nat) :
    storeAlong spot value byte n a = storeAlong spot value byte' n a := by
  induction n with
  | zero => exact h
  | succ n ih => rw [storeAlong_succ, storeAlong_succ, ih]

/-- A straight piece is stored as a whole. -/
theorem storeAlong_straight {n base : Nat} (h : ∀ i, i < n → spot i = some (base + i)) (a : Nat) :
    storeAlong spot value byte n a =
      if base ≤ a ∧ a < base + n then value (a - base) else byte a := by
  by_cases ha : base ≤ a ∧ a < base + n
  · rw [if_pos ha]
    refine storeAlong_of_eq (by omega) ?_ ?_
    · rw [h _ (by omega), Nat.add_sub_cancel' ha.1]
    · intro j hj hjn hja
      rw [h j hjn] at hja
      have := Option.some.inj hja
      omega
  · rw [if_neg ha]
    refine storeAlong_of_ne fun i hi hia => ha ?_
    rw [h i hi] at hia
    have := Option.some.inj hia
    omega

end Along

namespace ChainStream

/-! ## What a transfer keeps -/

/-- What no transfer changes, and that the window still agrees with the medium. -/
structure Kept (s t : ChainStream) : Prop where
  coherent : t.volume.drive.Coherent
  geometry : t.volume.geometry = s.volume.geometry
  foldRuns : t.volume.foldRuns = s.volume.foldRuns
  sectorCount : t.volume.disk.sectorCount = s.volume.disk.sectorCount
  faults : t.volume.disk.faults = s.volume.disk.faults
  start : t.start = s.start
  failure : t.failure = s.failure
  renewable : s.volume.drive.Renewable → t.volume.drive.Renewable

theorem Kept.refl {s : ChainStream} (hs : s.volume.drive.Coherent) : s.Kept s :=
  ⟨hs, rfl, rfl, rfl, rfl, rfl, rfl, id⟩

theorem Kept.trans {s t u : ChainStream} (h : s.Kept t) (h' : t.Kept u) : s.Kept u :=
  ⟨h'.coherent, h'.geometry.trans h.geometry, h'.foldRuns.trans h.foldRuns,
    h'.sectorCount.trans h.sectorCount, h'.faults.trans h.faults, h'.start.trans h.start,
    h'.failure.trans h.failure, fun hs => h'.renewable (h.renewable hs)⟩

theorem Kept.faultless {s t : ChainStream} (h : s.Kept t) (hs : s.volume.disk.Faultless) :
    t.volume.disk.Faultless :=
  ⟨fun direction n => by rw [h.faults]; exact hs.call direction n,
   fun direction n => by rw [h.faults]; exact hs.sector direction n⟩

theorem Kept.steady {s t : ChainStream} (h : s.Kept t) (hs : s.volume.disk.Steady) :
    t.volume.disk.Steady :=
  fun n => by rw [h.faults]; exact hs n

theorem Kept.readable_iff {s t : ChainStream} (h : s.Kept t) (sector : Nat) :
    t.volume.disk.Readable sector ↔ s.volume.disk.Readable sector := by
  unfold Disk.Readable
  rw [h.sectorCount, h.faults]

theorem Kept.legible_iff {s t : ChainStream} (h : s.Kept t) (cluster : Nat) :
    t.volume.geometry.Legible t.volume.disk cluster
      ↔ s.volume.geometry.Legible s.volume.disk cluster := by
  rw [h.geometry]
  exact forall₂_congr fun sector _ => h.readable_iff sector

theorem Moved.kept {s t : ChainStream} (h : s.Moved t) : s.Kept t :=
  ⟨h.volume.drive.coherent, h.volume.geometry, h.volume.foldRuns,
    h.volume.drive.medium.sectorCount, h.volume.drive.medium.faults, h.start, h.failure,
    h.volume.drive.renewable⟩

/-- `t` is `s` moved on by `n` bytes, over the same table. -/
structure Ahead (s t : ChainStream) (n : Nat) : Prop where
  kept : s.Kept t
  table : ∀ a, a < sectorSize * s.volume.geometry.tableEnd →
    t.volume.disk.byte a = s.volume.disk.byte a
  ready : t.Ready
  position : t.position = s.position + n
  walk : s.walk? n = some t.cluster
  word : 0 < n → t.position < wordLimit

namespace Ahead

variable {s t u : ChainStream} {m n : Nat}

theorem refl (hs : s.Ready) : s.Ahead s 0 :=
  ⟨.refl hs.coherent, fun _ _ => rfl, hs, rfl, rfl, nofun⟩

theorem walk?_eq (h : s.Ahead t n) (i : Nat) : t.walk? i = s.walk? (n + i) := by
  unfold walk?
  rw [Geometry.walk?_add h.walk, h.position, h.kept.geometry]
  exact Geometry.walk?_congr h.table i

theorem spot?_eq (h : s.Ahead t n) (i : Nat) : t.spot? i = s.spot? (n + i) := by
  have hw := h.walk?_eq (i + 1)
  unfold spot? Geometry.spot?
  unfold walk? at hw
  rw [hw, h.position, h.kept.geometry, Nat.add_assoc, Nat.add_assoc]

theorem trans (h : s.Ahead t m) (h' : t.Ahead u n) : s.Ahead u (m + n) where
  kept := h.kept.trans h'.kept
  table := fun a ha => by
    rw [h'.table a (by rw [h.kept.geometry]; exact ha), h.table a ha]
  ready := h'.ready
  position := by rw [h'.position, h.position, Nat.add_assoc]
  walk := by rw [← h.walk?_eq, h'.walk]
  word := fun hmn => by
    rcases Nat.eq_zero_or_pos n with rfl | hn
    · rw [h'.position]
      exact h.word hmn
    · exact h'.word hn

theorem missing (h : s.Ahead t m) (hm : t.Missing n) : s.Missing (m + n) := by
  obtain ⟨i, c, hi, hwalk, hhas, hdev⟩ := hm
  refine ⟨m + i, c, by omega, by rw [← h.walk?_eq, hwalk], h.kept.geometry ▸ hhas, ?_⟩
  intro hs
  refine hdev ⟨fun x hx => ?_, ?_⟩
  · rw [h.kept.sectorCount]
    exact hs.entry x (h.kept.geometry ▸ hx)
  · rw [h.kept.sectorCount, h.kept.geometry]
    exact hs.data

theorem illegible_iff (h : s.Ahead t n) (i : Nat) : t.Illegible i ↔ s.Illegible (n + i) := by
  have hwalk := h.walk?_eq i
  have hposition : t.position + i = s.position + (n + i) := by rw [h.position, Nat.add_assoc]
  constructor
  · intro ⟨hb, c, hc, hhas, hnot⟩
    rw [hposition, h.kept.geometry] at hb
    rw [hwalk] at hc
    rw [h.kept.legible_iff] at hnot
    exact ⟨hb, c, hc, h.kept.geometry ▸ hhas, hnot⟩
  · intro ⟨hb, c, hc, hhas, hnot⟩
    rw [← hposition, ← h.kept.geometry] at hb
    rw [← hwalk] at hc
    rw [← h.kept.legible_iff] at hnot
    exact ⟨hb, c, hc, h.kept.geometry ▸ hhas, hnot⟩

theorem outOfReach (h : s.Ahead t n) {i : Nat} (hout : t.OutOfReach i) : s.OutOfReach (n + i) := by
  obtain ⟨hb, c, hc, hhas, hnot⟩ := hout
  rw [h.position, Nat.add_assoc, h.kept.geometry] at hb
  rw [h.walk?_eq] at hc
  rw [h.kept.geometry] at hhas hnot
  exact ⟨hb, c, hc, hhas, hnot⟩

theorem obstacle_iff (h : s.Ahead t n) (i : Nat) : t.Obstacle i ↔ s.Obstacle (n + i) := by
  refine or_congr (h.illegible_iff i) ?_
  unfold Unreadable
  rw [h.spot?_eq]
  exact exists_congr fun a => and_congr_right fun _ => not_congr (h.kept.readable_iff _)

/-- What breaks off the rest of a transfer breaks off the transfer. -/
theorem breaks {direction : Direction} {left : Nat} {e : Error} (h : s.Ahead t m)
    (hb : t.Breaks direction left n e) : s.Breaks direction (m + left) (m + n) e := by
  cases hb with
  | chain hlt hwalk hend hclear hword =>
      refine .chain (by omega) (h.walk?_eq n ▸ hwalk) ?_ ?_ fun hmn => ?_
      · rw [Nat.add_assoc, ← h.walk?_eq, hend]
      · intro hr hill
        exact hclear (h.kept.renewable hr) ((h.illegible_iff n).mpr hill)
      · rw [← Nat.add_assoc, ← h.position]
        rcases Nat.eq_zero_or_pos n with rfl | hn
        · exact h.word hmn
        · exact hword hn
  | read hwhy =>
      rw [h.kept.faults]
      refine .read fun hd => ?_
      obtain ⟨i, hi, hobstacle⟩ := hwhy (h.kept.steady hd)
      exact ⟨m + i, by omega, (h.obstacle_iff i).mp hobstacle⟩
  | write hdirection hmissing =>
      rw [h.kept.faults]
      exact .write hdirection fun hd => h.missing (hmissing (h.kept.faultless hd))
  | @position j c hj hwalk hlarge =>
      rw [h.walk?_eq] at hwalk
      rw [h.position, Nat.add_assoc] at hlarge
      exact .position (by omega) hwalk hlarge
  | offset hi hout => exact .offset (by omega) (h.outOfReach hout)

end Ahead

/-! ## One span -/

/-- A cursor moves on if it gets to a word. -/
@[simp] theorem ends_advance {n : Nat} {s : ChainStream} {done : Unit → ChainStream → Prop}
    {failed : Error → ChainStream → Prop} :
    Ends (advance n s) done failed ↔
      (s.position + n < wordLimit → done () { s with position := s.position + n })
        ∧ (¬ s.position + n < wordLimit → failed .overflow s) := by
  unfold advance
  simp

/-- A device that refuses a span lacks the cluster of its last byte. -/
theorem missing_of_span {s t : ChainStream} {left : Nat} {span : Span left} (h : s.Aims t span)
    (hout : sectorSize * s.volume.disk.sectorCount < span.address + span.size) :
    s.Missing left := by
  have hsize := span.size_pos
  have hspot := h.spot (span.size - 1) (by omega)
  unfold spot? Geometry.spot? at hspot
  rw [Nat.sub_add_cancel hsize] at hspot
  obtain ⟨c, hc, haddress⟩ := Option.map_eq_some_iff.mp hspot
  have hhas : s.volume.geometry.HasCluster c := by
    rw [← Nat.sub_add_cancel hsize] at hc
    exact Geometry.hasCluster_of_walk? hc
  refine ⟨span.size, c, span.size_le, hc, hhas, fun hdev => ?_⟩
  have hmod := Nat.mod_lt (s.position + (span.size - 1)) s.volume.geometry.clusterBytes_pos
  have hend := Nat.mul_le_mul_left sectorSize hdev.data
  rw [Geometry.clusterBytes_eq] at hmod
  rw [Nat.mul_add] at hend
  unfold Geometry.byteAddress at haddress
  rw [Geometry.clusterBytes_eq] at haddress
  omega

/-- After a span the cursor is ready again. -/
theorem Aims.ready_advance {s t : ChainStream} {left : Nat} {span : Span left} (h : s.Aims t span)
    {v : Volume} (hv : v.drive.Coherent) (hg : v.geometry = s.volume.geometry) :
    Ready { t with volume := v, position := t.position + span.size } := by
  refine ⟨hv, ?_, ?_⟩
  · intro _
    have hwalk := h.walk
    rw [← Nat.sub_add_cancel span.size_pos] at hwalk
    show v.geometry.HasCluster t.cluster
    rw [hg]
    exact Geometry.hasCluster_of_walk? hwalk
  · intro hoff
    show t.sector = v.geometry.firstSector t.cluster
      + sectorIndex v.geometry (t.position + span.size)
    rw [hg, h.position]
    exact h.sector (by rw [← h.position]; exact hoff)

section Read

variable {s t : ChainStream} {left : Nat} {span : Span left} {d : Drive}

theorem Aims.moved_reads (h : s.Aims t span) (hd : t.volume.drive.Reads d) :
    s.Moved { t with volume := { t.volume with drive := d } } :=
  h.moved.trans ⟨⟨hd, rfl, rfl⟩, rfl, rfl⟩

theorem Aims.looked_reads (h : s.Aims t span) (hd : t.volume.drive.Reads d) :
    s.Looked { t with volume := { t.volume with drive := d } } :=
  ⟨h.moved_reads hd, h.position⟩

theorem Aims.ahead_reads (h : s.Aims t span) (hd : t.volume.drive.Reads d)
    (hword : t.position + span.size < wordLimit) :
    s.Ahead { t with
      volume := { t.volume with drive := d }
      position := t.position + span.size } span.size := by
  have hm := h.moved_reads hd
  refine ⟨⟨hd.coherent, hm.volume.geometry, hm.volume.foldRuns, hm.volume.drive.medium.sectorCount,
    hm.volume.drive.medium.faults, hm.start, hm.failure, hm.volume.drive.renewable⟩, ?_, ?_, ?_,
    h.walk, fun _ => hword⟩
  · intro a _
    exact congrFun hm.volume.drive.medium.byte a
  · exact h.ready_advance hd.coherent h.moved.volume.geometry
  · show t.position + span.size = s.position + span.size
    rw [h.position]

/-- A sector of the span that cannot be read breaks off the transfer. -/
theorem Aims.breaks_read {direction : Direction} (h : s.Aims t span) {e : Error}
    (he : e = .device t.volume.disk.faults.code)
    (hwhy : t.volume.disk.Steady → ∃ i, i < span.size
      ∧ ¬ t.volume.disk.Readable ((span.address + i) / sectorSize)) :
    s.Breaks direction left 0 e := by
  have hm : s.volume.disk.SameMedium t.volume.disk := h.moved.volume.drive.medium
  rw [he, hm.faults]
  refine .read fun hd => ?_
  obtain ⟨i, hi, hnot⟩ := hwhy (hm.steady hd)
  rw [hm.readable_iff] at hnot
  exact ⟨i, Nat.lt_of_lt_of_le hi span.size_le, .inr ⟨_, h.spot i hi, hnot⟩⟩

/-- A drive that refuses to write a span breaks off the transfer. -/
theorem Aims.breaks_write (h : s.Aims t span) {e : Error}
    (he : e = .device t.volume.disk.faults.code)
    (hout : t.volume.disk.Faultless →
      sectorSize * t.volume.disk.sectorCount < span.address + span.size) :
    s.Breaks .write left 0 e := by
  have hm : s.volume.disk.SameMedium t.volume.disk := h.moved.volume.drive.medium
  rw [he, hm.faults]
  refine .write rfl fun hd => missing_of_span h ?_
  rw [← hm.sectorCount]
  exact hout (hm.faultless hd)

/-- An end behind the last word breaks off the transfer. -/
theorem Aims.breaks_overflow {direction : Direction} (h : s.Aims t span)
    (hend : ¬ t.position + span.size < wordLimit) : s.Breaks direction left 0 .overflow := by
  rw [h.position] at hend
  exact .position span.size_le h.walk hend

/-- Once all sectors of a span can be read there are no obstacles in it. -/
theorem Aims.not_obstacle (h : s.Aims t span) (hr : s.volume.drive.Renewable)
    (hs : ∀ i, i < span.size → t.volume.disk.Readable ((span.address + i) / sectorSize)) :
    ∀ i, i < span.size → ¬ s.Obstacle i := by
  have hm : s.volume.disk.SameMedium t.volume.disk := h.moved.volume.drive.medium
  intro i hi hobstacle
  rcases hobstacle with hill | ⟨a, ha, hnot⟩
  · exact h.clear hr i hi hill
  · rw [h.spot i hi] at ha
    cases ha
    exact hnot ((hm.readable_iff _).mp (hs i hi))

end Read

/-- The drive hands over the bytes of a span, unless one of them is in a sector that cannot be
read. -/
theorem ends_fetchSpan_reads {t : ChainStream} (hv : t.volume.drive.Coherent) {left : Nat}
    (span : Span left) :
    Ends (fetchSpan span t)
      (fun data u => ∃ d, t.volume.drive.Reads d
        ∧ u = { t with volume := { t.volume with drive := d } } ∧ data.size = span.size
        ∧ (∀ i, i < span.size → data.byteAt i = t.volume.disk.byte (span.address + i))
        ∧ (t.volume.drive.Renewable → ∀ i, i < span.size →
          t.volume.disk.Readable ((span.address + i) / sectorSize)))
      (fun e u => ∃ d, t.volume.drive.Reads d
        ∧ u = { t with volume := { t.volume with drive := d } }
        ∧ e = .device t.volume.disk.faults.code
        ∧ (t.volume.disk.Steady → ∃ i, i < span.size
          ∧ ¬ t.volume.disk.Readable ((span.address + i) / sectorSize))) := by
  cases span with
  | whole sector count pos fits =>
      have hsector : ∀ i, (sectorSize * sector + i) / sectorSize = sector + i / sectorSize :=
        fun i => Nat.mul_add_div sectorSize_pos _ _
      simp only [fetchSpan, ends_bind, ends_pure, ends_onDrive]
      refine (Drive.ends_readDisk hv sector count).mono ?_ ?_
      · intro data d hdata
        obtain ⟨hdata, hd, hreadable⟩ := hdata
        refine ⟨d, hd, rfl, data.property, fun i hi => ?_, fun _ i hi => ?_⟩
        · rw [hdata, Disk.byteAt_sectors _ _ _ _ hi]
          rfl
        · have hlt : i / sectorSize < count := Nat.div_lt_of_lt_mul hi
          unfold Span.address
          rw [hsector]
          exact hreadable _ (Nat.le_add_right _ _) (Nat.add_lt_add_left hlt _)
      · intro e d hfail
        obtain ⟨he, hd, hwhy⟩ := hfail
        refine ⟨d, hd, rfl, he, fun hs => ?_⟩
        obtain ⟨x, hlow, hhigh, hnot⟩ := hwhy hs pos
        refine ⟨sectorSize * (x - sector), Nat.mul_lt_mul_of_pos_left (by omega) sectorSize_pos, ?_⟩
        unfold Span.address
        rwa [hsector, Nat.mul_div_cancel_left _ sectorSize_pos, Nat.add_sub_cancel' hlow]
  | part sector offset len pos fits inside =>
      have hsector : ∀ i, i < len → (sectorSize * sector + offset + i) / sectorSize = sector := by
        intro i hi
        rw [Nat.add_assoc, Nat.mul_add_div sectorSize_pos,
          Nat.div_eq_of_lt (by omega : offset + i < sectorSize), Nat.add_zero]
      simp only [fetchSpan, ends_bind, ends_pure, ends_onDrive]
      refine (Drive.ends_ensure hv sector).mono ?_ ?_
      · intro data d hdata
        obtain ⟨hdata, hd, hreadable⟩ := hdata
        have hsize := data.property
        refine ⟨d, hd, rfl, ?_, fun i hi => ?_, fun hr i hi => ?_⟩
        · rw [ByteArray.size_extract, hsize]
          unfold Span.size
          dsimp only
          omega
        · unfold Span.size at hi
          dsimp only at hi
          rw [ByteArray.byteAt_extract, hsize, if_pos (by omega), hdata,
            Disk.byteAt_sector _ _ _ (by omega), ← Nat.add_assoc]
          rfl
        · unfold Span.address
          rw [hsector i hi]
          exact hreadable hr
      · intro e d hfail
        obtain ⟨he, hd, hwhy⟩ := hfail
        refine ⟨d, hd, rfl, he, fun hs => ⟨0, pos, ?_⟩⟩
        unfold Span.address
        rw [hsector 0 pos]
        exact hwhy hs

/-- The span that comes next is fetched, or the transfer breaks off there. -/
theorem ends_fetchSpan {s t : ChainStream} {left : Nat} {span : Span left} (h : s.Aims t span) :
    Ends (fetchSpan span t)
      (fun data u => ∃ d, t.volume.drive.Reads d
        ∧ u = { t with volume := { t.volume with drive := d } } ∧ data.size = span.size
        ∧ (∀ i, i < span.size → data.byteAt i = s.volume.disk.byte (span.address + i))
        ∧ (s.volume.drive.Renewable → ∀ i, i < span.size → ¬ s.Obstacle i))
      (fun e u => s.Looked u ∧ s.Breaks .read left 0 e) := by
  have hbyte : t.volume.disk.byte = s.volume.disk.byte := h.moved.volume.drive.medium.byte
  refine (ends_fetchSpan_reads h.moved.volume.drive.coherent span).mono ?_ ?_
  · intro data u hdata
    obtain ⟨d, hd, hu, hsize, hdata, hreadable⟩ := hdata
    refine ⟨d, hd, hu, hsize, fun i hi => by rw [hdata i hi, hbyte], fun hr => ?_⟩
    exact h.not_obstacle hr (hreadable (h.moved.volume.drive.renewable hr))
  · intro e u hfail
    obtain ⟨d, hd, rfl, he, hwhy⟩ := hfail
    exact ⟨h.looked_reads hd, h.breaks_read he hwhy⟩

/-- Reading a span gives its bytes and moves on. -/
theorem ends_readSpan {s t : ChainStream} {left : Nat} {span : Span left} (h : s.Aims t span) :
    Ends (readSpan span t)
      (fun data u => data.size = span.size
        ∧ (∀ i, i < span.size → data.byteAt i = s.volume.disk.byte (span.address + i))
        ∧ s.Moved u ∧ s.Ahead u span.size
        ∧ (s.volume.drive.Renewable → ∀ i, i < span.size → ¬ s.Obstacle i))
      (fun e u => s.Looked u ∧ s.Breaks .read left 0 e) := by
  unfold readSpan
  simp only [ends_bind, ends_pure, ends_advance]
  refine (ends_fetchSpan h).mono ?_ fun _ _ hfail => hfail
  rintro data _ ⟨d, hd, rfl, hsize, hbyte, hclear⟩
  have hmoved := h.moved_reads hd
  exact ⟨fun hword => ⟨hsize, hbyte, ⟨hmoved.volume, hmoved.start, hmoved.failure⟩,
    h.ahead_reads hd hword, hclear⟩, fun hend => ⟨h.looked_reads hd, h.breaks_overflow hend⟩⟩

/-- `u` is `s` with `data` written over its next span. -/
structure Wrote (s u : ChainStream) {left : Nat} (span : Span left) (data : ByteArray) : Prop where
  kept : s.Kept u
  ready : u.Ready
  position : u.position = s.position + span.size
  walk : s.walk? span.size = some u.cluster
  word : u.position < wordLimit
  byte (a : Nat) : u.volume.disk.byte a =
    if span.address ≤ a ∧ a < span.address + span.size then data.byteAt (a - span.address)
    else s.volume.disk.byte a

/-- The bytes of a span are stored, unless the drive refuses. -/
theorem ends_storeSpan {s t : ChainStream} {left : Nat} {span : Span left} (h : s.Aims t span)
    {data : ByteArray} (hsize : data.size = span.size) :
    Ends (storeSpan data span t)
      (fun _ u => ∃ d, t.volume.drive.Stores span.address data d
        ∧ u = { t with volume := { t.volume with drive := d } })
      (fun e u => s.Looked u ∧ s.Breaks .write left 0 e) := by
  have hv : t.volume.drive.Coherent := h.moved.volume.drive.coherent
  cases span with
  | whole sector count pos fits =>
      simp only [storeSpan, ends_bind, ends_modify, ends_onDrive]
      refine (Drive.ends_writeDisk hv hsize).mono ?_ ?_
      · intro _ d hd
        exact ⟨d, hd, rfl⟩
      · intro e d hfail
        obtain ⟨he, hd, hend⟩ := hfail
        refine ⟨h.looked_reads hd, h.breaks_write he fun hf => ?_⟩
        have := Nat.mul_lt_mul_of_pos_left (hend hf) sectorSize_pos
        rw [Nat.mul_add] at this
        exact this
  | part sector offset len pos fits inside =>
      simp only [storeSpan, ends_onDrive]
      refine (Drive.ends_writeThrough hv (by rw [hsize]; exact inside)).mono ?_ ?_
      · intro _ d hd
        exact ⟨d, hd, rfl⟩
      · intro e d hfail
        obtain ⟨he, hd, hend⟩ := hfail
        refine ⟨h.looked_reads hd, h.breaks_write he fun hf => ?_⟩
        have : sectorSize * t.volume.disk.sectorCount ≤ sectorSize * sector :=
          Nat.mul_le_mul_left sectorSize (hend hf)
        unfold Span.address Span.size
        dsimp only
        omega

section Write

variable {s t : ChainStream} {left : Nat} {span : Span left} {d : Drive} {data : ByteArray}

theorem Aims.kept_stores (h : s.Aims t span) (hd : t.volume.drive.Stores span.address data d) :
    s.Kept { t with volume := { t.volume with drive := d } } := by
  have hm : s.volume.disk.SameMedium t.volume.disk := h.moved.volume.drive.medium
  exact ⟨hd.coherent, h.moved.volume.geometry, h.moved.volume.foldRuns,
    hd.medium.sectorCount.trans hm.sectorCount, hd.medium.faults.trans hm.faults,
    h.moved.start, h.moved.failure, fun hr => hd.renewable (h.moved.volume.drive.renewable hr)⟩

theorem Aims.byte_stores (h : s.Aims t span) (hsize : data.size = span.size)
    (hd : t.volume.drive.Stores span.address data d) (a : Nat) :
    d.disk.byte a = if span.address ≤ a ∧ a < span.address + span.size
      then data.byteAt (a - span.address) else s.volume.disk.byte a := by
  refine (hd.medium.byte a).trans ?_
  rw [hsize]
  congr 1
  exact congrFun h.moved.volume.drive.medium.byte a

theorem Aims.wrote_stores (h : s.Aims t span) (hsize : data.size = span.size)
    (hd : t.volume.drive.Stores span.address data d)
    (hword : t.position + span.size < wordLimit) :
    s.Wrote { t with
      volume := { t.volume with drive := d }
      position := t.position + span.size } span data := by
  have hkept := h.kept_stores hd
  refine ⟨⟨hkept.coherent, hkept.geometry, hkept.foldRuns, hkept.sectorCount, hkept.faults,
    hkept.start, hkept.failure, hkept.renewable⟩,
    h.ready_advance hd.coherent h.moved.volume.geometry, congrArg (· + span.size) h.position,
    h.walk, hword, h.byte_stores hsize hd⟩

/-- Writing a span stores its bytes and moves on. If it fails nothing is stored, but where it
would lead behind the last word: there the bytes are stored before it stops. -/
theorem ends_writeSpan (h : s.Aims t span) (hsize : data.size = span.size) :
    Ends (writeSpan span data t)
      (fun _ u => s.Wrote u span data)
      (fun e u => s.Kept u ∧ s.Breaks .write left 0 e ∧ u.position = s.position
        ∧ ∃ k, u.volume.disk.byte = storeAlong s.spot? data.byteAt s.volume.disk.byte k
          ∧ k ≤ span.size ∧ (e ≠ .overflow → k = 0)) := by
  unfold writeSpan
  simp only [ends_bind, ends_advance]
  refine (ends_storeSpan h hsize).mono ?_ ?_
  · rintro _ _ ⟨d, hd, rfl⟩
    refine ⟨h.wrote_stores hsize hd, fun hend => ⟨h.kept_stores hd, h.breaks_overflow hend,
      h.position, span.size, funext fun a => ?_, Nat.le_refl _, fun he => absurd rfl he⟩⟩
    rw [storeAlong_straight h.spot]
    exact h.byte_stores hsize hd a
  · intro e u hfail
    obtain ⟨hu, hb⟩ := hfail
    exact ⟨hu.kept, hb, hu.position, 0, hu.volume.drive.medium.byte, Nat.zero_le _, fun _ => rfl⟩

end Write

/-! ## Reading -/

/-- What a read of `left` bytes is to do: it delivers the bytes that the walk names, all of them
or those before it breaks off, and writes nothing. -/
structure Delivers (s : ChainStream) (left : Nat) (data : ByteArray) (error? : Option Error)
    (rest : ChainStream) : Prop where
  moved : s.Moved rest
  position : rest.position = s.position + data.size
  byte : ∀ i, i < data.size → (s.spot? i).map s.volume.disk.byte = some (data.byteAt i)
  /-- There was nothing in the way of what was delivered. -/
  clear : s.volume.drive.Renewable → ∀ i, i < data.size → ¬ s.Obstacle i
  done : error? = none → data.size = left ∧ s.Ahead rest left
  failed : ∀ e, error? = some e → s.Breaks .read left data.size e

/-- A read that has nothing to do. -/
theorem Delivers.nil {s : ChainStream} (hs : s.Ready) : s.Delivers 0 .empty none s where
  moved := ⟨.refl hs.coherent, rfl, rfl⟩
  position := rfl
  byte := fun i hi => absurd hi (Nat.not_lt_zero i)
  clear := fun _ i hi => absurd hi (Nat.not_lt_zero i)
  done := fun _ => ⟨rfl, .refl hs⟩
  failed := nofun

/-- A read that breaks off at its first span has delivered nothing. -/
theorem Delivers.stop {s u : ChainStream} {left : Nat} {e : Error} (hu : s.Looked u)
    (hb : s.Breaks .read left 0 e) : s.Delivers left .empty (some e) u where
  moved := hu.toMoved
  position := hu.position
  byte := fun i hi => absurd hi (Nat.not_lt_zero i)
  clear := fun _ i hi => absurd hi (Nat.not_lt_zero i)
  done := nofun
  failed := by
    intro e' he
    cases he
    exact hb

/-- A read goes on after its first span. -/
theorem Delivers.cons {s u rest : ChainStream} {n left : Nat} {data more : ByteArray}
    {error? : Option Error} (hn : n ≤ left) (hsize : data.size = n)
    (hdata : ∀ i, i < n → (s.spot? i).map s.volume.disk.byte = some (data.byteAt i))
    (hclear : s.volume.drive.Renewable → ∀ i, i < n → ¬ s.Obstacle i)
    (hmoved : s.Moved u) (hu : s.Ahead u n) (h : u.Delivers (left - n) more error? rest) :
    s.Delivers left (data ++ more) error? rest where
  moved := hmoved.trans h.moved
  position := by
    rw [h.position, hu.position, ByteArray.size_append, hsize, Nat.add_assoc]
  byte := by
    intro i hi
    rw [ByteArray.size_append] at hi
    rw [ByteArray.byteAt_append]
    split
    · rename_i hlt
      exact hdata i (hsize ▸ hlt)
    · rename_i hge
      have hbyte := h.byte (i - data.size) (by omega)
      rw [hu.spot?_eq, hsize, Nat.add_sub_cancel' (by omega)] at hbyte
      rw [hsize, ← hbyte]
      congr 1
      exact hmoved.volume.drive.medium.byte.symm
  clear := by
    intro hr i hi
    rw [ByteArray.size_append] at hi
    by_cases hlt : i < n
    · exact hclear hr i hlt
    · have hrest := h.clear (hmoved.volume.drive.renewable hr) (i - n) (by omega)
      rwa [hu.obstacle_iff, Nat.add_sub_cancel' (by omega)] at hrest
  done := by
    intro he
    obtain ⟨hmore, hrest⟩ := h.done he
    refine ⟨by rw [ByteArray.size_append]; omega, ?_⟩
    have := hu.trans hrest
    rwa [Nat.add_sub_cancel' hn] at this
  failed := by
    intro e he
    have := hu.breaks (h.failed e he)
    rwa [Nat.add_sub_cancel' hn, ← hsize, ← ByteArray.size_append] at this

/-- **A read delivers what the walk names.** -/
theorem readFrom_delivers (got : ByteArray) (left : Nat) {s : ChainStream} (hs : s.Ready) :
    ∃ data, (readFrom got left s).data = got ++ data
      ∧ s.Delivers left data (readFrom got left s).error? (readFrom got left s).stream := by
  induction left using Nat.strongRecOn generalizing got s with
  | ind left ih =>
      rw [readFrom]
      split
      · rename_i hleft
        subst hleft
        exact ⟨.empty, ByteArray.append_empty.symm, .nil hs⟩
      · rename_i hleft
        have hnext := ends_nextSpan hs (Nat.pos_of_ne_zero hleft) .read
        split
        · rename_i e u hfail
          obtain ⟨hu, hb⟩ := hnext.of_error hfail
          exact ⟨.empty, ByteArray.append_empty.symm, .stop hu hb⟩
        · rename_i span t hspan
          have haims := hnext.of_ok hspan
          have hread := ends_readSpan haims
          split
          · rename_i e u hfail
            obtain ⟨hu, hb⟩ := hread.of_error hfail
            exact ⟨.empty, ByteArray.append_empty.symm, .stop hu hb⟩
          · rename_i data u hok
            obtain ⟨hsize, hbyte, hmoved, hahead, hclear⟩ := hread.of_ok hok
            have hpos := span.size_pos
            have hle := span.size_le
            -- the rest is read from where the span ends
            obtain ⟨more, hmore, hrest⟩ := ih (left - span.size) (by omega) (got ++ data)
              hahead.ready
            refine ⟨data ++ more, by rw [hmore, ByteArray.append_assoc], ?_⟩
            refine hrest.cons hle hsize (fun i hi => ?_) hclear hmoved hahead
            rw [haims.spot i hi, hbyte i hi]
            rfl

/-! ## Writing -/

/-- Whatever the table, a write leaves a cursor to work with behind its bytes, or fails. -/
theorem ends_writeFrom_kept (data : ByteArray) (left : Nat) {s : ChainStream} (hs : s.Ready)
    (hleft : left ≤ data.size) :
    Ends (writeFrom data left s)
      (fun _ t => s.Kept t ∧ t.Ready ∧ t.position = s.position + left) (fun _ t => s.Kept t) := by
  induction left using Nat.strongRecOn generalizing s with
  | ind left ih =>
      rw [writeFrom]
      split
      · rename_i hzero
        exact ⟨.refl hs.coherent, hs, by rw [hzero, Nat.add_zero]⟩
      · rename_i hne
        simp only [ends_bind]
        refine (ends_nextSpan hs (Nat.pos_of_ne_zero hne) .write).mono ?_ fun e t h => h.1.kept
        intro span t haims
        have hpos := span.size_pos
        have hle := span.size_le
        refine (ends_writeSpan haims ?_).mono ?_ fun e u h => h.1
        · rw [ByteArray.size_extract]
          omega
        · intro _ u hu
          refine (ih (left - span.size) (by omega) hu.ready (by omega)).mono ?_ ?_
          · intro _ v hv
            obtain ⟨hkept, hready, hposition⟩ := hv
            refine ⟨hu.kept.trans hkept, hready, ?_⟩
            rw [hposition, hu.position]
            omega
          · intro e v hv
            exact hu.kept.trans hv

theorem le_of_spot? {s : ChainStream} {i a : Nat} (h : s.spot? i = some a) :
    sectorSize * s.volume.geometry.dataBase ≤ a := by
  unfold spot? Geometry.spot? at h
  obtain ⟨c, _, rfl⟩ := Option.map_eq_some_iff.mp h
  exact Geometry.le_byteAddress _ _ _

/-- What is stored from further ahead comes after what was stored on the way there. -/
theorem Ahead.storeAlong_eq {s u : ChainStream} {n : Nat} {value : Nat → UInt8}
    (h : s.Ahead u n)
    (hbyte : u.volume.disk.byte = storeAlong s.spot? value s.volume.disk.byte n) (m : Nat) :
    storeAlong u.spot? (fun i => value (n + i)) u.volume.disk.byte m
      = storeAlong s.spot? value s.volume.disk.byte (n + m) := by
  rw [storeAlong_add, hbyte]
  exact storeAlong_congr (fun i _ => h.spot?_eq i) fun _ _ => rfl

/-- A span written outside the table is so many bytes stored along the walk. -/
theorem Wrote.ahead {s t u : ChainStream} {left : Nat} {span : Span left} {data : ByteArray}
    (hg : s.volume.geometry.TableApart) (h : s.Aims t span) (hu : s.Wrote u span data) :
    s.Ahead u span.size
      ∧ u.volume.disk.byte = storeAlong s.spot? data.byteAt s.volume.disk.byte span.size := by
  have hbyte : u.volume.disk.byte
      = storeAlong s.spot? data.byteAt s.volume.disk.byte span.size := by
    funext a
    rw [hu.byte, storeAlong_straight h.spot]
  refine ⟨⟨hu.kept, fun a ha => ?_, hu.ready, hu.position, hu.walk, fun _ => hu.word⟩, hbyte⟩
  rw [hbyte]
  refine storeAlong_of_ne fun i _ hia => ?_
  have := le_of_spot? hia
  have := Nat.mul_le_mul_left sectorSize hg
  omega

/-- What the part `data` of a write of `all` holds is stored as the first of the bytes left. -/
theorem storeAlong_extract {spot : Nat → Option Nat} {byte : Nat → UInt8} {all : ByteArray}
    {left n k : Nat} (hk : k ≤ n) (hn : n ≤ left) (hleft : left ≤ all.size) :
    storeAlong spot (all.extract (all.size - left) (all.size - left + n)).byteAt byte k
      = storeAlong spot (fun i => all.byteAt (all.size - left + i)) byte k := by
  refine storeAlong_congr (fun _ _ => rfl) fun i hi => ?_
  rw [ByteArray.byteAt_extract, if_pos (by omega)]

/-- **A write stores its bytes along the walk**, all of them or those before it breaks off. -/
theorem ends_writeFrom (data : ByteArray) (left : Nat) {s : ChainStream} (hs : s.Ready)
    (hg : s.volume.geometry.TableApart) (hleft : left ≤ data.size) :
    Ends (writeFrom data left s)
      (fun _ t => s.Ahead t left ∧ t.volume.disk.byte = storeAlong s.spot?
        (fun i => data.byteAt (data.size - left + i)) s.volume.disk.byte left)
      (fun e t => s.Kept t ∧ ∃ m k, s.Breaks .write left m e ∧ t.position = s.position + m
        ∧ t.volume.disk.byte = storeAlong s.spot?
          (fun i => data.byteAt (data.size - left + i)) s.volume.disk.byte k
        ∧ (e ≠ .overflow → k = m)) := by
  induction left using Nat.strongRecOn generalizing s with
  | ind left ih =>
      rw [writeFrom]
      split
      · rename_i hzero
        subst hzero
        exact ⟨.refl hs, rfl⟩
      · rename_i hne
        simp only [ends_bind]
        refine (ends_nextSpan hs (Nat.pos_of_ne_zero hne) .write).mono ?_ ?_
        · intro span t haims
          have hpos := span.size_pos
          have hle := span.size_le
          refine (ends_writeSpan haims ?_).mono ?_ ?_
          · rw [ByteArray.size_extract]
            omega
          · intro _ u hu
            obtain ⟨hahead, hbyte⟩ := hu.ahead hg haims
            -- the span held the first of the bytes left
            have hfirst : u.volume.disk.byte = storeAlong s.spot?
                (fun i => data.byteAt (data.size - left + i)) s.volume.disk.byte span.size := by
              rw [hbyte]
              exact storeAlong_extract (Nat.le_refl _) hle hleft
            have hmore : ∀ m, storeAlong u.spot?
                (fun i => data.byteAt (data.size - (left - span.size) + i)) u.volume.disk.byte m
                = storeAlong s.spot? (fun i => data.byteAt (data.size - left + i))
                  s.volume.disk.byte (span.size + m) := by
              intro m
              rw [← hahead.storeAlong_eq hfirst]
              refine storeAlong_congr (fun _ _ => rfl) fun i _ => ?_
              congr 1
              omega
            refine (ih (left - span.size) (by omega) hu.ready (hu.kept.geometry ▸ hg)
              (by omega)).mono ?_ ?_
            · intro _ v hv
              have := hahead.trans hv.1
              rw [Nat.add_sub_cancel' hle] at this
              refine ⟨this, ?_⟩
              rw [hv.2, hmore, Nat.add_sub_cancel' hle]
            · intro e v hv
              obtain ⟨hkept, m, k, hb, hposition, hv, hk⟩ := hv
              have := hahead.breaks hb
              rw [Nat.add_sub_cancel' hle] at this
              refine ⟨hu.kept.trans hkept, span.size + m, span.size + k, this, ?_,
                by rw [hv, hmore], fun he => by rw [hk he]⟩
              rw [hposition, hahead.position, Nat.add_assoc]
          · intro e u hfail
            obtain ⟨hkept, hb, hposition, k, hbyte, hle', hk⟩ := hfail
            refine ⟨hkept, 0, k, hb, hposition, ?_, hk⟩
            rw [hbyte]
            exact storeAlong_extract hle' hle hleft
        · -- a write that breaks off before its first span has stored nothing
          intro e t h
          exact ⟨h.1.kept, 0, 0, h.2, h.1.position, h.1.volume.drive.medium.byte, fun _ => rfl⟩

end ChainStream

end CartBoot
