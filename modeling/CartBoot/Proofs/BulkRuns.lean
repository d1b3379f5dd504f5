import Mathlib.Data.List.SplitBy
import Mathlib.Data.List.Range
import CartBoot.Proofs.Seeking

/-!
# One access for each run

With folding, whole sectors are moved with as few accesses as there can be. The
sectors that a request covers are cut into runs of consecutive numbers, as long as
they get, and each run is one access. Clusters, and where in them the request
begins and ends, do not show.

A span is such a run: it begins where the cursor is, and folding stops at the end
of the request or at a cluster whose successor is not its neighbour, so that the
sector after the span, if it is wanted, is not the next one. What is asked of the
device to find the spans is below the data area.
-/

namespace CartBoot

open Fat

/-! ## Runs -/

/-- A list of sectors, cut wherever one is not followed by the next. -/
def ascendingRuns (sectors : List Nat) : List (List Nat) :=
  sectors.splitBy fun s t => t == s + 1

/-- A run is given by where it begins and how long it is. -/
theorem eq_range'_of_isChain {run : List Nat}
    (h : run.IsChain fun s t => (t == s + 1) = true) :
    List.range' (run.headD 0) run.length = run := by
  induction run with
  | nil => rfl
  | cons s run ih =>
      cases run with
      | nil => rfl
      | cons t run =>
          rw [List.isChain_cons_cons] at h
          obtain ⟨hnext, hrest⟩ := h
          obtain rfl : t = s + 1 := beq_iff_eq.mp hnext
          have htail := ih hrest
          rw [List.headD_cons] at htail
          rw [List.headD_cons, List.length_cons, List.range'_succ, htail]

namespace Access

/-- The sectors of an access. -/
def sectors (a : Access) : List Nat :=
  List.range' a.sector a.count

/-- The accesses that move sectors in order, one for each run. -/
def perRun (direction : Direction) (sectors : List Nat) : List Access :=
  (ascendingRuns sectors).map fun run => ⟨direction, run.headD 0, run.length, true⟩

variable {direction : Direction} {rest : List Nat} {first count : Nat}

@[simp] theorem perRun_nil : perRun direction [] = [] := rfl

/-- The first run is the first access. -/
theorem perRun_append (pos : 0 < count)
    (hrest : ∀ next, rest.head? = some next → next ≠ first + count) :
    perRun direction (List.range' first count ++ rest)
      = ⟨direction, first, count, true⟩ :: perRun direction rest := by
  have hne : List.range' first count ≠ [] := by
    rw [ne_eq, List.range'_eq_nil_iff]
    omega
  have hrun : (List.range' first count).IsChain fun s t => (t == s + 1) = true :=
    (List.isChain_range' first count 1).imp fun _ _ h => beq_iff_eq.mpr h
  have hcut : ascendingRuns (List.range' first count ++ rest)
      = List.range' first count :: ascendingRuns rest := by
    unfold ascendingRuns
    rw [List.splitBy_append, List.splitBy_of_isChain hne hrun]
    · rfl
    · intro last hlast next hnext
      rw [List.getLast?_range', if_neg (Nat.ne_of_gt pos)] at hlast
      have hlast := Option.some.inj hlast
      have hnext := hrest next hnext
      exact beq_eq_false_iff_ne.mpr (by omega)
  have hhead : (List.range' first count).headD 0 = first := by
    rw [← Nat.sub_add_cancel pos, List.range'_succ, List.headD_cons]
  unfold perRun
  rw [hcut, List.map_cons, List.length_range', hhead]

/-- The accesses move the sectors, each as often as it is asked for and in order. -/
theorem flatMap_sectors_perRun (direction : Direction) (sectors : List Nat) :
    (perRun direction sectors).flatMap Access.sectors = sectors := by
  have hrun : ∀ run ∈ ascendingRuns sectors, List.range' (run.headD 0) run.length = run :=
    fun run hrun => eq_range'_of_isChain (List.isChain_of_mem_splitBy hrun)
  unfold perRun
  rw [List.flatMap_map, List.flatMap_def]
  show ((ascendingRuns sectors).map fun run => List.range' (run.headD 0) run.length).flatten = _
  rw [List.map_congr_left hrun, List.map_id']
  exact List.flatten_splitBy _ _

/-- No access could be one with the next. -/
theorem isChain_perRun (direction : Direction) (sectors : List Nat) :
    (perRun direction sectors).IsChain fun a b => b.sector ≠ a.sector + a.count := by
  unfold perRun
  rw [List.isChain_map]
  refine (List.isChain_getLast_head_splitBy _ sectors).imp_of_mem_imp ?_
  intro run next hrun _ ⟨hne, hne', hcut⟩
  have hlast := congrArg List.getLast? (eq_range'_of_isChain (List.isChain_of_mem_splitBy hrun))
  rw [List.getLast?_range', if_neg (mt List.length_eq_zero_iff.mp hne),
    List.getLast?_eq_some_getLast hne] at hlast
  have hpos := List.length_pos_iff.mpr hne
  have hhead : next.headD 0 = next.head hne' := by
    cases next with
    | nil => exact absurd rfl hne'
    | cons sector next => rfl
  have hcut := beq_eq_false_iff_ne.mp hcut
  rw [← Option.some.inj hlast] at hcut
  show next.headD 0 ≠ run.headD 0 + run.length
  omega

end Access

/-! ## The sectors of a file -/

namespace Fat.Geometry

variable {g : Geometry} {byte : Nat → UInt8} {cs : List Nat} {i sector : Nat}

/-- The sectors of the file in a list of clusters. -/
def fileSectors (g : Geometry) (cs : List Nat) : List Nat :=
  cs.flatMap fun c => List.range' (g.firstSector c) g.clusterSize

theorem length_fileSectors : (g.fileSectors cs).length = cs.length * g.clusterSize := by
  unfold fileSectors
  induction cs with
  | nil => rw [List.flatMap_nil, List.length_nil, Nat.zero_mul]
  | cons c cs ih =>
      rw [List.flatMap_cons, List.length_append, List.length_range', ih, List.length_cons,
        Nat.succ_mul, Nat.add_comm]

theorem getElem?_fileSectors (i : Nat) : (g.fileSectors cs)[i]? =
    cs[i / g.clusterSize]?.map fun c => g.firstSector c + i % g.clusterSize := by
  have hpos := g.clusterSize_pos
  unfold fileSectors
  induction cs generalizing i with
  | nil => rfl
  | cons c cs ih =>
      rw [List.flatMap_cons]
      by_cases hi : i < g.clusterSize
      · rw [List.getElem?_append_left (by rwa [List.length_range']), List.getElem?_range' hi,
          Nat.div_eq_of_lt hi, Nat.mod_eq_of_lt hi, Nat.one_mul]
        rfl
      · replace hi := Nat.not_lt.mp hi
        rw [List.getElem?_append_right (by rwa [List.length_range']), List.length_range', ih,
          Nat.div_eq_sub_div hpos hi, Nat.mod_eq_sub_mod hi, List.getElem?_cons_succ]

/-- The sectors of a file are where its bytes are. -/
theorem fileAddress?_of_sector (h : (g.fileSectors cs)[i]? = some sector) :
    g.fileAddress? cs (sectorSize * i) = some (sectorSize * sector) := by
  rw [getElem?_fileSectors] at h
  obtain ⟨c, hc, rfl⟩ := Option.map_eq_some_iff.mp h
  unfold fileAddress? byteAddress
  rw [clusterBytes_eq, Nat.mul_div_mul_left _ _ sectorSize_pos, hc, Option.map_some,
    Nat.mul_mod_mul_left, Nat.mul_add]

/-- A chain has no sector twice. -/
theorem IsChain.nodup_fileSectors (h : g.IsChain byte cs) : (g.fileSectors cs).Nodup := by
  refine List.pairwise_iff_getElem.mpr fun i j hi hj hij heq => ?_
  have hi' := fileAddress?_of_sector (List.getElem?_eq_getElem hi)
  have hj' := fileAddress?_of_sector (List.getElem?_eq_getElem hj)
  rw [← heq] at hj'
  have hsame := Nat.eq_of_mul_eq_mul_left sectorSize_pos (h.fileAddress?_inj hi' hj')
  omega

/-- The sectors that a request for `count` sectors from sector `k` of the file on covers. -/
def requested (g : Geometry) (cs : List Nat) (k count : Nat) : List Nat :=
  ((g.fileSectors cs).drop k).take count

theorem length_requested {k count : Nat}
    (h : sectorSize * k + sectorSize * count ≤ g.capacity cs) :
    (g.requested cs k count).length = count := by
  have hle : sectorSize * (k + count) ≤ sectorSize * (g.fileSectors cs).length := by
    rw [length_fileSectors, Nat.mul_add, Nat.mul_left_comm, ← clusterBytes_eq]
    exact h
  have := Nat.le_of_mul_le_mul_left hle sectorSize_pos
  unfold requested
  rw [List.length_take, List.length_drop]
  omega

theorem IsChain.nodup_requested (h : g.IsChain byte cs) (k count : Nat) :
    (g.requested cs k count).Nodup :=
  h.nodup_fileSectors.sublist ((List.take_sublist _ _).trans (List.drop_sublist _ _))

end Fat.Geometry

/-! ## Transfers in the log -/

namespace Disk

variable {g : Geometry} {d e : Disk}

/-- The accesses so far that reach into the data area. -/
def transfers (g : Geometry) (d : Disk) : List Access :=
  d.log.toList.filter fun a => g.dataBase < a.sector + a.count

theorem transfers_eq_of_logs (h : d.Logs (fun a => a.sector + a.count ≤ g.dataBase) e) :
    e.transfers g = d.transfers g := by
  obtain ⟨new, hlog, hnew⟩ := h
  have hnone : new.toList.filter (fun a => g.dataBase < a.sector + a.count) = [] := by
    refine List.filter_eq_nil_iff.mpr fun a ha => ?_
    have := hnew a (Array.mem_toList_iff.mp ha)
    simp only [decide_eq_true_eq]
    omega
  unfold transfers
  rw [hlog, Array.toList_append, List.filter_append, hnone, List.append_nil]

theorem transfers_push {a : Access} (hlog : e.log = d.log.push a)
    (ha : g.dataBase < a.sector + a.count) : e.transfers g = d.transfers g ++ [a] := by
  unfold transfers
  rw [hlog, Array.toList_push, List.filter_append, List.filter_cons_of_pos (by simpa using ha),
    List.filter_nil]

/-- An access that goes through is one that reached the medium. -/
theorem log_of_attempt {direction : Direction} {first count : Nat}
    (h : d.attempt direction first count = (true, e)) :
    e.log = d.log.push ⟨direction, first, count, true⟩ := by
  unfold attempt at h
  dsimp only at h
  obtain ⟨hthrough, rfl⟩ := Prod.mk.inj h
  obtain ⟨hreached, _⟩ := Bool.and_eq_true_iff.mp hthrough
  rw [hreached]

theorem log_read (first count : Nat) (d : Disk) :
    Ends (read first count d) (fun _ e => e.log = d.log.push ⟨.read, first, count, true⟩)
      (fun _ _ => True) := by
  unfold read
  split
  · rename_i e h
    exact log_of_attempt h
  · trivial

theorem log_write (first count : Nat) (data : ByteArray) (d : Disk) :
    Ends (write first count data d) (fun _ e => e.log = d.log.push ⟨.write, first, count, true⟩)
      (fun _ _ => True) := by
  unfold write
  split
  · rename_i e h
    rw [ends_ok, log_setSectors]
    exact log_of_attempt h
  · trivial

end Disk

/-! ## Spans are runs -/

namespace ChainStream

variable {g : Geometry} {s t u : ChainStream} {sectors run rest : List Nat} {left : Nat}

/-- What is ahead of a cursor at a sector boundary: these sectors, one after the other. -/
structure Faces (s : ChainStream) (sectors : List Nat) : Prop where
  boundary : s.position % sectorSize = 0
  spot : ∀ i sector, sectors[i]? = some sector →
    s.spot? (sectorSize * i) = some (sectorSize * sector)

theorem Faces.ahead (h : s.Faces (run ++ rest)) (hahead : s.Ahead u (sectorSize * run.length)) :
    u.Faces rest where
  boundary := by
    rw [hahead.position, Nat.add_mul_mod_self_left]
    exact h.boundary
  spot := by
    intro i sector hi
    rw [hahead.spot?_eq, ← Nat.mul_add]
    refine h.spot _ _ ?_
    rw [List.getElem?_append_right (Nat.le_add_right _ _), Nat.add_sub_cancel_left]
    exact hi

/-- The next span of a request for whole sectors is the first run of them. -/
theorem Faces.span (h : s.Faces sectors) (hfold : s.volume.foldRuns = true)
    (hleft : left = sectorSize * sectors.length) {span : Span left} (haims : s.Aims t span) :
    ∃ first count pos fits rest, span = .whole first count pos fits
      ∧ sectors = List.range' first count ++ rest
      ∧ ∀ next, rest.head? = some next → next ≠ first + count := by
  have hpos := Nat.lt_of_lt_of_le span.size_pos span.size_le
  have hsectors : 0 < sectors.length := Nat.pos_of_mul_pos_left (hleft ▸ hpos)
  have hbulk : sectorSize ≤ left := hleft ▸ Nat.le_mul_of_pos_right _ hsectors
  obtain ⟨first, count, pos, fits, rfl, hstop⟩ := haims.bulk h.boundary hbulk
  have hcount : count ≤ sectors.length := Nat.le_of_mul_le_mul_left (hleft ▸ fits) sectorSize_pos
  refine ⟨first, count, pos, fits, sectors.drop count, rfl, ?_, ?_⟩
  · -- the span covers the first sectors, and they follow each other
    have hrun : sectors.take count = List.range' first count := by
      refine List.ext_getElem (by rw [List.length_take, List.length_range']; omega) ?_
      intro i hi hi'
      rw [List.length_range'] at hi'
      have hspot := haims.spot (sectorSize * i) (Nat.mul_lt_mul_of_pos_left hi' sectorSize_pos)
      rw [h.spot i _ (List.getElem?_eq_getElem (by omega))] at hspot
      rw [List.getElem_take, List.getElem_range', Nat.one_mul]
      refine Nat.eq_of_mul_eq_mul_left sectorSize_pos ((Option.some.inj hspot).trans ?_)
      exact (Nat.mul_add _ _ _).symm
    rw [← hrun, List.take_append_drop]
  · -- what is wanted after it is elsewhere
    intro next hnext heq
    rw [List.head?_drop] at hnext
    have hlt := (List.getElem?_eq_some_iff.mp hnext).1
    rcases hstop hfold with hall | hnot
    · have hle : sectorSize * (count + 1) ≤ sectorSize * sectors.length :=
        Nat.mul_le_mul_left _ hlt
      omega
    · exact hnot (heq ▸ h.spot count next hnext)

/-- To find its next span a cursor does not reach into the data area. -/
theorem transfers_nextSpan (apart : s.volume.geometry.TableApart) (pos : 0 < left) :
    Ends (nextSpan left pos s)
      (fun _ t => t.volume.disk.transfers s.volume.geometry
        = s.volume.disk.transfers s.volume.geometry)
      (fun _ _ => True) := by
  refine (traced_nextSpan pos).mono ?_ fun _ _ _ => trivial
  intro _ t ht
  refine Disk.transfers_eq_of_logs (ht.drive.logs fun c hc => Drive.Command.logs_looksUp hc ?_)
  intro cluster sector hhas hsector _
  exact Nat.le_trans (Geometry.entrySectors_lt hhas hsector) apart

/-- The next span is the first run, and the sectors after it are left to be moved. -/
theorem Faces.next (h : s.Faces sectors) (hs : s.Ready) (hg : s.volume.geometry = g)
    (hfold : s.volume.foldRuns = true) (apart : g.TableApart) (pos : 0 < left)
    (hleft : left = sectorSize * sectors.length) (direction : Direction) :
    Ends (nextSpan left pos s)
      (fun span t => s.Aims t span ∧ ∃ first count pos fits rest,
        span = .whole first count pos fits ∧ left - sectorSize * count = sectorSize * rest.length
        ∧ ∀ u : ChainStream, s.Ahead u (sectorSize * count) →
          u.volume.disk.log = t.volume.disk.log.push ⟨direction, first, count, true⟩ →
          u.Faces rest ∧ u.volume.disk.transfers g ++ Access.perRun direction rest
            = s.volume.disk.transfers g ++ Access.perRun direction sectors)
      (fun _ _ => True) := by
  subst hg
  refine ((ends_nextSpan hs pos direction).and (transfers_nextSpan apart pos)).mono ?_
    fun _ _ _ => trivial
  intro span t ht
  obtain ⟨haims, hlooked⟩ := ht
  obtain ⟨first, count, pos, fits, rest, rfl, rfl, hrest⟩ := h.span hfold hleft haims
  rw [List.length_append, List.length_range', Nat.mul_add] at hleft
  refine ⟨haims, first, count, pos, fits, rest, rfl, by omega, fun u hu hlog => ?_⟩
  have hlow := le_of_spot? (haims.spot 0 (Nat.mul_pos sectorSize_pos pos))
  have hdata : s.volume.geometry.dataBase ≤ first := Nat.le_of_mul_le_mul_left hlow sectorSize_pos
  refine ⟨h.ahead (by rw [List.length_range']; exact hu), ?_⟩
  rw [Disk.transfers_push hlog (by dsimp only; omega), hlooked, Access.perRun_append pos hrest,
    List.append_assoc]
  rfl

/-! ## Whole requests -/

theorem eq_nil_of_none_left (h : 0 = sectorSize * sectors.length) : sectors = [] :=
  List.length_eq_zero_iff.mp ((Nat.mul_eq_zero.mp h.symm).resolve_left (by decide))

theorem log_readSpan {first count : Nat} {pos fits} (t : ChainStream) :
    Ends (readSpan (.whole first count pos fits : Span left) t)
      (fun _ u => u.volume.disk.log = t.volume.disk.log.push ⟨.read, first, count, true⟩)
      (fun _ _ => True) := by
  unfold readSpan fetchSpan
  simp only [ends_bind, ends_pure, ends_onDrive, ends_advance, Drive.ends_onDisk]
  exact (Disk.log_read first count t.volume.disk).mono (fun _ _ h => ⟨fun _ => h, fun _ => trivial⟩)
    fun _ _ h => h

theorem log_writeSpan {first count : Nat} {pos fits} (data : ByteArray) (t : ChainStream) :
    Ends (writeSpan (.whole first count pos fits : Span left) data t)
      (fun _ u => u.volume.disk.log = t.volume.disk.log.push ⟨.write, first, count, true⟩)
      (fun _ _ => True) := by
  unfold writeSpan storeSpan
  simp only [ends_bind, ends_modify, ends_onDrive, ends_advance, Drive.ends_onDisk,
    Drive.disk_invalidateRange]
  exact (Disk.log_write first count data t.volume.disk).mono
    (fun _ _ h => ⟨fun _ => h, fun _ => trivial⟩) fun _ _ h => h

/-- **A read moves whole sectors run by run.** -/
theorem transfers_readFrom (got : ByteArray) (left : Nat) (hs : s.Ready)
    (hg : s.volume.geometry = g) (hfold : s.volume.foldRuns = true) (apart : g.TableApart)
    (h : s.Faces sectors) (hleft : left = sectorSize * sectors.length) :
    (readFrom got left s).error? = none →
      (readFrom got left s).stream.volume.disk.transfers g
        = s.volume.disk.transfers g ++ Access.perRun .read sectors := by
  induction left using Nat.strongRecOn generalizing got s sectors with
  | ind left ih =>
      rw [readFrom]
      split
      · rename_i hzero
        intro _
        rw [eq_nil_of_none_left (hzero.symm.trans hleft), Access.perRun_nil, List.append_nil]
      · rename_i hne
        have hnext := h.next hs hg hfold apart (Nat.pos_of_ne_zero hne) hleft .read
        split
        · exact nofun
        · rename_i span t hspan
          obtain ⟨haims, first, count, pos, fits, rest, rfl, hrest, hmoved⟩ := hnext.of_ok hspan
          have hread := (ends_readSpan haims).and (log_readSpan t)
          split
          · exact nofun
          · rename_i data u hok
            obtain ⟨⟨_, _, _, hahead, _⟩, hlog⟩ := hread.of_ok hok
            obtain ⟨hfaces, hall⟩ := hmoved u hahead hlog
            have hpos := Nat.mul_pos sectorSize_pos pos
            rw [← hall]
            exact ih _ (by dsimp only [Span.size]; omega) _ hahead.ready
              (hahead.kept.geometry.trans hg) (hahead.kept.foldRuns.trans hfold) hfaces hrest

/-- **A write moves whole sectors run by run.** -/
theorem transfers_writeFrom (data : ByteArray) (left : Nat) (hs : s.Ready)
    (hg : s.volume.geometry = g) (hfold : s.volume.foldRuns = true) (apart : g.TableApart)
    (h : s.Faces sectors) (hleft : left = sectorSize * sectors.length)
    (hdata : left ≤ data.size) :
    Ends (writeFrom data left s)
      (fun _ t => t.volume.disk.transfers g
        = s.volume.disk.transfers g ++ Access.perRun .write sectors)
      (fun _ _ => True) := by
  induction left using Nat.strongRecOn generalizing s sectors with
  | ind left ih =>
      rw [writeFrom]
      split
      · rename_i hzero
        rw [ends_pure, eq_nil_of_none_left (hzero.symm.trans hleft), Access.perRun_nil,
          List.append_nil]
      · rename_i hne
        simp only [ends_bind]
        refine (h.next hs hg hfold apart (Nat.pos_of_ne_zero hne) hleft .write).mono ?_
          fun _ _ _ => trivial
        intro span t ht
        obtain ⟨haims, first, count, pos, fits, rest, rfl, hrest, hmoved⟩ := ht
        have hsize : (data.extract (data.size - left)
            (data.size - left + sectorSize * count)).size = sectorSize * count := by
          rw [ByteArray.size_extract]
          omega
        refine ((ends_writeSpan haims hsize).and (log_writeSpan _ t)).mono ?_ fun _ _ _ => trivial
        intro _ u hu
        obtain ⟨hwrote, hlog⟩ := hu
        have hahead := (hwrote.ahead (hg ▸ apart) haims).1
        obtain ⟨hfaces, hall⟩ := hmoved u hahead hlog
        rw [← hall]
        have hpos := Nat.mul_pos sectorSize_pos pos
        exact ih _ (by dsimp only [Span.size]; omega) hahead.ready (hahead.kept.geometry.trans hg)
          (hahead.kept.foldRuns.trans hfold) hfaces hrest (by dsimp only [Span.size]; omega)

/-- A cursor in a chain faces the sectors of a request that the chain holds. -/
theorem Reading.faces {disk : Disk} {cs : List Nat} {k count : Nat}
    (h : Reading g disk cs (sectorSize * k) s) (hpath : g.Path disk.byte cs)
    (hend : sectorSize * k + sectorSize * count ≤ g.capacity cs) :
    s.Faces (g.requested cs k count) where
  boundary := by
    rw [h.position]
    exact Nat.mul_mod_right _ _
  spot := by
    intro i sector hi
    unfold Geometry.requested at hi
    rw [List.getElem?_take] at hi
    split at hi
    · rename_i hlt
      rw [List.getElem?_drop] at hi
      have hin := Nat.mul_lt_mul_of_pos_left hlt sectorSize_pos
      unfold ChainStream.spot?
      rw [h.geometry, h.medium.byte, h.position, hpath.spot?_eq h.cluster (by omega), ← Nat.mul_add]
      exact Geometry.fileAddress?_of_sector hi
    · cases hi

section Requested

variable {disk : Disk} {cs : List Nat} {k count : Nat}
  (h : Reading g disk cs (sectorSize * k) s) (hfold : s.volume.foldRuns = true)
  (apart : g.TableApart) (hpath : g.Path disk.byte cs) (hdisk : disk.Faultless)
  (hdevice : ∀ c ∈ cs, g.OnDevice disk c)
  (hend : sectorSize * k + sectorSize * count ≤ g.capacity cs)
  (hword : sectorSize * k + sectorSize * count < wordLimit)

include h hfold apart hpath hdisk hdevice hend hword

theorem Reading.transfers_read :
    (s.read (sectorSize * count)).error? = none
      ∧ (s.read (sectorSize * count)).stream.volume.disk.transfers g
        = s.volume.disk.transfers g ++ Access.perRun .read (g.requested cs k count) := by
  obtain ⟨t, hread, _⟩ := h.read hpath hdisk hdevice hend hword
  have hnone : (s.read (sectorSize * count)).error? = none := by rw [hread]
  refine ⟨hnone, ?_⟩
  rw [read_eq_readFrom h.ready h.failure] at hnone ⊢
  exact transfers_readFrom .empty _ h.ready h.geometry hfold apart (h.faces hpath hend)
    (by rw [Geometry.length_requested hend]) hnone

theorem Reading.transfers_write {data : ByteArray} (hdata : data.size = sectorSize * count) :
    ∃ t, write data s = .ok () t
      ∧ t.volume.disk.transfers g
        = s.volume.disk.transfers g ++ Access.perRun .write (g.requested cs k count) := by
  have hwrite := (ends_writeFrom data data.size h.ready (h.geometry ▸ apart) (Nat.le_refl _)).and
    (transfers_writeFrom data data.size h.ready h.geometry hfold apart (h.faces hpath hend)
      (by rw [hdata, Geometry.length_requested hend]) (Nat.le_refl _))
  obtain ⟨_, t, hr, _, ht⟩ := hwrite.exists_ok fun e t ht => by
    obtain ⟨⟨_, m, _, hbreaks, _⟩, _⟩ := ht
    rw [hdata] at hbreaks
    exact h.not_breaks hpath hdisk hdevice hend hword hbreaks
  exact ⟨t, guarded_of_ok h.failure hr, ht⟩

end Requested

end ChainStream

/-- **One access for each run.** With folding, over a table outside the data area: a cursor on a
chain that has not failed, after any requests, at a sector boundary from which the chain holds
`count` more sectors that end at a word. It reads or overwrites them, if the device has no faults
and has the chain, with exactly one access to the data area for each run of consecutive sectors, in
order. These accesses cover the sectors and no others, none of them twice, and none of them could be
one with the next. -/
theorem one_access_per_run {v : Volume} {cs : List Nat} {first : Nat} (hv : v.drive.Coherent)
    (hfold : v.foldRuns = true) (apart : v.geometry.TableApart)
    (hchain : v.geometry.IsChain v.disk.byte cs) (hfirst : cs[0]? = some first)
    (hdisk : v.disk.Faultless) (hdevice : ∀ c ∈ cs, v.geometry.OnDevice v.disk c)
    (requests : List Request) :
    let g := v.geometry
    let s := (runAll Request.perform requests (v.openAt first)).2
    s.failure = none → ∀ k count, s.position = sectorSize * k →
      s.position + sectorSize * count ≤ g.capacity cs →
      s.position + sectorSize * count < wordLimit →
      let sectors := g.requested cs k count
      ((s.read (sectorSize * count)).error? = none
        ∧ (s.read (sectorSize * count)).stream.volume.disk.transfers g
          = s.volume.disk.transfers g ++ Access.perRun .read sectors)
      ∧ (∀ data : ByteArray, data.size = sectorSize * count →
        ∃ t, ChainStream.write data s = .ok () t
          ∧ t.volume.disk.transfers g
            = s.volume.disk.transfers g ++ Access.perRun .write sectors)
      ∧ sectors.length = count ∧ sectors.Nodup
      ∧ ∀ direction, (Access.perRun direction sectors).flatMap Access.sectors = sectors
        ∧ (Access.perRun direction sectors).IsChain fun a b => b.sector ≠ a.sector + a.count := by
  intro g s hnone k count hposition hend hword
  have htracked := v.tracked_runAll hv hchain hfirst requests (.inl apart)
  have hreading := htracked.reading hnone (Nat.le_of_add_right_le hend)
  rw [hposition] at hreading hend hword
  have hnow : g.IsChain s.volume.disk.byte cs := hchain.congr htracked.volume.table
  have hdevice' : ∀ c ∈ cs, g.OnDevice s.volume.disk c := fun c hc => by
    rw [← show s.volume.geometry = g from htracked.volume.geometry]
    exact htracked.volume.onDevice (hdevice c hc)
  have hdisk' : s.volume.disk.Faultless := htracked.volume.faultless hdisk
  have hfold' : s.volume.foldRuns = true := htracked.volume.foldRuns.trans hfold
  refine ⟨?_, fun data hdata => ?_, Geometry.length_requested hend, hchain.nodup_requested k count,
    fun direction => ⟨Access.flatMap_sectors_perRun direction _, Access.isChain_perRun direction _⟩⟩
  · exact hreading.transfers_read hfold' apart hnow.toPath hdisk' hdevice' hend hword
  · exact hreading.transfers_write hfold' apart hnow.toPath hdisk' hdevice' hend hword hdata

/-- A chain in two runs. -/
theorem small_one_access_per_run :
    let s := (Volume.ofDisk smallDisk smallGeometry true).openAt 2
    (s.read 1024).error? = none
      ∧ (s.read 1024).stream.volume.disk.transfers smallGeometry
        = [⟨.read, 1, 1, true⟩, ⟨.read, 3, 1, true⟩]
      ∧ ∀ data : ByteArray, data.size = 1024 → ∃ t, ChainStream.write data s = .ok () t
        ∧ t.volume.disk.transfers smallGeometry
          = [⟨.write, 1, 1, true⟩, ⟨.write, 3, 1, true⟩] := by
  intro s
  obtain ⟨⟨hnone, hread⟩, hwrite, _⟩ := one_access_per_run
    (v := Volume.ofDisk smallDisk smallGeometry true) (Drive.coherent_of_empty rfl) rfl
    smallGeometry_apart (isChain_smallChains true) rfl smallDisk_faultless (onDevice_small true)
    [] rfl 0 2 rfl (by decide) (by decide)
  have hruns : ∀ direction, Access.perRun direction (smallGeometry.requested (smallChains true) 0 2)
      = [⟨direction, 1, 1, true⟩, ⟨direction, 3, 1, true⟩] := by
    intro direction
    cases direction <;> decide
  refine ⟨hnone, hread.trans (hruns .read), fun data hdata => ?_⟩
  obtain ⟨t, hok, ht⟩ := hwrite data hdata
  exact ⟨t, hok, ht.trans (hruns .write)⟩

/-! ## A chain that goes on behind the last word -/

/-- As many of the largest clusters as are needed to go on behind the last word. -/
def longGeometry : Geometry :=
  ⟨.fat16, 1, 3, 0x8000, 259, by decide⟩

/-- The entry of a cluster if all are linked in a row. -/
def longEntry (c : Nat) : Nat :=
  if c < 258 then c + 1 else 0xFFFF

/-- All clusters are linked in a row, and zero. -/
def longDisk : Disk where
  sectorCount := 0x808003
  blank a :=
    if 516 ≤ a ∧ a < 1030 then
      let entry := longEntry (a / 2 - 256)
      if a % 2 = 0 then UInt8.ofNat entry else UInt8.ofNat (entry / 256)
    else 0

def longChain : List Nat :=
  List.range' 2 257

theorem tableEntry_long {c : Nat} (hlow : 2 ≤ c) (hhigh : c < 259) :
    longGeometry.tableEntry longDisk.byte c = longEntry c := by
  have hbyte : ∀ k, k < 2 → longDisk.byte (512 + 2 * c + k)
      = UInt8.ofNat (longEntry c / 256 ^ k) := by
    intro k hk
    show (if _ then _ else _) = _
    rw [if_pos (by omega), show (512 + 2 * c + k) / 2 - 256 = c by omega]
    match k with
    | 0 =>
        rw [Nat.pow_zero, Nat.div_one]
        exact if_pos (by omega)
    | 1 => exact if_neg (by omega)
  have hword : longEntry c < 0x10000 := by
    unfold longEntry
    split <;> omega
  show (longDisk.byte (512 + 2 * c)).toNat
    + 256 * ((longDisk.byte (512 + 2 * c + 1)).toNat + 256 * 0) = longEntry c
  rw [hbyte 1 (by decide), show 512 + 2 * c = 512 + 2 * c + 0 by omega, hbyte 0 (by decide)]
  simp only [UInt8.toNat_ofNat']
  omega

theorem isChain_long : longGeometry.IsChain longDisk.byte longChain := by
  have hget : ∀ {k c : Nat}, longChain[k]? = some c → k < 257 ∧ c = 2 + k := by
    intro k c hc
    obtain ⟨hk, rfl⟩ := List.getElem?_eq_some_iff.mp hc
    unfold longChain at hk ⊢
    rw [List.length_range'] at hk
    exact ⟨hk, by rw [List.getElem_range', Nat.one_mul]⟩
  have hlast : ∀ c, longChain.getLast? = some c → c = 258 := by
    intro c hc
    rw [List.getLast?_eq_getElem?] at hc
    unfold longChain at hc
    rw [List.length_range'] at hc
    exact (hget hc).2
  refine ⟨⟨fun c hc => ?_, fun k c d hc hd => ?_, fun _ _ _ _ _ => nofun⟩, by decide,
    List.nodup_range', fun c hc => ?_, fun _ _ => nofun⟩
  · obtain ⟨k, hk⟩ := List.mem_iff_getElem?.mp hc
    obtain ⟨hlt, rfl⟩ := hget hk
    exact ⟨Nat.le_add_right 2 k, Nat.add_lt_add_left hlt 2⟩
  · obtain ⟨_, rfl⟩ := hget hc
    obtain ⟨hlt, rfl⟩ := hget hd
    rw [tableEntry_long (by omega) (by omega)]
    exact if_pos (by omega)
  · rw [hlast c hc, tableEntry_long (by omega) (by omega)]
    decide

/-- The chain holds two sectors more behind the position `0xFFFFFE00`. They are in a row and so
would be one access, but the position behind them is no word, and the loader stops. -/
theorem long_read_stops :
    let v := Volume.ofDisk longDisk longGeometry true
    let s := (runAll Request.perform [.seek 0xFFFFFE00] (v.openAt 2)).2
    longGeometry.TableApart ∧ longGeometry.IsChain longDisk.byte longChain ∧ longDisk.Faultless
      ∧ (∀ c ∈ longChain, longGeometry.OnDevice longDisk c)
      ∧ s.failure = none ∧ s.position = sectorSize * 0x7FFFFF
      ∧ s.position + sectorSize * 2 ≤ longGeometry.capacity longChain
      ∧ (s.read (sectorSize * 2)).error? = some .overflow := by
  intro v s
  have apart : longGeometry.TableApart := by
    show longGeometry.tableEnd ≤ longGeometry.dataBase
    decide
  have hdisk : longDisk.Faultless := ⟨fun _ _ => rfl, fun _ _ => rfl⟩
  have hdevice : ∀ c ∈ longChain, longGeometry.OnDevice longDisk c := fun c hc =>
    onDevice_of_fits apart (by decide) (isChain_long.has c hc)
  have hcapacity : longGeometry.capacity longChain = 0x101000000 := by
    unfold Geometry.capacity longChain
    rw [List.length_range']
    rfl
  have husable : (v.openAt 2).Usable longGeometry longDisk longChain :=
    ⟨Drive.coherent_of_empty rfl, rfl, .refl _, rfl, rfl⟩
  obtain ⟨t, hseek, _, hreading⟩ := husable.seek (p := 0xFFFFFE00) isChain_long.toPath hdisk hdevice
    (by rw [hcapacity]; decide)
  have hs : s = t := by
    have hperform : (Request.seek 0xFFFFFE00).perform (v.openAt 2) = .ok .empty t :=
      Request.perform_seek_of_ok hseek
    show (runAll _ _ _).2 = t
    rw [runAll_single, hperform]
    rfl
  rw [hs]
  have hposition : t.position = sectorSize * 0x7FFFFF := hreading.position
  refine ⟨apart, isChain_long, hdisk, hdevice, hreading.failure, hposition, ?_, ?_⟩
  · rw [hposition, hcapacity]
    decide
  · exact hreading.read_past_word isChain_long.toPath hdisk hdevice (by decide)
      (by rw [hcapacity]; decide) (by decide)

end CartBoot
