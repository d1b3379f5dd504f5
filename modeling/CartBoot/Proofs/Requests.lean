import CartBoot.Proofs.Runs
import CartBoot.Proofs.Transfer

/-!
# What users ask of a file

Seek, read, write and fill. A request that fails leaves a cursor that refuses to
work; one that goes through leaves a cursor ready for the next. In either case the
window agrees with the medium.
-/

namespace CartBoot

open Fat

section Exact

variable {σ : Type} [ReadStream σ] {s t : σ} {len : Nat} {data : ByteArray}

theorem readExact_of_none (h : ReadStream.read s len = ⟨data, none, t⟩) :
    readExact len s = .ok data t := by
  unfold readExact
  rw [h]

theorem readExact_of_some {e : Error} (h : ReadStream.read s len = ⟨data, some e, t⟩) :
    readExact len s = .error e t := by
  unfold readExact
  rw [h]

end Exact

/-- The cluster that the table leads to from `cluster` in a number of steps. -/
def Fat.Geometry.hop (g : Geometry) (byte : Nat → UInt8) (cluster : Nat) : (n : Nat) → Nat
  | 0 => cluster
  | n + 1 => g.hop byte (g.tableEntry byte cluster) n

theorem Fat.Geometry.hop_succ (g : Geometry) (byte : Nat → UInt8) (cluster n : Nat) :
    g.hop byte cluster (n + 1) = g.tableEntry byte (g.hop byte cluster n) := by
  induction n generalizing cluster with
  | zero => rfl
  | succ n ih => exact ih (g.tableEntry byte cluster)

/-- From a cluster the table leads on `n` times. -/
def Fat.Geometry.Leads (g : Geometry) (byte : Nat → UInt8) (cluster n : Nat) : Prop :=
  ∀ k, k < n → g.LeadsOn byte (g.hop byte cluster k)

theorem Fat.Geometry.Leads.cons {g : Geometry} {byte : Nat → UInt8} {cluster n : Nat}
    (h : g.LeadsOn byte cluster) (hrest : g.Leads byte (g.tableEntry byte cluster) n) :
    g.Leads byte cluster (n + 1) := by
  intro k hk
  cases k with
  | zero => exact h
  | succ k => exact hrest k (Nat.lt_of_succ_lt_succ hk)

namespace ChainStream

/-! ## Seeking -/

/-- How following `n` links from `cluster` can fail. After links that were followed there is one
that leads nowhere, or one that is not read, for a reason. -/
inductive Lost (s : ChainStream) (cluster n : Nat) : Error → Prop where
  | chain {k : Nat} : k < n → s.volume.geometry.Leads s.volume.disk.byte cluster k →
      ¬ s.volume.geometry.LeadsOn s.volume.disk.byte
        (s.volume.geometry.hop s.volume.disk.byte cluster k) → Lost s cluster n .integrity
  | unread {k : Nat} {e : Error} : k < n → s.volume.geometry.Leads s.volume.disk.byte cluster k →
      s.volume.geometry.HasCluster (s.volume.geometry.hop s.volume.disk.byte cluster k) →
      s.volume.geometry.Unread s.volume.disk
        (s.volume.geometry.hop s.volume.disk.byte cluster k) e → Lost s cluster n e

/-- After a link that was followed, which only reads, a cursor is lost as it would be without. -/
theorem Lost.cons {s t : ChainStream} {cluster n : Nat} {e : Error}
    (hreads : s.volume.Reads t.volume) (hc : s.volume.geometry.LeadsOn s.volume.disk.byte cluster)
    (h : t.Lost (s.volume.geometry.tableEntry s.volume.disk.byte cluster) n e) :
    s.Lost cluster (n + 1) e := by
  have hm : s.volume.disk.SameMedium t.volume.disk := hreads.drive.medium
  cases h with
  | @chain k hk hbefore hnone =>
      rw [hreads.geometry, hm.byte] at hbefore hnone
      exact .chain (Nat.succ_lt_succ hk) (.cons hc hbefore) hnone
  | @unread k _ hk hbefore hhas hunread =>
      rw [hreads.geometry, hm.byte] at hbefore hhas hunread
      exact .unread (Nat.succ_lt_succ hk) (.cons hc hbefore) hhas (hunread.same hm)

theorem ends_followMany (hops cluster : Nat) {s : ChainStream} (hs : s.volume.drive.Coherent) :
    Ends (followMany hops cluster s)
      (fun last t => (∃ w, s.volume.Reads w ∧ t = { s with volume := w })
        ∧ last = s.volume.geometry.hop s.volume.disk.byte cluster hops
        ∧ s.volume.geometry.Leads s.volume.disk.byte cluster hops)
      (fun e t => s.Moved t ∧ s.Lost cluster hops e) := by
  induction hops generalizing cluster s with
  | zero => exact ⟨⟨s.volume, .refl hs, rfl⟩, rfl, fun k hk => absurd hk (Nat.not_lt_zero k)⟩
  | succ hops ih =>
      unfold followMany
      rw [ends_bind]
      refine (ends_follow hs cluster).mono ?_ ?_
      · intro next t h
        obtain ⟨⟨w, hw, rfl⟩, hc, rfl, _⟩ := h
        refine (ih _ hw.drive.coherent).mono ?_ ?_
        · intro last t h
          obtain ⟨⟨u, hu, rfl⟩, rfl, hleads⟩ := h
          have hm : s.volume.disk.SameMedium w.disk := hw.drive.medium
          dsimp only at hleads ⊢
          rw [hw.geometry, hm.byte] at hleads ⊢
          exact ⟨⟨u, hw.trans hu, rfl⟩, rfl, hleads.cons hc⟩
        · intro e t h
          obtain ⟨hmoved, hlost⟩ := h
          exact ⟨⟨hw.trans hmoved.volume, hmoved.start, hmoved.failure⟩, hlost.cons hw hc⟩
      · intro e t h
        obtain ⟨hm, h⟩ := h
        refine ⟨hm.toMoved, ?_⟩
        have hbefore : s.volume.geometry.Leads s.volume.disk.byte cluster 0 :=
          fun i hi => absurd hi (Nat.not_lt_zero i)
        rcases h with ⟨rfl, hnone, _⟩ | ⟨hc, hunread⟩
        · exact .chain (Nat.succ_pos hops) hbefore hnone
        · exact .unread (Nat.succ_pos hops) hbefore hc hunread

/-- How a seek can fail: it is lost on the way, or inside a sector of what is no cluster. -/
inductive Misses (s : ChainStream) (position : Nat) : Error → Prop where
  | lost {e : Error} :
      s.Lost s.start ((position - 1) / s.volume.geometry.clusterBytes) e → Misses s position e
  | sector : position % sectorSize ≠ 0 →
      s.volume.geometry.Leads s.volume.disk.byte s.start
        ((position - 1) / s.volume.geometry.clusterBytes) →
      ¬ s.volume.geometry.HasCluster (s.volume.geometry.hop s.volume.disk.byte s.start
        ((position - 1) / s.volume.geometry.clusterBytes)) → Misses s position .integrity

/-- **A seek puts the cursor on the cluster of the byte before its position.** -/
theorem ends_seekFrom (position : Nat) {s : ChainStream} (hs : s.volume.drive.Coherent) :
    Ends (seekFrom position s)
      (fun _ t => s.Moved t ∧ t.Ready ∧ t.position = position
        ∧ t.cluster = s.volume.geometry.hop s.volume.disk.byte s.start
            ((position - 1) / s.volume.geometry.clusterBytes)
        ∧ s.volume.geometry.Leads s.volume.disk.byte s.start
            ((position - 1) / s.volume.geometry.clusterBytes))
      (fun e t => s.Moved t ∧ s.Misses position e) := by
  unfold seekFrom
  simp only [ends_bind, ends_get, ends_modify]
  refine (ends_followMany _ _ hs).mono ?_ fun _ _ h => ⟨h.1, .lost h.2⟩
  intro cluster t h
  obtain ⟨⟨w, hw, rfl⟩, rfl, hleads⟩ := h
  split
  · -- inside a sector the cursor has to know which one it is
    rename_i hoff
    simp only [ends_bind, ends_modify]
    refine (ends_clusterSector _ _).mono ?_ ?_
    · intro base t h
      obtain ⟨rfl, hc, rfl⟩ := h
      refine ⟨⟨hw, rfl, rfl⟩, ⟨hw.drive.coherent, fun _ => hc, fun _ => ?_⟩, rfl, rfl, hleads⟩
      show _ + sectorIndex s.volume.geometry position
        = w.geometry.firstSector _ + sectorIndex w.geometry position
      rw [hw.geometry]
    · intro e t h
      obtain ⟨rfl, hc, rfl⟩ := h
      exact ⟨⟨hw, rfl, rfl⟩, .sector hoff hleads (hw.geometry ▸ hc)⟩
  · rename_i hoff
    exact ⟨⟨hw, rfl, rfl⟩, ⟨hw.drive.coherent, fun h => absurd h hoff, fun h => absurd h hoff⟩,
      rfl, rfl, hleads⟩

/-! ## Cursors between requests -/

/-- A cursor as a user finds it: the window agrees with the medium, and the cursor is ready unless
it has failed. -/
structure Sound (s : ChainStream) : Prop where
  coherent : s.volume.drive.Coherent
  ready : s.failure = none → s.Ready

theorem Ready.sound {s : ChainStream} (hs : s.Ready) : s.Sound := ⟨hs.coherent, fun _ => hs⟩

theorem sound_openAt {v : Volume} (hv : v.drive.Coherent) (cluster : Nat) :
    (v.openAt cluster).Sound :=
  Ready.sound ⟨hv, fun h => absurd rfl h, fun h => absurd rfl h⟩

/-- A failed cursor is sound if the window is. -/
theorem sound_failed {s : ChainStream} (hs : s.volume.drive.Coherent) (e : Error) :
    Sound { s with failure := some e } :=
  ⟨hs, nofun⟩

section Guard

variable {α : Type} {operation : EStateM Error ChainStream α} {s t : ChainStream} {e : Error}

theorem guarded_of_failed (h : s.failure = some e) : guarded operation s = .error e s := by
  unfold guarded
  rw [h]

theorem guarded_of_ok {a : α} (hnone : s.failure = none) (h : operation s = .ok a t) :
    guarded operation s = .ok a t := by
  unfold guarded
  rw [hnone]
  dsimp only
  rw [h]

theorem guarded_of_error (hnone : s.failure = none) (h : operation s = .error e t) :
    guarded operation s = .error e { t with failure := some e } := by
  unfold guarded
  rw [hnone]
  dsimp only
  rw [h]

/-- A guarded operation refuses to work, or is the operation and keeps its error. -/
theorem ends_guarded {done : α → ChainStream → Prop} {failed : Error → ChainStream → Prop}
    (hrefused : ∀ e, s.failure = some e → failed e s)
    (hop : s.failure = none →
      Ends (operation s) done (fun e t => failed e { t with failure := some e })) :
    Ends (guarded operation s) done failed := by
  cases hf : s.failure with
  | some e =>
      rw [guarded_of_failed hf]
      exact hrefused e hf
  | none =>
      have hends := hop hf
      cases hr : operation s with
      | ok a t =>
          rw [guarded_of_ok hf hr]
          exact hends.of_ok hr
      | error e t =>
          rw [guarded_of_error hf hr]
          exact hends.of_error hr

end Guard

theorem sound_seek (position : Nat) {s : ChainStream} (hs : s.Sound) :
    Ends (seek position s) (fun _ t => t.Sound) (fun _ t => t.Sound) := by
  refine ends_guarded (fun _ _ => hs) fun _ => ?_
  refine (ends_seekFrom position hs.coherent).mono ?_ ?_
  · intro _ t h
    exact h.2.1.sound
  · intro e t h
    exact sound_failed h.1.kept.coherent e

theorem sound_write (data : ByteArray) {s : ChainStream} (hs : s.Sound) :
    Ends (write data s) (fun _ t => t.Sound) (fun _ t => t.Sound) := by
  refine ends_guarded (fun _ _ => hs) fun hnone => ?_
  refine (ends_writeFrom_kept data data.size (hs.ready hnone) (Nat.le_refl _)).mono ?_ ?_
  · intro _ t h
    exact h.2.1.sound
  · intro e t h
    exact sound_failed h.coherent e

/-- A transfer of `len` bytes ends at a word. A cursor that has failed moves none. -/
def Within (s : ChainStream) (len : Nat) : Prop :=
  s.failure = none → s.position + len < wordLimit

theorem Within.of_add {s : ChainStream} {n rest : Nat} (h : s.Within (n + rest)) : s.Within n :=
  fun hnone => by
    have := h hnone
    omega

/-- What is left of a transfer after a piece of it ends where the whole does. -/
theorem within_write {data : ByteArray} {rest : Nat} {s : ChainStream} (hs : s.Sound)
    (h : s.Within (data.size + rest)) :
    Ends (write data s) (fun _ t => t.Within rest) (fun _ t => t.Within rest) := by
  refine ends_guarded (fun e he hnone => absurd (he.symm.trans hnone) nofun) fun hnone => ?_
  refine (ends_writeFrom_kept data data.size (hs.ready hnone) (Nat.le_refl _)).mono ?_ ?_
  · intro _ t ht _
    rw [ht.2.2, Nat.add_assoc]
    exact h hnone
  · intro e t _
    exact nofun

/-- A read by a cursor that has not failed keeps the error it ends with. -/
theorem read_eq_readFrom {s : ChainStream} (hs : s.Ready) (hnone : s.failure = none) (len : Nat) :
    read s len = ⟨(readFrom .empty len s).data, (readFrom .empty len s).error?,
      { (readFrom .empty len s).stream with failure := (readFrom .empty len s).error? }⟩ := by
  obtain ⟨_, _, h⟩ := readFrom_delivers .empty len hs
  have hfailure := h.moved.failure
  unfold read
  rw [hnone]
  dsimp only
  cases hr : readFrom .empty len s with
  | mk got error? rest =>
      rw [hr] at hfailure
      cases error? with
      | none =>
          dsimp only at hfailure ⊢
          rw [← hnone, ← hfailure]
      | some e => rfl

theorem exists_read_eq {s : ChainStream} (hs : s.Ready) (hnone : s.failure = none) (len : Nat) :
    ∃ data error? rest, read s len = ⟨data, error?, { rest with failure := error? }⟩
      ∧ s.Delivers len data error? rest := by
  obtain ⟨data, hdata, h⟩ := readFrom_delivers .empty len hs
  rw [ByteArray.empty_append] at hdata
  rw [← hdata] at h
  exact ⟨_, _, _, read_eq_readFrom hs hnone len, h⟩

/-- A cursor that has failed refuses to read. -/
theorem read_of_failed {s : ChainStream} {e : Error} (he : s.failure = some e) (len : Nat) :
    read s len = ⟨.empty, some e, s⟩ := by
  unfold read
  rw [he]

/-- A read by a cursor refuses to work, or delivers and keeps its error. -/
theorem ends_readExact {s : ChainStream} (hs : s.Sound) (len : Nat)
    {done : ByteArray → ChainStream → Prop} {failed : Error → ChainStream → Prop}
    (hrefused : ∀ e, s.failure = some e → failed e s)
    (hdone : s.failure = none → ∀ data t, s.Delivers len data none t → done data t)
    (hfailed : s.failure = none → ∀ data e t, s.Delivers len data (some e) t →
      failed e { t with failure := some e }) :
    Ends (readExact len s) done failed := by
  cases hf : s.failure with
  | some e =>
      rw [readExact_of_some (read_of_failed hf len)]
      exact hrefused e hf
  | none =>
      obtain ⟨data, error?, t, hr, h⟩ := exists_read_eq (hs.ready hf) hf len
      cases error? with
      | none =>
          -- a cursor that has not failed stays as it is
          have hself : { t with failure := none } = t := by
            rw [← hf, ← h.moved.failure]
          rw [readExact_of_none hr, hself]
          exact hdone hf data t h
      | some e =>
          rw [readExact_of_some hr]
          exact hfailed hf data e t h

theorem sound_readExact (len : Nat) {s : ChainStream} (hs : s.Sound) :
    Ends (readExact len s) (fun _ t => t.Sound) (fun _ t => t.Sound) :=
  ends_readExact hs len (fun _ _ => hs) (fun _ _ _ h => (h.done rfl).2.ready.sound)
    fun _ _ e _ h => sound_failed h.moved.kept.coherent e

/-- What writes keep, fills keep. -/
theorem fill_invariant {I : ChainStream → Prop}
    (hwrite : ∀ data s, I s → Ends (write data s) (fun _ t => I t) (fun _ t => I t))
    (value : UInt8) (len : Nat) {s : ChainStream} (hs : I s) :
    Ends (fill value len s) (fun _ t => I t) (fun _ t => I t) := by
  induction len using Nat.strongRecOn generalizing s with
  | ind len ih =>
      rw [fill]
      split
      · exact hs
      · rw [ends_bind]
        refine (hwrite _ s hs).mono ?_ fun _ _ h => h
        intro _ t ht
        exact ih _ (by unfold fillPiece; omega) ht

end ChainStream

/-- What a user can ask of a cursor. -/
inductive Request where
  | seek (position : UInt32)
  | read (len : Nat)
  | write (data : ByteArray)
  | fill (value : UInt8) (len : Nat)

/-- Carry out a request; the answer of a read is what was read. -/
def Request.perform : Request → EStateM Error ChainStream ByteArray
  | .seek position => do
      ChainStream.seek position.toNat
      return .empty
  | .read len => readExact len
  | .write data => do
      ChainStream.write data
      return .empty
  | .fill value len => do
      CartBoot.fill value len
      return .empty

/-- A request that gets no further than the last word. -/
def Request.Fits : Request → ChainStream → Prop
  | .seek _, _ => True
  | .read len, s => s.Within len
  | .write data, s => s.Within data.size
  | .fill _ len, s => s.Within len

/-- A request that writes nothing. -/
def Request.OnlyReads : Request → Prop
  | .seek _ | .read _ => True
  | .write _ | .fill _ _ => False

/-- What seeks, reads and, if there are any, writes keep, a request keeps. -/
theorem Request.invariant_perform {I : ChainStream → Prop} (r : Request)
    (hseek : ∀ position s, r = .seek position → I s →
      Ends (ChainStream.seek position.toNat s) (fun _ t => I t) (fun _ t => I t))
    (hread : ∀ len s, I s → Ends (readExact len s) (fun _ t => I t) (fun _ t => I t))
    (hwrite : ¬ r.OnlyReads → ∀ data s, I s →
      Ends (ChainStream.write data s) (fun _ t => I t) (fun _ t => I t))
    {s : ChainStream} (hs : I s) : Ends (r.perform s) (fun _ t => I t) (fun _ t => I t) := by
  unfold perform
  cases r with
  | seek position =>
      simp only [ends_bind, ends_pure]
      exact hseek position s rfl hs
  | read len => exact hread len s hs
  | write data =>
      simp only [ends_bind, ends_pure]
      exact hwrite id data s hs
  | fill value len =>
      simp only [ends_bind, ends_pure]
      exact ChainStream.fill_invariant (hwrite id) value len hs

/-- Every request leaves a sound cursor, whichever way it ends. -/
theorem Request.sound_perform (r : Request) {s : ChainStream} (hs : s.Sound) :
    Ends (r.perform s) (fun _ t => t.Sound) (fun _ t => t.Sound) :=
  r.invariant_perform (fun position _ _ hs => ChainStream.sound_seek position.toNat hs)
    (fun len _ hs => ChainStream.sound_readExact len hs)
    (fun _ data _ hs => ChainStream.sound_write data hs) hs

end CartBoot
