import CartBoot.Proofs.Selection
import CartBoot.Stream.Memory

/-!
# Restoring and saving a range

A load and a save of one range are two halves that meet in the bytes of the
memory. The load puts there what the stream supplied. The save sends the stream
what is there, in writes that end where the pieces end; how the bytes are cut into
writes is not said, `Sent` only joins them.

Both name the memory by its linear addresses. It does not matter to a save of
program memory which memory the RAM window shows, since it uses another window.
-/

namespace CartBoot

/-! ## What a window shows -/

namespace Machine

/-- The memory behind a window. -/
def shown (m : Machine) (w : Window) : BankedMemory :=
  m.ram (!m.showsSram w)

theorem windowBytes_eq (m : Machine) (w : Window) (offset len : Nat) :
    m.windowBytes w offset len = (m.shown w).read (m.banks w) offset len := by
  have hmemory : (if m.showsSram w then m.sram else m.psram) = m.shown w := by
    unfold shown Machine.ram
    cases m.showsSram w <;> rfl
  unfold windowBytes
  rw [hmemory]

theorem windowBytes_ofLinear {m : Machine} {w : Window} {n : Nat}
    (hbank : m.banks w = (BankedAddr.ofLinear n).bank) (h : n < (m.shown w).bytes.size)
    (h32 : n < 0x100000000) (len : Nat) :
    m.windowBytes w (BankedAddr.ofLinear n).offset.toNat len
      = (m.shown w).bytes.extract n (n + len) := by
  rw [windowBytes_eq, hbank]
  unfold BankedMemory.read
  rw [BankedMemory.bankStart_ofLinear h h32]

theorem SameMemory.shown {m m' : Machine} (h : m.SameMemory m') (hflash : m'.flash = m.flash)
    (w : Window) : m'.shown w = m.shown w := by
  unfold Machine.shown showsSram
  rw [hflash, h.ram]

end Machine

namespace Copier

variable {τ π : Type}

/-! ## Saving -/

section Save

variable [WriteStream τ]

/-- The bytes that brought a stream from one state to another, in writes that were accepted. -/
inductive Sent (t : τ) : ByteArray → τ → Prop
  | nothing : Sent t .empty t
  | write {x y : ByteArray} {t' t'' : τ} : Sent t x t' → WriteStream.write y t' = .ok () t'' →
      Sent t (x ++ y) t''

/-- What `record` shows of a stream grows by the bytes of every write that is accepted, and does not
change with one that is refused. -/
def Records (record : τ → ByteArray) : Prop :=
  ∀ x t, Ends (WriteStream.write x t) (fun _ t' => record t' = record t ++ x)
    (fun _ t' => record t' = record t)

/-- A stream that records what it accepts has recorded what it was sent. -/
theorem Sent.record_eq {record : τ → ByteArray} (hrecord : Records record) {t t' : τ}
    {x : ByteArray} (h : Sent t x t') : record t' = record t ++ x := by
  induction h with
  | nothing => exact ByteArray.append_empty.symm
  | @write x y t' t'' _ hwrite ih =>
      rw [(hrecord y t').of_ok hwrite, ih, ByteArray.append_assoc]

/-- In a state that is `ready` the stream accepts any write, and is ready again. -/
def Takes (ready : τ → Prop) : Prop :=
  ∀ t x, ready t → ∃ t', WriteStream.write x t = .ok () t' ∧ ready t'

/-- From any state in `after p` the stream accepts what follows byte `p` of `data`, in pieces of any
size. -/
def Absorbs (data : ByteArray) (after : Nat → τ → Prop) : Prop :=
  ∀ p n t, after p t → p + n ≤ data.size →
    ∃ t', WriteStream.write (data.extract p (p + n)) t = .ok () t' ∧ after (p + n) t'

/-- A beginning that was sent and an accepted write of what follows are a longer beginning. -/
theorem Sent.next {t t' t'' : τ} {data : ByteArray} {p n : Nat} (h : Sent t (data.extract 0 p) t')
    (hwrite : WriteStream.write (data.extract p (p + n)) t' = .ok () t'') :
    Sent t (data.extract 0 (p + n)) t'' := by
  rw [ByteArray.extract_eq_extract_append_extract p (Nat.zero_le _) (Nat.le_add_right _ _)]
  exact h.write hwrite

/-- A stream that accepts any write absorbs anything, and has been sent what it absorbed. -/
theorem Takes.absorbs {ready : τ → Prop} (h : Takes ready) (t : τ) (data : ByteArray) :
    Absorbs data fun p t' => ready t' ∧ Sent t (data.extract 0 p) t' := by
  intro p n t' ht' hle
  obtain ⟨u, hwrite, hu⟩ := h t' (data.extract p (p + n)) ht'.1
  exact ⟨u, hwrite, hu, ht'.2.next hwrite⟩

/-- In a state in `after p` the stream may accept what follows byte `p` of `data`, and is then in
`after` of its end, or refuse it, and is then in `refused p`. -/
def Meets (data : ByteArray) (after refused : Nat → τ → Prop) : Prop :=
  ∀ p n t, after p t → 0 < n → p + n ≤ data.size →
    Ends (WriteStream.write (data.extract p (p + n)) t)
      (fun _ t' => after (p + n) t') (fun _ t' => refused p t')

/-- A stream that absorbs a byte string refuses nothing of it. -/
theorem Absorbs.meets {data : ByteArray} {after : Nat → τ → Prop} (h : Absorbs data after) :
    Meets data after fun _ _ => False := by
  intro p n t ht _ hle
  obtain ⟨t', hwrite, ht'⟩ := h p n t ht hle
  rw [hwrite]
  exact ht'

/-- A move to the stream writes what the memory has at the place that is selected. -/
theorem ends_toStream {w : Window} {address n : Nat} {c : Copier τ π}
    (hbank : c.machine.banks w = (BankedAddr.ofLinear address).bank)
    (hin : address < (c.machine.shown w).bytes.size) (h32 : address < 0x100000000)
    {done : Unit → Copier τ π → Prop} {failed : Error → Copier τ π → Prop} :
    Ends (toStream w (BankedAddr.ofLinear address).offset.toNat n c) done failed ↔
      Ends (WriteStream.write ((c.machine.shown w).bytes.extract address (address + n)) c.stream)
        (fun a u => done a { c with stream := u })
        (fun e u => failed e { c with stream := u }) := by
  unfold toStream
  rw [ends_bind, ends_get, ends_onStream, Machine.windowBytes_ofLinear hbank hin h32]

variable [Progress π] {m : Machine} {w : Window} {t : τ} {c : Copier τ π}
  {first stop address : Nat} {selected : Option UInt16} {after refused : Nat → τ → Prop}
  {ready : τ → Prop} {heard : Nat → π → Prop} {cancels : Prop}

/-- A save from a window of `m` that has come to `address`. -/
structure Sending (after : Nat → τ → Prop) (heard : Nat → π → Prop) (m : Machine) (w : Window)
    (first address : Nat) (selected : Option UInt16) (c : Copier τ π) : Prop where
  le : first ≤ address
  same : m.SameMemory c.machine
  flash : c.machine.flash = m.flash
  banks (v : Window) : v ≠ w → c.machine.banks v = m.banks v
  selected (b : UInt16) : selected = some b → c.machine.banks w = b
  stream : after (address - first) c.stream
  hook : heard address c.hook

/-- One piece of such a save. It ends before its time if the stream refuses the piece, or if the
hook cancels the save and this was not the last piece. -/
theorem sending_copyPiece (hmeets : Meets ((m.shown w).bytes.extract first stop) after refused)
    (hheeds : Heeds τ first stop heard cancels) (hfit : stop ≤ (m.shown w).bytes.size)
    (hlt : address < stop) (h : Sending after heard m w first address selected c) :
    Ends (copyPiece toStream w first stop address selected c)
      (fun _ d => Sending after heard m w first (pieceStop address stop)
        (some (BankedAddr.ofLinear address).bank) d)
      (fun _ d => m.SameMemory d.machine
        ∧ ∃ p, p < stop - first ∧ (cancels ∧ after p d.stream ∨ refused p d.stream)) := by
  have hle := h.le
  have hnext := lt_pieceStop hlt
  have hstop : pieceStop address stop ≤ stop := Nat.min_le_right _ _
  -- the bank
  rw [ends_copyPiece]
  refine (ends_selectBank h.selected).mono ?_ fun _ _ hfail => hfail.elim
  intro _ d hd
  obtain ⟨m', rfl, hbank, hbanks, hflash, hset⟩ := hd
  have hsame : m.SameMemory m' := by
    rcases hset with rfl | rfl
    · exact h.same
    · exact h.same.trans ⟨rfl, rfl, rfl⟩
  have hshown : m'.shown w = m.shown w := hsame.shown (hflash.trans h.flash) w
  have hlow : address < lastBoundary :=
    Nat.lt_trans (Nat.lt_of_lt_of_le hlt hfit) (size_lt_lastBoundary _)
  refine ⟨fun _ => ?_, fun hlarge => absurd hlow hlarge⟩
  -- the bytes
  have hmoved : address - first + (pieceStop address stop - address)
      = pieceStop address stop - first := by omega
  have hwrite := hmeets (address - first) (pieceStop address stop - address) c.stream h.stream
    (by omega) (by rw [ByteArray.size_extract]; omega)
  rw [hmoved, ByteArray.extract_extract, Nat.add_sub_cancel' hle,
    Nat.add_sub_cancel' (Nat.le_trans hle (Nat.le_of_lt hnext)), Nat.min_eq_left hstop] at hwrite
  have h32 : address < 0x100000000 := Nat.lt_trans hlow (by decide)
  rw [ends_toStream hbank (by rw [hshown]; omega) h32, hshown,
    Nat.add_sub_cancel' (Nat.le_of_lt hnext)]
  refine hwrite.mono ?_ fun _ t ht => ⟨hsame, address - first, by omega, .inr ht⟩
  intro _ t ht
  -- the hook
  refine (hheeds address ⟨t, m', c.hook⟩ hlt h.hook).mono ?_ ?_
  · rintro _ _ ⟨hook, rfl, hheard⟩
    exact ⟨by omega, hsame, hflash.trans h.flash, fun v hv => (hbanks v hv).trans (h.banks v hv),
      fun b hb => hbank.trans (Option.some.inj hb), ht, hheard⟩
  · rintro _ _ ⟨hcancels, hmore, hook, rfl⟩
    exact ⟨hsame, pieceStop address stop - first, by omega, .inl ⟨hcancels, ht⟩⟩

/-- **A save sends the bytes of its range**, or those before the piece that the stream refused or
the hook cancelled it after; it changes no memory. -/
theorem ends_copy_toStream {flash : Option Bool} {start : BankedAddr} {len : Nat}
    (hmeets : Meets ((m.shown w).bytes.extract start.linear (start.linear + len)) after refused)
    (hheeds : Heeds τ start.linear (start.linear + len) heard cancels)
    (hstream : after 0 c.stream) (hhook : heard start.linear c.hook)
    (hopened : m = flash.elim c.machine fun enabled => c.machine.setFlash enabled)
    (hfit : 0 < len → start.linear + len ≤ (m.shown w).bytes.size) :
    Ends (copy toStream w flash start len c)
      (fun _ d => after len d.stream ∧ c.machine.SameMemory d.machine)
      (fun _ d => c.machine.SameMemory d.machine
        ∧ ∃ p, p < len ∧ (cancels ∧ after p d.stream ∨ refused p d.stream)) := by
  have hsame : c.machine.SameMemory m := by
    subst hopened
    cases flash <;> exact ⟨rfl, rfl, rfl⟩
  have hleave : ∀ m' : Machine, m'.SameMemory ((BankScope.opened c.machine w flash).leave m') := by
    intro m'
    cases flash <;> exact ⟨rfl, rfl, rfl⟩
  unfold copy
  split
  · rename_i hempty
    exact ⟨hempty ▸ hstream, rfl, rfl, rfl⟩
  · rename_i hlen
    replace hfit := hfit (Nat.pos_of_ne_zero hlen)
    have h32 : start.linear + len < 0x100000000 := lt_wordLimit_of_le hfit
    rw [ends_withRegisters, ← hopened, copyRange_eq, if_neg (Nat.not_le.mpr h32)]
    have hbegin : Sending after heard m w start.linear start.linear none
        { c with machine := m } := by
      refine ⟨Nat.le_refl _, ⟨rfl, rfl, rfl⟩, rfl, fun _ _ => rfl, nofun, ?_, hhook⟩
      rw [Nat.sub_self]
      exact hstream
    refine (ends_copyFrom (fun _ _ _ => sending_copyPiece hmeets hheeds hfit)
      (Nat.le_add_right _ _) hbegin).mono ?_ ?_
    · rintro _ d ⟨_, hd⟩
      have hat := hd.stream
      rw [Nat.add_sub_cancel_left] at hat
      exact ⟨hat, hsame.trans (hd.same.trans (hleave _))⟩
    · rintro _ d ⟨hd, p, hp, hfail⟩
      exact ⟨hsame.trans (hd.trans (hleave _)), p, by omega, hfail⟩

/-- **A stream that absorbs the bytes of a range is given them** by a save, which changes no
memory. -/
theorem exists_copy_absorbed {flash : Option Bool} {start : BankedAddr} {len : Nat}
    (habsorbs : Absorbs ((m.shown w).bytes.extract start.linear (start.linear + len)) after)
    (hstream : after 0 c.stream) (hopened : m = flash.elim c.machine fun enabled =>
      c.machine.setFlash enabled) (hfit : 0 < len → start.linear + len ≤ (m.shown w).bytes.size)
    (hhook : Undisturbed start.linear (start.linear + len) start.linear c.hook) :
    ∃ d, copy toStream w flash start len c = .ok () d ∧ after len d.stream
      ∧ c.machine.SameMemory d.machine := by
  have hsave := ends_copy_toStream habsorbs.meets heeds_undisturbed hstream hhook hopened hfit
  obtain ⟨_, d, hd, hpost⟩ := hsave.exists_ok fun _ _ ⟨_, _, _, hfail⟩ =>
    hfail.elim (fun h => h.1) id
  exact ⟨d, hd, hpost⟩

/-- **A save sends the bytes of its range** and changes no memory. -/
theorem exists_copy_toStream (htakes : Takes ready) {flash : Option Bool} {start : BankedAddr}
    {len : Nat} (hready : ready c.stream) (hopened : m = flash.elim c.machine fun enabled =>
      c.machine.setFlash enabled) (hfit : 0 < len → start.linear + len ≤ (m.shown w).bytes.size)
    (hhook : Undisturbed start.linear (start.linear + len) start.linear c.hook) :
    ∃ d, copy toStream w flash start len c = .ok () d
      ∧ Sent c.stream ((m.shown w).bytes.extract start.linear (start.linear + len)) d.stream
      ∧ c.machine.SameMemory d.machine := by
  have hnothing : Sent c.stream
      (((m.shown w).bytes.extract start.linear (start.linear + len)).extract 0 0) c.stream := by
    rw [ByteArray.extract_same]
    exact .nothing
  obtain ⟨d, hd, ⟨_, hsent⟩, hsame⟩ := exists_copy_absorbed (htakes.absorbs c.stream _)
    ⟨hready, hnothing⟩ hopened hfit hhook
  refine ⟨d, hd, ?_, hsame⟩
  rwa [ByteArray.extract_extract, Nat.add_zero, Nat.min_self] at hsent

end Save

/-! ## Streams in memory -/

theorem ends_write_byteSink (x : ByteArray) (t : ByteSink) :
    Ends (WriteStream.write x t) (fun _ u => u = { t with data := t.data ++ x })
      (fun _ u => u = t ∧ t.limit ≠ none) := by
  simp only [WriteStream.write, ends_bind, ends_get]
  split
  · rename_i hlimit
    refine ⟨rfl, fun hnone => ?_⟩
    rw [hnone] at hlimit
    cases hlimit
  · rfl

/-- A sink records what it accepts. -/
theorem records_byteSink : Records ByteSink.data := by
  intro x t
  refine (ends_write_byteSink x t).mono ?_ ?_
  · rintro _ _ rfl
    rfl
  · rintro _ _ ⟨rfl, _⟩
    rfl

/-- A sink holds what it was sent behind what it held. -/
theorem Sent.data_eq {t t' : ByteSink} {x : ByteArray} (h : Sent t x t') :
    t'.data = t.data ++ x :=
  h.record_eq records_byteSink

/-- A sink without a limit accepts every write. -/
theorem takes_byteSink : Takes fun t : ByteSink => t.limit = none := by
  intro t x ht
  obtain ⟨_, u, hu, rfl⟩ := (ends_write_byteSink x t).exists_ok fun _ _ hfail => hfail.2 ht
  exact ⟨_, hu, ht⟩

/-- A source supplies its bytes. -/
theorem supplies_byteSource (data : ByteArray) :
    Supplies data fun p s => s = (⟨data, p, none⟩ : ByteSource) := by
  intro p n s hs hle
  subst hs
  refine ⟨_, ?_, rfl⟩
  simp only [ReadStream.read]
  rw [if_neg]
  rintro (hsize | hlimit)
  · omega
  · cases hlimit

/-! ## One range, both ways -/

section Range

variable {σ : Type}

/-- Load a range of static RAM, or of program RAM if `flash` is set. -/
def load [ReadStream σ] [Progress π] (flash : Bool) (start : BankedAddr) (len : Nat) :
    EStateM Error (Copier σ π) Unit :=
  if flash then loadPsram start len else loadSram start len

/-- Save a range of the same memory. -/
def save [WriteStream τ] [Progress π] (flash : Bool) (start : BankedAddr) (len : Nat) :
    EStateM Error (Copier τ π) Unit :=
  if flash then saveRom start len else saveSram start len

/-- The window that a save uses. -/
def saveWindow (flash : Bool) : Window :=
  if flash then .rom0 else .ram

/-- The flash enable that a save needs; program memory is saved with any. -/
def saveEnable (flash : Bool) : Option Bool :=
  if flash then none else some false

/-- A save of the range from `m` sends `data` to any stream that takes it, unless its hook cancels
it. It changes no memory, and selects the banks of the range. -/
def Saves (m : Machine) (flash : Bool) (start : BankedAddr) (len : Nat) (data : ByteArray) : Prop :=
  ∀ {τ π : Type} [WriteStream τ] [Progress π] (ready : τ → Prop) (c : Copier τ π),
    Takes ready → ready c.stream → c.machine = m →
    Undisturbed start.linear (start.linear + len) start.linear c.hook →
      ∃ d, save flash start len c = .ok () d ∧ Sent c.stream data d.stream
        ∧ m.SameMemory d.machine
        ∧ Switched m (saveWindow flash) (saveEnable flash) start len d.machine

theorem load_eq [ReadStream σ] [Progress π] (flash : Bool) (start : BankedAddr) (len : Nat) :
    (load flash start len : EStateM Error (Copier σ π) Unit)
      = copy fromStream .ram (some flash) start len := by
  cases flash <;> rfl

theorem save_eq [WriteStream τ] [Progress π] (flash : Bool) (start : BankedAddr) (len : Nat) :
    (save flash start len : EStateM Error (Copier τ π) Unit)
      = copy toStream (saveWindow flash) (saveEnable flash) start len := by
  cases flash <;> rfl

variable {m : Machine} {flash : Bool} {start : BankedAddr} {len : Nat}

/-- The range lies in the memory; an empty range lies in any memory. -/
def InMemory (memory : BankedMemory) (start : BankedAddr) (len : Nat) : Prop :=
  0 < len → start.linear + len ≤ memory.bytes.size

/-- A save finds the memory of its range behind its window. -/
theorem saves_range (hfit : InMemory (m.ram flash) start len) :
    Saves m flash start len ((m.ram flash).bytes.extract start.linear (start.linear + len)) := by
  intro τ π _ _ ready c htakes hready hm hhook
  subst hm
  obtain ⟨opened, hopened⟩ : ∃ opened, opened = (saveEnable flash).elim c.machine fun enabled =>
      c.machine.setFlash enabled := ⟨_, rfl⟩
  have hshown : opened.shown (saveWindow flash) = c.machine.ram flash := by
    subst hopened
    cases flash <;> rfl
  rw [save_eq]
  obtain ⟨d, hd, hsent, hsame⟩ := exists_copy_toStream htakes hready hopened
    (by rw [hshown]; exact hfit) hhook
  rw [hshown] at hsent
  exact ⟨d, hd, hsent, hsame, (ends_copy_registers quiet_toStream _ _ _ _).of_ok hd⟩

/-- A load fills its range. -/
theorem exists_load_range [ReadStream σ] [Progress π] {data : ByteArray} {after : Nat → σ → Prop}
    {c : Copier σ π} (hsupplies : Supplies data after) (hstream : after 0 c.stream)
    (hfit : InMemory (c.machine.ram flash) start data.size)
    (hhook : Undisturbed start.linear (start.linear + data.size) start.linear c.hook) :
    ∃ d, load flash start data.size c = .ok () d
      ∧ c.machine.Loaded flash start.linear data d.machine := by
  rw [load_eq]
  rcases Nat.eq_zero_or_pos data.size with hempty | hpos
  · unfold copy
    rw [if_pos hempty]
    exact ⟨c, rfl, Machine.SameMemory.loaded ⟨rfl, rfl, rfl⟩ hempty flash start.linear⟩
  · obtain ⟨d, hd, hloaded, _⟩ := exists_load hsupplies flash hstream (hfit hpos) hhook
    exact ⟨d, hd, hloaded⟩

/-- What was loaded into a range is in it. -/
theorem extract_loaded {m' : Machine} {data : ByteArray}
    (hloaded : m.Loaded flash start.linear data m')
    (hfit : InMemory (m.ram flash) start data.size) :
    (m'.ram flash).bytes.extract start.linear (start.linear + data.size) = data := by
  rcases Nat.eq_zero_or_pos data.size with hempty | hpos
  · rw [hempty, Nat.add_zero, ByteArray.extract_same]
    exact (ByteArray.size_eq_zero_iff.mp hempty).symm
  · rw [hloaded.bytes]
    exact ByteArray.extract_patch_self (hfit hpos)

/-- **Copies move exactly their range.** A save sends the bytes of the range, in order, and changes
no memory. A load puts the bytes of its stream into the range, in order, and changes no other
byte; saved again, the range gives these bytes. Both write the bank register of their window
with each bank of the range once, in ascending order, and then put the registers back.

A memory has fewer banks than 16 bits can name, so its last byte can be moved too. -/
theorem copies_move_range (m : Machine) (flash : Bool) (start : BankedAddr) (len : Nat)
    (hfit : InMemory (m.ram flash) start len) :
    Saves m flash start len ((m.ram flash).bytes.extract start.linear (start.linear + len))
    ∧ ∀ {σ π : Type} [ReadStream σ] [Progress π] (data : ByteArray) (after : Nat → σ → Prop)
        (c : Copier σ π), data.size = len → Supplies data after → after 0 c.stream →
        c.machine = m → Undisturbed start.linear (start.linear + len) start.linear c.hook →
          ∃ d, load flash start len c = .ok () d
            ∧ m.Loaded flash start.linear data d.machine
            ∧ Switched m .ram (some flash) start len d.machine
            ∧ Saves d.machine flash start len data := by
  refine ⟨saves_range hfit, ?_⟩
  intro σ π _ _ data after c hlen hsupplies hstream hm hhook
  subst hlen hm
  obtain ⟨d, hd, hloaded⟩ := exists_load_range hsupplies hstream hfit hhook
  have hswitched : Switched c.machine .ram (some flash) start data.size d.machine := by
    rw [load_eq] at hd
    exact (ends_copy_registers quiet_fromStream _ _ _ _).of_ok hd
  -- what the save finds is what the load put there
  have hsize : (d.machine.ram flash).bytes.size = (c.machine.ram flash).bytes.size := by
    rw [hloaded.bytes, ByteArray.size_patch]
  have hagain : Saves d.machine flash start data.size
      ((d.machine.ram flash).bytes.extract start.linear (start.linear + data.size)) := by
    refine saves_range fun hpos => ?_
    rw [hsize]
    exact hfit hpos
  rw [extract_loaded hloaded hfit] at hagain
  exact ⟨d, hd, hloaded, hswitched, hagain⟩

/-- Four bytes, two on either side of a bank boundary. -/
theorem straddling_copies_move_range :
    ∃ d : Copier ByteSource Silent,
      load false ⟨0, 0xFFFE⟩ 4
          ⟨⟨[1, 2, 3, 4].toByteArray, 0, none⟩, Machine.erased 1 2, ⟨⟩⟩ = .ok () d
        ∧ (Machine.erased 1 2).Loaded false 0xFFFE [1, 2, 3, 4].toByteArray d.machine
        ∧ d.machine.events.toList
            = [.flash false, .bank .ram 0, .bank .ram 1, .bank .ram 0, .flash false]
        ∧ ∃ d' : Copier ByteSink Silent,
            save false ⟨0, 0xFFFE⟩ 4 ⟨{}, d.machine, ⟨⟩⟩ = .ok () d'
              ∧ d'.stream.data = [1, 2, 3, 4].toByteArray := by
  have hlinear : (⟨0, 0xFFFE⟩ : BankedAddr).linear = 0xFFFE := by decide
  have hquiet : ∀ hook : Silent, Undisturbed 0xFFFE (0xFFFE + 4) 0xFFFE hook :=
    undisturbed_of_proceeds (fun _ _ _ h => by cases h) _
  have hram : (Machine.erased 1 2).ram false = .erased 2 := rfl
  have hfit : InMemory ((Machine.erased 1 2).ram false) ⟨0, 0xFFFE⟩ 4 := by
    intro _
    rw [hram, BankedMemory.size_eq, BankedMemory.bankCount_erased, hlinear]
    decide
  obtain ⟨_, hboth⟩ := copies_move_range (Machine.erased 1 2) false ⟨0, 0xFFFE⟩ 4 hfit
  have hload := hboth [1, 2, 3, 4].toByteArray _
    (⟨⟨[1, 2, 3, 4].toByteArray, 0, none⟩, Machine.erased 1 2, ⟨⟩⟩ : Copier ByteSource Silent) rfl
    (supplies_byteSource _) rfl rfl
  rw [hlinear] at hload
  obtain ⟨d, hd, hloaded, hswitched, hsaves⟩ := hload (hquiet _)
  have hsave := hsaves _ (⟨{}, d.machine, ⟨⟩⟩ : Copier ByteSink Silent) takes_byteSink rfl rfl
  rw [hlinear] at hsave
  obtain ⟨d', hd', hsent, _⟩ := hsave (hquiet _)
  refine ⟨d, hd, hloaded, hswitched.events.trans ?_, d', hd',
    hsent.data_eq.trans ByteArray.empty_append⟩
  rw [switches, hlinear]
  rfl

end Range

end Copier

end CartBoot
