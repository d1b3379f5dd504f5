import CartBoot.Proofs.Placement

/-!
# A failed boot leaves the machine recoverable

The second stage can fail while it reads the descriptor, while it looks for a place
for the image, in any piece of the copy, at a hook that cancels it, and at a patch
that is too large. Whatever it was, the menu's memory is as it was: internal RAM
and static RAM are not written, every bank and the flash enable are put back, and
no register of the cartridge or the system is touched but the orientation icon.

The copy itself may have come to any point. Until then it has only put bytes where
the image belongs, and has only selected banks and set the flash enable; this is
`Machine.Within`, and each piece of a copy keeps it whether or not it fails.
-/

namespace CartBoot

open Fat

/-- Selecting a bank, or setting the flash enable. -/
def Event.IsSwitch : Event → Prop
  | .bank _ _ => True
  | .flash _ => True
  | _ => False

/-! ## Changes within a stretch of program RAM -/

namespace Machine

/-- Between `m` and `m'` banks were selected, the flash enable was set, and bytes of program RAM
were written, all of them from `start` to `stop` if there is that much of it. -/
structure Within (start stop : Nat) (m m' : Machine) : Prop where
  iram : m'.iram = m.iram
  sram : m'.sram = m.sram
  ports : m'.ports = m.ports
  size : m'.psram.bytes.size = m.psram.bytes.size
  psram : stop ≤ m.psram.bytes.size → ∀ i, i < start ∨ stop ≤ i →
    m'.psram.bytes.byteAt i = m.psram.bytes.byteAt i
  events : ∃ switches : List Event, m'.events.toList = m.events.toList ++ switches
    ∧ ∀ e ∈ switches, e.IsSwitch

/-- The same, with all banks and the flash enable put back. -/
structure Restored (start stop : Nat) (m m' : Machine) : Prop extends m.Within start stop m' where
  banks : m'.banks = m.banks
  flash : m'.flash = m.flash

variable {m m' m'' : Machine} {start stop : Nat}

theorem Within.refl (start stop : Nat) (m : Machine) : m.Within start stop m :=
  ⟨rfl, rfl, rfl, rfl, fun _ _ _ => rfl, [], (List.append_nil _).symm, List.forall_mem_nil _⟩

theorem Within.trans (h : m.Within start stop m') (h' : m'.Within start stop m'') :
    m.Within start stop m'' where
  iram := h'.iram.trans h.iram
  sram := h'.sram.trans h.sram
  ports := h'.ports.trans h.ports
  size := h'.size.trans h.size
  psram hstop i hi := (h'.psram (h.size.symm ▸ hstop) i hi).trans (h.psram hstop i hi)
  events := by
    obtain ⟨es, he, hes⟩ := h.events
    obtain ⟨es', he', hes'⟩ := h'.events
    exact ⟨es ++ es', by rw [he', he, List.append_assoc], List.forall_mem_append.mpr ⟨hes, hes'⟩⟩

theorem within_setBank (start stop : Nat) (w : Window) (bank : UInt16) (m : Machine) :
    m.Within start stop (m.setBank w bank) :=
  ⟨rfl, rfl, rfl, rfl, fun _ _ _ => rfl, [.bank w bank], Array.toList_push,
    by simp [Event.IsSwitch]⟩

theorem within_setFlash (start stop : Nat) (enabled : Bool) (m : Machine) :
    m.Within start stop (m.setFlash enabled) :=
  ⟨rfl, rfl, rfl, rfl, fun _ _ _ => rfl, [.flash enabled], Array.toList_push,
    by simp [Event.IsSwitch]⟩

/-- While the flash enable is on, the RAM window shows program RAM. -/
theorem setWindowBytes_of_flash (h : m.flash = true) (offset : Nat) (data : ByteArray) :
    m.setWindowBytes .ram offset data
      = { m with psram := m.psram.write (m.banks .ram) offset data } := by
  unfold setWindowBytes showsSram
  rw [h, if_neg (by decide)]

theorem within_setWindowBytes {n : Nat} (hflash : m.flash = true)
    (hbank : m.banks .ram = (BankedAddr.ofLinear n).bank) (hstart : start ≤ n) (hn : n < stop)
    (h32 : stop < 0x100000000) {data : ByteArray} (hdata : n + data.size ≤ stop) :
    m.Within start stop (m.setWindowBytes .ram (BankedAddr.ofLinear n).offset.toNat data) := by
  rw [setWindowBytes_of_flash hflash, hbank]
  refine ⟨rfl, rfl, rfl, ByteArray.size_patch _ _ _, ?_, [], (List.append_nil _).symm,
    List.forall_mem_nil _⟩
  intro hstop i hi
  show (m.psram.write _ _ data).bytes.byteAt i = _
  rw [BankedMemory.bytes_write_ofLinear (by omega) (by omega)]
  exact ByteArray.byteAt_patch_of_not_mem (by omega)

end Machine

/-! ## A copy that may fail -/

namespace Copier

variable {σ π : Type}

variable [ReadStream σ] [LawfulReadStream σ]

theorem ends_fromStream (w : Window) (offset len : Nat) (c : Copier σ π)
    {P : Copier σ π → Prop} (h : ∀ data t, data.size ≤ len →
      P ⟨t, c.machine.setWindowBytes w offset data, c.hook⟩) :
    Ends (fromStream w offset len c) (fun _ d => P d) (fun _ d => P d) := by
  have hsize := LawfulReadStream.size_le c.stream len
  unfold fromStream
  dsimp only
  cases hread : ReadStream.read c.stream len with
  | mk data error? t =>
      rw [hread] at hsize
      cases error? with
      | none => exact h data t hsize
      | some e => exact h data t hsize

variable [Progress π]

/-- A copy into program RAM that has come to `address`, in whatever way its stream and its hook
behave. -/
structure Filling (m : Machine) (first stop address : Nat) (selected : Option UInt16)
    (c : Copier σ π) : Prop where
  le : first ≤ address
  within : m.Within first stop c.machine
  flash : c.machine.flash = true
  banks (v : Window) : v ≠ .ram → c.machine.banks v = m.banks v
  selected (b : UInt16) : selected = some b → c.machine.banks .ram = b

/-- What is so when a copy of which that is known stops, at its end or before. -/
def Stopped (m : Machine) (first stop : Nat) (c : Copier σ π) : Prop :=
  m.Within first stop c.machine ∧ ∀ v, v ≠ .ram → c.machine.banks v = m.banks v

/-- A piece keeps to the stretch, also if it fails. -/
theorem filling_copyPiece {m : Machine} {first stop address : Nat} {selected : Option UInt16}
    {c : Copier σ π} (h32 : stop < 0x100000000) (hlt : address < stop)
    (h : Filling m first stop address selected c) :
    Ends (copyPiece fromStream .ram first stop address selected c)
      (fun _ d => Filling m first stop (pieceStop address stop)
        (some (BankedAddr.ofLinear address).bank) d)
      (fun _ d => Stopped m first stop d) := by
  have hle := h.le
  have hnext := lt_pieceStop hlt
  have hstop : pieceStop address stop ≤ stop := Nat.min_le_right _ _
  -- the bank
  rw [ends_copyPiece]
  refine (ends_selectBank h.selected).mono ?_ fun _ _ hfail => hfail.elim
  intro _ d hd
  obtain ⟨m', rfl, hbank, hbanks, hflash, hset⟩ := hd
  have hselect : m.Within first stop m' := by
    rcases hset with rfl | rfl
    · exact h.within
    · exact h.within.trans (Machine.within_setBank _ _ _ _ _)
  -- the bytes, as many as the stream delivers
  refine ⟨fun _ => ?_, fun _ => ⟨hselect, fun v hv => (hbanks v hv).trans (h.banks v hv)⟩⟩
  refine (ends_fromStream .ram _ _ { c with machine := m' } (P := fun d =>
    Filling m first stop (pieceStop address stop) (some (BankedAddr.ofLinear address).bank) d)
    ?_).mono ?_ ?_
  · intro data t hdata
    obtain ⟨hregisters, henable⟩ := m'.registers_setWindowBytes .ram
      (BankedAddr.ofLinear address).offset.toNat data
    refine ⟨by omega, hselect.trans ?_, ?_, ?_, ?_⟩
    · exact Machine.within_setWindowBytes (hflash.trans h.flash) hbank hle hlt h32 (by omega)
    · exact henable.trans (hflash.trans h.flash)
    · intro v hv
      exact (congrFun hregisters v).trans ((hbanks v hv).trans (h.banks v hv))
    · intro b hb
      exact (congrFun hregisters .ram).trans (hbank.trans (Option.some.inj hb))
  · -- the hook
    intro _ d hd
    refine (ends_hearHook_any _ _ _ d).mono ?_ ?_
    · intro _ _ hhook
      obtain ⟨hook, rfl⟩ := hhook
      exact ⟨hd.le, hd.within, hd.flash, hd.banks, hd.selected⟩
    · intro _ _ hhook
      obtain ⟨_, hook, rfl⟩ := hhook
      exact ⟨hd.within, hd.banks⟩
  · intro _ d hd
    exact ⟨hd.within, hd.banks⟩

/-- **A load keeps to its stretch**, however it ends, and puts the registers back. -/
theorem ends_loadPsram (start : BankedAddr) (len : Nat) (c : Copier σ π) :
    Ends (loadPsram start len c)
      (fun _ d => c.machine.Restored start.linear (start.linear + len) d.machine)
      (fun _ d => c.machine.Restored start.linear (start.linear + len) d.machine) := by
  unfold loadPsram copy
  split
  · exact ⟨.refl _ _ _, rfl, rfl⟩
  · rw [ends_withRegisters]
    have hopen := Machine.within_setFlash start.linear (start.linear + len) true c.machine
    -- the scope is closed on every way out
    have hclose : ∀ d : Copier σ π, Stopped c.machine start.linear (start.linear + len) d →
        c.machine.Restored start.linear (start.linear + len)
          ((BankScope.opened c.machine .ram (some true)).leave d.machine) := by
      intro d hd
      obtain ⟨hbanks, hflash, _⟩ := BankScope.leave_opened (some true) hd.2 nofun
      refine ⟨hd.1.trans ?_, hbanks, hflash⟩
      exact (Machine.within_setBank _ _ _ _ _).trans (Machine.within_setFlash _ _ _ _)
    rw [copyRange_eq]
    split
    · exact hclose { c with machine := c.machine.setFlash true } ⟨hopen, fun _ _ => rfl⟩
    · rename_i h32
      have hbegin : Filling c.machine start.linear (start.linear + len) start.linear none
          { c with machine := c.machine.setFlash true } :=
        ⟨Nat.le_refl _, hopen, rfl, fun _ _ => rfl, nofun⟩
      refine (ends_copyFrom (fun _ _ _ hlt h => filling_copyPiece (Nat.not_le.mp h32) hlt h)
        (Nat.le_add_right _ _) hbegin).mono ?_ ?_
      · intro _ d hd
        obtain ⟨_, hd⟩ := hd
        exact hclose d ⟨hd.within, hd.banks⟩
      · intro _ d hd
        exact hclose d hd

end Copier

/-! ## The second stage -/

/-- Only a patch that is too large is refused, and nothing has been touched then. -/
theorem SoftReset.ends_apply (layout : ImageLayout) (m : Machine) :
    Ends (apply layout m)
      (fun _ _ => m.softResetCode.size ≤ codeLimit - codeStart)
      (fun e m' => e = .fileTooLarge ∧ m' = m ∧ codeLimit - codeStart < m.softResetCode.size) := by
  by_cases hsize : codeLimit - codeStart < m.softResetCode.size
  · rw [apply_of_large hsize]
    exact ⟨rfl, rfl, hsize⟩
  · rw [apply_of_small (Nat.not_lt.mp hsize)]
    generalize areaIsFree _ = free
    cases free <;> exact Nat.not_lt.mp hsize

namespace SecondStage

variable {π : Type} {s s' : SecondStage π} {d : BootDescriptor} {layout : ImageLayout}

theorem ends_onMachine {α : Type} {operation : EStateM Error Machine α}
    {done : α → SecondStage π → Prop} {failed : Error → SecondStage π → Prop} :
    Ends (onMachine operation s) done failed ↔
      Ends (operation s.machine) (fun a m => done a ⟨m, s.disk, s.hook⟩)
        (fun e m => failed e ⟨m, s.disk, s.hook⟩) := by
  unfold onMachine
  dsimp only
  cases operation s.machine <;> exact Iff.rfl

/-- The machine once the descriptor is read. -/
def afterRead (m : Machine) : Machine :=
  m.record (.ramRead BootDescriptor.address BootDescriptor.encodedSize)

/-- Reading the descriptor does nothing else, whether or not it is accepted. -/
theorem readDescriptor_cases (m : Machine) :
    (∃ d, readDescriptor m = .ok d (afterRead m))
      ∨ ∃ e, readDescriptor m = .error e (afterRead m) := by
  unfold readDescriptor
  dsimp only
  split
  · exact .inr ⟨_, rfl⟩
  · split
    · exact .inr ⟨_, rfl⟩
    · exact .inl ⟨_, rfl⟩

/-- Streaming an image is a load from its chain. -/
theorem ends_loadImage_streamed [Progress π] (hresident : d.isResident = false)
    {done : Unit → SecondStage π → Prop} {failed : Error → SecondStage π → Prop} :
    Ends (loadImage d layout s) done failed ↔
      Ends (Copier.loadPsram layout.start d.size.toNat
          ⟨(Volume.ofDisk s.disk d.geometry true).openAt d.cluster.toNat, s.machine, s.hook⟩)
        (fun a c => done a ⟨c.machine, c.stream.volume.disk, c.hook⟩)
        (fun e c => failed e ⟨c.machine, c.stream.volume.disk, c.hook⟩) := by
  unfold loadImage
  dsimp only
  rw [hresident, if_neg Bool.false_ne_true]
  cases Copier.loadPsram layout.start d.size.toNat
    ⟨(Volume.ofDisk s.disk d.geometry true).openAt d.cluster.toNat, s.machine, s.hook⟩ <;>
    exact Iff.rfl

theorem ends_loadImage [Progress π] (d : BootDescriptor) (layout : ImageLayout)
    (s : SecondStage π) : Ends (loadImage d layout s)
      (fun _ s' => s.machine.Restored layout.start.linear (layout.start.linear + d.size.toNat)
        s'.machine)
      (fun _ s' => s.machine.Restored layout.start.linear (layout.start.linear + d.size.toNat)
        s'.machine) := by
  cases hresident : d.isResident with
  | true =>
      rw [loadImage_of_resident hresident]
      exact ⟨.refl _ _ _, rfl, rfl⟩
  | false =>
      rw [ends_loadImage_streamed hresident]
      exact Copier.ends_loadPsram layout.start d.size.toNat _

/-- The second stage finds that descriptor, and a place for its image. -/
def Accepts (s : SecondStage π) (d : BootDescriptor) (layout : ImageLayout) : Prop :=
  (∃ m, readDescriptor s.machine = .ok d m) ∧ ImageLayout.forSize d.size.toNat = .ok layout

/-- What a boot leaves behind that has failed. -/
structure Recoverable (s s' : SecondStage π) : Prop where
  iram : s'.machine.iram = s.machine.iram
  sram : s'.machine.sram = s.machine.sram
  banks : s'.machine.banks = s.machine.banks
  flash : s'.machine.flash = s.machine.flash
  ports (p : UInt8) : p ≠ Port.lcdSegments.toUInt8 → s'.machine.ports p = s.machine.ports p
  /-- The descriptor was read; after that at most the icon was written, and then nothing but banks
  and the flash enable. -/
  events : ∃ icon switches : List Event, s'.machine.events.toList = s.machine.events.toList
      ++ .ramRead BootDescriptor.address BootDescriptor.encodedSize :: (icon ++ switches)
    ∧ (icon = [] ∨ ∃ value, icon = [.output Port.lcdSegments value])
    ∧ ∀ e ∈ switches, e.IsSwitch
  /-- Without a descriptor or a place for its image, that read is all there was. -/
  refused : (∀ d layout, ¬ s.Accepts d layout) → s' = ⟨afterRead s.machine, s.disk, s.hook⟩
  size : s'.machine.psram.bytes.size = s.machine.psram.bytes.size
  /-- Program RAM is as it was outside the place of the image. -/
  psram {d : BootDescriptor} {layout : ImageLayout} : s.Accepts d layout →
    layout.spaceSize ≤ s.machine.psram.bytes.size →
    ∀ i, i < layout.spaceSize - d.size.toNat ∨ layout.spaceSize ≤ i →
      s'.machine.psram.bytes.byteAt i = s.machine.psram.bytes.byteAt i

/-- A boot that gets no descriptor, or no place for its image, has only read. -/
theorem boot_of_refused [Progress π] (h : ∀ d layout, ¬ s.Accepts d layout) :
    ∃ e, boot s = .error e ⟨afterRead s.machine, s.disk, s.hook⟩ := by
  rcases readDescriptor_cases s.machine with ⟨d, hread⟩ | ⟨e, hread⟩
  · cases hlayout : ImageLayout.forSize d.size.toNat with
    | ok layout => exact absurd ⟨⟨_, hread⟩, hlayout⟩ (h d layout)
    | error e =>
        refine ⟨e, ?_⟩
        unfold boot
        refine (bind_of_ok (onMachine_of_ok hread)).trans ?_
        rw [hlayout]
        rfl
  · exact ⟨e, bind_of_error (onMachine_of_error hread)⟩

/-- A boot that comes to the jump has found both. -/
theorem exists_accepts [Progress π] {target : FarPtr} (h : boot s = .ok target s') :
    ∃ d layout, s.Accepts d layout := by
  by_cases haccepts : ∃ d layout, s.Accepts d layout
  · exact haccepts
  · obtain ⟨e, herror⟩ := boot_of_refused fun d layout hd => haccepts ⟨d, layout, hd⟩
    rw [herror] at h
    cases h

/-- From then on only the load and the patch can fail. -/
theorem ends_bootFrom [Progress π] (d : BootDescriptor) (layout : ImageLayout)
    (s : SecondStage π) : Ends (bootFrom d layout s) (fun _ _ => True)
      (fun _ s' => s.machine.Restored layout.start.linear (layout.start.linear + d.size.toNat)
        s'.machine) := by
  unfold bootFrom
  rw [ends_bind]
  refine (ends_loadImage d layout s).mono ?_ fun _ _ hfail => hfail
  intro _ t ht
  split
  · rw [ends_bind, ends_discard, ends_onMachine]
    refine (SoftReset.ends_apply layout t.machine).mono ?_ ?_
    · intro _ m _
      rw [ends_bind, ends_onMachine]
      exact trivial
    · rintro _ _ ⟨_, rfl, _⟩
      exact ht
  · rw [ends_bind, ends_onMachine]
    exact trivial

theorem Accepts.read (h : s.Accepts d layout) :
    readDescriptor s.machine = .ok d (afterRead s.machine) := by
  obtain ⟨⟨m, hread⟩, _⟩ := h
  rcases readDescriptor_cases s.machine with ⟨d', hread'⟩ | ⟨e, hread'⟩
  · rw [hread] at hread'
    cases hread'
    exact hread
  · rw [hread] at hread'
    cases hread'

/-- What is read is what the bytes of the descriptor spell. -/
theorem Accepts.decode (h : s.Accepts d layout) :
    BootDescriptor.decode s.machine.descriptorBytes = .ok d := by
  have hread := h.read
  unfold readDescriptor at hread
  dsimp only at hread
  split at hread
  · cases hread
  · rename_i hdecode
    split at hread
    · cases hread
    · cases hread
      exact hdecode

theorem Accepts.unique {d' : BootDescriptor} {layout' : ImageLayout} (h : s.Accepts d layout)
    (h' : s.Accepts d' layout') : d = d' ∧ layout = layout' := by
  cases h.read.symm.trans h'.read
  cases h.2.symm.trans h'.2
  exact ⟨rfl, rfl⟩

theorem recoverable_afterRead (h : ∀ d layout, ¬ s.Accepts d layout) :
    s.Recoverable ⟨afterRead s.machine, s.disk, s.hook⟩ where
  iram := rfl
  sram := rfl
  banks := rfl
  flash := rfl
  ports _ _ := rfl
  events := ⟨[], [], Array.toList_push, .inl rfl, List.forall_mem_nil _⟩
  refused _ := rfl
  size := rfl
  psram haccepts := absurd haccepts (h _ _)

/-- Whatever keeps to the place of the image, after the icon is set, can be recovered from. -/
theorem Accepts.recoverable (h : s.Accepts d layout)
    (hs' : ((afterRead s.machine).outb Port.lcdSegments (orientation d)).Restored
      layout.start.linear (layout.start.linear + d.size.toNat) s'.machine) : s.Recoverable s' := by
  refine ⟨hs'.iram, hs'.sram, hs'.banks, hs'.flash, fun p hp => ?_, ?_, fun hnone => ?_, hs'.size,
    ?_⟩
  · rw [hs'.ports]
    exact if_neg hp
  · obtain ⟨switches, hswitches, hall⟩ := hs'.events
    refine ⟨[.output Port.lcdSegments (orientation d)], switches, ?_, .inr ⟨_, rfl⟩, hall⟩
    rw [hswitches]
    show ((s.machine.events.push _).push _).toList ++ switches = _
    simp
  · exact absurd h (hnone d layout)
  · intro d' layout' h' hspace
    obtain ⟨rfl, rfl⟩ := h.unique h'
    obtain ⟨_, hsize, rfl⟩ := ImageLayout.forSize_eq_ok.mp h.2
    obtain ⟨hend, _⟩ := ImageLayout.placed_spec hsize
    intro i hi
    refine hs'.psram ?_ i (by omega)
    rw [hend]
    exact hspace

/-- **A failed boot leaves the machine recoverable.** Whatever made it fail, internal RAM and static
RAM, banks and the flash enable are as they were, nothing was written to a register but the icon,
and program RAM has changed in the place of the image at most. -/
theorem boot_recoverable [Progress π] {e : Error} (h : boot s = .error e s') :
    s.Recoverable s' := by
  by_cases haccepts : ∃ d layout, s.Accepts d layout
  · obtain ⟨d, layout, haccepts⟩ := haccepts
    rw [boot_eq haccepts.read haccepts.2] at h
    have hrestored := (ends_bootFrom d layout _).of_error h
    exact haccepts.recoverable hrestored
  · have hnone : ∀ d layout, ¬ s.Accepts d layout := fun d layout hd => haccepts ⟨d, layout, hd⟩
    obtain ⟨e', hboot⟩ := boot_of_refused hnone
    rw [hboot] at h
    cases h
    exact recoverable_afterRead hnone

end SecondStage

/-! ## An image that is cut short -/

/-- No read goes past the end of a chain. -/
theorem ChainStream.Reading.read_short {g : Geometry} {disk : Disk} {cs : List Nat} {p len : Nat}
    {s : ChainStream} (hs : Reading g disk cs p s) (hchain : g.IsChain disk.byte cs)
    (hp : p ≤ g.capacity cs) (hlen : g.capacity cs < p + len) :
    (ReadStream.read s len).error? ≠ none := by
  obtain ⟨data, error?, rest, hread, hdelivers⟩ := exists_read_eq hs.ready hs.failure len
  show (ChainStream.read s len).error? ≠ none
  rw [hread]
  intro hnone
  have hwalk := (hdelivers.done hnone).2.walk?_eq 0
  have hend := hchain.walk?_eq_none hs.cluster hp hlen
  unfold ChainStream.walk? at hwalk
  rw [Nat.add_zero, hs.geometry, hs.medium.byte, hs.position, hend] at hwalk
  cases hwalk

namespace Copier

variable {π : Type} [Progress π] {g : Geometry} {disk : Disk} {cs : List Nat}

/-- A piece goes on along the chain, or there is none. -/
theorem reading_copyPiece (hchain : g.IsChain disk.byte cs) (hdisk : disk.Faultless)
    (hdevice : ∀ c ∈ cs, g.OnDevice disk c) {first stop address : Nat} {selected : Option UInt16}
    {c : Copier ChainStream π} (h32 : stop < 0x100000000) (hlt : address < stop)
    (hle : first ≤ address)
    (hselected : ∀ b, selected = some b → c.machine.banks .ram = b)
    (hs : ChainStream.Reading g disk cs (address - first) c.stream)
    (hp : address - first ≤ g.capacity cs) :
    Ends (copyPiece fromStream .ram first stop address selected c)
      (fun _ d => ChainStream.Reading g disk cs (pieceStop address stop - first) d.stream
        ∧ pieceStop address stop - first ≤ g.capacity cs)
      (fun _ _ => True) := by
  have hnext := lt_pieceStop hlt
  have hsum : address - first + (pieceStop address stop - address)
      = pieceStop address stop - first := by omega
  have hword : pieceStop address stop - first < wordLimit :=
    Nat.lt_of_le_of_lt (Nat.le_trans (Nat.sub_le _ _) (Nat.min_le_right _ _)) h32
  rw [ends_copyPiece]
  refine (ends_selectBank hselected).mono ?_ fun _ _ _ => trivial
  intro _ d hd
  obtain ⟨m, rfl, _⟩ := hd
  refine ⟨fun _ => ?_, fun _ => trivial⟩
  by_cases hfit : pieceStop address stop - first ≤ g.capacity cs
  · obtain ⟨t, hread, _, ht⟩ := hs.read hchain.toPath hdisk hdevice (by rw [hsum]; exact hfit)
      (by rw [hsum]; exact hword)
    rw [hsum] at ht
    have hmove := fromStream_of_none (c := { c with machine := m }) hread .ram
      (BankedAddr.ofLinear address).offset.toNat
    rw [hmove, ends_ok]
    refine (ends_hearHook_any _ _ _ _).mono ?_ fun _ _ _ => trivial
    intro _ _ hhook
    obtain ⟨hook, rfl⟩ := hhook
    exact ⟨ht, hfit⟩
  · have hshort : (ReadStream.read c.stream (pieceStop address stop - address)).error? ≠ none :=
      hs.read_short hchain hp (by rw [hsum]; omega)
    unfold fromStream
    dsimp only
    cases hread : ReadStream.read c.stream (pieceStop address stop - address) with
    | mk data error? t =>
        rw [hread] at hshort
        cases error? with
        | none => exact absurd rfl hshort
        | some e => exact trivial

/-- A copy that has come to `address` along a chain. -/
def FillingFrom (g : Geometry) (disk : Disk) (cs : List Nat) (m : Machine)
    (first stop address : Nat) (selected : Option UInt16) (c : Copier ChainStream π) : Prop :=
  Filling m first stop address selected c
    ∧ ChainStream.Reading g disk cs (address - first) c.stream
    ∧ address - first ≤ g.capacity cs

/-- A chain that is too short is never loaded. -/
theorem ends_loadPsram_of_cut (hchain : g.IsChain disk.byte cs) (hdisk : disk.Faultless)
    (hdevice : ∀ c ∈ cs, g.OnDevice disk c) (start : BankedAddr) {len : Nat}
    (hcut : g.capacity cs < len) {c : Copier ChainStream π}
    (hs : ChainStream.Reading g disk cs 0 c.stream) :
    Ends (loadPsram start len c) (fun _ _ => False) (fun _ _ => True) := by
  unfold loadPsram copy
  rw [if_neg (by omega), ends_withRegisters, copyRange_eq]
  split
  · exact trivial
  · rename_i h32
    have hbegin : FillingFrom g disk cs c.machine start.linear (start.linear + len) start.linear
        none { c with machine := c.machine.setFlash true } := by
      refine ⟨⟨Nat.le_refl _, Machine.within_setFlash _ _ _ _, rfl, fun _ _ => rfl, nofun⟩, ?_, ?_⟩
      · rw [Nat.sub_self]
        exact hs
      · omega
    have hpiece : ∀ address selected (d : Copier ChainStream π), address < start.linear + len →
        FillingFrom g disk cs c.machine start.linear (start.linear + len) address selected d →
        Ends (copyPiece fromStream .ram start.linear (start.linear + len) address selected d)
          (fun _ d => FillingFrom g disk cs c.machine start.linear (start.linear + len)
            (pieceStop address (start.linear + len))
            (some (BankedAddr.ofLinear address).bank) d)
          (fun _ _ => True) := by
      intro address selected d hlt h
      obtain ⟨hfilling, hreading, hcapacity⟩ := h
      exact ((filling_copyPiece (Nat.not_le.mp h32) hlt hfilling).and
        (reading_copyPiece hchain hdisk hdevice (Nat.not_le.mp h32) hlt hfilling.le
          hfilling.selected hreading hcapacity)).mono (fun _ _ h => h) fun _ _ _ => trivial
    refine (ends_copyFrom hpiece (Nat.le_add_right _ _) hbegin).mono ?_ fun _ _ _ => trivial
    -- at its end the copy has more bytes than the chain
    intro _ d hd
    obtain ⟨_, _, _, hcapacity⟩ := hd
    omega

end Copier

namespace SecondStage

/-- **An image that is cut short does not start.** If its chain ends before it does, the second
stage fails. -/
theorem boot_of_cut [Progress π] {cs : List Nat} (h : s.Accepts d layout)
    (hresident : d.isResident = false) (hchain : d.geometry.IsChain s.disk.byte cs)
    (hfirst : cs[0]? = some d.cluster.toNat) (hdisk : s.disk.Faultless)
    (hdevice : ∀ c ∈ cs, d.geometry.OnDevice s.disk c)
    (hcut : d.geometry.capacity cs < d.size.toNat) :
    ∃ (e : Error) (s' : SecondStage π), boot s = .error e s' := by
  have hload : ∀ m : Machine, Ends (loadImage d layout ⟨m, s.disk, s.hook⟩) (fun _ _ => False)
      (fun _ _ => True) := by
    intro m
    rw [ends_loadImage_streamed hresident]
    exact Copier.ends_loadPsram_of_cut hchain hdisk hdevice layout.start hcut
      (ChainStream.reading_openAt hfirst true)
  rw [boot_eq h.read h.2]
  have hfails : ∃ (e : Error) (s' : SecondStage π), bootFrom d layout
      ⟨(afterRead s.machine).outb Port.lcdSegments (orientation d), s.disk, s.hook⟩ = .error e s'
        ∧ True := by
    refine Ends.exists_error ?_ fun _ _ hfalse => hfalse
    unfold bootFrom
    rw [ends_bind]
    exact (hload _).mono (fun _ _ hfalse => hfalse.elim) fun _ _ _ => trivial
  obtain ⟨e, s', hboot, _⟩ := hfails
  exact ⟨e, s', hboot⟩

/-- An image that is said to be longer than its chain. -/
def cutImage : BootDescriptor :=
  { smallDescriptor with size := 2000 }

def cutStage : SecondStage Silent where
  machine := (Machine.erased 1 1).writeRam BootDescriptor.address cutImage.encode
  disk := smallDisk
  hook := {}

theorem cutStage_accepts : cutStage.Accepts cutImage (ImageLayout.placed 2000) := by
  have hvalid : cutImage.validate = .ok () := rfl
  exact ⟨⟨_, readDescriptor_eq (Machine.descriptorBytes_writeRam (Machine.erased 1 1) cutImage)
    (BootDescriptor.validate_eq_ok.mp hvalid)⟩, rfl⟩

theorem cutStage_recoverable : ∃ e s', boot cutStage = .error e s' ∧ cutStage.Recoverable s' := by
  obtain ⟨e, s', h⟩ := boot_of_cut cutStage_accepts rfl (isChain_smallChains true) rfl
    smallDisk_faultless (fun c hc => onDevice_of_fits smallGeometry_apart smallDisk_fits
      ((isChain_smallChains true).has c hc)) (by decide)
  exact ⟨e, s', h, boot_recoverable h⟩

end SecondStage

end CartBoot
