import CartBoot.Proofs.Exposure
import CartBoot.Proofs.Recovery
import CartBoot.Proofs.Registers

/-!
# The ports at the jump

What an image finds in a port is what was last written to it, or what was there before
the boot. So the writes of a boot say all: `Machine.Wrote` gives them in order, and the
ports are those writes carried out on the ports of before.

A boot writes ten bytes to nine ports. Two of them it reads first. Of the system control
register it changes the bits of the cartridge bus, and of the power register it keeps
the reset line of the controller; so these bits, with the descriptor, are all that the
writes depend on. Neither the wait for vertical blank, which reads a port as often as
the display needs it, nor the load and the patch, which write banks and memory, write a
port. The power register switches the cartridge's own registers off and comes after them.
-/

namespace CartBoot

/-! ## Writes to ports -/

/-- A byte written to a port. -/
structure PortWrite where
  port : UInt16
  value : UInt8
  deriving DecidableEq, Repr

def Event.portWrite? : Event → Option PortWrite
  | .output port value => some ⟨port, value⟩
  | _ => none

theorem Event.IsSwitch.portWrite?_eq_none {e : Event} (h : e.IsSwitch) : e.portWrite? = none := by
  cases e with
  | bank w b => rfl
  | flash enabled => rfl
  | _ => cases h

/-- The ports after a write. -/
def PortWrite.store (ports : UInt8 → UInt8) (w : PortWrite) : UInt8 → UInt8 :=
  fun p => if p = w.port.toUInt8 then w.value else ports p

/-- A port that is not written keeps its value. -/
theorem PortWrite.foldl_store_of_not_mem {ws : List PortWrite} {p : UInt8}
    (h : p ∉ ws.map fun w => w.port.toUInt8) (ports : UInt8 → UInt8) :
    ws.foldl store ports p = ports p := by
  induction ws generalizing ports with
  | nil => rfl
  | cons w ws ih =>
      rw [List.map_cons, List.mem_cons, not_or] at h
      rw [List.foldl_cons, ih h.2]
      exact if_neg h.1

namespace Machine

/-- The bytes written to ports, in order. -/
def portWrites (m : Machine) : List PortWrite :=
  m.events.toList.filterMap Event.portWrite?

/-- Between `m` and `m'` those bytes were written to ports, and nothing else changed the ports. -/
structure Wrote (m : Machine) (ws : List PortWrite) (m' : Machine) : Prop where
  ports : m'.ports = ws.foldl PortWrite.store m.ports
  writes : m'.portWrites = m.portWrites ++ ws

variable {m m' m'' : Machine} {ws ws' : List PortWrite}

theorem Wrote.trans (h : m.Wrote ws m') (h' : m'.Wrote ws' m'') : m.Wrote (ws ++ ws') m'' where
  ports := by rw [h'.ports, h.ports, List.foldl_append]
  writes := by rw [h'.writes, h.writes, List.append_assoc]

/-- What leaves the ports alone and is none of those events has written nothing. -/
theorem wrote_nothing {es : List Event} (hports : m'.ports = m.ports)
    (hevents : m'.events.toList = m.events.toList ++ es) (hes : ∀ e ∈ es, e.portWrite? = none) :
    m.Wrote [] m' where
  ports := hports
  writes := by
    unfold portWrites
    rw [hevents, List.filterMap_append, List.filterMap_eq_nil_iff.mpr hes]

theorem wrote_record {e : Event} (he : e.portWrite? = none) (m : Machine) :
    m.Wrote [] (m.record e) :=
  wrote_nothing rfl Array.toList_push (List.forall_mem_singleton.mpr he)

theorem wrote_setFlash (enabled : Bool) (m : Machine) : m.Wrote [] (m.setFlash enabled) :=
  wrote_nothing rfl Array.toList_push (List.forall_mem_singleton.mpr rfl)

theorem wrote_outb (port : UInt16) (value : UInt8) (m : Machine) :
    m.Wrote [⟨port, value⟩] (m.outb port value) where
  ports := rfl
  writes := by
    have hevents : (m.outb port value).events.toList = m.events.toList ++ [.output port value] :=
      Array.toList_push
    unfold portWrites
    rw [hevents, List.filterMap_append]
    rfl

theorem wrote_outw (port value : UInt16) (m : Machine) :
    m.Wrote [⟨port, value.toUInt8⟩, ⟨port + 1, (value >>> 8).toUInt8⟩] (m.outw port value) :=
  (wrote_outb _ _ m).trans (wrote_outb _ _ _)

theorem wrote_inb (port : UInt16) (m : Machine) : m.Wrote [] (m.inb port).2 := by
  unfold inb
  split
  · split
    · exact wrote_record rfl m
    · exact wrote_nothing rfl Array.toList_push (List.forall_mem_singleton.mpr rfl)
  · exact wrote_record rfl m

/-- A port that was not written reads as it did before. -/
theorem Wrote.fst_inb (h : m.Wrote ws m') {port : UInt16} (hport : port ≠ Port.lcdLine)
    (hws : port.toUInt8 ∉ ws.map fun w => w.port.toUInt8) :
    (m'.inb port).1 = m.ports port.toUInt8 := by
  unfold inb
  rw [if_neg hport, h.ports]
  exact PortWrite.foldl_store_of_not_mem hws m.ports

theorem wrote_awaitVblank (m : Machine) : m.Wrote [] m.awaitVblank :=
  awaitVblank_keeps (wrote_inb Port.lcdLine) Wrote.trans m

theorem Within.wrote {start stop : Nat} (h : m.Within start stop m') : m.Wrote [] m' := by
  obtain ⟨switches, hevents, hswitches⟩ := h.events
  exact wrote_nothing h.ports hevents fun e he => (hswitches e he).portWrite?_eq_none

theorem forall_mem_bracket (m : Machine) (w : Window) (flash : Option Bool) (banks : List UInt16) :
    ∀ e ∈ m.bracket w flash banks, e.IsSwitch := by
  have hbanks : ∀ e ∈ banks.map (Event.bank w), e.IsSwitch := fun e he => by
    obtain ⟨_, _, rfl⟩ := List.mem_map.mp he
    exact trivial
  unfold bracket
  cases flash with
  | none =>
      refine List.forall_mem_append.mpr ⟨hbanks, ?_⟩
      exact List.forall_mem_singleton.mpr trivial
  | some enabled =>
      refine List.forall_mem_append.mpr ⟨List.forall_mem_cons.mpr ⟨trivial, hbanks⟩, ?_⟩
      exact List.forall_mem_cons.mpr ⟨trivial, List.forall_mem_singleton.mpr trivial⟩

/-- A scope writes to no port. -/
theorem Bracketed.wrote {w : Window} {flash : Option Bool} (h : m.Bracketed w flash m') :
    m.Wrote [] m' := by
  rcases h.events with hnone | ⟨banks, hevents⟩
  · have hsame : m'.events.toList = m.events.toList ++ [] := by rw [hnone, List.append_nil]
    exact wrote_nothing h.ports hsame (List.forall_mem_nil _)
  · exact wrote_nothing h.ports hevents fun e he =>
      (m.forall_mem_bracket w flash banks e he).portWrite?_eq_none

end Machine

theorem SoftReset.wrote_apply (layout : ImageLayout) (m : Machine) :
    Ends (apply layout m) (fun _ m' => m.Wrote [] m') (fun _ _ => True) := by
  refine (bracketed_apply layout m).mono ?_ fun _ _ _ => trivial
  rintro _ _ ⟨n, hn, rfl | ⟨address, data, rfl⟩⟩
  · exact hn.wrote
  · exact hn.wrote.trans
      (Machine.wrote_nothing rfl Array.toList_push (List.forall_mem_singleton.mpr rfl))

namespace SecondStage

/-! ## The writes of a boot -/

/-- What the set-up writes if that stands in the two registers that it reads. -/
def setupWrites (d : BootDescriptor) (control power : UInt8) : List PortWrite :=
  [⟨Port.displayControl, 0⟩, ⟨Port.displayControl + 1, 0⟩, ⟨Port.lcdSegments, 0⟩,
    ⟨Port.systemControl, (control &&& ~~~busMask) ||| (d.imageFlags.bits &&& busMask)⟩,
    ⟨Port.segmentMask, (segmentMask d.romBanks d.sramMask).toUInt8⟩,
    ⟨Port.segmentMask + 1, (segmentMask d.romBanks d.sramMask >>> 8).toUInt8⟩,
    ⟨Port.eepromControl, d.eepromControl⟩,
    ⟨Port.powerControl, (power &&& PowerBits.controllerReset.bits) ||| d.power.bits⟩,
    ⟨Port.interruptAck, 0xFF⟩]

/-- What a boot writes: the icon, and then the set-up. -/
def bootWrites (d : BootDescriptor) (control power : UInt8) : List PortWrite :=
  ⟨Port.lcdSegments, orientation d⟩ :: setupWrites d control power

section SetUp

variable {d : BootDescriptor} {m m' : Machine} {ws : List PortWrite}

/-- The bus bits are set in what stood in the register before, if it was not written yet. -/
theorem wrote_setBus (h : m.Wrote ws m')
    (hws : Port.systemControl.toUInt8 ∉ ws.map fun w => w.port.toUInt8) :
    m.Wrote (ws ++ [⟨Port.systemControl,
      (m.ports Port.systemControl.toUInt8 &&& ~~~busMask) ||| (d.imageFlags.bits &&& busMask)⟩])
      (setBus d m') := by
  rw [← h.fst_inb (by decide) hws]
  exact h.trans ((Machine.wrote_inb Port.systemControl m').trans (Machine.wrote_outb _ _ _))

theorem wrote_setPower (h : m.Wrote ws m')
    (hws : Port.powerControl.toUInt8 ∉ ws.map fun w => w.port.toUInt8) :
    m.Wrote (ws ++ [⟨Port.powerControl,
      (m.ports Port.powerControl.toUInt8 &&& PowerBits.controllerReset.bits) ||| d.power.bits⟩])
      (setPower d m') := by
  rw [← h.fst_inb (by decide) hws]
  exact h.trans ((Machine.wrote_inb Port.powerControl m').trans (Machine.wrote_outb _ _ _))

theorem wrote_configure (d : BootDescriptor) (m : Machine) :
    m.Wrote (setupWrites d (m.ports Port.systemControl.toUInt8) (m.ports Port.powerControl.toUInt8))
      (configure d m) := by
  have hidle : m.Wrote [] (m.setFlash false).releaseStorage.awaitVblank :=
    ((Machine.wrote_setFlash false m).trans (Machine.wrote_record rfl _)).trans
      (Machine.wrote_awaitVblank _)
  have hdisplay := (hidle.trans (Machine.wrote_outw Port.displayControl 0 _)).trans
    (Machine.wrote_outb Port.lcdSegments 0 _)
  have hcold := hdisplay.trans (Machine.wrote_record
    (e := .coldBootState (!d.colorFlags.contains .color)) rfl _)
  -- neither register that is read was written before
  have hbus := wrote_setBus (d := d) hcold (by decide)
  have hmask := (hbus.trans (Machine.wrote_outw Port.segmentMask
    (segmentMask d.romBanks d.sramMask) _)).trans
    (Machine.wrote_outb Port.eepromControl d.eepromControl _)
  have hpower := wrote_setPower (d := d) hmask (of_decide_eq_true rfl)
  exact hpower.trans (Machine.wrote_outb Port.interruptAck 0xFF _)

/-- From the icon on a boot writes what the set-up writes. -/
theorem ends_bootFrom_wrote {π : Type} [Progress π] (d : BootDescriptor) (layout : ImageLayout)
    (s : SecondStage π) :
    Ends (bootFrom d layout s)
      (fun _ s' => s.machine.Wrote (setupWrites d (s.machine.ports Port.systemControl.toUInt8)
        (s.machine.ports Port.powerControl.toUInt8)) s'.machine)
      (fun _ _ => True) := by
  have hend : ∀ m, s.machine.Wrote [] m → s.machine.Wrote
      (setupWrites d (s.machine.ports Port.systemControl.toUInt8)
        (s.machine.ports Port.powerControl.toUInt8)) (configure d m) := by
    intro m hm
    have hports : m.ports = s.machine.ports := hm.ports
    rw [← hports]
    exact hm.trans (wrote_configure d m)
  unfold bootFrom
  rw [ends_bind]
  refine (ends_loadImage d layout s).mono ?_ fun _ _ _ => trivial
  intro _ t ht
  have hloaded := ht.toWithin.wrote
  split
  · rw [ends_bind, ends_discard, ends_onMachine]
    refine (SoftReset.wrote_apply layout t.machine).mono ?_ fun _ _ _ => trivial
    intro _ m hm
    rw [ends_bind, ends_onMachine]
    exact hend m (hloaded.trans hm)
  · rw [ends_bind, ends_onMachine]
    exact hend t.machine hloaded

/-- **A boot that comes to the jump has written these bytes.** -/
theorem wrote_boot {π : Type} [Progress π] {s s' : SecondStage π} {target : FarPtr}
    (hd : BootDescriptor.decode s.machine.descriptorBytes = .ok d) (h : boot s = .ok target s') :
    d.Valid ∧ s.machine.Wrote (bootWrites d (s.machine.ports Port.systemControl.toUInt8)
      (s.machine.ports Port.powerControl.toUInt8)) s'.machine := by
  obtain ⟨d', layout, haccepts⟩ := exists_accepts h
  cases hd.symm.trans haccepts.decode
  have hread : s.machine.Wrote [] (afterRead s.machine) := Machine.wrote_record rfl _
  have hicon := hread.trans (Machine.wrote_outb Port.lcdSegments (orientation d) _)
  rw [boot_eq haccepts.read haccepts.2] at h
  have hrest := (ends_bootFrom_wrote d layout _).of_ok h
  exact ⟨(readDescriptor_spec haccepts.read).1, hicon.trans hrest⟩

end SetUp

/-! ## What the image finds -/

/-- Of a byte into which bits of another are merged, those under the mask are of the other. -/
theorem merge_and (a b mask : UInt8) :
    ((a &&& ~~~mask) ||| (b &&& mask)) &&& mask = b &&& mask
      ∧ ((a &&& ~~~mask) ||| (b &&& mask)) &&& ~~~mask = a &&& ~~~mask := by
  refine ⟨UInt8.toBitVec_inj.mp (BitVec.eq_of_getElem_eq fun i hi => ?_),
    UInt8.toBitVec_inj.mp (BitVec.eq_of_getElem_eq fun i hi => ?_)⟩
  all_goals
    simp only [UInt8.toBitVec_and, UInt8.toBitVec_or, UInt8.toBitVec_not, BitVec.getElem_and,
      BitVec.getElem_or, BitVec.getElem_not]
    cases mask.toBitVec[i] <;> simp

/-- The ports that a boot writes. -/
def bootPorts : List UInt16 :=
  [Port.lcdSegments, Port.displayControl, Port.displayControl + 1, Port.systemControl,
    Port.segmentMask, Port.segmentMask + 1, Port.eepromControl, Port.powerControl,
    Port.interruptAck]

/-- The ports of `m'` are set up for an image, and else those of `m`. -/
structure SetUpFor (d : BootDescriptor) (m m' : Machine) : Prop where
  romBanks : (m'.inw Port.segmentMask).1.toNat % 0x200 + 1 = d.romBanks.toNat
  fixed : (m'.inw Port.segmentMask).1.toNat / 0x200 % 8 = 7
  sramMask : (m'.inw Port.segmentMask).1.toNat / 0x1000 = d.sramMask.toNat
  eeprom : m'.ports Port.eepromControl.toUInt8 = d.eepromControl
  power : m'.ports Port.powerControl.toUInt8
    = (m.ports Port.powerControl.toUInt8 &&& PowerBits.controllerReset.bits) ||| d.power.bits
  bus : m'.ports Port.systemControl.toUInt8 &&& busMask = d.imageFlags.bits &&& busMask
  control : m'.ports Port.systemControl.toUInt8 &&& ~~~busMask
    = m.ports Port.systemControl.toUInt8 &&& ~~~busMask
  others (p : UInt8) : p ∉ bootPorts.map UInt16.toUInt8 → m'.ports p = m.ports p

/-- The power register is written once, and the registers that it switches off are not written after
it. -/
def PowerLast (ws : List PortWrite) : Prop :=
  ∃ before value after, ws = before ++ ⟨Port.powerControl, value⟩ :: after
    ∧ (∀ w ∈ before ++ after, w.port ≠ Port.powerControl)
    ∧ ∀ w ∈ after, w.port ∉ [Port.segmentMask, Port.segmentMask + 1, Port.eepromControl]

variable {d : BootDescriptor} {m m' : Machine} {control control' power power' : UInt8}

theorem powerLast_bootWrites (d : BootDescriptor) (control power : UInt8) :
    PowerLast (bootWrites d control power) := by
  refine ⟨(bootWrites d control power).take 8, _, [⟨Port.interruptAck, 0xFF⟩], rfl, ?_, ?_⟩
  · simp [bootWrites, setupWrites, Port.powerControl, Port.lcdSegments, Port.displayControl,
      Port.systemControl, Port.segmentMask, Port.eepromControl, Port.interruptAck]
  · exact List.forall_mem_singleton.mpr (by decide)

theorem port_mem_bootPorts {w : PortWrite} (hw : w ∈ bootWrites d control power) :
    w.port ∈ bootPorts := by
  have hall : (bootWrites d control power).map PortWrite.port ⊆ bootPorts := by
    simp [bootWrites, setupWrites, bootPorts]
  exact hall (List.mem_map_of_mem hw)

/-- Of the ports before, only those two parts matter to the writes. -/
theorem bootWrites_congr (hcontrol : control = control')
    (hpower : power &&& PowerBits.controllerReset.bits
      = power' &&& PowerBits.controllerReset.bits) :
    bootWrites d control power = bootWrites d control' power' := by
  unfold bootWrites setupWrites
  rw [hcontrol, hpower]

theorem setUpFor_of_wrote (hd : d.Valid)
    (h : m.Wrote (bootWrites d (m.ports Port.systemControl.toUInt8)
      (m.ports Port.powerControl.toUInt8)) m') : SetUpFor d m m' := by
  have hpos := hd.banks_pos
  have hle := hd.banks_le
  have hmask : (m'.inw Port.segmentMask).1.toNat
      = d.sramMask.toNat * 0x1000 + (0x0E00 + (d.romBanks.toNat - 1)) := by
    have hpair : (m'.inw Port.segmentMask).1 = (m'.ports Port.segmentMask.toUInt8).toUInt16
        ||| ((m'.ports (Port.segmentMask + 1).toUInt8).toUInt16 <<< 8) := rfl
    rw [hpair, h.ports, ← toNat_segmentMask hpos hle hd.sram_le]
    exact congrArg UInt16.toNat (or_shiftLeft_bytes _)
  have hcontrol : m'.ports Port.systemControl.toUInt8
      = (m.ports Port.systemControl.toUInt8 &&& ~~~busMask)
        ||| (d.imageFlags.bits &&& busMask) := by
    rw [h.ports]
    rfl
  obtain ⟨hbus, hrest⟩ := merge_and (m.ports Port.systemControl.toUInt8) d.imageFlags.bits busMask
  unfold maxRomBanks at hle
  refine ⟨by omega, by omega, by omega, ?_, ?_, hcontrol ▸ hbus, hcontrol ▸ hrest, fun p hp => ?_⟩
  · rw [h.ports]
    rfl
  · rw [h.ports]
    rfl
  · rw [h.ports]
    refine PortWrite.foldl_store_of_not_mem (fun hmem => hp ?_) _
    obtain ⟨w, hw, rfl⟩ := List.mem_map.mp hmem
    exact List.mem_map_of_mem (port_mem_bootPorts hw)

/-- **The registers at the jump.** A boot that comes to the jump, with any device, any hook, any
ports before and any lines of the display to come, has set the ports up for the image of the
descriptor, and kept all others. Its writes are fixed by the descriptor, the system control register
and the reset line of the controller: any other such boot with the same of these has written the
same bytes in the same order. -/
theorem registers_at_jump {π : Type} [Progress π] {s s' : SecondStage π} {target : FarPtr}
    (hd : BootDescriptor.decode s.machine.descriptorBytes = .ok d)
    (hboot : boot s = .ok target s') :
    SetUpFor d s.machine s'.machine
      ∧ ∃ ws, s'.machine.portWrites = s.machine.portWrites ++ ws
        ∧ ws = bootWrites d (s.machine.ports Port.systemControl.toUInt8)
          (s.machine.ports Port.powerControl.toUInt8)
        ∧ PowerLast ws
        ∧ ∀ {ρ : Type} [Progress ρ] {t t' : SecondStage ρ} {target' : FarPtr},
          BootDescriptor.decode t.machine.descriptorBytes = .ok d → boot t = .ok target' t' →
          t.machine.ports Port.systemControl.toUInt8
            = s.machine.ports Port.systemControl.toUInt8 →
          t.machine.ports Port.powerControl.toUInt8 &&& PowerBits.controllerReset.bits
            = s.machine.ports Port.powerControl.toUInt8 &&& PowerBits.controllerReset.bits →
          t'.machine.portWrites = t.machine.portWrites ++ ws := by
  obtain ⟨hvalid, hwrote⟩ := wrote_boot hd hboot
  refine ⟨setUpFor_of_wrote hvalid hwrote, _, hwrote.writes, rfl, powerLast_bootWrites _ _ _, ?_⟩
  intro ρ _ t t' target' hd' hboot' hcontrol hpower
  obtain ⟨_, hwrote'⟩ := wrote_boot hd' hboot'
  rw [hwrote'.writes, bootWrites_congr hcontrol hpower]

/-- An image in program RAM with a wide bus, color and EEPROM. -/
def wideBusImage : BootDescriptor :=
  { smallDescriptor with
    cluster := residentCluster, imageFlags := .wideBus, colorFlags := .color,
    eepromControl := Eeprom.kilobyte, power := ⟨0x50⟩ }

/-- A machine that it is started on, with all power bits set. -/
def wideBusStage : SecondStage Silent where
  machine := { Machine.erased 1 1 with
    ports := fun p => if p = Port.systemControl.toUInt8 then 0x8D else 0xFF }.writeRam
      BootDescriptor.address wideBusImage.encode
  disk := smallDisk
  hook := {}

theorem wideBusStage_registers : ∃ s', boot wideBusStage = .ok wideBusImage.start s'
    ∧ SetUpFor wideBusImage wideBusStage.machine s'.machine
    ∧ s'.machine.portWrites = [⟨0x15, 4⟩, ⟨0, 0⟩, ⟨1, 0⟩, ⟨0x15, 0⟩, ⟨0xA0, 0x85⟩, ⟨0xE4, 0⟩,
      ⟨0xE5, 0x7E⟩, ⟨0xE3, 2⟩, ⟨0xE2, 0xD0⟩, ⟨0xB6, 0xFF⟩] := by
  have hvalid : wideBusImage.validate = .ok () := rfl
  have hbytes : wideBusStage.machine.descriptorBytes = wideBusImage.encode :=
    Machine.descriptorBytes_writeRam _ _
  have hd : BootDescriptor.decode wideBusStage.machine.descriptorBytes = .ok wideBusImage := by
    rw [hbytes, BootDescriptor.decode_encode]
  have hlayout : ImageLayout.forSize wideBusImage.size.toNat = .ok (.placed 0x10000) := rfl
  obtain ⟨s', hboot, _⟩ := boot_of_resident (s := wideBusStage)
    (readDescriptor_eq hbytes (BootDescriptor.validate_eq_ok.mp hvalid)) hlayout rfl rfl
  obtain ⟨hsetup, ws, hwrites, rfl, _⟩ := registers_at_jump hd hboot
  have hbefore : wideBusStage.machine.portWrites = [] := rfl
  rw [hbefore, List.nil_append] at hwrites
  exact ⟨s', hboot, hsetup, hwrites.trans (by decide)⟩

end SecondStage

end CartBoot
