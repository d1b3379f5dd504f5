import CartBoot.Proofs.Ends
import CartBoot.Proofs.Placement

/-!
# A launch is all or nothing

A launch is refused, or it goes through to the jump. What can be held against it is
a list of objections, about the image, its metadata, the volume and the second
stage alone: no state of the machine makes a launch fail. The functions that raise
them do so in the order of the list, and the first that is justified gives the
error.

All of them come before the first write. A launch that is refused has read the
power register at most; a launch that is not has written the descriptor, blanked
the display, masked interrupts and copied the second stage, each once and in that
order.
-/

namespace CartBoot

open Fat

/-! ## Objections -/

/-- Something to be held against a launch, and the error for it. -/
structure Objection where
  holds : Prop
  error : Error

namespace Objection

/-- The first objection that holds comes with that error. -/
inductive First : List Objection → Error → Prop where
  | here {o : Objection} {os : List Objection} : o.holds → First (o :: os) o.error
  | later {o : Objection} {os : List Objection} {e : Error} :
      ¬ o.holds → First os e → First (o :: os) e

variable {os os' : List Objection} {e : Error}

theorem First.append (h : First os e) (os' : List Objection) : First (os ++ os') e := by
  induction h with
  | here h => exact .here h
  | later h _ ih => exact .later h ih

theorem First.append_left (h : First os' e) (hnone : ∀ o ∈ os, ¬ o.holds) :
    First (os ++ os') e := by
  induction os with
  | nil => exact h
  | cons o os ih =>
      obtain ⟨ho, hos⟩ := List.forall_mem_cons.mp hnone
      exact .later ho (ih hos)

end Objection

/-- A check raises those objections: it goes through if none of them holds, and fails with the error
of the first that does. -/
def Raises {α : Type} (x : Except Error α) (os : List Objection) : Prop :=
  match x with
  | .ok _ => ∀ o ∈ os, ¬ o.holds
  | .error e => Objection.First os e

namespace Raises

variable {α β : Type} {x : Except Error α} {os os' : List Objection} {e : Error}

theorem pure {a : α} : Raises (Pure.pure a) [] :=
  List.forall_mem_nil _

theorem not_holds {a : α} (h : Raises x os) (hx : x = .ok a) : ∀ o ∈ os, ¬ o.holds := by
  subst hx
  exact h

theorem first (h : Raises x os) (hx : x = .error e) : Objection.First os e := by
  subst hx
  exact h

/-- The objections of a first check come before those of a second. -/
theorem bind {f : α → Except Error β} (h : Raises x os) (hf : ∀ a, x = .ok a → Raises (f a) os') :
    Raises (x >>= f) (os ++ os') := by
  cases hx : x with
  | error e => exact (h.first hx).append os'
  | ok a =>
      have hnone := h.not_holds hx
      have hrest := hf a hx
      show Raises (f a) _
      cases hr : f a with
      | error e => exact (hrest.first hr).append_left hnone
      | ok b => exact List.forall_mem_append.mpr ⟨hnone, hrest.not_holds hr⟩

theorem bind_pure (h : Raises x os) (f : α → β) : Raises (x >>= fun a => Pure.pure (f a)) os := by
  have hpure : Raises (x >>= fun a => Pure.pure (f a)) (os ++ []) := h.bind fun _ _ => pure
  rwa [List.append_nil] at hpure

theorem ok_bind {a : α} {f : α → Except Error β} (h : Raises (f a) os) :
    Raises ((.ok a : Except Error α) >>= f) os :=
  h

/-- An objection that does not hold is none. -/
theorem pure_of_not {a : α} {p : Prop} (hp : ¬ p) : Raises (Pure.pure a) [⟨p, e⟩] := by
  intro o ho
  rw [List.mem_singleton.mp ho]
  exact hp

variable {c : Prop} [Decidable c]

theorem ite_ok : Raises (if c then .ok () else .error e : Except Error Unit) [⟨¬ c, e⟩] := by
  by_cases hc : c
  · rw [if_pos hc]
    exact pure_of_not (not_not_intro hc)
  · rw [if_neg hc]
    exact .here hc

theorem throw_if {rest : PUnit → Except Error β} (h : ¬ c → Raises (rest ()) os) :
    Raises (if c then (throw e : Except Error PUnit) >>= rest else rest ()) (⟨c, e⟩ :: os) := by
  by_cases hc : c
  · rw [if_pos hc]
    exact .here hc
  · rw [if_neg hc]
    exact bind (pure_of_not (a := ()) hc) fun _ _ => h hc

theorem throw_if_last : Raises (if c then (throw e : Except Error Unit) else Pure.pure ())
    [⟨c, e⟩] := by
  have h : Raises (if c then (throw e : Except Error PUnit) >>= fun _ => Pure.pure ()
      else Pure.pure ()) [⟨c, e⟩] := throw_if fun _ => pure
  exact h

end Raises

/-! ## What each check raises -/

/-- Code and tiles have room in internal RAM, and the code does not run into the tiles. -/
def StubImage.Fits (stub : StubImage) (config : LaunchConfig) : Prop :=
  (config.tilesAddress.toNat < config.stubAddress.toNat
      ∨ config.stubAddress.toNat + stub.code.size ≤ config.tilesAddress.toNat)
    ∧ config.stubAddress.toNat + stub.code.size ≤ iramSize
    ∧ config.tilesAddress.toNat + stub.tiles.size ≤ iramSize

theorem StubImage.raises_check (stub : StubImage) (config : LaunchConfig) :
    Raises (stub.check config) [⟨¬ stub.Fits config, .fileTooLarge⟩] :=
  Raises.ite_ok

theorem Footer.raises_validate (f : Footer) :
    Raises f.validate [⟨¬ f.isBootable, .formatInvalid⟩] :=
  Raises.ite_ok

namespace BootImage

/-- Banks of the space that an image is placed in. -/
def spaceBanks (image : BootImage) : Nat :=
  ImageLayout.spaceFor image.size.toNat / bankSize

/-- What the metadata of an image may give rise to. -/
def metadataObjections (image : BootImage) (m : Metadata) : List Objection :=
  [⟨¬ m.footer.isBootable, .formatInvalid⟩,
    ⟨m.size ≠ image.size, .formatInvalid⟩,
    ⟨∃ banks, m.romBanks = some banks
      ∧ (banks.toNat < image.spaceBanks ∨ maxRomBanks < banks.toNat), .fileTooLarge⟩]

/-- What an image may give rise to, in the order in which it is looked at. -/
def objections (image : BootImage) (config : LaunchConfig) : List Objection :=
  [⟨image.size.toNat < Footer.size, .formatInvalid⟩,
    ⟨config.maxImageSize < image.size.toNat, .fileTooLarge⟩,
    ⟨image.cluster ≠ residentCluster ∧ image.cluster < 2, .invalidCluster image.cluster.toNat⟩,
    ⟨maxRomBanks < image.spaceBanks, .fileTooLarge⟩]
    ++ image.metadata.elim [] image.metadataObjections

/-- What is left to be seen from the descriptor: static RAM beyond what the registers can hold, and
a cluster that the volume does not have. -/
def descriptorObjections (image : BootImage) (g : Geometry) : List Objection :=
  [⟨∃ m, image.metadata = some m ∧ maxSramMask < m.sramMask.toNat, .formatInvalid⟩,
    ⟨image.cluster ≠ residentCluster ∧ ¬ g.HasCluster image.cluster.toNat,
      .invalidCluster image.cluster.toNat⟩]

end BootImage

namespace Launch

variable {image : BootImage} {config : LaunchConfig}

theorem raises_checkMetadata (image : BootImage) {layout : ImageLayout}
    (hlayout : layout.totalBanks = image.spaceBanks) (m : Metadata) :
    Raises (checkMetadata image layout m) (image.metadataObjections m) := by
  unfold checkMetadata BootImage.metadataObjections
  refine .bind m.footer.raises_validate fun _ _ => .throw_if fun _ => ?_
  cases hbanks : m.romBanks with
  | none => exact .pure_of_not nofun
  | some banks =>
      have hcount : (∃ b, some banks = some b
          ∧ (b.toNat < image.spaceBanks ∨ maxRomBanks < b.toNat))
          = (banks.toNat < layout.totalBanks ∨ maxRomBanks < banks.toNat) := by
        simp [hlayout]
      rw [hcount]
      exact .throw_if_last

theorem raises_validate (image : BootImage) (config : LaunchConfig) :
    Raises (validate image config) (image.objections config) := by
  unfold validate BootImage.objections
  refine .throw_if fun hfooter => .throw_if fun _ => .throw_if fun _ => ?_
  have hne : image.size.toNat ≠ 0 := by
    intro hzero
    rw [hzero] at hfooter
    exact hfooter (by decide)
  rcases ImageLayout.forSize_cases hne with ⟨hsize, herror⟩ | ⟨_, hok⟩
  · -- an image without a place would take more banks than there are numbers for
    have hspace := ImageLayout.spaceFor_of_lt hsize
    rw [herror]
    refine .here ?_
    show maxRomBanks < ImageLayout.spaceFor image.size.toNat / bankSize
    unfold maxRomBanks bankSize
    omega
  · rw [hok]
    refine Raises.ok_bind (Raises.throw_if fun _ => ?_)
    cases image.metadata with
    | none => exact .pure
    | some m => exact (raises_checkMetadata image rfl m).bind_pure _

variable {v : Validated}

/-- The banks that come into the descriptor are banks that the registers can describe. -/
theorem romBanks_descriptor (h : validate image config = .ok v) (g : Geometry) (power : UInt8) :
    (v.descriptor g power).romBanks ≠ 0 ∧ (v.descriptor g power).romBanks.toNat ≤ maxRomBanks := by
  obtain ⟨himage, _, hlayout, hbanks, hmetadata⟩ := validate_spec h
  have hleast := totalBanks_le h g power
  refine ⟨fun hzero => ?_, ?_⟩
  · have hpositive := ImageLayout.totalBanks_pos hlayout
    rw [hzero] at hleast
    exact Nat.not_lt.mpr hleast hpositive
  · have hplain : v.layout.totalBanks.toUInt16.toNat ≤ v.layout.totalBanks := Nat.mod_le _ _
    unfold Validated.descriptor
    dsimp only
    split
    · exact Nat.le_trans hplain hbanks
    · rename_i m hm
      dsimp only
      cases hr : m.romBanks with
      | none => exact Nat.le_trans hplain hbanks
      | some banks => exact (banks_of_checkMetadata (hmetadata m (himage ▸ hm)) hr).2

end Launch

/-- A descriptor of an image, with banks that the registers can describe, has two objections
left. -/
theorem BootDescriptor.raises_validate {d : BootDescriptor} (hne : d.romBanks ≠ 0)
    (hle : d.romBanks.toNat ≤ maxRomBanks) (hsize : d.size ≠ 0) :
    Raises d.validate
      [⟨maxSramMask < d.sramMask.toNat, .formatInvalid⟩,
        ⟨¬ d.isResident ∧ ¬ d.geometry.HasCluster d.cluster.toNat,
          .invalidCluster d.cluster.toNat⟩] := by
  unfold validate
  rw [if_neg (not_or.mpr ⟨hne, Nat.not_lt.mpr hle⟩)]
  refine .throw_if fun _ => ?_
  rw [if_neg hsize]
  exact .throw_if_last

namespace Launch

variable {image : BootImage} {config : LaunchConfig} {v : Validated}

theorem cluster_descriptor (v : Validated) (g : Geometry) (power : UInt8) :
    (v.descriptor g power).cluster = v.image.cluster := by
  unfold Validated.descriptor
  dsimp only
  split <;> rfl

/-- The static RAM in the descriptor is too large only if that of the metadata is. -/
theorem sramMask_descriptor (v : Validated) (g : Geometry) (power : UInt8) :
    maxSramMask < (v.descriptor g power).sramMask.toNat ↔
      ∃ m, v.image.metadata = some m ∧ maxSramMask < m.sramMask.toNat := by
  unfold Validated.descriptor
  dsimp only
  split
  · rename_i hnone
    have hdefault : ¬ maxSramMask < defaultSramMask.toNat := by decide
    refine ⟨fun h => absurd h hdefault, fun h => ?_⟩
    obtain ⟨m, hm, _⟩ := h
    exact nomatch hnone.symm.trans hm
  · rename_i m hm
    refine ⟨fun h => ⟨m, hm, h⟩, fun h => ?_⟩
    obtain ⟨m', hm', hlarge⟩ := h
    cases hm.symm.trans hm'
    exact hlarge

/-- An image that passed its own checks can still have static RAM that is too large, or a cluster
that the volume does not have; nothing else is left. -/
theorem raises_descriptor (h : validate image config = .ok v) (g : Geometry) (power : UInt8) :
    Raises (v.descriptor g power).validate (image.descriptorObjections g) := by
  obtain ⟨himage, _, hlayout, _, _⟩ := validate_spec h
  obtain ⟨hne, hle⟩ := romBanks_descriptor h g power
  obtain ⟨hgeometry, hsize⟩ := descriptor_fields v g power
  have hcluster := cluster_descriptor v g power
  have hmask := sramMask_descriptor v g power
  rw [himage] at hsize hcluster hmask
  have hempty : (v.descriptor g power).size ≠ 0 := by
    intro hzero
    rw [hsize] at hzero
    rw [hzero] at hlayout
    cases hlayout
  have hresident : (¬ (v.descriptor g power).isResident) = (image.cluster ≠ residentCluster) := by
    unfold BootDescriptor.isResident
    rw [hcluster, decide_eq_true_eq]
  have hraises := BootDescriptor.raises_validate hne hle hempty
  rwa [propext hmask, hresident, hgeometry, hcluster] at hraises

end Launch

/-! ## What a launch leaves -/

namespace Machine

/-- What a launch has no business with: cartridge memories and their registers, the display's
counter, and the code for the patch. -/
structure SameCartridge (m m' : Machine) : Prop where
  psram : m'.psram = m.psram
  sram : m'.sram = m.sram
  banks : m'.banks = m.banks
  flash : m'.flash = m.flash
  lcdLines : m'.lcdLines = m.lcdLines
  softResetCode : m'.softResetCode = m.softResetCode

variable {m m' m'' : Machine}

theorem SameCartridge.trans (h : m.SameCartridge m') (h' : m'.SameCartridge m'') :
    m.SameCartridge m'' :=
  ⟨h'.psram.trans h.psram, h'.sram.trans h.sram, h'.banks.trans h.banks, h'.flash.trans h.flash,
    h'.lcdLines.trans h.lcdLines, h'.softResetCode.trans h.softResetCode⟩

theorem sameCartridge_record (m : Machine) (e : Event) : m.SameCartridge (m.record e) :=
  ⟨rfl, rfl, rfl, rfl, rfl, rfl⟩

theorem sameCartridge_writeRam (m : Machine) (address : UInt16) (data : ByteArray) :
    m.SameCartridge (m.writeRam address data) := by
  unfold writeRam record
  exact ⟨rfl, rfl, rfl, rfl, rfl, rfl⟩

theorem sameCartridge_disableDisplay (m : Machine) : m.SameCartridge m.disableDisplay :=
  ⟨rfl, rfl, rfl, rfl, rfl, rfl⟩

theorem events_disableDisplay (m : Machine) : m.disableDisplay.events
    = (m.events.push (.output Port.displayControl 0)).push (.output (Port.displayControl + 1) 0) :=
  rfl

theorem ports_writeRam (m : Machine) (address : UInt16) (data : ByteArray) :
    (m.writeRam address data).ports = m.ports := by
  unfold writeRam record
  rfl

theorem ports_disableDisplay (m : Machine) (p : UInt8) :
    m.disableDisplay.ports p = if p = 0 ∨ p = 1 then 0 else m.ports p := by
  show (if p = 1 then 0 else if p = 0 then 0 else m.ports p) = _
  by_cases h0 : p = 0
  · simp [h0]
  · simp [h0]

end Machine

namespace Launch

/-- The power bits that a launch finds. -/
def powerOf (m : Machine) : UInt8 :=
  m.ports Port.powerControl.toUInt8

/-- How a launch is refused: the first step that fails gives the error. The machine is as it was,
but that the last of the steps has read the power register. -/
inductive Refused (image : BootImage) (g : Geometry) (config : LaunchConfig) (stub : StubImage)
    (m : Machine) : Error → Machine → Prop where
  | byStub {e : Error} : stub.check config = .error e → Refused image g config stub m e m
  | byImage {e : Error} : stub.check config = .ok () → validate image config = .error e →
      Refused image g config stub m e m
  | byDescriptor {e : Error} {v : Validated} : stub.check config = .ok () →
      validate image config = .ok v → (v.descriptor g (powerOf m)).validate = .error e →
      Refused image g config stub m e (m.record (.input Port.powerControl (powerOf m)))

/-- What a launch with that descriptor does to the machine, and in which order. -/
structure Launched (d : BootDescriptor) (config : LaunchConfig) (stub : StubImage)
    (m m' : Machine) : Prop where
  events : m'.events = m.events ++ #[
    .input Port.powerControl (powerOf m),
    .ramWrite BootDescriptor.address d.encode,
    .output Port.displayControl 0,
    .output (Port.displayControl + 1) 0,
    .interruptsOff,
    .ramWrite config.tilesAddress stub.tiles,
    .ramWrite config.stubAddress stub.code]
  iram : m'.iram = ((m.iram.patch BootDescriptor.address.toNat d.encode).patch
    config.tilesAddress.toNat stub.tiles).patch config.stubAddress.toNat stub.code
  ports (p : UInt8) : m'.ports p = if p = 0 ∨ p = 1 then 0 else m.ports p
  same : m.SameCartridge m'

theorem inb_powerControl (m : Machine) : m.inb Port.powerControl
    = (powerOf m, m.record (.input Port.powerControl (powerOf m))) :=
  rfl

theorem launched_stage (d : BootDescriptor) (config : LaunchConfig) (stub : StubImage)
    (m : Machine) :
    Launched d config stub m (Populated.stage ⟨d, config⟩ stub
      ((m.record (.input Port.powerControl (powerOf m))).writeRam
        BootDescriptor.address d.encode)).2 := by
  have hread := m.sameCartridge_record (.input Port.powerControl (powerOf m))
  have hdescriptor := hread.trans
    (Machine.sameCartridge_writeRam _ BootDescriptor.address d.encode)
  unfold Populated.stage
  dsimp only
  generalize hm : (m.record (.input Port.powerControl (powerOf m))).writeRam
    BootDescriptor.address d.encode = m' at hdescriptor ⊢
  have hidle := (hdescriptor.trans m'.sameCartridge_disableDisplay).trans
    (Machine.sameCartridge_record _ .interruptsOff)
  have hports : m'.ports = m.ports := by
    rw [← hm, Machine.ports_writeRam]
    rfl
  refine ⟨?_, ?_, fun p => ?_, ?_⟩
  · show ((m'.disableDisplay.events.push _).push _).push _ = _
    rw [Machine.events_disableDisplay, ← hm]
    show ((((((m.events.push _).push _).push _).push _).push _).push _).push _ = _
    simp only [Array.push_eq_append, Array.append_assoc, List.append_toArray, List.cons_append,
      List.nil_append]
  · rw [← hm]
    rfl
  · rw [Machine.ports_writeRam, Machine.ports_writeRam, ← hports]
    exact m'.ports_disableDisplay p
  · exact (hidle.trans (Machine.sameCartridge_writeRam _ config.tilesAddress stub.tiles)).trans
      (Machine.sameCartridge_writeRam _ config.stubAddress stub.code)

theorem ends_populate (v : Validated) (g : Geometry) (m : Machine) :
    Ends (v.populate g m)
      (fun p m' => p = ⟨v.descriptor g (powerOf m), v.config⟩
        ∧ (v.descriptor g (powerOf m)).validate = .ok ()
        ∧ m' = (m.record (.input Port.powerControl (powerOf m))).writeRam BootDescriptor.address
          p.descriptor.encode)
      (fun e m' => (v.descriptor g (powerOf m)).validate = .error e
        ∧ m' = m.record (.input Port.powerControl (powerOf m))) := by
  unfold Validated.populate
  rw [inb_powerControl]
  dsimp only
  cases hvalid : (v.descriptor g (powerOf m)).validate with
  | error e => exact ⟨rfl, rfl⟩
  | ok _ => exact ⟨rfl, rfl, rfl⟩

theorem ends_launch (image : BootImage) (g : Geometry) (config : LaunchConfig) (stub : StubImage)
    (m : Machine) : Ends (launch image g config stub m)
      (fun target m' => target = ⟨0, config.stubAddress⟩ ∧ ∃ v, stub.check config = .ok ()
        ∧ validate image config = .ok v ∧ (v.descriptor g (powerOf m)).validate = .ok ()
        ∧ Launched (v.descriptor g (powerOf m)) config stub m m')
      (fun e m' => Refused image g config stub m e m') := by
  unfold launch
  cases hstub : stub.check config with
  | error e => exact .byStub hstub
  | ok _ =>
      cases himage : validate image config with
      | error e => exact .byImage hstub himage
      | ok v =>
          dsimp only
          cases hr : v.populate g m with
          | error e m' =>
              obtain ⟨hvalid, rfl⟩ := (ends_populate v g m).of_error hr
              exact .byDescriptor hstub himage hvalid
          | ok p m' =>
              obtain ⟨rfl, hvalid, rfl⟩ := (ends_populate v g m).of_ok hr
              obtain ⟨_, rfl, _⟩ := validate_spec himage
              exact ⟨rfl, v, rfl, rfl, hvalid, launched_stage _ _ _ _⟩

/-! ## All or nothing -/

/-- Everything that can be held against a launch, in the order in which it is looked for. -/
def objections (image : BootImage) (g : Geometry) (config : LaunchConfig) (stub : StubImage) :
    List Objection :=
  ⟨¬ stub.Fits config, .fileTooLarge⟩ :: (image.objections config ++ image.descriptorObjections g)

variable {g : Geometry} {stub : StubImage} {m m' : Machine}

/-- A launch is refused for the first objection that holds. -/
theorem Refused.first {e : Error} (h : Refused image g config stub m e m') :
    Objection.First (objections image g config stub) e := by
  have hfit := stub.raises_check config
  have hchecks := raises_validate image config
  cases h with
  | byStub hstub => exact (hfit.first hstub).append _
  | byImage hstub himage =>
      exact ((hchecks.first himage).append _).append_left (hfit.not_holds hstub)
  | byDescriptor hstub himage hvalid =>
      have hlast := (raises_descriptor himage g (powerOf m)).first hvalid
      exact (hlast.append_left (hchecks.not_holds himage)).append_left (hfit.not_holds hstub)

/-- A launch that is refused has read the power register at most. -/
theorem Refused.untouched {e : Error} (h : Refused image g config stub m e m') :
    m' = m ∨ m' = m.record (.input Port.powerControl (powerOf m)) := by
  cases h with
  | byStub => exact .inl rfl
  | byImage => exact .inl rfl
  | byDescriptor => exact .inr rfl

theorem not_holds_of_valid (hstub : stub.check config = .ok ())
    (himage : validate image config = .ok v) {power : UInt8}
    (hvalid : (v.descriptor g power).validate = .ok ()) :
    ∀ o ∈ objections image g config stub, ¬ o.holds := by
  have hfit := (stub.raises_check config).not_holds hstub
  have hchecks := (raises_validate image config).not_holds himage
  have hlast := (raises_descriptor himage g power).not_holds hvalid
  exact List.forall_mem_append.mpr ⟨hfit, List.forall_mem_append.mpr ⟨hchecks, hlast⟩⟩

end Launch

/-- **A launch is all or nothing.** Either the first step that fails gives the error, which is that
of the first objection that holds, and the machine is as it was but for one look at the power
register; or no objection holds, and the machine has the descriptor of the image in place, the
display blank, interrupts off and the second stage in internal RAM, in this order, when the
processor jumps to it. -/
theorem launch_all_or_nothing (image : BootImage) (g : Geometry) (config : LaunchConfig)
    (stub : StubImage) (m : Machine) :
    Ends (launch image g config stub m)
      (fun target m' => target = ⟨0x0000, config.stubAddress⟩
        ∧ (∀ o ∈ Launch.objections image g config stub, ¬ o.holds)
        ∧ ∃ v, Launch.validate image config = .ok v
          ∧ (v.descriptor g (Launch.powerOf m)).Valid
          ∧ (v.descriptor g (Launch.powerOf m)).encode.size = 35
          ∧ Launch.Launched (v.descriptor g (Launch.powerOf m)) config stub m m')
      (fun e m' => Launch.Refused image g config stub m e m'
        ∧ Objection.First (Launch.objections image g config stub) e
        ∧ (m' = m ∨ m' = m.record (.input Port.powerControl (Launch.powerOf m)))) := by
  refine (Launch.ends_launch image g config stub m).mono ?_ ?_
  · intro target m' h
    obtain ⟨htarget, v, hstub, himage, hvalid, hlaunched⟩ := h
    exact ⟨htarget, Launch.not_holds_of_valid hstub himage hvalid, v, himage,
      BootDescriptor.validate_eq_ok.mp hvalid, BootDescriptor.size_encode _, hlaunched⟩
  · intro e m' h
    exact ⟨h, h.first, h.untouched⟩

end CartBoot
