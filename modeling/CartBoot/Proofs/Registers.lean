import CartBoot.Proofs.Selection
import CartBoot.Boot.SoftReset
import CartBoot.Save

/-!
# Registers come back

Everything that borrows a window of the cartridge gives it back: the four copies,
the look at the footer of a flash image, and the soft-reset patch. A copy has many
ways out. The stream may fail in any piece, the hook may cancel it after any piece,
the range may be one that has no end; whichever it is, the bank register of the
window is written back, and so is the flash enable if the copy set it.

What a copy does until then is a list of writes to one bank register and bytes of
the memories behind the windows, `Machine.Through`. Each piece adds to it whether
or not it fails, and the scope around the pieces is closed once for all ways out.
-/

namespace CartBoot

namespace Machine

/-- The registers hold what they held. -/
structure Returned (m m' : Machine) : Prop where
  banks : m'.banks = m.banks
  enable : m'.flash = m.flash
  ports : m'.ports = m.ports

/-- Nothing was done from outside but to the bank register of one window. -/
def OnlyBank (w : Window) (m m' : Machine) : Prop :=
  ∃ banks : List UInt16, m'.events.toList = m.events.toList ++ banks.map (.bank w)

/-- Of the registers, nothing was touched but the bank of one window. -/
structure Through (w : Window) (m m' : Machine) : Prop where
  others (v : Window) : v ≠ w → m'.banks v = m.banks v
  flash : m'.flash = m.flash
  ports : m'.ports = m.ports
  events : m.OnlyBank w m'

/-- The writes of a scope in which the banks of a list were selected. -/
def bracket (m : Machine) (w : Window) (flash : Option Bool) (banks : List UInt16) : List Event :=
  (flash.map .flash).toList ++ banks.map (.bank w)
    ++ .bank w (m.banks w) :: (flash.map fun _ => Event.flash m.flash).toList

/-- The registers hold what they held, after nothing or after one scope. -/
structure Bracketed (m : Machine) (w : Window) (flash : Option Bool) (m' : Machine) : Prop
    extends m.Returned m' where
  events : m'.events = m.events ∨
    ∃ banks, m'.events.toList = m.events.toList ++ m.bracket w flash banks

variable {w : Window} {m m' m'' : Machine}

theorem Returned.trans (h : m.Returned m') (h' : m'.Returned m'') : m.Returned m'' :=
  ⟨h'.banks.trans h.banks, h'.enable.trans h.enable, h'.ports.trans h.ports⟩

theorem Through.refl (w : Window) (m : Machine) : m.Through w m :=
  ⟨fun _ _ => rfl, rfl, rfl, [], (List.append_nil _).symm⟩

theorem Through.trans (h : m.Through w m') (h' : m'.Through w m'') : m.Through w m'' where
  others v hv := (h'.others v hv).trans (h.others v hv)
  flash := h'.flash.trans h.flash
  ports := h'.ports.trans h.ports
  events := by
    obtain ⟨banks, hbanks⟩ := h.events
    obtain ⟨banks', hbanks'⟩ := h'.events
    exact ⟨banks ++ banks', by rw [hbanks', hbanks, List.map_append, List.append_assoc]⟩

theorem through_setBank (w : Window) (bank : UInt16) (m : Machine) :
    m.Through w (m.setBank w bank) :=
  ⟨fun _ hv => if_neg hv, rfl, rfl, [bank], Array.toList_push⟩

theorem through_setWindowBytes (w v : Window) (offset : Nat) (data : ByteArray) (m : Machine) :
    m.Through w (m.setWindowBytes v offset data) := by
  unfold setWindowBytes
  split <;> exact ⟨fun _ _ => rfl, rfl, rfl, [], (List.append_nil _).symm⟩

theorem returned_writeRam (address : UInt16) (data : ByteArray) (m : Machine) :
    m.Returned (m.writeRam address data) :=
  ⟨rfl, rfl, rfl⟩

/-- Whatever a scope was left with, closing it puts the registers back. -/
theorem Through.bracketed (flash : Option Bool)
    (h : (flash.elim m fun enabled => m.setFlash enabled).Through w m') :
    m.Bracketed w flash ((BankScope.opened m w flash).leave m') := by
  obtain ⟨banks, hbanks⟩ := h.events
  have hevents := BankScope.events_leave_opened m m' w flash
  rw [hbanks] at hevents
  have hback : (m'.setBank w (m.banks w)).banks = m.banks := by
    funext v
    by_cases hv : v = w
    · rw [hv]
      exact if_pos rfl
    · refine (if_neg hv).trans ((h.others v hv).trans ?_)
      cases flash <;> rfl
  cases flash with
  | none => exact ⟨⟨hback, h.flash, h.ports⟩, .inr ⟨banks, by simpa [bracket] using hevents⟩⟩
  | some enabled =>
      have hset : (m.setFlash enabled).events.toList = m.events.toList ++ [.flash enabled] :=
        Array.toList_push
      rw [Option.elim, hset] at hevents
      exact ⟨⟨hback, rfl, h.ports⟩, .inr ⟨banks, by simpa [bracket] using hevents⟩⟩

/-- A scope that leaves the flash enable alone writes one bank register and nothing else. -/
theorem Bracketed.onlyBank (h : m.Bracketed w none m') : m.OnlyBank w m' := by
  rcases h.events with hnone | ⟨banks, hevents⟩
  · exact ⟨[], by rw [hnone]; exact (List.append_nil _).symm⟩
  · refine ⟨banks ++ [m.banks w], hevents.trans ?_⟩
    rw [List.map_append]
    rfl

end Machine

namespace Copier

variable {σ π : Type}

/-- A move that touches nothing but the memories behind the windows, also if it fails. -/
def Steady (move : Move σ π) : Prop :=
  ∀ w offset len c, Ends (move w offset len c)
    (fun _ d => c.machine.Through w d.machine) (fun _ d => c.machine.Through w d.machine)

theorem steady_fromStream [ReadStream σ] : Steady (fromStream : Move σ π) := by
  intro w offset len c
  unfold fromStream
  dsimp only
  cases ReadStream.read c.stream len with
  | mk data error? t =>
      cases error? <;> exact Machine.through_setWindowBytes w w offset data c.machine

theorem steady_toStream [WriteStream σ] : Steady (toStream : Move σ π) := by
  intro w offset len c
  unfold toStream
  rw [ends_bind, ends_get, ends_onStream]
  cases WriteStream.write (c.machine.windowBytes w offset len) c.stream <;> exact .refl w c.machine

section Run

variable [Progress π] {move : Move σ π}

/-- **The scope of a copy.** On every way out of a copy its writes to the registers are those of one
scope, or none. -/
theorem bracketed_copy (hsteady : Steady move) (w : Window) (flash : Option Bool)
    (start : BankedAddr) (len : Nat) (c : Copier σ π) :
    Ends (copy move w flash start len c)
      (fun _ d => c.machine.Bracketed w flash d.machine)
      (fun _ d => c.machine.Bracketed w flash d.machine) := by
  unfold copy
  split
  · exact ⟨⟨rfl, rfl, rfl⟩, .inl rfl⟩
  rw [ends_withRegisters, copyRange_eq]
  split
  · exact Machine.Through.bracketed flash (.refl w _)
  · -- everything a copy does on the way touches one bank register
    refine (ends_copyFrom_any (I := fun d => Machine.Through w _ d.machine)
      (fun bank d hd => hd.trans (Machine.through_setBank w bank d.machine))
      (fun offset len d hd => (hsteady w offset len d).mono (fun _ _ => hd.trans)
        fun _ _ => hd.trans)
      (fun _ _ hd => hd) (Nat.le_add_right _ _) (Machine.Through.refl w _)).mono ?_ ?_
    all_goals
      intro _ d hd
      exact Machine.Through.bracketed flash hd

end Run

/-- An operation that leaves the registers as it finds them, whichever way it ends. -/
def Returns (operation : EStateM Error (Copier σ π) Unit) : Prop :=
  ∀ c, Ends (operation c)
    (fun _ d => c.machine.Returned d.machine) (fun _ d => c.machine.Returned d.machine)

theorem returns_copy [Progress π] {move : Move σ π} (hsteady : Steady move) (w : Window)
    (flash : Option Bool) (start : BankedAddr) (len : Nat) :
    Returns (copy move w flash start len) :=
  fun c => (bracketed_copy hsteady w flash start len c).mono
    (fun _ _ h => h.toReturned) (fun _ _ h => h.toReturned)

/-- An empty range touches nothing and asks nobody. -/
theorem copy_zero [Progress π] (move : Move σ π) (w : Window) (flash : Option Bool)
    (start : BankedAddr) (c : Copier σ π) : copy move w flash start 0 c = .ok () c := by
  unfold copy
  rw [if_pos rfl]
  rfl

end Copier

/-! ## Looking at a flash image, and patching one -/

/-- A look at the footer of a flash image selects a bank and puts the old one back. -/
theorem Save.bracketed_flashIsBootable (len : Nat) (m : Machine) :
    m.Bracketed .rom0 none (flashIsBootable len m).2 := by
  unfold flashIsBootable
  split
  · exact ⟨⟨rfl, rfl, rfl⟩, .inl rfl⟩
  · exact Machine.Through.bracketed none (Machine.through_setBank .rom0 _ m)

theorem SoftReset.through_install (code : ByteArray) (m : Machine) :
    m.Through .ram (install code m).2 :=
  (Machine.through_setWindowBytes .ram .ram codeStart code m).trans
    (Machine.through_setWindowBytes .ram .ram vectorStart codePointer.encode _)

/-- The patch is one scope, after which the old jump may be written to the descriptor; and a patch
that is too large touches nothing. -/
theorem SoftReset.bracketed_apply (layout : ImageLayout) (m : Machine) :
    Ends (apply layout m)
      (fun _ m' => ∃ n, m.Bracketed .ram (some true) n
        ∧ (m' = n ∨ ∃ address data, m' = n.writeRam address data))
      (fun _ m' => m' = m) := by
  have hshown := Machine.through_setBank .ram layout.lastBank.toUInt16 (m.setFlash true)
  by_cases hsize : codeLimit - codeStart < m.softResetCode.size
  · rw [apply_of_large hsize]
    exact rfl
  rw [apply_of_small (Nat.not_lt.mp hsize)]
  generalize areaIsFree _ = free
  cases free with
  | false => exact ⟨_, Machine.Through.bracketed (some true) hshown, .inl rfl⟩
  | true =>
      have hinstalled := hshown.trans (through_install m.softResetCode _)
      exact ⟨_, Machine.Through.bracketed (some true) hinstalled, .inr ⟨_, _, rfl⟩⟩

/-- The patch puts the registers back whether it is installed or not. -/
theorem SoftReset.returned_apply (layout : ImageLayout) (m : Machine) :
    Ends (apply layout m) (fun _ m' => m.Returned m') (fun _ m' => m' = m) := by
  refine (bracketed_apply layout m).mono ?_ fun _ _ hfail => hfail
  rintro _ _ ⟨n, hn, rfl | ⟨address, data, rfl⟩⟩
  · exact hn.toReturned
  · exact hn.toReturned.trans (n.returned_writeRam address data)

namespace Copier

variable {ρ σ π : Type}

/-- **Registers come back on every exit.** A copy that ends, or whose stream fails with any error,
or that its hook cancels, or whose range has no end, leaves all banks and the flash enable as they
were; so do the look at a flash image and the patch. Writing program memory out never sets the
flash enable. An empty copy is the state it began with, whatever a stream or a hook would have
recorded. -/
theorem registers_return [ReadStream ρ] [WriteStream σ] [Progress π] (start : BankedAddr)
    (len : Nat) (layout : ImageLayout) (m : Machine) :
    Returns (loadSram start len : EStateM Error (Copier ρ π) Unit)
      ∧ Returns (loadPsram start len : EStateM Error (Copier ρ π) Unit)
      ∧ Returns (saveSram start len : EStateM Error (Copier σ π) Unit)
      ∧ Returns (saveRom start len : EStateM Error (Copier σ π) Unit)
      ∧ (∀ c : Copier σ π, Ends (saveRom start len c)
          (fun _ d => c.machine.OnlyBank .rom0 d.machine)
          (fun _ d => c.machine.OnlyBank .rom0 d.machine))
      ∧ (∀ c : Copier ρ π, loadSram start 0 c = .ok () c ∧ loadPsram start 0 c = .ok () c)
      ∧ (∀ c : Copier σ π, saveSram start 0 c = .ok () c ∧ saveRom start 0 c = .ok () c)
      ∧ m.Returned (Save.flashIsBootable len m).2
      ∧ m.OnlyBank .rom0 (Save.flashIsBootable len m).2
      ∧ Ends (SoftReset.apply layout m) (fun _ m' => m.Returned m')
          (fun _ m' => m.Returned m') := by
  have hbootable := Save.bracketed_flashIsBootable len m
  refine ⟨returns_copy steady_fromStream _ _ _ _, returns_copy steady_fromStream _ _ _ _,
    returns_copy steady_toStream _ _ _ _, returns_copy steady_toStream _ _ _ _, ?_, ?_, ?_,
    hbootable.toReturned, hbootable.onlyBank, ?_⟩
  · exact fun c => (bracketed_copy steady_toStream .rom0 none start len c).mono
      (fun _ _ h => h.onlyBank) (fun _ _ h => h.onlyBank)
  · exact fun c => ⟨copy_zero _ _ _ _ c, copy_zero _ _ _ _ c⟩
  · exact fun c => ⟨copy_zero _ _ _ _ c, copy_zero _ _ _ _ c⟩
  · refine (SoftReset.returned_apply layout m).mono (fun _ _ h => h) ?_
    rintro _ _ rfl
    exact ⟨rfl, rfl, rfl⟩

end Copier

end CartBoot
