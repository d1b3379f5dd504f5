import CartBoot.Proofs.Copies

/-!
# The registers of a copy

What a copy does to the registers depends only on its range. A move that leaves
the registers alone, as both moves of a copy do, adds nothing to them: the bank
register of the window is written when the range enters a bank and at no other
time, so it is written with the banks of the range in ascending order, each once.

Pieces are shorter than banks, so most pieces find their bank selected. What
carries the induction is that the bank selected so far is the bank of the last
byte that was moved.
-/

namespace CartBoot

/-! ## The banks of a range -/

/-- The banks from one to another, ascending. -/
def banksFrom (a b : UInt16) : List UInt16 :=
  (List.range' a.toNat (b.toNat + 1 - a.toNat)).map Nat.toUInt16

/-- The bank of the last byte of a range that ends before `stop`. -/
def lastBank (stop : Nat) : UInt16 :=
  (BankedAddr.ofLinear (stop - 1)).bank

theorem BankedAddr.toNat_bank_ofLinear {n : Nat} (h : n < 0x100000000) :
    (ofLinear n).bank.toNat = n / bankSize := by
  refine UInt16.toNat_ofNat_of_lt' ?_
  unfold bankSize UInt16.size
  omega

theorem BankedAddr.bank_ofLinear_linear (a : BankedAddr) : (ofLinear a.linear).bank = a.bank := by
  have hoffset := a.offset.toNat_lt
  refine UInt16.toNat_inj.mp ?_
  rw [toNat_bank_ofLinear]
  all_goals
    have hbank := a.bank.toNat_lt
    unfold linear bankSize
    omega

/-- Exactly the banks between the two are among them. -/
theorem mem_banksFrom {a b x : UInt16} : x ∈ banksFrom a b ↔ a ≤ x ∧ x ≤ b := by
  rw [banksFrom, List.mem_map, UInt16.le_iff_toNat_le, UInt16.le_iff_toNat_le]
  constructor
  · rintro ⟨n, hn, rfl⟩
    have hb := b.toNat_lt
    rw [List.mem_range'_1] at hn
    rw [Nat.toUInt16_eq, UInt16.toNat_ofNat_of_lt' (by unfold UInt16.size; omega)]
    omega
  · intro hx
    exact ⟨x.toNat, List.mem_range'_1.mpr (by omega), UInt16.ofNat_toNat⟩

/-- They are in order, so none comes twice. -/
theorem pairwise_banksFrom (a b : UInt16) : (banksFrom a b).Pairwise (· < ·) := by
  rw [banksFrom, List.pairwise_map]
  refine List.Pairwise.imp_of_mem ?_ List.pairwise_lt_range'
  intro m n hm hn hlt
  have hb := b.toNat_lt
  rw [List.mem_range'_1] at hm hn
  rw [UInt16.lt_iff_toNat_lt, Nat.toUInt16_eq, Nat.toUInt16_eq,
    UInt16.toNat_ofNat_of_lt' (by unfold UInt16.size; omega),
    UInt16.toNat_ofNat_of_lt' (by unfold UInt16.size; omega)]
  exact hlt

theorem banksFrom_self (a : UInt16) : banksFrom a a = [a] := by
  rw [banksFrom, Nat.add_sub_cancel_left]
  exact congrArg (fun b => [b]) UInt16.ofNat_toNat

/-- The next bank comes last. -/
theorem banksFrom_succ {a b c : UInt16} (hle : a ≤ b) (hc : c.toNat = b.toNat + 1) :
    banksFrom a c = banksFrom a b ++ [c] := by
  rw [UInt16.le_iff_toNat_le] at hle
  have hlength : c.toNat + 1 - a.toNat = b.toNat + 1 - a.toNat + 1 := by omega
  have hlast : a.toNat + (b.toNat + 1 - a.toNat) = c.toNat := by omega
  rw [banksFrom, banksFrom, hlength, List.range'_1_concat, hlast, List.map_append,
    List.map_singleton]
  exact congrArg (fun x => _ ++ [x]) UInt16.ofNat_toNat

/-- A piece lies in the bank of its first byte. -/
theorem lastBank_pieceStop {address stop : Nat} (h : address < stop) :
    lastBank (Copier.pieceStop address stop) = (BankedAddr.ofLinear address).bank := by
  have hnext := Copier.lt_pieceStop h
  have hend : Copier.pieceStop address stop ≤ Copier.pieceEnd address := Nat.min_le_left _ _
  have hquotient : (Copier.pieceStop address stop - 1) / bankSize = address / bankSize := by
    unfold Copier.pieceEnd Copier.pieceSize at hend
    unfold bankSize
    omega
  exact congrArg Nat.toUInt16 hquotient

/-- The bank of a byte is the bank of the byte before it, or the next one. -/
theorem bank_ofLinear_cases {address : Nat} (hpos : 0 < address) (h : address < 0x100000000) :
    (BankedAddr.ofLinear address).bank = lastBank address
      ∨ (BankedAddr.ofLinear address).bank.toNat = (lastBank address).toNat + 1 := by
  have hhere := BankedAddr.toNat_bank_ofLinear h
  have hbefore : (lastBank address).toNat = (address - 1) / bankSize :=
    BankedAddr.toNat_bank_ofLinear (by omega)
  rw [← UInt16.toNat_inj, hhere, hbefore]
  unfold bankSize
  omega

theorem bank_le_lastBank {first address : Nat} (hlt : first < address) (h : address < 0x100000000) :
    (BankedAddr.ofLinear first).bank ≤ lastBank address := by
  rw [UInt16.le_iff_toNat_le, BankedAddr.toNat_bank_ofLinear (by omega)]
  refine Nat.le_trans ?_ (Nat.le_of_eq (BankedAddr.toNat_bank_ofLinear (by omega)).symm)
  exact Nat.div_le_div_right (by omega)

/-! ## Registers -/

namespace Machine

/-- The registers hold the same values and nothing was done to them. -/
structure SameRegisters (m m' : Machine) : Prop where
  banks : m'.banks = m.banks
  flash : m'.flash = m.flash
  events : m'.events = m.events

theorem sameRegisters_setWindowBytes (m : Machine) (w : Window) (offset : Nat) (data : ByteArray) :
    m.SameRegisters (m.setWindowBytes w offset data) := by
  unfold setWindowBytes
  split <;> exact ⟨rfl, rfl, rfl⟩

end Machine

theorem BankScope.events_leave_opened (m m' : Machine) (w : Window) (flash : Option Bool) :
    ((opened m w flash).leave m').events.toList
      = m'.events.toList
        ++ .bank w (m.banks w) :: (flash.map fun _ => Event.flash m.flash).toList := by
  have hback : (m'.setBank w (m.banks w)).events.toList
      = m'.events.toList ++ [.bank w (m.banks w)] := Array.toList_push
  cases flash with
  | none => exact hback
  | some enabled =>
      have hflash : ((m'.setBank w (m.banks w)).setFlash m.flash).events.toList
          = (m'.setBank w (m.banks w)).events.toList ++ [.flash m.flash] := Array.toList_push
      refine hflash.trans ?_
      rw [hback, List.append_assoc]
      rfl

namespace Copier

variable {σ π : Type}

/-- A move that leaves the registers alone, also if it fails. -/
def Quiet (move : Move σ π) : Prop :=
  ∀ w offset len c, Ends (move w offset len c)
    (fun _ d => c.machine.SameRegisters d.machine) (fun _ d => c.machine.SameRegisters d.machine)

theorem quiet_fromStream [ReadStream σ] : Quiet (fromStream : Move σ π) := by
  intro w offset len c
  unfold fromStream
  dsimp only
  cases ReadStream.read c.stream len with
  | mk data error? t => cases error? <;> exact c.machine.sameRegisters_setWindowBytes w offset data

theorem ends_onStream {α : Type} {operation : EStateM Error σ α} {c : Copier σ π}
    {done : α → Copier σ π → Prop} {failed : Error → Copier σ π → Prop} :
    Ends (onStream operation c) done failed ↔
      Ends (operation c.stream) (fun a t => done a { c with stream := t })
        (fun e t => failed e { c with stream := t }) := by
  unfold onStream
  dsimp only
  cases operation c.stream <;> exact Iff.rfl

theorem quiet_toStream [WriteStream σ] : Quiet (toStream : Move σ π) := by
  intro w offset len c
  unfold toStream
  rw [ends_bind, ends_get, ends_onStream]
  cases WriteStream.write (c.machine.windowBytes w offset len) c.stream <;> exact ⟨rfl, rfl, rfl⟩

variable {move : Move σ π} {w : Window} {m : Machine} {first stop address : Nat}
  {selected : Option UInt16} {c d : Copier σ π}

/-- Nothing but the bank of one window has changed in the registers. -/
structure Scoped (m : Machine) (w : Window) (c : Copier σ π) : Prop where
  flash : c.machine.flash = m.flash
  banks (v : Window) : v ≠ w → c.machine.banks v = m.banks v

/-- The registers of a copy that has come to `address`: either it has not begun, or the banks up to
that of the last byte moved have been selected, and that one still is. -/
structure Selecting (m : Machine) (w : Window) (first address : Nat) (selected : Option UInt16)
    (c : Copier σ π) : Prop extends Scoped m w c where
  events : (address = first ∧ selected = none ∧ c.machine.events = m.events) ∨
    (first < address ∧ selected = some (lastBank address) ∧ c.machine.events.toList =
      m.events.toList
        ++ (banksFrom (BankedAddr.ofLinear first).bank (lastBank address)).map (.bank w))

theorem Scoped.of_same (h : Scoped m w c) (hsame : c.machine.SameRegisters d.machine) :
    Scoped m w d where
  flash := hsame.flash.trans h.flash
  banks v hv := (congrFun hsame.banks v).trans (h.banks v hv)

theorem Selecting.of_same (h : Selecting m w first address selected c)
    (hsame : c.machine.SameRegisters d.machine) : Selecting m w first address selected d where
  toScoped := h.toScoped.of_same hsame
  events := by
    rw [hsame.events]
    exact h.events

/-- Selecting the bank of a piece brings the registers to where they are after it. -/
theorem selecting_selectBank (h32 : stop < 0x100000000) (hlt : address < stop)
    (h : Selecting m w first address selected c) :
    Ends (selectBank w (BankedAddr.ofLinear address).bank selected c)
      (fun _ d => Selecting m w first (pieceStop address stop)
        (some (BankedAddr.ofLinear address).bank) d)
      (fun _ _ => False) := by
  have hnext := lt_pieceStop hlt
  have hlast := lastBank_pieceStop hlt
  -- what setting the register leaves of the scope, and adds to the events
  have hscoped : Scoped m w
      { c with machine := c.machine.setBank w (BankedAddr.ofLinear address).bank } :=
    ⟨h.flash, fun v hv => (if_neg hv).trans (h.banks v hv)⟩
  have hset : (c.machine.setBank w (BankedAddr.ofLinear address).bank).events.toList
      = c.machine.events.toList ++ [.bank w (BankedAddr.ofLinear address).bank] :=
    Array.toList_push
  unfold selectBank
  rcases h.events with ⟨rfl, rfl, hevents⟩ | ⟨hbegun, rfl, hevents⟩
  · -- the first piece
    rw [if_pos nofun]
    refine ⟨hscoped, .inr ⟨hnext, by rw [hlast], ?_⟩⟩
    refine hset.trans ?_
    rw [hlast, banksFrom_self, hevents]
    rfl
  · rcases bank_ofLinear_cases (by omega) (by omega : address < 0x100000000) with hsame | hsucc
    · rw [if_neg (by rw [hsame]; exact fun hne => hne rfl)]
      refine ⟨h.toScoped, .inr ⟨by omega, by rw [hlast], ?_⟩⟩
      rw [hlast, hsame]
      exact hevents
    · -- the range enters the next bank
      have hne : some (lastBank address) ≠ some (BankedAddr.ofLinear address).bank := by
        intro heq
        rw [← Option.some.inj heq] at hsucc
        omega
      rw [if_pos hne]
      refine ⟨hscoped, .inr ⟨by omega, by rw [hlast], ?_⟩⟩
      refine hset.trans ?_
      rw [hlast, banksFrom_succ (bank_le_lastBank hbegun (by omega)) hsucc, hevents,
        List.map_append, List.append_assoc]
      rfl

section Run

variable [Progress π]

theorem selecting_copyPiece (hquiet : Quiet move) (h32 : stop < 0x100000000) (hlt : address < stop)
    (h : Selecting m w first address selected c) :
    Ends (copyPiece move w first stop address selected c)
      (fun _ d => Selecting m w first (pieceStop address stop)
        (some (BankedAddr.ofLinear address).bank) d)
      (fun _ d => Scoped m w d) := by
  rw [ends_copyPiece]
  refine (selecting_selectBank h32 hlt h).mono ?_ fun _ _ hfail => hfail.elim
  intro _ d hd
  refine ⟨fun _ => ?_, fun _ => hd.toScoped⟩
  refine (hquiet w _ _ d).mono ?_ fun _ _ hsame => hd.toScoped.of_same hsame
  intro _ d' hsame
  refine (ends_hearHook_any _ _ _ d').mono ?_ ?_
  · intro _ _ hhook
    obtain ⟨hook, rfl⟩ := hhook
    exact hd.of_same hsame
  · intro _ _ hhook
    obtain ⟨_, hook, rfl⟩ := hhook
    exact hd.toScoped.of_same hsame

/-- What a copy of a range does to the registers, in order. -/
def switches (m : Machine) (w : Window) (flash : Option Bool) (start : BankedAddr) (len : Nat) :
    List Event :=
  if len = 0 then
    []
  else
    (flash.map .flash).toList
      ++ (banksFrom start.bank (lastBank (start.linear + len))).map (.bank w)
      ++ .bank w (m.banks w) :: (flash.map fun _ => Event.flash m.flash).toList

/-- The registers after a copy of a range: they hold what they held, and `switches` says what was
done to them. -/
structure Switched (m : Machine) (w : Window) (flash : Option Bool) (start : BankedAddr) (len : Nat)
    (m' : Machine) : Prop where
  banks : m'.banks = m.banks
  enable : m'.flash = m.flash
  events : m'.events.toList = m.events.toList ++ switches m w flash start len

/-- **The registers of a copy.** Each bank of the range is selected once, in ascending order, and
then everything is put back. A copy that fails puts everything back too. -/
theorem ends_copy_registers (hquiet : Quiet move) (flash : Option Bool) (start : BankedAddr)
    (len : Nat) (c : Copier σ π) :
    Ends (copy move w flash start len c)
      (fun _ d => Switched c.machine w flash start len d.machine)
      (fun _ d => d.machine.banks = c.machine.banks ∧ d.machine.flash = c.machine.flash) := by
  unfold copy
  by_cases hempty : len = 0
  · rw [if_pos hempty]
    refine ⟨rfl, rfl, ?_⟩
    rw [switches, if_pos hempty, List.append_nil]
  rw [if_neg hempty, ends_withRegisters]
  -- the machine that the copy begins with
  let opened : Machine := flash.elim c.machine fun enabled => c.machine.setFlash enabled
  have hflash : flash = none → opened.flash = c.machine.flash := by
    rintro rfl
    rfl
  have hbanks : opened.banks = c.machine.banks := by cases flash <;> rfl
  have hopened : opened.events.toList = c.machine.events.toList ++ (flash.map .flash).toList := by
    cases flash with
    | none => exact (List.append_nil _).symm
    | some enabled => exact Array.toList_push
  -- closing the scope puts the registers back
  have hclose : ∀ d : Copier σ π, Scoped opened w d →
      ((BankScope.opened c.machine w flash).leave d.machine).banks = c.machine.banks
        ∧ ((BankScope.opened c.machine w flash).leave d.machine).flash = c.machine.flash := by
    intro d hd
    have hothers : ∀ v, v ≠ w → d.machine.banks v = c.machine.banks v :=
      fun v hv => (hd.banks v hv).trans (congrFun hbanks v)
    have hunset : flash = none → d.machine.flash = c.machine.flash :=
      fun hnone => hd.flash.trans (hflash hnone)
    obtain ⟨hb, hf, _⟩ := BankScope.leave_opened flash hothers hunset
    exact ⟨hb, hf⟩
  rw [copyRange_eq]
  split
  · exact hclose { c with machine := opened } ⟨rfl, fun _ _ => rfl⟩
  · rename_i h32
    have hbegin : Selecting opened w start.linear start.linear none { c with machine := opened } :=
      ⟨⟨rfl, fun _ _ => rfl⟩, .inl ⟨rfl, rfl, rfl⟩⟩
    refine (ends_copyFrom
      (fun _ _ _ hlt h => selecting_copyPiece hquiet (Nat.not_le.mp h32) hlt h)
      (Nat.le_add_right _ _) hbegin).mono ?_ fun _ d hd => hclose d hd
    intro _ d hd
    obtain ⟨_, hd⟩ := hd
    obtain ⟨hb, hf⟩ := hclose d hd.toScoped
    refine ⟨hb, hf, ?_⟩
    rcases hd.events with ⟨hsame, -, -⟩ | ⟨-, -, hevents⟩
    · omega
    · refine (BankScope.events_leave_opened c.machine d.machine w flash).trans ?_
      rw [hevents, hopened, BankedAddr.bank_ofLinear_linear, switches, if_neg hempty]
      simp only [List.append_assoc]

end Run

end Copier

end CartBoot
