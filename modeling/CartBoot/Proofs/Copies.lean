import CartBoot.Copy
import CartBoot.Proofs.Bytes
import CartBoot.Proofs.Runs

/-!
# Banked copies

A copy goes piece by piece, and a piece never leaves its bank: select the bank,
move the bytes, tell the hook. So what a copy does follows from what one piece
does, whatever is said about it; `ends_copyFrom` is that step from the pieces to
the whole. The registers a copy changes are put back around it, on every exit.

The boundary after an address has to be a word. It is one below the last boundary;
a piece that begins there or behind it moves nothing, the copy stops.

A copy into the RAM window then moves what it was asked to move: a bank and an
offset in it are one place of the memory, the pieces are adjacent, and no other
memory is shown while the flash enable stays as the copy set it.
-/

namespace CartBoot

/-! ## Places in a memory -/

theorem BankedAddr.linear_ofLinear {n : Nat} (h : n < 0x100000000) : (ofLinear n).linear = n := by
  have hbank : (n / bankSize).toUInt16.toNat = n / bankSize := by
    refine UInt16.toNat_ofNat_of_lt' ?_
    unfold bankSize UInt16.size
    omega
  have hoffset : (n % bankSize).toUInt16.toNat = n % bankSize :=
    UInt16.toNat_ofNat_of_lt' (Nat.mod_lt n (by decide))
  unfold linear ofLinear
  rw [hbank, hoffset]
  exact Nat.div_add_mod n bankSize

/-- A bank that is present starts where its number says. -/
theorem BankedMemory.bankStart_ofLinear {m : BankedMemory} {n : Nat} (h : n < m.bytes.size)
    (h32 : n < 0x100000000) :
    m.bankStart (BankedAddr.ofLinear n).bank + (BankedAddr.ofLinear n).offset.toNat = n := by
  have hlinear := BankedAddr.linear_ofLinear h32
  have hpresent : (BankedAddr.ofLinear n).bank.toNat < m.bankCount := by
    rw [m.size_eq] at h
    unfold BankedAddr.linear at hlinear
    refine Nat.lt_of_mul_lt_mul_left (a := bankSize) ?_
    omega
  unfold bankStart
  rw [Nat.mod_eq_of_lt hpresent]
  exact hlinear

theorem BankedMemory.bytes_write_ofLinear {m : BankedMemory} {n : Nat} (h : n < m.bytes.size)
    (h32 : n < 0x100000000) (data : ByteArray) :
    (m.write (BankedAddr.ofLinear n).bank (BankedAddr.ofLinear n).offset.toNat data).bytes
      = m.bytes.patch n data := by
  show m.bytes.patch _ data = _
  rw [bankStart_ofLinear h h32]

namespace Machine

/-- The memory that the RAM window shows with that flash enable. -/
def ram (m : Machine) (flash : Bool) : BankedMemory :=
  if flash then m.psram else m.sram

/-- The memories hold the same bytes. -/
structure SameMemory (m m' : Machine) : Prop where
  psram : m'.psram = m.psram
  sram : m'.sram = m.sram
  iram : m'.iram = m.iram

theorem SameMemory.trans {m m' m'' : Machine} (h : m.SameMemory m') (h' : m'.SameMemory m'') :
    m.SameMemory m'' :=
  ⟨h'.psram.trans h.psram, h'.sram.trans h.sram, h'.iram.trans h.iram⟩

theorem SameMemory.ram {m m' : Machine} (h : m.SameMemory m') (flash : Bool) :
    m'.ram flash = m.ram flash := by
  unfold Machine.ram
  rw [h.psram, h.sram]

/-- `data` has come to `start` of the memory shown with that flash enable, and nothing else has
changed in any memory. -/
structure Loaded (m : Machine) (flash : Bool) (start : Nat) (data : ByteArray) (m' : Machine) :
    Prop where
  bytes : (m'.ram flash).bytes = (m.ram flash).bytes.patch start data
  other : m'.ram (!flash) = m.ram (!flash)
  iram : m'.iram = m.iram

theorem SameMemory.loaded {m m' : Machine} (h : m.SameMemory m') {data : ByteArray}
    (hdata : data.size = 0) (flash : Bool) (start : Nat) : m.Loaded flash start data m' where
  bytes := by rw [h.ram, ByteArray.patch_of_size_eq_zero hdata]
  other := h.ram _
  iram := h.iram

theorem Loaded.append {m m' m'' : Machine} {flash : Bool} {start : Nat} {x y : ByteArray}
    (h : m.Loaded flash start x m') (h' : m'.Loaded flash (start + x.size) y m'') :
    m.Loaded flash start (x ++ y) m'' where
  bytes := by rw [h'.bytes, h.bytes, ByteArray.patch_patch_append]
  other := h'.other.trans h.other
  iram := h'.iram.trans h.iram

theorem Loaded.of_same {m m' n n' : Machine} {flash : Bool} {start : Nat} {data : ByteArray}
    (h : m.Loaded flash start data m') (hm : n.SameMemory m) (hm' : m'.SameMemory n') :
    n.Loaded flash start data n' where
  bytes := by rw [hm'.ram, h.bytes, hm.ram]
  other := by rw [hm'.ram, h.other, hm.ram]
  iram := hm'.iram.trans (h.iram.trans hm.iram)

/-- Bytes put into the RAM window come to where bank and offset say. -/
theorem loaded_setWindowBytes {m : Machine} {n : Nat} (hbank : m.banks .ram =
      (BankedAddr.ofLinear n).bank) (h : n < (m.ram m.flash).bytes.size) (h32 : n < 0x100000000)
    (data : ByteArray) : m.Loaded m.flash n data
      (m.setWindowBytes .ram (BankedAddr.ofLinear n).offset.toNat data) := by
  have hbytes := BankedMemory.bytes_write_ofLinear h h32 data
  unfold setWindowBytes showsSram
  cases hflash : m.flash with
  | true =>
      rw [hflash] at hbytes
      rw [if_neg (by decide), hbank]
      exact ⟨hbytes, rfl, rfl⟩
  | false =>
      rw [hflash] at hbytes
      rw [if_pos (by decide), hbank]
      exact ⟨hbytes, rfl, rfl⟩

theorem registers_setWindowBytes (m : Machine) (w : Window) (offset : Nat) (data : ByteArray) :
    (m.setWindowBytes w offset data).banks = m.banks
      ∧ (m.setWindowBytes w offset data).flash = m.flash := by
  unfold setWindowBytes
  split <;> exact ⟨rfl, rfl⟩

end Machine

/-- The scope that a copy opens: the flash enable is in it if the copy sets it. -/
def BankScope.opened (m : Machine) (w : Window) (flash : Option Bool) : BankScope :=
  ⟨w, m.banks w, flash.map fun _ => m.flash⟩

/-- Closing a scope puts the registers back, if nothing but those of the scope was changed. -/
theorem BankScope.leave_opened {m m' : Machine} {w : Window} (flash : Option Bool)
    (hbanks : ∀ v, v ≠ w → m'.banks v = m.banks v) (hflash : flash = none → m'.flash = m.flash) :
    ((opened m w flash).leave m').banks = m.banks
      ∧ ((opened m w flash).leave m').flash = m.flash
      ∧ m'.SameMemory ((opened m w flash).leave m') := by
  have hback : (m'.setBank w (m.banks w)).banks = m.banks := by
    funext v
    show (if v = w then m.banks w else m'.banks v) = m.banks v
    split
    · rename_i hv
      rw [hv]
    · rename_i hv
      exact hbanks v hv
  cases flash with
  | none => exact ⟨hback, hflash rfl, rfl, rfl, rfl⟩
  | some enabled => exact ⟨hback, rfl, rfl, rfl, rfl⟩

namespace Copier

variable {σ π : Type}

/-! ## Register scopes -/

section Scope

variable {α : Type} {w : Window} {flash : Option Bool} {copy : EStateM Error (Copier σ π) α}
  {c : Copier σ π} {done : α → Copier σ π → Prop} {failed : Error → Copier σ π → Prop}

/-- A copy within a scope ends as the copy does, with the scope closed after it. -/
theorem ends_withRegisters : Ends (withRegisters w flash copy c) done failed ↔
    Ends (copy { c with machine := flash.elim c.machine fun enabled => c.machine.setFlash enabled })
      (fun a d =>
        done a { d with machine := (BankScope.opened c.machine w flash).leave d.machine })
      (fun e d =>
        failed e { d with machine := (BankScope.opened c.machine w flash).leave d.machine }) := by
  unfold withRegisters
  cases flash with
  | none =>
      dsimp only [Option.elim]
      cases copy ⟨c.stream, c.machine, c.hook⟩ <;> exact Iff.rfl
  | some enabled =>
      dsimp only [Option.elim, BankScope.withFlash]
      cases copy ⟨c.stream, c.machine.setFlash enabled, c.hook⟩ <;> exact Iff.rfl

end Scope

/-! ## Pieces -/

/-- The last boundary that is a word. -/
def lastBoundary : Nat := 0xFFFF8000

theorem pieceEnd_lt_wordLimit_iff {address : Nat} :
    pieceEnd address < wordLimit ↔ address < lastBoundary := by
  unfold pieceEnd pieceSize wordLimit lastBoundary
  omega

/-- No memory comes near it. -/
theorem size_lt_lastBoundary (memory : BankedMemory) : memory.bytes.size < lastBoundary := by
  have hcount := memory.bankCount_lt
  rw [memory.size_eq]
  unfold bankLimit at hcount
  unfold bankSize lastBoundary
  omega

/-- A range in a memory ends at a word. -/
theorem lt_wordLimit_of_le {memory : BankedMemory} {stop : Nat} (h : stop ≤ memory.bytes.size) :
    stop < wordLimit :=
  Nat.lt_of_le_of_lt h (Nat.lt_trans (size_lt_lastBoundary memory) (by decide))

/-- Select a bank, unless it is selected. -/
def selectBank (w : Window) (bank : UInt16) (selected : Option UInt16) :
    EStateM Error (Copier σ π) Unit :=
  if selected ≠ some bank then modifyMachine (Machine.setBank w bank) else pure ()

theorem ends_selectBank {w : Window} {bank : UInt16} {selected : Option UInt16} {c : Copier σ π}
    (hselected : ∀ b, selected = some b → c.machine.banks w = b) :
    Ends (selectBank w bank selected c)
      (fun _ d => ∃ m, d = { c with machine := m } ∧ m.banks w = bank
        ∧ (∀ v, v ≠ w → m.banks v = c.machine.banks v) ∧ m.flash = c.machine.flash
        ∧ (m = c.machine ∨ m = c.machine.setBank w bank))
      (fun _ _ => False) := by
  unfold selectBank
  split
  · exact ⟨c.machine.setBank w bank, rfl, if_pos rfl, fun v hv => if_neg hv, rfl, .inr rfl⟩
  · rename_i hbank
    exact ⟨c.machine, rfl, hselected bank (Decidable.not_not.mp hbank), fun _ _ => rfl, rfl,
      .inl rfl⟩

theorem fromStream_of_none [ReadStream σ] {c : Copier σ π} {len : Nat} {data : ByteArray} {t : σ}
    (h : ReadStream.read c.stream len = ⟨data, none, t⟩) (w : Window) (offset : Nat) :
    fromStream w offset len c
      = .ok () { c with stream := t, machine := c.machine.setWindowBytes w offset data } := by
  unfold fromStream
  dsimp only
  rw [h]

section Pieces

variable [Progress π] {move : Move σ π} {w : Window} {first stop : Nat}

/-- Tell the hook how far the copy has come, and stop if it says so before the end. -/
def hearHook (first stop next : Nat) : EStateM Error (Copier σ π) Unit := do
  let signal ← report (next - first) (stop - first)
  if signal = .cancel ∧ next < stop then
    throw .cancelled

/-- One piece of a copy. -/
def copyPiece (move : Move σ π) (w : Window) (first stop address : Nat)
    (selected : Option UInt16) : EStateM Error (Copier σ π) Unit := do
  selectBank w (BankedAddr.ofLinear address).bank selected
  let _ ← word (pieceEnd address)
  move w (BankedAddr.ofLinear address).offset.toNat (pieceStop address stop - address)
  hearHook first stop (pieceStop address stop)

/-- A piece ends as its three parts do, or it stops at the last boundary before it moves
anything. -/
theorem ends_copyPiece {address : Nat} {selected : Option UInt16} {c : Copier σ π}
    {done : Unit → Copier σ π → Prop} {failed : Error → Copier σ π → Prop} :
    Ends (copyPiece move w first stop address selected c) done failed ↔
      Ends (selectBank w (BankedAddr.ofLinear address).bank selected c)
        (fun _ d =>
          (address < lastBoundary → Ends (move w (BankedAddr.ofLinear address).offset.toNat
              (pieceStop address stop - address) d)
            (fun _ d => Ends (hearHook first stop (pieceStop address stop) d) done failed) failed)
          ∧ (¬ address < lastBoundary → failed .overflow d))
        failed := by
  unfold copyPiece
  simp only [ends_bind, ends_word, pieceEnd_lt_wordLimit_iff]

/-- Below the last boundary a piece is selected, moved and told. -/
theorem copyPiece_of_lt {address : Nat} (h : address < lastBoundary) (selected : Option UInt16) :
    copyPiece move w first stop address selected = (do
      selectBank w (BankedAddr.ofLinear address).bank selected
      move w (BankedAddr.ofLinear address).offset.toNat (pieceStop address stop - address)
      hearHook first stop (pieceStop address stop)) := by
  unfold copyPiece
  rw [word_of_lt (pieceEnd_lt_wordLimit_iff.mpr h)]
  rfl

/-- From the last boundary on, a copy stops before it moves anything. -/
theorem copyPiece_of_not_lt {address : Nat} (h : ¬ address < lastBoundary)
    (selected : Option UInt16) :
    copyPiece move w first stop address selected = (do
      selectBank w (BankedAddr.ofLinear address).bank selected
      throw .overflow) := by
  unfold copyPiece
  rw [word_of_not_lt (mt pieceEnd_lt_wordLimit_iff.mp h)]
  rfl

/-- A copy is its first piece and then the rest. -/
theorem copyFrom_eq (address : Nat) (selected : Option UInt16) :
    copyFrom move w first stop address selected =
      if address < stop then do
        copyPiece move w first stop address selected
        copyFrom move w first stop (pieceStop address stop)
          (some (BankedAddr.ofLinear address).bank)
      else pure () := by
  rw [copyFrom]
  unfold copyPiece selectBank
  by_cases h : address < stop
  · rw [dif_pos h, if_pos h]
    -- the rest of the loop stands in every branch of the program
    have hear : ∀ rest : EStateM Error (Copier σ π) Unit,
        (report (pieceStop address stop - first) (stop - first) >>= fun signal =>
          if signal = .cancel ∧ pieceStop address stop < stop then
            throw Error.cancelled >>= fun _ : PUnit => rest
          else rest)
        = hearHook first stop (pieceStop address stop) >>= fun _ => rest := by
      intro rest
      unfold hearHook
      rw [bind_assoc]
      refine bind_congr fun signal => ?_
      split <;> rfl
    simp only [bind_assoc, hear]
    split
    · rfl
    · rw [pure_bind]
  · rw [dif_neg h, if_neg h]

/-- A range within the addresses is copied from its first address on; another one is refused. -/
theorem copyRange_eq (start : BankedAddr) (len : Nat) (c : Copier σ π) :
    copyRange move w start len c =
      if 0x100000000 ≤ start.linear + len then
        .error .fileTooLarge c
      else
        copyFrom move w start.linear (start.linear + len) start.linear none c := by
  unfold copyRange
  dsimp only
  split <;> rfl

/-- **From the pieces to the copy.** What each piece takes from its beginning to its end, a copy
takes from its beginning to its end, and it fails only as one of its pieces does. -/
theorem ends_copyFrom {I : Nat → Option UInt16 → Copier σ π → Prop}
    {failed : Error → Copier σ π → Prop}
    (hpiece : ∀ address selected c, address < stop → I address selected c →
      Ends (copyPiece move w first stop address selected c)
        (fun _ d => I (pieceStop address stop) (some (BankedAddr.ofLinear address).bank) d) failed)
    {address : Nat} {selected : Option UInt16} {c : Copier σ π} (hle : address ≤ stop)
    (h : I address selected c) :
    Ends (copyFrom move w first stop address selected c)
      (fun _ d => ∃ selected, I stop selected d) failed := by
  induction hn : stop - address using Nat.strongRecOn generalizing address selected c with
  | ind n ih =>
      rw [copyFrom_eq]
      split
      · rename_i hlt
        -- the piece brings the range closer to its end
        rw [ends_bind]
        refine (hpiece address selected c hlt h).mono ?_ fun _ _ hfail => hfail
        intro _ d hd
        have hnext := lt_pieceStop hlt
        exact ih _ (by omega) (Nat.min_le_right _ _) hd rfl
      · obtain rfl : address = stop := by omega
        exact ⟨selected, h⟩

/-- The hook is told how far the copy has come, and what it says counts before the end. -/
theorem hearHook_eq (first stop next : Nat) (c : Copier σ π) :
    hearHook first stop next c =
      if (Progress.report c.hook (next - first) (stop - first)).1 = .cancel ∧ next < stop then
        .error .cancelled
          { c with hook := (Progress.report c.hook (next - first) (stop - first)).2 }
      else
        .ok () { c with hook := (Progress.report c.hook (next - first) (stop - first)).2 } := by
  have hreport : report (next - first) (stop - first) c =
      .ok (Progress.report c.hook (next - first) (stop - first)).1
        { c with hook := (Progress.report c.hook (next - first) (stop - first)).2 } := rfl
  unfold hearHook
  rw [bind_of_ok hreport]
  split <;> rfl

/-- Whatever the hook says, only the hook changes, and at the end it stops nothing. -/
theorem ends_hearHook_any (first stop next : Nat) (c : Copier σ π) :
    Ends (hearHook first stop next c) (fun _ d => ∃ hook, d = { c with hook })
      (fun _ d => next < stop ∧ ∃ hook, d = { c with hook }) := by
  rw [hearHook_eq]
  split
  · rename_i hstop
    exact ⟨hstop.2, _, rfl⟩
  · exact ⟨_, rfl⟩

/-- **What a copy keeps on every way out**: what selecting a bank and hearing the hook keep, and
every move, also one that fails. -/
theorem ends_copyFrom_any {I : Copier σ π → Prop}
    (hbank : ∀ bank c, I c → I { c with machine := c.machine.setBank w bank })
    (hmove : ∀ offset len c, I c → Ends (move w offset len c) (fun _ d => I d) (fun _ d => I d))
    (hhook : ∀ hook c, I c → I { c with hook }) {address : Nat} {selected : Option UInt16}
    {c : Copier σ π} (hle : address ≤ stop) (h : I c) :
    Ends (copyFrom move w first stop address selected c) (fun _ d => I d) (fun _ d => I d) := by
  have hpiece : ∀ address selected (c : Copier σ π), address < stop → I c →
      Ends (copyPiece move w first stop address selected c) (fun _ d => I d) (fun _ d => I d) := by
    intro address selected c _ hc
    have hselect : Ends (selectBank w (BankedAddr.ofLinear address).bank selected c)
        (fun _ d => I d) (fun _ _ => False) := by
      unfold selectBank
      split
      · exact hbank _ c hc
      · exact hc
    rw [ends_copyPiece]
    refine hselect.mono ?_ fun _ _ hfail => hfail.elim
    intro _ d hd
    refine ⟨fun _ => ?_, fun _ => hd⟩
    refine (hmove _ _ d hd).mono ?_ fun _ _ hfail => hfail
    intro _ d hd
    refine (ends_hearHook_any _ _ _ d).mono ?_ ?_
    · rintro _ _ ⟨hook, rfl⟩
      exact hhook hook d hd
    · rintro _ _ ⟨_, hook, rfl⟩
      exact hhook hook d hd
  exact (ends_copyFrom hpiece hle h).mono (fun _ _ ⟨_, hd⟩ => hd) fun _ _ hd => hd

/-- The scope of a copy keeps what setting a register keeps. -/
theorem ends_copy_any {I : Copier σ π → Prop}
    (hbank : ∀ bank c, I c → I { c with machine := c.machine.setBank w bank })
    (hflash : ∀ enabled c, I c → I { c with machine := c.machine.setFlash enabled })
    (hmove : ∀ offset len c, I c → Ends (move w offset len c) (fun _ d => I d) (fun _ d => I d))
    (hhook : ∀ hook c, I c → I { c with hook }) (flash : Option Bool) (start : BankedAddr)
    (len : Nat) {c : Copier σ π} (h : I c) :
    Ends (copy move w flash start len c) (fun _ d => I d) (fun _ d => I d) := by
  have hopen :
      I { c with machine := flash.elim c.machine fun enabled => c.machine.setFlash enabled } := by
    cases flash with
    | none => exact h
    | some enabled => exact hflash enabled c h
  have hclose : ∀ d, I d →
      I { d with machine := (BankScope.opened c.machine w flash).leave d.machine } := by
    intro d hd
    cases flash with
    | none => exact hbank _ d hd
    | some _ => exact hflash _ _ (hbank _ d hd)
  unfold copy
  split
  · exact h
  rw [ends_withRegisters, copyRange_eq]
  split
  · exact hclose _ hopen
  · exact (ends_copyFrom_any hbank hmove hhook (Nat.le_add_right _ _) hopen).mono
      (fun _ d hd => hclose d hd) fun _ d hd => hclose d hd

/-- What every read keeps of the stream, also one that fails, a load keeps of it. -/
theorem ends_load_stream [ReadStream σ] {I : σ → Prop}
    (hread : ∀ s len, I s → I (ReadStream.read s len).stream) (flash : Option Bool)
    (start : BankedAddr) (len : Nat) {c : Copier σ π} (h : I c.stream) :
    Ends (copy fromStream w flash start len c) (fun _ d => I d.stream) (fun _ d => I d.stream) := by
  refine ends_copy_any (I := fun d => I d.stream) (fun _ _ hc => hc) (fun _ _ hc => hc) ?_
    (fun _ _ hc => hc) flash start len h
  intro offset len c hc
  have hrest := hread c.stream len hc
  unfold fromStream
  dsimp only
  cases hr : ReadStream.read c.stream len with
  | mk data error? t =>
      rw [hr] at hrest
      cases error? <;> exact hrest

/-- A hook that answers no report of a copy but the last with a cancellation. -/
inductive Undisturbed (first stop : Nat) : (address : Nat) → (hook : π) → Prop
  | finished {address : Nat} {hook : π} : stop ≤ address → Undisturbed first stop address hook
  | piece {address : Nat} {hook : π} : address < stop →
      (pieceStop address stop < stop →
        (Progress.report hook (pieceStop address stop - first) (stop - first)).1 ≠ .cancel) →
      Undisturbed first stop (pieceStop address stop)
        (Progress.report hook (pieceStop address stop - first) (stop - first)).2 →
      Undisturbed first stop address hook

/-- A hook that never cancels anything. -/
theorem undisturbed_of_proceeds
    (h : ∀ (hook : π) done total, (Progress.report hook done total).1 ≠ .cancel) (address : Nat)
    (hook : π) : Undisturbed first stop address hook := by
  induction hn : stop - address using Nat.strongRecOn generalizing address hook with
  | ind n ih =>
      by_cases hlt : address < stop
      · have hnext := lt_pieceStop hlt
        exact .piece hlt (fun _ => h _ _ _) (ih _ (by omega) _ _ rfl)
      · exact .finished (Nat.not_lt.mp hlt)

theorem ends_hearHook {address : Nat} (hlt : address < stop) {c : Copier σ π}
    (h : Undisturbed first stop address c.hook) :
    Ends (hearHook first stop (pieceStop address stop) c)
      (fun _ d => ∃ hook, d = { c with hook }
        ∧ Undisturbed first stop (pieceStop address stop) hook)
      (fun _ _ => False) := by
  cases h with
  | finished hle => omega
  | piece _ hsignal hrest =>
      rw [hearHook_eq, if_neg fun hstop => hsignal hstop.2 hstop.1]
      exact ⟨_, rfl, hrest⟩

/-- The hook of a copy is as `heard` says of each address the copy comes to, and it cancels the copy
only if `cancels`. -/
def Heeds (σ : Type) (first stop : Nat) (heard : Nat → π → Prop) (cancels : Prop) : Prop :=
  ∀ address (c : Copier σ π), address < stop → heard address c.hook →
    Ends (hearHook first stop (pieceStop address stop) c)
      (fun _ d => ∃ hook, d = { c with hook } ∧ heard (pieceStop address stop) hook)
      (fun _ d => cancels ∧ pieceStop address stop < stop ∧ ∃ hook, d = { c with hook })

theorem heeds_undisturbed :
    Heeds σ first stop (Undisturbed first stop : Nat → π → Prop) False :=
  fun _ _ hlt h => (ends_hearHook hlt h).mono (fun _ _ hd => hd) fun _ _ hfail => hfail.elim

theorem heeds_any : Heeds σ first stop (fun (_ : Nat) (_ : π) => True) True :=
  fun _ c _ _ => (ends_hearHook_any _ _ _ c).mono (fun _ _ ⟨hook, hd⟩ => ⟨hook, hd, trivial⟩)
    fun _ _ hd => ⟨trivial, hd⟩

end Pieces

/-! ## Loading -/

/-- From any state in `after p` the stream delivers what follows byte `p` of `data`, in pieces of
any size. -/
def Supplies [ReadStream σ] (data : ByteArray) (after : Nat → σ → Prop) : Prop :=
  ∀ p n s, after p s → p + n ≤ data.size →
    ∃ t, ReadStream.read s n = ⟨data.extract p (p + n), none, t⟩ ∧ after (p + n) t

section Load

variable [ReadStream σ] [Progress π] {after : Nat → σ → Prop} {data : ByteArray} {m : Machine}
  {first : Nat}

/-- A copy into the RAM window of `m` that has come to `address`. -/
structure Loading (after : Nat → σ → Prop) (data : ByteArray) (m : Machine) (first address : Nat)
    (selected : Option UInt16) (c : Copier σ π) : Prop where
  le : first ≤ address
  loaded : m.Loaded m.flash first (data.extract 0 (address - first)) c.machine
  flash : c.machine.flash = m.flash
  banks (v : Window) : v ≠ .ram → c.machine.banks v = m.banks v
  selected (b : UInt16) : selected = some b → c.machine.banks .ram = b
  stream : after (address - first) c.stream
  hook : Undisturbed first (first + data.size) address c.hook

/-- One piece of such a copy. -/
theorem loading_copyPiece (hsupplies : Supplies data after)
    (hfit : first + data.size ≤ (m.ram m.flash).bytes.size) {address : Nat}
    {selected : Option UInt16} {c : Copier σ π} (hlt : address < first + data.size)
    (h : Loading after data m first address selected c) :
    Ends (copyPiece fromStream .ram first (first + data.size) address selected c)
      (fun _ d => Loading after data m first (pieceStop address (first + data.size))
        (some (BankedAddr.ofLinear address).bank) d)
      (fun _ _ => False) := by
  have hle := h.le
  have hnext := lt_pieceStop hlt
  have hstop : pieceStop address (first + data.size) ≤ first + data.size := Nat.min_le_right _ _
  -- the bank
  rw [ends_copyPiece]
  refine (ends_selectBank h.selected).mono ?_ fun _ _ hfail => hfail
  intro _ d hd
  obtain ⟨m', rfl, hbank, hbanks, hflash, hset⟩ := hd
  have hsame : c.machine.SameMemory m' := by
    rcases hset with rfl | rfl <;> exact ⟨rfl, rfl, rfl⟩
  have hlow : address < lastBoundary :=
    Nat.lt_trans (Nat.lt_of_lt_of_le hlt hfit) (size_lt_lastBoundary _)
  refine ⟨fun _ => ?_, fun hlarge => absurd hlow hlarge⟩
  -- the bytes
  obtain ⟨t, hread, ht⟩ := hsupplies (address - first)
    (pieceStop address (first + data.size) - address) c.stream h.stream (by omega)
  have hmoved : address - first + (pieceStop address (first + data.size) - address)
      = pieceStop address (first + data.size) - first := by omega
  rw [hmoved] at hread ht
  have hmove := fromStream_of_none (c := { c with machine := m' }) hread .ram
    (BankedAddr.ofLinear address).offset.toNat
  rw [hmove, ends_ok]
  -- the hook
  refine (ends_hearHook (c := ⟨t, _, c.hook⟩) hlt h.hook).mono ?_ fun _ _ hfail => hfail
  intro _ d hd
  obtain ⟨hook, rfl, hrest⟩ := hd
  obtain ⟨hregisters, henable⟩ := m'.registers_setWindowBytes .ram
    (BankedAddr.ofLinear address).offset.toNat
    (data.extract (address - first) (pieceStop address (first + data.size) - first))
  have hm' : m'.flash = m.flash := hflash.trans h.flash
  have hsize : (m'.ram m'.flash).bytes.size = (m.ram m.flash).bytes.size := by
    rw [hm', hsame.ram, h.loaded.bytes, ByteArray.size_patch]
  have h32 : address < 0x100000000 := Nat.lt_trans hlow (by decide)
  have hpiece := m'.loaded_setWindowBytes hbank (by omega) h32
    (data.extract (address - first) (pieceStop address (first + data.size) - first))
  refine ⟨by omega, ?_, henable.trans hm', ?_, ?_, ht, hrest⟩
  · -- what was there before and the piece are adjacent
    have hbefore : (data.extract 0 (address - first)).size = address - first := by
      rw [ByteArray.size_extract]
      omega
    rw [ByteArray.extract_eq_extract_append_extract (address - first) (Nat.zero_le _) (by omega)]
    refine h.loaded.append ?_
    rw [hbefore, Nat.add_sub_cancel' hle]
    rw [hm'] at hpiece
    exact hpiece.of_same hsame ⟨rfl, rfl, rfl⟩
  · intro v hv
    show (Machine.setWindowBytes _ _ _ m').banks v = _
    rw [hregisters, hbanks v hv, h.banks v hv]
  · intro b hb
    show (Machine.setWindowBytes _ _ _ m').banks .ram = b
    rw [hregisters, hbank]
    exact Option.some.inj hb

/-- **A load brings the bytes of the stream to their place**, changes no other byte, and puts the
registers back. -/
theorem exists_load (hsupplies : Supplies data after) (flash : Bool) {start : BankedAddr}
    {c : Copier σ π} (hstream : after 0 c.stream)
    (hfit : start.linear + data.size ≤ (c.machine.ram flash).bytes.size)
    (hhook : Undisturbed start.linear (start.linear + data.size) start.linear c.hook) :
    ∃ d, copy fromStream .ram (some flash) start data.size c = .ok () d
      ∧ c.machine.Loaded flash start.linear data d.machine
      ∧ d.machine.banks = c.machine.banks ∧ d.machine.flash = c.machine.flash
      ∧ after data.size d.stream := by
  unfold copy
  by_cases hempty : data.size = 0
  · rw [if_pos hempty]
    refine ⟨c, rfl, ?_, rfl, rfl, hempty ▸ hstream⟩
    exact Machine.SameMemory.loaded ⟨rfl, rfl, rfl⟩ hempty flash start.linear
  · rw [if_neg hempty]
    have hrun : Ends (withRegisters .ram (some flash) (copyRange fromStream .ram start data.size) c)
        (fun _ d => c.machine.Loaded flash start.linear data d.machine
          ∧ d.machine.banks = c.machine.banks ∧ d.machine.flash = c.machine.flash
          ∧ after data.size d.stream)
        (fun _ _ => False) := by
      have h32 : start.linear + data.size < 0x100000000 := lt_wordLimit_of_le hfit
      rw [ends_withRegisters, copyRange_eq, if_neg (Nat.not_le.mpr h32)]
      have hbegin : Loading after data (c.machine.setFlash flash) start.linear start.linear none
          { c with machine := c.machine.setFlash flash } := by
        refine ⟨Nat.le_refl _, ?_, rfl, fun _ _ => rfl, nofun, ?_, hhook⟩
        · refine Machine.SameMemory.loaded ⟨rfl, rfl, rfl⟩ ?_ _ _
          rw [Nat.sub_self, ByteArray.extract_same]
          rfl
        · rw [Nat.sub_self]
          exact hstream
      refine (ends_copyFrom (fun _ _ _ => loading_copyPiece hsupplies hfit) (Nat.le_add_right _ _)
        hbegin).mono ?_ fun _ _ hfail => hfail
      intro _ d hd
      obtain ⟨selected, hd⟩ := hd
      have hloaded := hd.loaded
      have hat := hd.stream
      rw [Nat.add_sub_cancel_left] at hloaded hat
      rw [ByteArray.extract_zero_size] at hloaded
      obtain ⟨hbanks, hflash, hsame⟩ := BankScope.leave_opened (m := c.machine)
        (some flash) hd.banks nofun
      exact ⟨hloaded.of_same ⟨rfl, rfl, rfl⟩ hsame, hbanks, hflash, hat⟩
    obtain ⟨_, d, hd, hpost⟩ := hrun.exists_ok fun _ _ hfail => hfail
    exact ⟨d, hd, hpost⟩

end Load

end Copier

end CartBoot
