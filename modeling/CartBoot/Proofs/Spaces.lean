import CartBoot.Proofs.Exchange
import CartBoot.Proofs.Exposure

/-!
# The space of an image, and how long it takes to fill

An image gets the smallest space that a cartridge can map: a power of two, a whole
bank at least. It ends where the space ends, so its last byte and its footer are at
the end of the last bank, and what is left empty lies below it.

A load reports once for each piece. Here the end of the range is a piece boundary,
so each piece takes the copy past one boundary, and there are as many of them as
boundaries between the beginning and the end. This is a matter of the range alone:
it is counted for any stream and any hook by wrapping the hook in one that counts.
-/

namespace CartBoot

namespace ImageLayout

variable {size space : Nat}

/-! ## The least space -/

/-- The smallest space for an image of that size. -/
structure LeastSpace (size space : Nat) : Prop where
  pow : space.isPowerOfTwo
  holds : size ≤ space
  bank : bankSize ≤ space
  least (n : Nat) : n.isPowerOfTwo → size ≤ n → bankSize ≤ n → space ≤ n

theorem spaceFor_le {n : Nat} (hn : n.isPowerOfTwo) (hsize : size ≤ n) (hbank : bankSize ≤ n) :
    spaceFor size ≤ n := by
  obtain ⟨k, rfl⟩ := hn
  unfold spaceFor
  split
  · exact hbank
  · rename_i hlarge
    have hne : size - 1 ≠ 0 := by
      unfold bankSize at hlarge
      omega
    have hlog : (size - 1).log2 < k := (Nat.log2_lt hne).mpr (by omega)
    rw [Nat.shiftLeft_eq, Nat.one_mul]
    exact Nat.pow_le_pow_right (by decide) hlog

theorem bankSize_le_spaceFor (hne : size ≠ 0) (hsize : size ≤ 0x80000000) :
    bankSize ≤ spaceFor size := by
  obtain ⟨hle, _, hdvd⟩ := spaceFor_spec hsize
  exact Nat.le_of_dvd (by omega) hdvd

theorem spaceSize_placed (hsize : size ≤ 0x80000000) : (placed size).spaceSize = spaceFor size :=
  Nat.div_mul_cancel (spaceFor_spec hsize).2.2

theorem leastSpace_placed (hne : size ≠ 0) (hsize : size ≤ 0x80000000) :
    LeastSpace size (placed size).spaceSize := by
  obtain ⟨k, hk⟩ := isPowerOfTwo_totalBanks (forSize_eq hne hsize)
  have hspace := spaceSize_placed hsize
  refine ⟨⟨k + 16, ?_⟩, ?_, ?_, ?_⟩
  · unfold spaceSize
    rw [hk, Nat.pow_add]
    rfl
  · rw [hspace]
    exact (spaceFor_spec hsize).1
  · rw [hspace]
    exact bankSize_le_spaceFor hne hsize
  · intro n hn hle hbank
    rw [hspace]
    exact spaceFor_le hn hle hbank

/-! ## The place in it -/

/-- An image of that size has its place at the end of the least space, and the numbers that say so
are not cut. -/
structure EndsSpace (l : ImageLayout) (size : Nat) : Prop where
  size_eq : l.size = size
  space : LeastSpace size l.spaceSize
  /-- The banks have a 16-bit count, and they are the space. -/
  banks : l.totalBanks.toUInt16.toNat * bankSize = l.spaceSize
  stop : l.start.linear + size = l.spaceSize
  last : BankedAddr.ofLinear (l.start.linear + (size - 1)) = ⟨l.lastBank.toUInt16, 0xFFFF⟩
  footer : Footer.size ≤ size →
    BankedAddr.ofLinear (l.start.linear + (size - Footer.size)) = ⟨l.lastBank.toUInt16, 0xFFF0⟩
  start_le : l.start.bank.toNat ≤ l.lastBank

theorem lastBank_spec (hne : size ≠ 0) (hsize : size ≤ 0x80000000) :
    (placed size).spaceSize = (placed size).lastBank * bankSize + bankSize
      ∧ (placed size).totalBanks ≤ 0x8000 := by
  have hpos := totalBanks_pos (forSize_eq hne hsize)
  obtain ⟨_, hspace⟩ := placed_spec hsize
  unfold spaceSize lastBank bankSize at *
  omega

/-- Bytes near the end of the space are in its last bank. -/
theorem ofLinear_before_end {l : ImageLayout}
    (hspace : l.spaceSize = l.lastBank * bankSize + bankSize) {n : Nat} (hpos : 0 < n)
    (hn : n ≤ bankSize) :
    BankedAddr.ofLinear (l.spaceSize - n) = ⟨l.lastBank.toUInt16, (bankSize - n).toUInt16⟩ := by
  have hplace : l.spaceSize - n = bankSize - n + l.lastBank * bankSize := by omega
  have hlt : bankSize - n < bankSize := Nat.sub_lt (by decide) hpos
  unfold BankedAddr.ofLinear
  rw [hplace, Nat.add_mul_div_right _ _ (by decide), Nat.add_mul_mod_self_right,
    Nat.div_eq_of_lt hlt, Nat.mod_eq_of_lt hlt, Nat.zero_add]

theorem endsSpace_placed (hne : size ≠ 0) (hsize : size ≤ 0x80000000) :
    (placed size).EndsSpace size := by
  obtain ⟨hstop, hspace⟩ := placed_spec hsize
  obtain ⟨hlast, hbanks⟩ := lastBank_spec hne hsize
  have hcount : (placed size).totalBanks.toUInt16.toNat = (placed size).totalBanks :=
    UInt16.toNat_ofNat_of_lt' (Nat.lt_of_le_of_lt hbanks (by decide))
  refine ⟨rfl, leastSpace_placed hne hsize, ?_, hstop, ?_, fun hfooter => ?_, ?_⟩
  · rw [hcount]
    rfl
  · have hplace : (placed size).start.linear + (size - 1) = (placed size).spaceSize - 1 := by omega
    rw [hplace]
    exact ofLinear_before_end hlast (by decide) (by decide)
  · have hplace : (placed size).start.linear + (size - Footer.size)
        = (placed size).spaceSize - Footer.size := by omega
    rw [hplace]
    exact ofLinear_before_end hlast (by decide) (by decide)
  · -- the beginning of the image is below the end of its space
    have hlinear : (placed size).start.linear
        = bankSize * (placed size).start.bank.toNat + (placed size).start.offset.toNat := rfl
    unfold bankSize at *
    omega

end ImageLayout

/-! ## Counting reports -/

namespace Copier

/-- A hook with the number of reports it has heard. -/
structure Counted (π : Type) where
  hook : π
  calls : Nat

instance {π : Type} [Progress π] : Progress (Counted π) where
  report p done total :=
    let (signal, hook) := Progress.report p.hook done total
    (signal, ⟨hook, p.calls + 1⟩)

variable {σ π : Type} [Progress π] {w : Window} {first stop address : Nat}
  {selected : Option UInt16} {flash : Option Bool} {start : BankedAddr} {len : Nat}

/-- Counting does not disturb. -/
theorem Undisturbed.counted {hook : π} (h : Undisturbed first stop address hook) (n : Nat) :
    Undisturbed first stop address (⟨hook, n⟩ : Counted π) := by
  induction h generalizing n with
  | finished hle => exact .finished hle
  | piece hlt hsignal _ ih => exact .piece hlt hsignal (ih (n + 1))

theorem ends_hearHook_counted (first stop next : Nat) (c : Copier σ (Counted π)) :
    Ends (hearHook first stop next c) (fun _ d => d.hook.calls = c.hook.calls + 1)
      (fun _ _ => True) := by
  rw [hearHook_eq]
  split
  · exact trivial
  · exact rfl

variable [ReadStream σ]

/-- Before the hook is asked, a piece of a load leaves it alone. -/
theorem ends_fromStream_hook {π : Type} (w : Window) (offset len : Nat) (c : Copier σ π) :
    Ends (fromStream w offset len c) (fun _ d => d.hook = c.hook) (fun _ _ => True) := by
  unfold fromStream
  dsimp only
  cases ReadStream.read c.stream len with
  | mk data error? t =>
      cases error? with
      | none => exact rfl
      | some e => exact trivial

theorem ends_selectBank_hook {σ π : Type} (w : Window) (bank : UInt16) (selected : Option UInt16)
    (c : Copier σ π) : Ends (selectBank w bank selected c)
      (fun _ d => d.hook = c.hook ∧ d.stream = c.stream) (fun _ _ => False) := by
  unfold selectBank
  split <;> exact ⟨rfl, rfl⟩

/-- A piece is one report. -/
theorem ends_copyPiece_counted (c : Copier σ (Counted π)) :
    Ends (copyPiece fromStream w first stop address selected c)
      (fun _ d => d.hook.calls = c.hook.calls + 1) (fun _ _ => True) := by
  rw [ends_copyPiece]
  refine (ends_selectBank_hook _ _ _ c).mono ?_ fun _ _ hfail => hfail.elim
  rintro _ d ⟨hhook, _⟩
  refine ⟨fun _ => ?_, fun _ => trivial⟩
  refine (ends_fromStream_hook _ _ _ d).mono ?_ fun _ _ hfail => hfail
  intro _ d' hhook'
  rw [← hhook, ← hhook']
  exact ends_hearHook_counted _ _ _ d'

/-- A piece of a range that ends at a boundary ends at the next boundary. -/
theorem pieceStop_div (hstop : stop % pieceSize = 0) (hlt : address < stop) :
    pieceStop address stop / pieceSize = address / pieceSize + 1 := by
  unfold pieceStop pieceEnd
  unfold pieceSize at hstop ⊢
  omega

/-- **A load that is not stopped reports once for each boundary that it reaches.** -/
theorem calls_of_copy (hstop : (start.linear + len) % pieceSize = 0)
    {c d : Copier σ (Counted π)} (h : copy fromStream w flash start len c = .ok () d) :
    d.hook.calls
      = c.hook.calls + ((start.linear + len) / pieceSize - start.linear / pieceSize) := by
  have hends : Ends (copy fromStream w flash start len c)
      (fun _ d => d.hook.calls
        = c.hook.calls + ((start.linear + len) / pieceSize - start.linear / pieceSize))
      (fun _ _ => True) := by
    unfold copy
    split
    · rename_i hempty
      show c.hook.calls = _
      rw [hempty, Nat.add_zero, Nat.sub_self, Nat.add_zero]
    rw [ends_withRegisters, copyRange_eq]
    split
    · exact trivial
    · have hpiece : ∀ address selected (d : Copier σ (Counted π)), address < start.linear + len →
          d.hook.calls + start.linear / pieceSize = c.hook.calls + address / pieceSize →
          Ends (copyPiece fromStream w start.linear (start.linear + len) address selected d)
            (fun _ d => d.hook.calls + start.linear / pieceSize
              = c.hook.calls + pieceStop address (start.linear + len) / pieceSize)
            (fun _ _ => True) := by
        intro address selected d hlt hd
        refine (ends_copyPiece_counted d).mono ?_ fun _ _ hfail => hfail
        intro _ d' hd'
        rw [pieceStop_div hstop hlt]
        omega
      refine (ends_copyFrom (I := fun address _ d => d.hook.calls + start.linear / pieceSize
        = c.hook.calls + address / pieceSize) hpiece (Nat.le_add_right _ _) rfl).mono ?_
        fun _ _ hfail => hfail
      rintro _ d ⟨_, hd⟩
      have hle : start.linear / pieceSize ≤ (start.linear + len) / pieceSize :=
        Nat.div_le_div_right (Nat.le_add_right _ _)
      show d.hook.calls = _
      omega
  exact hends.of_ok h

/-- A load that has come to `address`, from a stream that supplies the rest, with a hook that lets
it go on. -/
structure Supplied (after : Nat → σ → Prop) (first stop address : Nat) (c : Copier σ π) : Prop where
  le : first ≤ address
  stream : after (address - first) c.stream
  hook : Undisturbed first stop address c.hook

theorem supplied_copyPiece {data : ByteArray} {after : Nat → σ → Prop}
    (hsupplies : Supplies data after) (htop : first + data.size ≤ lastBoundary)
    (hlt : address < first + data.size) {c : Copier σ π}
    (h : Supplied after first (first + data.size) address c) :
    Ends (copyPiece fromStream w first (first + data.size) address selected c)
      (fun _ d => Supplied after first (first + data.size)
        (pieceStop address (first + data.size)) d)
      (fun _ _ => False) := by
  have hle := h.le
  have hnext := lt_pieceStop hlt
  have hstop : pieceStop address (first + data.size) ≤ first + data.size := Nat.min_le_right _ _
  rw [ends_copyPiece]
  refine (ends_selectBank_hook _ _ _ c).mono ?_ fun _ _ hfail => hfail
  rintro _ d ⟨hhook, hstream⟩
  refine ⟨fun _ => ?_, fun hlarge => absurd (Nat.lt_of_lt_of_le hlt htop) hlarge⟩
  obtain ⟨t, hread, ht⟩ := hsupplies (address - first)
    (pieceStop address (first + data.size) - address) d.stream (hstream ▸ h.stream) (by omega)
  have hmoved : address - first + (pieceStop address (first + data.size) - address)
      = pieceStop address (first + data.size) - first := by omega
  rw [hmoved] at ht
  rw [fromStream_of_none hread, ends_ok]
  refine (ends_hearHook (c := ⟨t, _, d.hook⟩) hlt (hhook ▸ h.hook)).mono ?_ fun _ _ hfail => hfail
  rintro _ _ ⟨hook, rfl, hrest⟩
  exact ⟨by omega, ht, hrest⟩

/-- **A load is not stopped** by a stream that supplies its bytes and a hook that lets it come to
its last piece. -/
theorem ends_copy_supplied {data : ByteArray} {after : Nat → σ → Prop} {c : Copier σ π}
    (hsupplies : Supplies data after) (hstream : after 0 c.stream)
    (htop : start.linear + data.size ≤ lastBoundary)
    (hhook : Undisturbed start.linear (start.linear + data.size) start.linear c.hook) :
    Ends (copy fromStream w flash start data.size c) (fun _ _ => True) (fun _ _ => False) := by
  unfold copy
  split
  · exact trivial
  have h32 : start.linear + data.size < 0x100000000 := Nat.lt_of_le_of_lt htop (by decide)
  rw [ends_withRegisters, copyRange_eq, if_neg (Nat.not_le.mpr h32)]
  have hbegin : Supplied after start.linear (start.linear + data.size) start.linear
      { c with machine := flash.elim c.machine fun enabled => c.machine.setFlash enabled } := by
    refine ⟨Nat.le_refl _, ?_, hhook⟩
    rw [Nat.sub_self]
    exact hstream
  exact (ends_copyFrom (I := fun address _ d => Supplied after _ _ address d)
    (fun _ _ _ hlt h => supplied_copyPiece hsupplies htop hlt h) (Nat.le_add_right _ _) hbegin).mono
    (fun _ _ _ => trivial) fun _ _ hfail => hfail

end Copier

namespace ImageLayout

open Copier

/-- A load of an image to its place reports as often as the layout says, whatever the stream and
whatever the hook; and there are loads that are not stopped, those from streams that supply the
image with hooks that let them come to the last piece. -/
structure CountsReports (l : ImageLayout) : Prop where
  calls {σ π : Type} [ReadStream σ] [Progress π] {c d : Copier σ (Counted π)} :
    loadPsram l.start l.size c = .ok () d → d.hook.calls = c.hook.calls + l.reportCount
  uncancelled {σ π : Type} [ReadStream σ] [Progress π] {data : ByteArray} {after : Nat → σ → Prop}
    {s : σ} (m : Machine) {hook : π} (n : Nat) : Supplies data after → after 0 s →
    data.size = l.size → Undisturbed l.start.linear l.spaceSize l.start.linear hook →
    ∃ d, loadPsram l.start l.size ⟨s, m, (⟨hook, n⟩ : Counted π)⟩ = .ok () d

theorem countsReports_placed {size : Nat} (hsize : size ≤ 0x80000000) :
    (placed size).CountsReports := by
  obtain ⟨hstop, hspace⟩ := placed_spec hsize
  have hsame : (placed size).size = size := rfl
  constructor
  · intro σ π _ _ c d h
    have hedge : ((placed size).start.linear + (placed size).size) % pieceSize = 0 := by
      rw [hsame, hstop]
      unfold spaceSize bankSize pieceSize
      omega
    have hcalls := calls_of_copy hedge h
    rw [hsame, hstop] at hcalls
    exact hcalls
  · intro σ π _ _ data after s m hook n hsupplies hs hdata hhook
    rw [hsame] at hdata ⊢
    have hend : (placed size).start.linear + data.size = (placed size).spaceSize := by
      rw [hdata]
      exact hstop
    have htop : (placed size).start.linear + data.size ≤ lastBoundary := by
      rw [hend]
      exact Nat.le_trans hspace (by decide)
    have hload : Ends (loadPsram (placed size).start data.size ⟨s, m, (⟨hook, n⟩ : Counted π)⟩)
        (fun _ _ => True) (fun _ _ => False) :=
      ends_copy_supplied hsupplies hs htop (by rw [hend]; exact hhook.counted n)
    obtain ⟨⟨⟩, d, hd, _⟩ := hload.exists_ok fun _ _ hfail => hfail
    rw [hdata] at hd
    exact ⟨d, hd⟩

/-- **Layouts are exact.** An empty image has no place, and neither has one of more than 2 GiB. Any
other ends the least space for it, a power of two of at least a bank, and no number on the way is
cut; its footer is at the end of the last bank. A load of it reports as often as the layout
says. -/
theorem layouts_exact (size : UInt32) :
    (forSize size.toNat = .error .formatInvalid ↔ size = 0)
      ∧ (forSize size.toNat = .error .fileTooLarge ↔ 0x80000000 < size.toNat)
      ∧ (size ≠ 0 → size.toNat ≤ 0x80000000 →
        ∃ l, forSize size.toNat = .ok l ∧ l.EndsSpace size.toNat ∧ l.CountsReports) := by
  by_cases hzero : size = 0
  · subst hzero
    have hnone : forSize (0 : UInt32).toNat = .error .formatInvalid := rfl
    rw [hnone]
    exact ⟨⟨fun _ => rfl, fun _ => rfl⟩, ⟨nofun, nofun⟩, fun hne => absurd rfl hne⟩
  · have hne : size.toNat ≠ 0 := fun h => hzero (UInt32.toNat_inj.mp h)
    rcases forSize_cases hne with ⟨hlarge, herror⟩ | ⟨hsize, hok⟩
    · rw [herror]
      refine ⟨⟨nofun, fun h => absurd h hzero⟩, ⟨fun _ => hlarge, fun _ => rfl⟩, fun _ hsize => ?_⟩
      omega
    · rw [hok]
      exact ⟨⟨nofun, fun h => absurd h hzero⟩, ⟨nofun, fun hlarge => by omega⟩, fun _ _ =>
        ⟨placed size.toNat, rfl, endsSpace_placed hne hsize, countsReports_placed hsize⟩⟩

/-- An image of a bank and an eighth, which does not begin at a boundary. -/
theorem oddImage_layout :
    forSize 0x12000 = .ok ⟨0x12000, ⟨0, 0xE000⟩, 2⟩
      ∧ ∃ d : Copier ByteSource (Counted Silent),
        loadPsram ⟨0, 0xE000⟩ 0x12000 ⟨⟨.replicate 0x12000 0, 0, none⟩, .erased 2 0, ⟨⟨⟩, 0⟩⟩
            = .ok () d
          ∧ d.hook.calls = 3 := by
  have hlayout : forSize 0x12000 = .ok ⟨0x12000, ⟨0, 0xE000⟩, 2⟩ := rfl
  obtain ⟨_, _, hplaced⟩ := layouts_exact 0x12000
  obtain ⟨l, hl, _, hcounts⟩ := hplaced (by decide) (by decide)
  cases hlayout.symm.trans hl
  have hhook : Undisturbed 0xE000 0x20000 0xE000 (⟨⟩ : Silent) :=
    undisturbed_of_proceeds (fun _ _ _ => show Signal.proceed ≠ .cancel by decide) _ _
  obtain ⟨d, hd⟩ := hcounts.uncancelled (.erased 2 0) 0
    (supplies_byteSource (.replicate 0x12000 0)) rfl (ByteArray.size_replicate _ _) hhook
  exact ⟨hlayout, d, hd, hcounts.calls hd⟩

end ImageLayout

end CartBoot
