import Mathlib.Algebra.GroupWithZero.Nat
import CartBoot.Proofs.Places
import CartBoot.Proofs.Reports

/-!
# The pieces of a range, and the words that hold them

A copy hands the pieces of its range to a move, one after the other. They are the
range, cut where it meets a boundary, and none of them leaves the window.

The numbers of the loop are words. A range must end below 2^32, so its addresses and
the lengths of its pieces are, but a piece is cut at the next boundary before that is
held against the end of the range, and the boundary behind the last 32 KiB is 2^32
itself. A range that ends by `lastBoundary` is moved whole; one that goes on behind it
is moved up to there, and then the copy stops. And of the ranges whose bytes all have
an address, the check refuses those that contain the last one.
-/

namespace CartBoot

namespace Copier

/-! ## The pieces -/

/-- A part of a range that is moved at once. -/
structure Piece where
  address : Nat
  length : Nat
  deriving DecidableEq, Repr

namespace Piece

def bank (p : Piece) : UInt16 :=
  (BankedAddr.ofLinear p.address).bank

/-- Where the piece begins in a window that shows its bank. -/
def offset (p : Piece) : Nat :=
  (BankedAddr.ofLinear p.address).offset.toNat

def addresses (p : Piece) : List Nat :=
  List.range' p.address p.length

/-- The boundary that the piece must not cross. -/
def boundary (p : Piece) : Nat :=
  pieceEnd p.address

/-- The numbers of the loop at a piece are words: the boundary, the length, and the address of the
next piece. -/
structure InWords (p : Piece) : Prop where
  boundary : p.boundary < wordLimit
  length : p.length < wordLimit
  next : p.address + p.length < wordLimit

end Piece

/-- The pieces of the range from `address` to `stop`. -/
def pieces (stop address : Nat) : List Piece :=
  if _ : address < stop then
    ⟨address, pieceStop address stop - address⟩ :: pieces stop (pieceStop address stop)
  else
    []
termination_by stop - address
decreasing_by
  have := lt_pieceStop ‹address < stop›
  omega

section Pieces

variable {stop address : Nat}

theorem pieces_of_lt (h : address < stop) :
    pieces stop address
      = ⟨address, pieceStop address stop - address⟩ :: pieces stop (pieceStop address stop) := by
  rw [pieces, dif_pos h]

theorem pieces_of_le (h : stop ≤ address) : pieces stop address = [] := by
  rw [pieces, dif_neg (Nat.not_lt.mpr h)]

/-- What each piece of a range satisfies: the first one does, and the pieces after it. -/
theorem forall_mem_pieces {P : Piece → Prop}
    (hpiece : ∀ address, address < stop → P ⟨address, pieceStop address stop - address⟩)
    (address : Nat) : ∀ p ∈ pieces stop address, P p := by
  induction address using pieces.induct stop with
  | case1 address h ih =>
      rw [pieces_of_lt h]
      exact List.forall_mem_cons.mpr ⟨hpiece address h, ih⟩
  | case2 address h =>
      rw [pieces_of_le (Nat.not_lt.mp h)]
      exact List.forall_mem_nil _

/-- The pieces follow one another and leave no address out. -/
theorem flatMap_addresses (address : Nat) :
    (pieces stop address).flatMap Piece.addresses = List.range' address (stop - address) := by
  induction address using pieces.induct stop with
  | case1 address h ih =>
      have hnext := lt_pieceStop h
      have hend : pieceStop address stop ≤ stop := Nat.min_le_right _ _
      have hcut : stop - address
          = pieceStop address stop - address + (stop - pieceStop address stop) := by omega
      have hrest : address + 1 * (pieceStop address stop - address) = pieceStop address stop := by
        omega
      rw [pieces_of_lt h, List.flatMap_cons, ih, hcut, ← List.range'_append, hrest]
      rfl
  | case2 address h =>
      rw [pieces_of_le (Nat.not_lt.mp h), Nat.sub_eq_zero_of_le (Nat.not_lt.mp h)]
      rfl

end Pieces

/-- The pieces make up the range from `first` to `stop`, and each is in one window. -/
structure MakesUp (ps : List Piece) (first stop : Nat) : Prop where
  fits : ∀ p ∈ ps, 0 < p.length ∧ p.offset + p.length ≤ bankSize
  addresses : ps.flatMap Piece.addresses = List.range' first (stop - first)
  total : (ps.map Piece.length).sum = stop - first

theorem makesUp_pieces (first stop : Nat) : MakesUp (pieces stop first) first stop := by
  have haddresses : (pieces stop first).flatMap Piece.addresses = _ := flatMap_addresses first
  refine ⟨forall_mem_pieces ?_ first, haddresses, ?_⟩
  · intro address h
    refine ⟨Nat.sub_pos_of_lt (lt_pieceStop h), ?_⟩
    unfold Piece.offset
    rw [BankedAddr.toNat_offset_ofLinear]
    exact mod_bankSize_add_le h
  · have hlength := congrArg List.length haddresses
    rw [List.length_flatMap, List.length_range'] at hlength
    rw [← hlength]
    refine congrArg List.sum (List.map_congr_left fun p _ => ?_)
    exact List.length_range'.symm

/-! ## Moving the pieces -/

variable {σ π : Type}

/-- What a copy does at the last boundary: it selects the last bank, unless the piece before was in
it, and stops. -/
def stopAtTop (w : Window) (first : Nat) : EStateM Error (Copier σ π) Unit := do
  selectBank w 0xFFFF (if first < lastBoundary then some 0xFFFF else none)
  throw .overflow

theorem ends_stopAtTop (w : Window) (first : Nat) (c : Copier σ π) :
    Ends (stopAtTop w first c) (fun _ _ => False)
      (fun e d => e = .overflow ∧ d.stream = c.stream) := by
  unfold stopAtTop selectBank
  rw [ends_bind]
  split <;> exact ⟨rfl, rfl⟩

variable [Progress π]

/-- Hand pieces to a move, one after the other. -/
def movePieces (move : Move σ π) (w : Window) (first stop : Nat) :
    List Piece → (selected : Option UInt16) → EStateM Error (Copier σ π) Unit
  | [], _ => pure ()
  | p :: rest, selected => do
      selectBank w p.bank selected
      move w p.offset p.length
      hearHook first stop (p.address + p.length)
      movePieces move w first stop rest (some p.bank)

section Move

variable {move : Move σ π} {w : Window} {first stop address : Nat}

theorem movePieces_of_lt (h : address < stop) {last : Nat} (selected : Option UInt16) :
    movePieces move w first last (pieces stop address) selected = (do
      selectBank w (BankedAddr.ofLinear address).bank selected
      move w (BankedAddr.ofLinear address).offset.toNat (pieceStop address stop - address)
      hearHook first last (pieceStop address stop)
      movePieces move w first last (pieces stop (pieceStop address stop))
        (some (BankedAddr.ofLinear address).bank)) := by
  have hend : address + (pieceStop address stop - address) = pieceStop address stop :=
    Nat.add_sub_cancel' (Nat.le_of_lt (lt_pieceStop h))
  rw [pieces_of_lt h, movePieces, hend]
  rfl

/-- A copy of a range that ends by the last boundary moves the pieces of the range. -/
theorem copyFrom_eq_movePieces (htop : stop ≤ lastBoundary) (address : Nat)
    (selected : Option UInt16) :
    copyFrom move w first stop address selected
      = movePieces move w first stop (pieces stop address) selected := by
  induction address using pieces.induct stop generalizing selected with
  | case1 address h ih =>
      rw [copyFrom_eq, if_pos h, copyPiece_of_lt (Nat.lt_of_lt_of_le h htop),
        movePieces_of_lt h, ih]
      simp only [bind_assoc]
  | case2 address h =>
      rw [copyFrom_eq, if_neg h, pieces_of_le (Nat.not_lt.mp h), movePieces]

/-- The addresses behind the last boundary are in the last bank. -/
theorem bank_of_not_lt (hlast : ¬ address < lastBoundary) (h32 : address < 0x100000000) :
    (BankedAddr.ofLinear address).bank = 0xFFFF := by
  have hbank : address / bankSize = 0xFFFF := by
    unfold lastBoundary at hlast
    unfold bankSize
    omega
  exact congrArg Nat.toUInt16 hbank

/-- A copy of a range that goes on behind the last boundary moves the pieces up to there, and
stops. -/
theorem copyFrom_past_top (htop : lastBoundary < stop) (h32 : stop < 0x100000000)
    (hlt : address < stop) (selected : Option UInt16) :
    copyFrom move w first stop address selected = (do
      movePieces move w first stop (pieces lastBoundary address) selected
      selectBank w 0xFFFF (if address < lastBoundary then some 0xFFFF else selected)
      throw .overflow) := by
  induction address using pieces.induct lastBoundary generalizing selected with
  | case1 address h ih =>
      -- the last boundary is one, so the range is cut below it as a range up to it is
      have hsame : pieceStop address stop = pieceStop address lastBoundary := by
        unfold lastBoundary at h htop ⊢
        unfold pieceStop pieceEnd pieceSize
        omega
      have hnext : pieceStop address lastBoundary < stop :=
        Nat.lt_of_le_of_lt (Nat.min_le_right _ _) htop
      have hbank : (if pieceStop address lastBoundary < lastBoundary then some 0xFFFF
          else some (BankedAddr.ofLinear address).bank) = some 0xFFFF := by
        split
        · rfl
        · rename_i hlast
          -- the piece ends at the last boundary, in the middle of the last bank
          refine congrArg some (congrArg Nat.toUInt16 (?_ : address / bankSize = 0xFFFF))
          unfold lastBoundary at h hlast
          unfold pieceStop pieceEnd pieceSize at hlast
          unfold bankSize
          omega
      rw [copyFrom_eq, if_pos hlt, copyPiece_of_lt h, movePieces_of_lt h, hsame, ih hnext, hbank,
        if_pos h]
      simp only [bind_assoc]
  | case2 address h =>
      rw [copyFrom_eq, if_pos hlt, copyPiece_of_not_lt h, bank_of_not_lt h (by omega),
        pieces_of_le (Nat.not_lt.mp h), movePieces, if_neg h, pure_bind, bind_assoc]
      rfl

end Move

/-! ## The whole range -/

section Range

variable {first stop : Nat}

/-- A piece ends by the last boundary, unless it begins there. -/
theorem mem_pieces_le_lastBoundary {p : Piece} (hp : p ∈ pieces stop first)
    (hlow : p.address < lastBoundary) : p.address + p.length ≤ lastBoundary := by
  refine forall_mem_pieces (P := fun p => p.address < lastBoundary →
    p.address + p.length ≤ lastBoundary) ?_ first p hp hlow
  intro address _ (hlow : address < lastBoundary)
  have hend : pieceStop address stop ≤ pieceEnd address := Nat.min_le_left _ _
  show address + (pieceStop address stop - address) ≤ lastBoundary
  unfold pieceEnd pieceSize at hend
  unfold lastBoundary at hlow ⊢
  omega

/-- **The numbers of the loop are words just if the range ends by the last boundary.** -/
theorem inWords_iff (h : first < stop) (h32 : stop < wordLimit) :
    (∀ p ∈ pieces stop first, p.InWords) ↔ stop ≤ lastBoundary := by
  constructor
  · intro hwords
    -- the piece that has the last address
    have hlast : stop - 1 ∈ (pieces stop first).flatMap Piece.addresses := by
      rw [flatMap_addresses, List.mem_range'_1]
      omega
    obtain ⟨p, hp, hmem⟩ := List.mem_flatMap.mp hlast
    obtain ⟨hle, hlt⟩ := List.mem_range'_1.mp hmem
    have hlow := pieceEnd_lt_wordLimit_iff.mp (hwords p hp).boundary
    have hend := mem_pieces_le_lastBoundary hp hlow
    omega
  · intro htop
    refine forall_mem_pieces (fun address hlt => ?_) first
    have hend : pieceStop address stop ≤ stop := Nat.min_le_right _ _
    have hnext := lt_pieceStop hlt
    refine ⟨pieceEnd_lt_wordLimit_iff.mpr (Nat.lt_of_lt_of_le hlt htop), ?_, ?_⟩
    · show pieceStop address stop - address < wordLimit
      omega
    · show address + (pieceStop address stop - address) < wordLimit
      omega

end Range

section Copy

variable {start : BankedAddr} {len : Nat} {move : Move σ π} {w : Window}

theorem copyRange_of_le (h : wordLimit ≤ start.linear + len) (c : Copier σ π) :
    copyRange move w start len c = .error .fileTooLarge c :=
  (copyRange_eq start len c).trans (if_pos h)

theorem copyRange_of_lt (h : start.linear + len < wordLimit) :
    copyRange move w start len
      = copyFrom move w start.linear (start.linear + len) start.linear none :=
  funext fun c => (copyRange_eq start len c).trans (if_neg (Nat.not_le.mpr h))

end Copy

/-- **The pieces of a range are exact up to the last boundary.** A range that ends at 2^32 or behind
it is refused, and nothing is done. Any other is cut into pieces that make it up. If it ends by the
last boundary, all numbers of the loop are words, and the pieces are what is moved. If it goes on
behind the last boundary, one of these numbers is no word: the copy moves the pieces up to there
and then stops, and never succeeds. -/
theorem pieces_exact (start : BankedAddr) {len : UInt32} (hlen : 0 < len) {stop : Nat}
    (hstop : start.linear + len.toNat = stop) (move : Move σ π) (w : Window) :
    (wordLimit ≤ stop → ∀ c, copyRange move w start len.toNat c = .error .fileTooLarge c)
      ∧ (stop < wordLimit → MakesUp (pieces stop start.linear) start.linear stop
        ∧ ((∀ p ∈ pieces stop start.linear, p.InWords) ↔ stop ≤ lastBoundary))
      ∧ (stop ≤ lastBoundary → copyRange move w start len.toNat
        = movePieces move w start.linear stop (pieces stop start.linear) none)
      ∧ (lastBoundary < stop → stop < wordLimit →
        copyRange move w start len.toNat = (do
          movePieces move w start.linear stop (pieces lastBoundary start.linear) none
          stopAtTop w start.linear)
        ∧ ∀ c d, copyRange move w start len.toNat c ≠ .ok () d) := by
  subst hstop
  have hlt : start.linear < start.linear + len.toNat := Nat.lt_add_of_pos_right hlen
  refine ⟨copyRange_of_le, fun h32 => ⟨makesUp_pieces _ _, inWords_iff hlt h32⟩, fun htop => ?_,
    fun htop h32 => ?_⟩
  · rw [copyRange_of_lt (Nat.lt_of_le_of_lt htop (by decide)), copyFrom_eq_movePieces htop]
  · have hstops : copyRange move w start len.toNat = _ := copyRange_of_lt h32
    rw [copyFrom_past_top htop h32 hlt] at hstops
    refine ⟨hstops, fun c d hok => ?_⟩
    have hends : Ends (copyRange move w start len.toNat c) (fun _ _ => False)
        (fun _ _ => True) := by
      rw [hstops, ends_bind]
      refine (Ends.any _).mono (fun _ d _ => ?_) fun _ _ h => h
      exact (ends_stopAtTop w start.linear d).mono (fun _ _ h => h) fun _ _ _ => trivial
    exact hends.of_ok hok

/-- The last range that is exact, from two bytes before a bank. -/
theorem edgeRange_exact :
    pieces 0xFFFF8000 0xFFFEFFFE = [⟨0xFFFEFFFE, 2⟩, ⟨0xFFFF0000, 0x8000⟩]
      ∧ MakesUp (pieces 0xFFFF8000 0xFFFEFFFE) 0xFFFEFFFE 0xFFFF8000
      ∧ (∀ p ∈ pieces 0xFFFF8000 0xFFFEFFFE, p.InWords) := by
  have hlen : (0 : UInt32) < 0x8002 := by decide
  have hstop : (⟨0xFFFE, 0xFFFE⟩ : BankedAddr).linear + (0x8002 : UInt32).toNat = 0xFFFF8000 := by
    decide
  obtain ⟨_, hwhole, _⟩ := pieces_exact ⟨0xFFFE, 0xFFFE⟩ hlen hstop
    (fromStream : Move ByteSource Silent) .ram
  obtain ⟨hmakes, hwords⟩ := hwhole (by decide)
  refine ⟨?_, hmakes, hwords.mpr (by decide)⟩
  rw [pieces_of_lt (by decide), pieces_of_lt (by decide), pieces_of_le (by decide)]
  decide

/-- The last byte of the banks has an address, but it cannot be loaded; and the range of the one
byte at the last boundary is not refused, but the boundary behind it is no word, and the load
stops. -/
theorem last_byte_refused :
    (⟨0xFFFF, 0xFFFF⟩ : BankedAddr).linear + 1 = 0x100000000
      ∧ loadPsram ⟨0xFFFF, 0xFFFF⟩ 1
          (⟨⟨[7].toByteArray, 0, none⟩, .erased 1 1, ⟨⟩⟩ : Copier ByteSource Silent)
        = .error .fileTooLarge
          ⟨⟨[7].toByteArray, 0, none⟩,
            ((((Machine.erased 1 1).setFlash true).setBank .ram 0).setFlash false), ⟨⟩⟩
      ∧ (⟨0xFFFF, 0x8000⟩ : BankedAddr).linear + 1 < 0x100000000
      ∧ pieceEnd (⟨0xFFFF, 0x8000⟩ : BankedAddr).linear = 0x100000000
      ∧ ∃ d, loadPsram ⟨0xFFFF, 0x8000⟩ 1
          (⟨⟨[7].toByteArray, 0, none⟩, .erased 1 1, ⟨⟩⟩ : Copier ByteSource Silent)
        = .error .overflow d ∧ d.stream.position = 0 := by
  refine ⟨by decide, rfl, by decide, by decide, ?_⟩
  have hload : Ends (loadPsram ⟨0xFFFF, 0x8000⟩ 1
      (⟨⟨[7].toByteArray, 0, none⟩, .erased 1 1, ⟨⟩⟩ : Copier ByteSource Silent))
      (fun _ _ => False) (fun e d => e = .overflow ∧ d.stream.position = 0) := by
    unfold loadPsram copy
    rw [if_neg (by decide), ends_withRegisters, copyRange_of_lt (by decide), copyFrom_eq,
      if_pos (by decide), copyPiece_of_not_lt (by decide)]
    exact ⟨rfl, rfl⟩
  obtain ⟨_, d, hd, rfl, hposition⟩ := hload.exists_error fun _ _ hfalse => hfalse
  exact ⟨d, hd, hposition⟩

end Copier

end CartBoot
