import CartBoot.Proofs.Exchange
import CartBoot.Proofs.Places

/-!
# Progress and cancellation

A copy asks its stream for one part of the range after the other, a part for each
block of 32 KiB that the range meets, and after each part it tells the hook how many
bytes are moved. What becomes of it is decided by the first answer that is not
"go on". A stream that fails ends it with the error of the stream, before the hook
hears of that part. A hook that cancels ends it, unless nothing is left to cancel.

`Through` is the beginning of such an exchange, in which every answer was "go on". A
copy that has come so far is a copy of the rest; so the run is cut at the block that
decides, and only that block needs to be looked at. Nothing is said about streams and
hooks but what they answered: they can be anything.
-/

namespace CartBoot

namespace Copier

variable {σ π : Type}

/-! ## The blocks of a range -/

/-- The blocks of 32 KiB that the range from `first` to `stop` meets, ascending. -/
def blocks (first stop : Nat) : List Nat :=
  List.range' (first / pieceSize) ((stop - 1) / pieceSize + 1 - first / pieceSize)

/-- Where the part of a range in a block begins. -/
def partStart (first block : Nat) : Nat :=
  max (block * pieceSize) first

/-- Where the part of a range in a block ends. -/
def partStop (stop block : Nat) : Nat :=
  min ((block + 1) * pieceSize) stop

/-- What the hook hears of the range, block by block. -/
def reports (first stop : Nat) : List Nat :=
  (blocks first stop).map fun block => partStop stop block - first

section Blocks

variable {first stop address : Nat}

theorem mem_blocks (h : first < stop) {block : Nat} :
    block ∈ blocks first stop ↔ ∃ a, first ≤ a ∧ a < stop ∧ a / pieceSize = block := by
  unfold blocks pieceSize
  rw [List.mem_range'_1]
  constructor
  · intro hblock
    refine ⟨max (block * 0x8000) first, ?_, ?_, ?_⟩
    all_goals omega
  · rintro ⟨a, hfirst, hstop, rfl⟩
    omega

/-- A range that leaves its first block goes on in the next. -/
theorem blocks_of_lt (h : first < stop) (hmore : pieceStop first stop < stop) :
    blocks first stop = first / pieceSize :: blocks (pieceStop first stop) stop := by
  have hnext : pieceStop first stop / pieceSize = first / pieceSize + 1 := by
    unfold pieceStop pieceEnd pieceSize at hmore ⊢
    omega
  have hcount : (stop - 1) / pieceSize + 1 - first / pieceSize
      = (stop - 1) / pieceSize + 1 - (first / pieceSize + 1) + 1 := by
    unfold pieceStop pieceEnd pieceSize at hmore
    unfold pieceSize
    omega
  unfold blocks
  rw [hnext, hcount, List.range'_succ]

theorem blocks_of_le (h : first < stop) (hlast : stop ≤ pieceStop first stop) :
    blocks first stop = [first / pieceSize] := by
  have hcount : (stop - 1) / pieceSize + 1 - first / pieceSize = 1 := by
    unfold pieceStop pieceEnd pieceSize at hlast
    unfold pieceSize
    omega
  unfold blocks
  rw [hcount]
  rfl

theorem blocks_ne_nil (h : first < stop) : blocks first stop ≠ [] := by
  intro hnil
  have hmem : first / pieceSize ∈ blocks first stop :=
    (mem_blocks h).mpr ⟨first, Nat.le_refl _, h, rfl⟩
  rw [hnil] at hmem
  cases hmem

/-- The first block is that of the first address; the others are those of what is left. -/
theorem blocks_eq_cons (h : first < stop) {block : Nat} {rest : List Nat}
    (hblocks : blocks first stop = block :: rest) :
    block = first / pieceSize ∧ (rest = [] → pieceStop first stop = stop)
      ∧ (rest ≠ [] → pieceStop first stop < stop ∧ blocks (pieceStop first stop) stop = rest) := by
  by_cases hmore : pieceStop first stop < stop
  · rw [blocks_of_lt h hmore] at hblocks
    obtain ⟨rfl, rfl⟩ := List.cons.inj hblocks
    exact ⟨rfl, fun hnil => absurd hnil (blocks_ne_nil hmore), fun _ => ⟨hmore, rfl⟩⟩
  · have hlast : pieceStop first stop = stop :=
      Nat.le_antisymm (Nat.min_le_right _ _) (Nat.not_lt.mp hmore)
    rw [blocks_of_le h (Nat.not_lt.mp hmore)] at hblocks
    obtain ⟨rfl, rfl⟩ := List.cons.inj hblocks
    exact ⟨rfl, fun _ => hlast, fun hne => absurd rfl hne⟩

/-- What the hook hears goes up with every call. -/
theorem pairwise_reports (h : first < stop) : (reports first stop).Pairwise (· < ·) := by
  unfold reports
  rw [List.pairwise_map]
  refine List.Pairwise.imp_of_mem ?_ List.pairwise_lt_range'
  intro a b ha hb hlt
  obtain ⟨x, hx, hx', rfl⟩ := (mem_blocks h).mp ha
  obtain ⟨y, hy, hy', rfl⟩ := (mem_blocks h).mp hb
  unfold partStop
  unfold pieceSize at hlt ⊢
  omega

/-- The last thing it hears is that all is moved. -/
theorem getLast?_reports (h : first < stop) :
    (reports first stop).getLast? = some (stop - first) := by
  have hcount : (stop - 1) / pieceSize + 1 - first / pieceSize ≠ 0 := by
    unfold pieceSize
    omega
  have hlast : first / pieceSize + ((stop - 1) / pieceSize + 1 - first / pieceSize) - 1
      = (stop - 1) / pieceSize := by
    unfold pieceSize
    omega
  have hend : partStop stop ((stop - 1) / pieceSize) = stop := by
    unfold partStop pieceSize
    omega
  unfold reports blocks
  rw [List.getLast?_map, List.getLast?_range', if_neg hcount, hlast, Option.map_some, hend]

/-- The addresses at which a copy from `first` begins a piece. -/
def IsEdge (first address : Nat) : Prop :=
  first ≤ address ∧ (address = first ∨ address % pieceSize = 0)

theorem isEdge_pieceStop (h : IsEdge first address) (hmore : pieceStop address stop < stop) :
    IsEdge first (pieceStop address stop) := by
  obtain ⟨hle, _⟩ := h
  unfold IsEdge
  unfold pieceStop pieceEnd pieceSize at hmore ⊢
  omega

/-- A piece is the part of the range in its block. -/
theorem partStart_of_isEdge (h : IsEdge first address) :
    partStart first (address / pieceSize) = address := by
  obtain ⟨hle, hedge⟩ := h
  unfold partStart
  unfold pieceSize at hedge ⊢
  omega

end Blocks

/-! ## Exchanges with a stream and a hook -/

/-- How a stream serves the part of a range in a block: the bytes that are moved, the error if it
fails, and the stream after it. -/
abbrev Service (σ : Type) := (block : Nat) → σ → ByteArray → Option Error → σ → Prop

section Exchanges

variable [Progress π]

/-- The blocks went through, one after the other: the stream served the part of the range in each,
and the hook, told of it, let the copy go on. -/
inductive Through (serves : Service σ) (first stop : Nat) :
    List Nat → σ → π → ByteArray → σ → π → Prop
  | nothing {s : σ} {h : π} : Through serves first stop [] s h .empty s h
  | block {b : Nat} {bs : List Nat} {s t u : σ} {h h' h'' : π} {x y : ByteArray} :
      serves b s x none t →
      Progress.report h (partStop stop b - first) (stop - first) = (.proceed, h') →
      Through serves first stop bs t h' y u h'' →
      Through serves first stop (b :: bs) s h (x ++ y) u h''

/-- What a copy of the range from `first` to `stop` comes to, told by the block that decides. What
is known of the bytes moved and of the machine after so many bytes is `moved`. -/
structure Accounts (serves : Service σ) (first stop : Nat)
    (moved : Nat → ByteArray → Machine → Prop) (c : Copier σ π)
    (result : EStateM.Result Error (Copier σ π) Unit) : Prop where
  /-- The stream fails in a block: the hook has heard of those before it. -/
  failed {bs rest : List Nat} {b : Nat} {x y : ByteArray} {t t' : σ} {h : π} {e : Error} :
    blocks first stop = bs ++ b :: rest → Through serves first stop bs c.stream c.hook x t h →
    serves b t y (some e) t' →
    ∃ m, result = .error e ⟨t', m, h⟩
  /-- The hook cancels at a block before the last: that is the last thing it hears, and nothing more
  is asked of the stream. -/
  cancelled {bs rest : List Nat} {b : Nat} {x y : ByteArray} {t t' : σ} {h h' : π} :
    blocks first stop = bs ++ b :: rest → Through serves first stop bs c.stream c.hook x t h →
    serves b t y none t' →
    Progress.report h (partStop stop b - first) (stop - first) = (.cancel, h') →
    partStop stop b < stop →
    ∃ m, result = .error .cancelled ⟨t', m, h'⟩ ∧ moved (partStop stop b - first) (x ++ y) m
  /-- All blocks are served, and no report before the last is answered with a cancellation. -/
  finished {bs : List Nat} {b : Nat} {x y : ByteArray} {t t' : σ} {h h' : π} {signal : Signal} :
    blocks first stop = bs ++ [b] → Through serves first stop bs c.stream c.hook x t h →
    serves b t y none t' →
    Progress.report h (stop - first) (stop - first) = (signal, h') →
    ∃ m, result = .ok () ⟨t', m, h'⟩ ∧ moved (stop - first) (x ++ y) m
  /-- There is no other way: some block decides. -/
  decided : ∃ bs b rest x t h y e? t', blocks first stop = bs ++ b :: rest
    ∧ Through serves first stop bs c.stream c.hook x t h ∧ serves b t y e? t'
    ∧ (e? ≠ none ∨ rest = []
      ∨ (Progress.report h (partStop stop b - first) (stop - first)).1 = .cancel)

/-- Whatever stream and hook answer, some block decides. -/
theorem exists_deciding_block {serves : Service σ} {first stop : Nat}
    (htotal : ∀ b s, ∃ x e? t, serves b s x e? t) {bs : List Nat} (hbs : bs ≠ []) (s : σ) (h : π) :
    ∃ before b rest x t h' y e? t', bs = before ++ b :: rest
      ∧ Through serves first stop before s h x t h' ∧ serves b t y e? t'
      ∧ (e? ≠ none ∨ rest = []
        ∨ (Progress.report h' (partStop stop b - first) (stop - first)).1 = .cancel) := by
  induction bs generalizing s h with
  | nil => exact absurd rfl hbs
  | cons b bs ih =>
      obtain ⟨x, e?, t, hserves⟩ := htotal b s
      by_cases hdecides : e? ≠ none ∨ bs = []
          ∨ (Progress.report h (partStop stop b - first) (stop - first)).1 = .cancel
      · exact ⟨[], b, bs, .empty, s, h, x, e?, t, rfl, .nothing, hserves, hdecides⟩
      · -- this block went through
        rw [not_or, not_or, Decidable.not_not] at hdecides
        obtain ⟨rfl, hmore, hsignal⟩ := hdecides
        have hproceed : Progress.report h (partStop stop b - first) (stop - first)
            = (.proceed, (Progress.report h (partStop stop b - first) (stop - first)).2) := by
          cases hreport : Progress.report h (partStop stop b - first) (stop - first) with
          | mk signal h' =>
              rw [hreport] at hsignal
              cases signal with
              | proceed => rfl
              | cancel => exact absurd rfl hsignal
        obtain ⟨before, b', rest, y, u, h', z, e?, u', rfl, hthrough, hrest⟩ := ih hmore t _
        exact ⟨b :: before, b', rest, x ++ y, u, h', z, e?, u', rfl,
          .block hserves hproceed hthrough, hrest⟩

end Exchanges

/-! ## A copy and its exchange -/

/-- A move within a range that does what a service says. What is known of the bytes moved and of the
machine at an address is `came`; selecting a bank does not matter to it. -/
structure Serving (move : Move σ π) (w : Window) (first stop : Nat) (serves : Service σ)
    (came : Nat → ByteArray → Machine → Prop) : Prop where
  selected {address : Nat} {x : ByteArray} {m : Machine} (bank : UInt16) :
    came address x m → came address x (m.setBank w bank)
  served {address : Nat} {x y : ByteArray} {m : Machine} {s t : σ} {h : π} :
    IsEdge first address → address < stop → came address x m →
    m.banks w = (BankedAddr.ofLinear address).bank → serves (address / pieceSize) s y none t →
    ∃ m', move w (BankedAddr.ofLinear address).offset.toNat (pieceStop address stop - address)
        ⟨s, m, h⟩ = .ok () ⟨t, m', h⟩
      ∧ came (pieceStop address stop) (x ++ y) m' ∧ m'.banks w = m.banks w
  failed {address : Nat} {x y : ByteArray} {m : Machine} {s t : σ} {h : π} {e : Error} :
    IsEdge first address → address < stop → came address x m →
    m.banks w = (BankedAddr.ofLinear address).bank → serves (address / pieceSize) s y (some e) t →
    ∃ m', move w (BankedAddr.ofLinear address).offset.toNat (pieceStop address stop - address)
        ⟨s, m, h⟩ = .error e ⟨t, m', h⟩

section Pieces

variable {move : Move σ π} {w : Window} {first stop address : Nat} {serves : Service σ}
  {came : Nat → ByteArray → Machine → Prop} {selected : Option UInt16} {x y : ByteArray}
  {m : Machine} {s t : σ} {h h' : π}

/-- Selecting the bank of a piece. -/
theorem Serving.exists_selectBank (hmove : Serving move w first stop serves came)
    (hcame : came address x m) (hselected : ∀ b, selected = some b → m.banks w = b)
    (bank : UInt16) :
    ∃ m', selectBank w bank selected (⟨s, m, h⟩ : Copier σ π) = .ok () ⟨s, m', h⟩
      ∧ came address x m' ∧ m'.banks w = bank := by
  have hselect : Ends (selectBank w bank selected (⟨s, m, h⟩ : Copier σ π)) _ (fun _ _ => False) :=
    ends_selectBank hselected
  obtain ⟨_, _, hr, m', rfl, hbank, _, _, hset⟩ := hselect.exists_ok fun _ _ hfail => hfail
  refine ⟨m', hr, ?_, hbank⟩
  rcases hset with rfl | rfl
  · exact hcame
  · exact hmove.selected _ hcame

variable [Progress π]

/-- A piece that the stream fails. -/
theorem Serving.copyPiece_of_failed (hmove : Serving move w first stop serves came)
    (htop : stop ≤ lastBoundary) (hedge : IsEdge first address) (hlt : address < stop)
    (hcame : came address x m)
    (hselected : ∀ b, selected = some b → m.banks w = b) {e : Error}
    (hserves : serves (address / pieceSize) s y (some e) t) :
    ∃ m', copyPiece move w first stop address selected ⟨s, m, h⟩ = .error e ⟨t, m', h⟩ := by
  obtain ⟨m', hselect, hcame', hbank⟩ := hmove.exists_selectBank (s := s) (h := h) hcame hselected
    (BankedAddr.ofLinear address).bank
  obtain ⟨m'', hmoved⟩ := hmove.failed (h := h) hedge hlt hcame' hbank hserves
  refine ⟨m'', ?_⟩
  rw [copyPiece_of_lt (Nat.lt_of_lt_of_le hlt htop), bind_of_ok hselect, bind_of_error hmoved]

/-- A piece that the stream serves ends as the hook says. -/
theorem Serving.copyPiece_of_served (hmove : Serving move w first stop serves came)
    (htop : stop ≤ lastBoundary) (hedge : IsEdge first address) (hlt : address < stop)
    (hcame : came address x m)
    (hselected : ∀ b, selected = some b → m.banks w = b) {signal : Signal}
    (hserves : serves (address / pieceSize) s y none t)
    (hreport : Progress.report h (pieceStop address stop - first) (stop - first) = (signal, h')) :
    ∃ m', copyPiece move w first stop address selected ⟨s, m, h⟩
        = (if signal = .cancel ∧ pieceStop address stop < stop then .error .cancelled ⟨t, m', h'⟩
          else .ok () ⟨t, m', h'⟩)
      ∧ came (pieceStop address stop) (x ++ y) m'
      ∧ m'.banks w = (BankedAddr.ofLinear address).bank := by
  obtain ⟨m', hselect, hcame', hbank⟩ := hmove.exists_selectBank (s := s) (h := h) hcame hselected
    (BankedAddr.ofLinear address).bank
  obtain ⟨m'', hmoved, hcame'', hbank''⟩ := hmove.served (h := h) hedge hlt hcame' hbank hserves
  refine ⟨m'', ?_, hcame'', hbank''.trans hbank⟩
  rw [copyPiece_of_lt (Nat.lt_of_lt_of_le hlt htop), bind_of_ok hselect, bind_of_ok hmoved,
    hearHook_eq, hreport]

/-- **A copy that has come through some blocks is a copy of the rest.** -/
theorem Serving.exists_resume (hmove : Serving move w first stop serves came)
    (htop : stop ≤ lastBoundary) {bs rest : List Nat} {b : Nat}
    (hblocks : blocks address stop = bs ++ b :: rest) (hlt : address < stop)
    (hedge : IsEdge first address) (hcame : came address x m)
    (hselected : ∀ b, selected = some b → m.banks w = b)
    (hthrough : Through serves first stop bs s h y t h') :
    ∃ address' selected' m', copyFrom move w first stop address selected ⟨s, m, h⟩
        = copyFrom move w first stop address' selected' ⟨t, m', h'⟩
      ∧ address' < stop ∧ IsEdge first address' ∧ b = address' / pieceSize
      ∧ (rest = [] → pieceStop address' stop = stop) ∧ came address' (x ++ y) m'
      ∧ ∀ b, selected' = some b → m'.banks w = b := by
  induction hthrough generalizing address selected x m with
  | nothing =>
      rw [ByteArray.append_empty]
      obtain ⟨hb, hlast, _⟩ := blocks_eq_cons hlt hblocks
      exact ⟨address, selected, m, rfl, hlt, hedge, hb, hlast, hcame, hselected⟩
  | @block b₀ bs s t u h h' h'' y z hserves hreport hthrough ih =>
      rw [List.cons_append] at hblocks
      obtain ⟨rfl, _, hmore⟩ := blocks_eq_cons hlt hblocks
      obtain ⟨hmore, hrest⟩ := hmore (List.append_ne_nil_of_right_ne_nil _ (List.cons_ne_nil _ _))
      obtain ⟨m', hpiece, hcame', hbank⟩ := hmove.copyPiece_of_served htop hedge hlt hcame hselected
        hserves hreport
      rw [if_neg (fun hcancel => by cases hcancel.1)] at hpiece
      obtain ⟨address', selected', m'', hresume, hfound⟩ := ih hrest hmore
        (isEdge_pieceStop hedge hmore) hcame' fun b hb => hbank.trans (Option.some.inj hb)
      rw [ByteArray.append_assoc] at hfound
      refine ⟨address', selected', m'', ?_, hfound⟩
      rw [copyFrom_eq, if_pos hlt, bind_of_ok hpiece, hresume]

section Whole

variable {flash : Option Bool} {start : BankedAddr} {len : Nat} {c : Copier σ π}

/-- A copy of a range ends as its run does, between the opening and the closing of its scope. -/
theorem ends_copy (hlen : 0 < len) (h32 : start.linear + len < 0x100000000)
    {done : Unit → Copier σ π → Prop} {failed : Error → Copier σ π → Prop} :
    Ends (copy move w flash start len c) done failed ↔
      Ends (copyFrom move w start.linear (start.linear + len) start.linear none
          ⟨c.stream, flash.elim c.machine fun enabled => c.machine.setFlash enabled, c.hook⟩)
        (fun _ d =>
          done () ⟨d.stream, (BankScope.opened c.machine w flash).leave d.machine, d.hook⟩)
        (fun e d =>
          failed e ⟨d.stream, (BankScope.opened c.machine w flash).leave d.machine, d.hook⟩) := by
  unfold copy
  rw [if_neg (Nat.ne_of_gt hlen), ends_withRegisters, copyRange_eq, if_neg (Nat.not_le.mpr h32)]

/-- A copy by a move that does what a service says comes to what the answers of the stream and the
hook say. -/
theorem Serving.accounts {moved : Nat → ByteArray → Machine → Prop}
    (hmove : Serving move w start.linear (start.linear + len) serves came)
    (htotal : ∀ b s, ∃ x e? t, serves b s x e? t) (hlen : 0 < len)
    (htop : start.linear + len ≤ lastBoundary)
    (hcame : came start.linear .empty
      (flash.elim c.machine fun enabled => c.machine.setFlash enabled))
    (hmoved : ∀ address x m, came address x m →
      moved (address - start.linear) x ((BankScope.opened c.machine w flash).leave m)) :
    Accounts serves start.linear (start.linear + len) moved c (copy move w flash start len c) := by
  have hlt : start.linear < start.linear + len := Nat.lt_add_of_pos_right hlen
  have h32 : start.linear + len < 0x100000000 := Nat.lt_of_le_of_lt htop (by decide)
  have hedge : IsEdge start.linear start.linear := ⟨Nat.le_refl _, .inl rfl⟩
  have hnone : ∀ b, (none : Option UInt16) = some b →
      (flash.elim c.machine fun enabled => c.machine.setFlash enabled).banks w = b := nofun
  refine ⟨?_, ?_, ?_, exists_deciding_block htotal (blocks_ne_nil hlt) c.stream c.hook⟩
  · intro bs rest b x y t t' h e hblocks hthrough hserves
    obtain ⟨address, selected, m, hrun, hlt, hedge, rfl, _, hcame, hselected⟩ :=
      hmove.exists_resume htop hblocks hlt hedge hcame hnone hthrough
    obtain ⟨m', hpiece⟩ := hmove.copyPiece_of_failed (h := h) htop hedge hlt hcame hselected hserves
    have hcopy : Ends (copy move w flash start len c) (fun _ _ => False)
        (fun e' d => e' = e ∧ ∃ m, d = ⟨t', m, h⟩) := by
      rw [ends_copy hlen h32, hrun, copyFrom_eq, if_pos hlt, bind_of_error hpiece]
      exact ⟨rfl, _, rfl⟩
    obtain ⟨_, _, hcopy, rfl, m, rfl⟩ := hcopy.exists_error fun _ _ hdone => hdone
    exact ⟨m, hcopy⟩
  · intro bs rest b x y t t' h h' hblocks hthrough hserves hreport hmore
    obtain ⟨address, selected, m, hrun, hlt, hedge, rfl, _, hcame, hselected⟩ :=
      hmove.exists_resume htop hblocks hlt hedge hcame hnone hthrough
    obtain ⟨m', hpiece, hcame', _⟩ :=
      hmove.copyPiece_of_served htop hedge hlt hcame hselected hserves hreport
    rw [if_pos ⟨rfl, hmore⟩] at hpiece
    have hcopy : Ends (copy move w flash start len c) (fun _ _ => False)
        (fun e d => e = .cancelled ∧ ∃ m, d = ⟨t', m, h'⟩
          ∧ moved (partStop (start.linear + len) (address / pieceSize) - start.linear) (x ++ y)
            m) := by
      rw [ends_copy hlen h32, hrun, copyFrom_eq, if_pos hlt, bind_of_error hpiece]
      exact ⟨rfl, _, rfl, hmoved _ _ _ hcame'⟩
    obtain ⟨_, _, hcopy, rfl, m, rfl, hm⟩ := hcopy.exists_error fun _ _ hdone => hdone
    exact ⟨m, hcopy, hm⟩
  · intro bs b x y t t' h h' signal hblocks hthrough hserves hreport
    obtain ⟨address, selected, m, hrun, hlt, hedge, rfl, hlast, hcame, hselected⟩ :=
      hmove.exists_resume htop hblocks hlt hedge hcame hnone hthrough
    have hend := hlast rfl
    have hheard : Progress.report h (pieceStop address (start.linear + len) - start.linear)
        (start.linear + len - start.linear) = (signal, h') := by
      rw [hend]
      exact hreport
    obtain ⟨m', hpiece, hcame', _⟩ :=
      hmove.copyPiece_of_served htop hedge hlt hcame hselected hserves hheard
    rw [if_neg fun hcancel => Nat.lt_irrefl _ (hend ▸ hcancel.2)] at hpiece
    rw [hend] at hcame'
    have hcopy : Ends (copy move w flash start len c)
        (fun _ d => ∃ m, d = ⟨t', m, h'⟩ ∧ moved (start.linear + len - start.linear) (x ++ y) m)
        (fun _ _ => False) := by
      rw [ends_copy hlen h32, hrun, copyFrom_eq, if_pos hlt, bind_of_ok hpiece, copyFrom_eq, hend,
        if_neg (Nat.lt_irrefl _)]
      exact ⟨_, rfl, hmoved _ _ _ hcame'⟩
    obtain ⟨_, _, hcopy, m, rfl, hm⟩ := hcopy.exists_ok fun _ _ hfail => hfail
    exact ⟨m, hcopy, hm⟩

end Whole

end Pieces

/-! ## Loads and saves -/

/-- A stream that is read serves a block by delivering the bytes of its part. -/
def readService [ReadStream σ] (first stop : Nat) : Service σ := fun b s x e? t =>
  ReadStream.read s (partStop stop b - partStart first b) = ⟨x, e?, t⟩

/-- A stream that is written serves a block by accepting what the memory has in its part. -/
def writeService [WriteStream σ] (memory : BankedMemory) (first stop : Nat) : Service σ :=
  fun b s x e? t =>
    x = memory.read (BankedAddr.ofLinear (partStart first b)).bank
        (BankedAddr.ofLinear (partStart first b)).offset.toNat (partStop stop b - partStart first b)
      ∧ WriteStream.write x s = match e? with
        | none => .ok () t
        | some e => .error e t

theorem total_readService [ReadStream σ] {first stop : Nat} (b : Nat) (s : σ) :
    ∃ x e? t, readService first stop b s x e? t :=
  ⟨_, _, _, rfl⟩

theorem total_writeService [WriteStream σ] (memory : BankedMemory) {first stop : Nat} (b : Nat)
    (s : σ) : ∃ x e? t, writeService memory first stop b s x e? t := by
  cases hwrite : WriteStream.write (memory.read (BankedAddr.ofLinear (partStart first b)).bank
      (BankedAddr.ofLinear (partStart first b)).offset.toNat
      (partStop stop b - partStart first b)) s with
  | ok _ t => exact ⟨_, none, t, rfl, hwrite⟩
  | error e t => exact ⟨_, some e, t, rfl, hwrite⟩

/-- A load into the RAM window of `m` that has come to `address`. -/
structure Filled (m : Machine) (first address : Nat) (x : ByteArray) (m' : Machine) : Prop where
  size : first + x.size = address
  flash : m'.flash = m.flash
  stored : m.Stored m.flash first x m'

/-- A save from a window of `m` that has come to `address`. -/
structure Drawn (m : Machine) (w : Window) (first address : Nat) (x : ByteArray) (m' : Machine) :
    Prop where
  le : first ≤ address
  flash : m'.flash = m.flash
  same : m.SameMemory m'
  bytes : 0 < (m.shown w).bankCount → x = (m.shown w).rangeBytes first (address - first)

section Directions

variable {first stop address : Nat} {m : Machine} {w : Window}

/-- A piece does not leave its bank. -/
theorem mod_bankSize_add_le (h : address < stop) :
    address % bankSize + (pieceStop address stop - address) ≤ bankSize := by
  have hnext := lt_pieceStop h
  have hend : pieceStop address stop ≤ pieceEnd address := Nat.min_le_left _ _
  unfold pieceEnd pieceSize at hend
  unfold bankSize
  omega

theorem serving_fromStream [ReadStream σ] [LawfulReadStream σ] (h32 : stop < 0x100000000) :
    Serving (fromStream : Move σ π) .ram first stop (readService first stop)
      (Filled m first) where
  selected _ hfilled := ⟨hfilled.size, hfilled.flash, hfilled.stored.of_same ⟨rfl, rfl, rfl⟩
    ⟨rfl, rfl, rfl⟩⟩
  served := by
    intro address x y m' s t h hedge hlt hfilled hbank hserves
    have hread : ReadStream.read s (pieceStop address stop - address) = ⟨y, none, t⟩ := by
      unfold readService at hserves
      rwa [partStart_of_isEdge hedge] at hserves
    have hsize : y.size = pieceStop address stop - address := by
      have hlawful := LawfulReadStream.size_eq s (pieceStop address stop - address)
      rw [hread] at hlawful
      exact hlawful rfl
    have hnext := lt_pieceStop hlt
    have hstop : pieceStop address stop ≤ stop := Nat.min_le_right _ _
    have hplace := Machine.stored_setWindowBytes (x := y) hbank
      (by rw [hsize]; exact mod_bankSize_add_le hlt) (by omega)
    rw [hfilled.flash, ← hfilled.size] at hplace
    obtain ⟨hbanks, hflash⟩ := m'.registers_setWindowBytes .ram
      (BankedAddr.ofLinear address).offset.toNat y
    refine ⟨_, fromStream_of_none (c := ⟨s, m', h⟩) hread _ _, ⟨?_, ?_, ?_⟩, congrFun hbanks .ram⟩
    · rw [ByteArray.size_append, hsize, ← Nat.add_assoc, hfilled.size]
      exact Nat.add_sub_cancel' (Nat.le_of_lt hnext)
    · exact hflash.trans hfilled.flash
    · rw [← hfilled.size]
      exact hfilled.stored.append hplace
  failed := by
    intro address x y m' s t h e hedge hlt _ _ hserves
    unfold readService at hserves
    rw [partStart_of_isEdge hedge] at hserves
    have hread : ReadStream.read s (pieceStop address stop - address) = ⟨y, some e, t⟩ := hserves
    refine ⟨m'.setWindowBytes .ram (BankedAddr.ofLinear address).offset.toNat y, ?_⟩
    unfold fromStream
    dsimp only
    rw [hread]

/-- What a save does with a piece. -/
theorem toStream_eq [WriteStream σ] {s : σ} {h : π} {m' : Machine} (hdrawn : m.SameMemory m')
    (hflash : m'.flash = m.flash) (hbank : m'.banks w = (BankedAddr.ofLinear address).bank)
    (hedge : IsEdge first address) {y : ByteArray} {e? : Option Error} {t : σ}
    (hserves : writeService (m.shown w) first stop (address / pieceSize) s y e? t) :
    toStream w (BankedAddr.ofLinear address).offset.toNat (pieceStop address stop - address)
        ⟨s, m', h⟩
      = match e? with
        | none => .ok () ⟨t, m', h⟩
        | some e => .error e ⟨t, m', h⟩ := by
  obtain ⟨rfl, hwrite⟩ := hserves
  rw [partStart_of_isEdge hedge] at hwrite
  have hbytes : m'.windowBytes w (BankedAddr.ofLinear address).offset.toNat
        (pieceStop address stop - address)
      = (m.shown w).read (BankedAddr.ofLinear address).bank
          (BankedAddr.ofLinear address).offset.toNat
          (partStop stop (address / pieceSize) - address) := by
    rw [Machine.windowBytes_eq, hdrawn.shown hflash, hbank]
    rfl
  show onStream (WriteStream.write (m'.windowBytes _ _ _)) (⟨s, m', h⟩ : Copier σ π) = _
  unfold onStream
  dsimp only
  rw [hbytes, hwrite]
  cases e? <;> rfl

theorem serving_toStream [WriteStream σ] (h32 : stop < 0x100000000) :
    Serving (toStream : Move σ π) w first stop (writeService (m.shown w) first stop)
      (Drawn m w first) where
  selected _ hdrawn := ⟨hdrawn.le, hdrawn.flash, hdrawn.same.trans ⟨rfl, rfl, rfl⟩, hdrawn.bytes⟩
  served := by
    intro address x y m' s t h hedge hlt hdrawn hbank hserves
    have hnext := lt_pieceStop hlt
    have hstop : pieceStop address stop ≤ stop := Nat.min_le_right _ _
    have hmoved := toStream_eq (h := h) hdrawn.same hdrawn.flash hbank hedge hserves
    have hle := hdrawn.le
    refine ⟨m', hmoved, ⟨by omega, hdrawn.flash, hdrawn.same, fun hcount => ?_⟩, rfl⟩
    have hrange := BankedMemory.read_ofLinear hcount (by omega) (mod_bankSize_add_le hlt)
    obtain ⟨hy, _⟩ := hserves
    rw [partStart_of_isEdge hedge] at hy
    have hpiece : y = (m.shown w).rangeBytes address (pieceStop address stop - address) :=
      hy.trans hrange
    have hjoin := (m.shown w).rangeBytes_append first (address - first)
      (pieceStop address stop - address)
    rw [Nat.add_sub_cancel' hle] at hjoin
    have hmoved : address - first + (pieceStop address stop - address)
        = pieceStop address stop - first := by omega
    rw [hdrawn.bytes hcount, hpiece, hjoin, hmoved]
  failed := by
    intro address x y m' s t h e hedge hlt hdrawn hbank hserves
    exact ⟨m', toStream_eq hdrawn.same hdrawn.flash hbank hedge hserves⟩

end Directions

/-- **Progress and cancellation.** The hook of a copy is told of each block that the range meets,
ascending, and last of the whole range. A stream that fails ends the copy with its error before the
hook hears of that block; a hook that cancels before the last report ends it there, with exactly
the bytes moved that it was told of; and in any other case the copy succeeds. -/
theorem copies_account {start : BankedAddr} {len : Nat} (hlen : 0 < len)
    (hend : start.linear + len ≤ 0xFFFF8000) :
    let first := start.linear
    let stop := first + len
    (∀ block, block ∈ blocks first stop ↔ ∃ a, first ≤ a ∧ a < stop ∧ a / pieceSize = block)
    ∧ (reports first stop).Pairwise (· < ·) ∧ (reports first stop).getLast? = some len
    ∧ (∀ {σ π : Type} [ReadStream σ] [LawfulReadStream σ] [Progress π] (flash : Bool)
        (c : Copier σ π), Accounts (readService first stop) first stop
          (fun done x m => x.size = done ∧ c.machine.Stored flash first x m) c
          (load flash start len c))
    ∧ (∀ {τ π : Type} [WriteStream τ] [Progress π] (flash : Bool) (c : Copier τ π),
        Accounts (writeService (c.machine.ram flash) first stop) first stop
          (fun done x m => c.machine.SameMemory m ∧ (0 < (c.machine.ram flash).bankCount →
            x = (c.machine.ram flash).rangeBytes first done)) c
          (save flash start len c)) := by
  intro first stop
  have hlt : first < stop := Nat.lt_add_of_pos_right hlen
  have h32 : stop < 0x100000000 := Nat.lt_of_le_of_lt hend (by decide)
  have hlast := getLast?_reports hlt
  rw [Nat.add_sub_cancel_left] at hlast
  refine ⟨fun _ => mem_blocks hlt, pairwise_reports hlt, hlast, ?_, ?_⟩
  · intro σ π _ _ _ flash c
    rw [load_eq]
    have hfilled : Filled (c.machine.setFlash flash) first first .empty
        (c.machine.setFlash flash) :=
      ⟨Nat.add_zero _, rfl, Machine.SameMemory.stored ⟨rfl, rfl, rfl⟩⟩
    refine (serving_fromStream h32).accounts total_readService hlen hend hfilled
      fun address x m hm => ?_
    have hsize := hm.size
    exact ⟨by omega, hm.stored.of_same ⟨rfl, rfl, rfl⟩ ⟨rfl, rfl, rfl⟩⟩
  · intro τ π _ _ flash c
    rw [save_eq]
    obtain ⟨opened, hopened⟩ : ∃ opened, opened = (saveEnable flash).elim c.machine fun enabled =>
        c.machine.setFlash enabled := ⟨_, rfl⟩
    have hshown : opened.shown (saveWindow flash) = c.machine.ram flash := by
      subst hopened
      cases flash <;> rfl
    have hsame : c.machine.SameMemory opened := by
      subst hopened
      cases flash <;> exact ⟨rfl, rfl, rfl⟩
    have hdrawn : Drawn opened (saveWindow flash) first first .empty opened := by
      refine ⟨Nat.le_refl _, rfl, ⟨rfl, rfl, rfl⟩, fun _ => ?_⟩
      rw [Nat.sub_self]
      rfl
    rw [← hshown]
    refine (serving_toStream h32).accounts (total_writeService _) hlen hend (hopened ▸ hdrawn)
      fun address x m hm => ?_
    refine ⟨(hsame.trans hm.same).trans ?_, hm.bytes⟩
    cases flash <;> exact ⟨rfl, rfl, rfl⟩

/-- Four bytes, two on either side of a block boundary, and a hook that cancels between them. -/
theorem straddling_load_cancelled :
    let source : ByteSource := ⟨[1, 2, 3, 4].toByteArray, 0, none⟩
    ∃ m, load false ⟨0, 0x7FFE⟩ 4 ⟨source, Machine.erased 1 1, { cancelAt := some 1 }⟩
        = .error .cancelled ⟨{ source with position := 2 }, m, (⟨some 1, #[(2, 4)]⟩ : Meter)⟩
      ∧ (Machine.erased 1 1).Loaded false 0x7FFE (source.data.extract 0 2) m := by
  intro source
  have hblocks : blocks 0x7FFE (0x7FFE + 4) = [] ++ 0 :: [1] := by decide
  obtain ⟨_, _, _, hload, _⟩ := copies_account (by decide : 0 < 4)
    (by decide : (⟨0, 0x7FFE⟩ : BankedAddr).linear + 4 ≤ 0xFFFF8000)
  obtain ⟨m, hcancelled, hsize, hstored⟩ := (hload false
    ⟨source, Machine.erased 1 1, ({ cancelAt := some 1 } : Meter)⟩).cancelled hblocks .nothing rfl
    rfl (by decide)
  rw [ByteArray.empty_append] at hsize hstored
  have hdone : (source.data.extract 0 2).size = 2 := hsize
  have hmemory : ((Machine.erased 1 1).ram false).bytes.size = bankSize * 1 :=
    ByteArray.size_replicate _ _
  refine ⟨m, hcancelled, hstored.loaded ?_ ?_⟩
  · show 0x7FFE + (source.data.extract 0 2).size ≤ _
    rw [hdone, hmemory]
    decide
  · show 0x7FFE + (source.data.extract 0 2).size ≤ _
    rw [hdone]
    decide

end Copier

end CartBoot
