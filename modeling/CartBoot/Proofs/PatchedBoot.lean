import CartBoot.Proofs.Patching

/-!
# The patch within a boot

The patch leaves the old jump of the footer in the descriptor, over the start
pointer. The second stage read the descriptor before that, and jumps where it said
then. Of what comes before the patch only one thing matters to it, that a load
leaves the code alone that is to be installed; so a patch that is too large is known
before the image is loaded, and is the one thing that stops a boot afterwards.
-/

namespace CartBoot

open Fat

namespace Copier

variable {σ π : Type} [ReadStream σ] [Progress π]

/-- A load leaves the code alone that a patch would install. -/
theorem ends_loadPsram_softResetCode (start : BankedAddr) (len : Nat) (c : Copier σ π) :
    Ends (loadPsram start len c)
      (fun _ d => d.machine.softResetCode = c.machine.softResetCode)
      (fun _ d => d.machine.softResetCode = c.machine.softResetCode) := by
  have hwrite : ∀ (offset : Nat) (data : ByteArray) (m : Machine),
      (m.setWindowBytes .ram offset data).softResetCode = m.softResetCode := by
    intro offset data m
    unfold Machine.setWindowBytes
    split <;> rfl
  refine ends_copy_any (I := fun d => d.machine.softResetCode = c.machine.softResetCode)
    (fun _ _ hd => hd) (fun _ _ hd => hd) ?_ (fun _ _ hd => hd) _ _ _ rfl
  intro offset len d hd
  unfold fromStream
  dsimp only
  cases ReadStream.read d.stream len with
  | mk data error? t => cases error? <;> exact (hwrite offset data d.machine).trans hd

end Copier

namespace SecondStage

variable {π : Type} [Progress π] {s t : SecondStage π} {d : BootDescriptor} {layout : ImageLayout}

theorem ends_loadImage_softResetCode (d : BootDescriptor) (layout : ImageLayout)
    (s : SecondStage π) : Ends (loadImage d layout s)
      (fun _ t => t.machine.softResetCode = s.machine.softResetCode)
      (fun _ t => t.machine.softResetCode = s.machine.softResetCode) := by
  cases hresident : d.isResident with
  | true =>
      rw [loadImage_of_resident hresident]
      exact rfl
  | false =>
      rw [ends_loadImage_streamed hresident]
      exact Copier.ends_loadPsram_softResetCode layout.start d.size.toNat _

/-- Whatever comes before the jump, its target stays. -/
theorem ends_bootFrom_start (d : BootDescriptor) (layout : ImageLayout) (s : SecondStage π) :
    Ends (bootFrom d layout s) (fun target _ => target = d.start) (fun _ _ => True) := by
  unfold bootFrom
  rw [ends_bind]
  refine (Ends.any _).mono ?_ fun _ _ _ => trivial
  intro _ t _
  split
  · rw [ends_bind]
    refine (Ends.any _).mono ?_ fun _ _ _ => trivial
    intro _ t' _
    rw [ends_bind, ends_onMachine]
    exact rfl
  · rw [ends_bind, ends_onMachine]
    exact rfl

/-- The second stage jumps where the descriptor said when it was read. -/
theorem boot_target {s' : SecondStage π} {target : FarPtr}
    (hd : BootDescriptor.decode s.machine.descriptorBytes = .ok d)
    (h : boot s = .ok target s') : target = d.start := by
  obtain ⟨d', layout, haccepts⟩ := exists_accepts h
  cases hd.symm.trans haccepts.decode
  rw [boot_eq haccepts.read haccepts.2] at h
  exact (ends_bootFrom_start d layout _).of_ok h

/-- Once the image is loaded only a patch that is too large stops the second stage. -/
theorem ends_boot_of_loaded (h : s.Accepts d layout)
    (hload : loadImage d layout
      ⟨(afterRead s.machine).outb Port.lcdSegments (orientation d), s.disk, s.hook⟩ = .ok () t)
    {ending : EStateM.Result Error (SecondStage π) FarPtr} (hending : boot s = ending) :
    Ends ending
      (fun target _ => target = d.start ∧
        ¬ (d.patches.contains .softReset = true ∧ 40 < s.machine.softResetCode.size))
      (fun e s' => e = .fileTooLarge ∧ s' = t ∧
        d.patches.contains .softReset = true ∧ 40 < s.machine.softResetCode.size) := by
  have hkept := (ends_loadImage_softResetCode d layout _).of_ok hload
  have hcode : t.machine.softResetCode = s.machine.softResetCode := hkept
  rw [← hending, boot_eq h.read h.2]
  unfold bootFrom
  rw [ends_bind, hload, ends_ok]
  split
  · rename_i hpatch
    rw [ends_bind, ends_discard, ends_onMachine, ← hcode]
    refine (SoftReset.ends_apply layout t.machine).mono ?_ ?_
    · intro _ m hsize
      rw [ends_bind, ends_onMachine]
      exact ⟨rfl, fun hlarge => Nat.not_lt.mpr hsize hlarge.2⟩
    · rintro _ _ ⟨rfl, rfl, hlarge⟩
      exact ⟨rfl, rfl, hpatch, hlarge⟩
  · rename_i hpatch
    rw [ends_bind, ends_onMachine]
    exact ⟨rfl, fun hlarge => hpatch hlarge.1⟩

theorem boot_of_loaded (h : s.Accepts d layout)
    (hload : loadImage d layout
      ⟨(afterRead s.machine).outb Port.lcdSegments (orientation d), s.disk, s.hook⟩ = .ok () t) :
    (d.patches.contains .softReset = true ∧ 40 < s.machine.softResetCode.size →
        boot s = .error .fileTooLarge t)
      ∧ (¬ (d.patches.contains .softReset = true ∧ 40 < s.machine.softResetCode.size) →
        ∃ s', boot s = .ok d.start s') := by
  generalize hending : boot s = ending
  have hends := ends_boot_of_loaded h hload hending
  constructor
  · intro hlarge
    refine Ends.eq_error (hends.mono (fun _ _ hdone => hdone.2 hlarge) ?_)
    exact fun _ _ hfail => ⟨hfail.1, hfail.2.1⟩
  · intro hsmall
    obtain ⟨_, s', hboot, rfl, _⟩ := hends.exists_ok fun _ _ hfail => hsmall hfail.2.2
    exact ⟨s', hboot⟩

end SecondStage

namespace SoftReset

variable {layout : ImageLayout} {m : Machine} {d : BootDescriptor}

open SecondStage

/-- **What the patch does, and nothing else.** Code that is too long is refused, and an image that
uses the area below the code is left alone; otherwise the code is installed, and where the footer
jumped is the answer and the new start pointer of the descriptor. Static RAM and the registers are
as before in every case, and the second stage jumps where the descriptor said before. -/
theorem patch_effect (hd : BootDescriptor.decode m.descriptorBytes = .ok d)
    (hlayout : layout.Present m.psram) :
    (40 < m.softResetCode.size → apply layout m = .error .fileTooLarge m)
      ∧ (m.softResetCode.size ≤ 40 → ¬ m.psram.Erased (freeStretch layout) →
        ∃ m', apply layout m = .ok none m' ∧ m.SameMemory m' ∧ m.Returned m')
      ∧ (m.softResetCode.size ≤ 40 → m.psram.Erased (freeStretch layout) →
        ∃ m', apply layout m = .ok (some (layout.footer m.psram).jumpTarget) m'
          ∧ Installed layout d m m' ∧ m.Returned m')
      ∧ ∀ {π : Type} [Progress π] (disk : Disk) (hook : π),
        (∀ target s', boot ⟨m, disk, hook⟩ = .ok target s' → target = d.start)
          ∧ ∀ layout' t, Accepts ⟨m, disk, hook⟩ d layout' →
            loadImage d layout' ⟨(afterRead m).outb Port.lcdSegments (orientation d), disk, hook⟩
              = .ok () t →
            (d.patches.contains .softReset = true ∧ 40 < m.softResetCode.size →
              boot ⟨m, disk, hook⟩ = .error .fileTooLarge t)
            ∧ (¬ (d.patches.contains .softReset = true ∧ 40 < m.softResetCode.size) →
              ∃ s', boot ⟨m, disk, hook⟩ = .ok d.start s') := by
  have hreturned := returned_apply layout m
  refine ⟨apply_of_large, fun hcode hused => ?_, fun hcode hfree => ?_, fun disk hook => ⟨?_, ?_⟩⟩
  · obtain ⟨m', happly, hsame⟩ := exists_apply_of_used hlayout hcode hused
    exact ⟨m', happly, hsame, hreturned.of_ok happly⟩
  · obtain ⟨m', happly, hpatched⟩ := exists_apply_of_free hlayout hcode hfree
    exact ⟨m', happly, hpatched.installed hlayout hcode hd, hreturned.of_ok happly⟩
  · exact fun _ _ => boot_target (s := ⟨m, disk, hook⟩) hd
  · exact fun _ _ => boot_of_loaded (s := ⟨m, disk, hook⟩)

/-- An image whose footer jumps to 4000:0010 is patched, and started where its descriptor says. -/
theorem jumpBank_patched :
    (∃ m', apply jumpLayout (jumpMachine 0xFF) = .ok (some ⟨0x4000, 0x0010⟩) m'
      ∧ Installed jumpLayout jumpImage (jumpMachine 0xFF) m')
    ∧ ∃ s', boot ⟨jumpMachine 0xFF, smallDisk, Silent.mk⟩ = .ok coldBootVector s' := by
  have hm := isJumpMachine 0xFF
  generalize jumpMachine 0xFF = m at hm ⊢
  have hd : BootDescriptor.decode m.descriptorBytes = .ok jumpImage := by
    rw [hm.descriptor, BootDescriptor.decode_encode]
  have hfree : m.psram.Erased (freeStretch jumpLayout) := hm.psram ▸ erased_jumpBank
  have hcode : m.softResetCode.size ≤ 40 := by
    rw [hm.size_code]
    decide
  obtain ⟨_, _, hinstalled, hboot⟩ := patch_effect hd hm.present
  obtain ⟨m', happly, hpatched, _⟩ := hinstalled hcode hfree
  rw [hm.psram, jumpTarget_jumpBank] at happly
  refine ⟨⟨m', happly, hpatched⟩, ?_⟩
  have hvalid : jumpImage.validate = .ok () := rfl
  have haccepts : Accepts ⟨m, smallDisk, Silent.mk⟩ jumpImage jumpLayout :=
    ⟨⟨_, readDescriptor_eq hm.descriptor (BootDescriptor.validate_eq_ok.mp hvalid)⟩, rfl⟩
  exact ((hboot smallDisk Silent.mk).2 jumpLayout _ haccepts (loadImage_of_resident rfl _)).2
    fun hlarge => Nat.not_lt.mpr hcode hlarge.2

end SoftReset

end CartBoot
