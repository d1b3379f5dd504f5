import CartBoot.Boot.Descriptor
import CartBoot.Cart.Scope
import CartBoot.Image.Layout

/-!
# The soft-reset patch

Images assembled by the menu get a piece of code just below their footer, and the
footer's jump is pointed at it. Where the jump went before is left in the start
pointer of the boot descriptor, where the code finds it. An image that uses the
area below its footer is left alone.
-/

namespace CartBoot

namespace SoftReset

/-- Start of the area that must be erased. -/
def freeStart : Nat := 0xFF80

def freeEnd : Nat := 0xFFC0

def codeStart : Nat := 0xFFC8

/-- Where it must end: at the footer. -/
def codeLimit : Nat := 0xFFF0

/-- The operands of the footer's jump. -/
def vectorStart : Nat := 0xFFF1

/-- The address of the code as the processor sees it after power-on. -/
def codePointer : FarPtr := ⟨0xF000, codeStart.toUInt16⟩

/-- Whether the area below the footer is erased in the bank shown. -/
def areaIsFree (m : Machine) : Bool :=
  let area := m.windowBytes .ram freeStart (freeEnd - freeStart)
  (List.range area.size).all fun i => area.byteAt i = 0xFF

/-- Install the code in the bank shown and point the footer at it. -/
def install (code : ByteArray) (m : Machine) : FarPtr × Machine :=
  let m := m.setWindowBytes .ram codeStart code
  let previous := FarPtr.decode (m.windowBytes .ram vectorStart 4) 0
  (previous, m.setWindowBytes .ram vectorStart codePointer.encode)

/-- Patch the image in program RAM. The answer is where the footer's jump went before, or `none`
if the image was left alone. -/
def apply (layout : ImageLayout) : EStateM Error Machine (Option FarPtr) := fun m =>
  let code := m.softResetCode
  if codeLimit - codeStart < code.size then
    .error .fileTooLarge m
  else
    let scope := BankScope.enter m .ram
    let (scope, m) := scope.withFlash true m
    let m := m.setBank .ram layout.lastBank.toUInt16
    if areaIsFree m then
      let (previous, m) := install code m
      let m := scope.leave m
      let address := BootDescriptor.address + BootDescriptor.startOffset.toUInt16
      .ok (some previous) (m.writeRam address previous.encode)
    else
      .ok none (scope.leave m)

/-- The machine that the patch looks at. -/
def shown (layout : ImageLayout) (m : Machine) : Machine :=
  (m.setFlash true).setBank .ram layout.lastBank.toUInt16

variable {layout : ImageLayout} {m : Machine}

theorem apply_of_large (h : codeLimit - codeStart < m.softResetCode.size) :
    apply layout m = .error .fileTooLarge m :=
  if_pos h

/-- Code that fits is installed if the area is free. -/
theorem apply_of_small (h : m.softResetCode.size ≤ codeLimit - codeStart) :
    apply layout m =
      if areaIsFree (shown layout m) then
        .ok (some (install m.softResetCode (shown layout m)).1)
          ((((BankScope.enter m .ram).withFlash true m).1.leave
              (install m.softResetCode (shown layout m)).2).writeRam
            (BootDescriptor.address + BootDescriptor.startOffset.toUInt16)
            (install m.softResetCode (shown layout m)).1.encode)
      else
        .ok none (((BankScope.enter m .ram).withFlash true m).1.leave (shown layout m)) :=
  if_neg (Nat.not_lt.mpr h)

end SoftReset

end CartBoot
