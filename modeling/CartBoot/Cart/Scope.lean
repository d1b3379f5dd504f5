import CartBoot.Cart.Machine

/-!
# Register scopes

Whoever changes a bank register or the flash enable must put it back. A scope
remembers the values from before and writes them again when it ends, whatever
happened in between.
-/

namespace CartBoot

/-- The register values to be put back. -/
structure BankScope where
  window : Window
  savedBank : UInt16
  /-- The flash enable, if the scope changed it. -/
  savedFlash : Option Bool := none

namespace BankScope

def enter (m : Machine) (w : Window) : BankScope :=
  ⟨w, m.banks w, none⟩

/-- Also set the flash enable; the first value seen is the one put back. -/
def withFlash (enabled : Bool) (scope : BankScope) (m : Machine) : BankScope × Machine :=
  ({ scope with savedFlash := some (scope.savedFlash.getD m.flash) }, m.setFlash enabled)

def leave (scope : BankScope) (m : Machine) : Machine :=
  let m := m.setBank scope.window scope.savedBank
  match scope.savedFlash with
  | some enabled => m.setFlash enabled
  | none => m

end BankScope

end CartBoot
