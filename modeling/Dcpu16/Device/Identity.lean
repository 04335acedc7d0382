import Dcpu16.Word

/-!
# Identity of a device

What a device answers when the machine asks who it is.
-/

namespace Dcpu16

/-- Who a device is. The identifier and the manufacturer are double words. -/
structure Identity where
  hardwareId : Nat
  version : Word
  manufacturer : Nat
  name : String
  deriving DecidableEq, Repr, Inhabited

end Dcpu16
