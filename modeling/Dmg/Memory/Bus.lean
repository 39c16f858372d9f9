/-!
The memory bus: the one way in which a processor reaches memory and devices.  Both operations are
total over the 16-bit address space, and either may change what stands behind the bus.
-/

namespace Dmg

class Bus (β : Type) where
  read : β → UInt16 → UInt8 × β
  write : β → UInt16 → UInt8 → β

end Dmg
