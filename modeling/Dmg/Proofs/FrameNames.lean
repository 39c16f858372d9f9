import Dmg.Machine.Recording
import Dmg.Proofs.AddressGrammar

/-!
The names of recorded frames.  No two frames share a name, and the names come in the order of the
frames as long as the places hold the numbers.
-/

namespace Dmg

theorem Numeral.unique {radix : Nat} (small : radix ≤ 16) {symbols : List Char} {left right : Nat}
    (first : Numeral radix symbols left) (second : Numeral radix symbols right) : left = right := by
  have leftRead : numeral? radix (left + right + 1) symbols = some left :=
    (numeral?_eq_some_iff small).mpr ⟨first, by omega⟩
  have rightRead : numeral? radix (left + right + 1) symbols = some right :=
    (numeral?_eq_some_iff small).mpr ⟨second, by omega⟩
  exact Option.some.inj (leftRead.symm.trans rightRead)

theorem frameName_inj {left right : Nat} : frameName left = frameName right ↔ left = right := by
  constructor
  · intro same
    have digits : digitText 10 6 left = digitText 10 6 right :=
      (String.append_left_inj ".png").mp same
    have first : Numeral 10 _ left := numeral_digitText (by decide) (by decide) 6 left
    rw [digits] at first
    exact first.unique (by decide) (numeral_digitText (by decide) (by decide) 6 right)
  · exact congrArg frameName

end Dmg
