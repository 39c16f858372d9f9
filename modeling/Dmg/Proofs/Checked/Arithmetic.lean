import Dmg.Cpu.Alu
import Mathlib.Algebra.Group.Int.Defs
import Mathlib.Algebra.Group.Nat.Defs

/-!
Arithmetic that fails where a result leaves its range.  Numbers have no width of their own here:
each sum, product and shift names the width that it has to keep to.  An operation of bytes and
words comes to the same with these checks as without.
-/

namespace Dmg

namespace Checked

def fit (bits value : Nat) : Option Nat := if value < 2 ^ bits then some value else none

def sum (bits left right : Nat) : Option Nat := fit bits (left + right)

def product (bits left right : Nat) : Option Nat := fit bits (left * right)

def difference (left right : Nat) : Option Nat := if right ≤ left then some (left - right) else none

/-- A shift of a byte.  The bits that go over its edge are not missed, but the amount has to be one
of a byte's places. -/
def shiftLeft (value : UInt8) (amount : Nat) : Option UInt8 :=
  if amount < 8 then some (value <<< UInt8.ofNat amount) else none

def shiftRight (value : UInt8) (amount : Nat) : Option UInt8 :=
  if amount < 8 then some (value >>> UInt8.ofNat amount) else none

variable {bits left right : Nat}

theorem fit_eq {value : Nat} (fits : value < 2 ^ bits) : fit bits value = some value := if_pos fits

theorem sum_eq (fits : left + right < 2 ^ bits) : sum bits left right = some (left + right) :=
  fit_eq fits

theorem eq_of_sum {result : Nat} (summed : sum bits left right = some result) :
    result = left + right := by
  rw [sum, fit, Option.ite_none_right_eq_some, Option.some.injEq] at summed
  exact summed.2.symm

theorem product_eq (fits : left * right < 2 ^ bits) :
    product bits left right = some (left * right) :=
  fit_eq fits

theorem difference_eq (enough : right ≤ left) : difference left right = some (left - right) :=
  if_pos enough

theorem shiftLeft_eq (value : UInt8) {amount : Nat} (place : amount < 8) :
    shiftLeft value amount = some (value <<< UInt8.ofNat amount) :=
  if_pos place

theorem shiftRight_eq (value : UInt8) {amount : Nat} (place : amount < 8) :
    shiftRight value amount = some (value >>> UInt8.ofNat amount) :=
  if_pos place

end Checked

namespace Alu

open Checked

def addCarry? (left right : UInt8) (carry : Bool) : Option AluResult := do
  let bytes ← sum 16 left.toNat right.toNat
  let wide ← sum 16 bytes carry.toNat
  let low ← sum 8 (left.toNat % 16) (right.toNat % 16)
  let digits ← sum 8 low carry.toNat
  let value := UInt8.ofNat wide
  some { value, flags := { zero := value == 0, halfCarry := digits > 15, carry := wide > 255 } }

def subtractCarry? (left right : UInt8) (carry : Bool) : Option AluResult := do
  let value := left - right - carryIn carry
  let digit ← sum 8 (right.toNat % 16) carry.toNat
  let wide ← sum 16 right.toNat carry.toNat
  some
    { value
      flags :=
        { zero := value == 0
          subtract := true
          halfCarry := left.toNat % 16 < digit
          carry := left.toNat < wide } }

def compare? (left right : UInt8) : Option AluResult := do
  let result ← subtractCarry? left right false
  some { value := left, flags := result.flags }

/-- Adds words.  The sum itself wraps around; the sum of their lower twelve bits has to fit. -/
def addWord? (left right : UInt16) : Option WideResult := do
  let low ← sum 16 (left.toNat % 4096) (right.toNat % 4096)
  some
    { value := left + right
      flags := { halfCarry := low > 4095, carry := left.toNat + right.toNat > 65535 } }

def addOffset? (base : UInt16) (offset : UInt8) : Option WideResult := do
  let digits ← sum 8 (base.toNat % 16) (offset.toNat % 16)
  let low ← sum 16 (base.toNat % 256) offset.toNat
  some { value := displace base offset, flags := { halfCarry := digits > 15, carry := low > 255 } }

def rotateLeft? (value : UInt8) (carry : Bool) : Option AluResult := do
  let shiftedUp ← shiftLeft value 1
  some (shifted (shiftedUp ||| carryIn carry) (topBit value))

def rotateRight? (value : UInt8) (carry : Bool) : Option AluResult := do
  let shiftedDown ← shiftRight value 1
  let top ← shiftLeft (carryIn carry) 7
  some (shifted (shiftedDown ||| top) (bottomBit value))

def shiftLeftArithmetic? (value : UInt8) : Option AluResult := do
  let shiftedUp ← shiftLeft value 1
  some (shifted shiftedUp (topBit value))

def shiftRightArithmetic? (value : UInt8) : Option AluResult := do
  let shiftedDown ← shiftRight value 1
  some (shifted (shiftedDown ||| value &&& 0x80) (bottomBit value))

def shiftRightLogical? (value : UInt8) : Option AluResult := do
  let shiftedDown ← shiftRight value 1
  some (shifted shiftedDown (bottomBit value))

def bitMask? (index : Nat) : Option UInt8 := shiftLeft 1 index

theorem addCarry?_eq (left right : UInt8) (carry : Bool) :
    addCarry? left right carry = some (addCarry left right carry) := by
  have leftBound := left.toNat_lt
  have rightBound := right.toNat_lt
  have carryBound := Bool.toNat_lt carry
  have value : UInt8.ofNat (left.toNat + right.toNat + carry.toNat) =
      left + right + carryIn carry := by
    simp only [UInt8.ofNat_add, UInt8.ofNat_toNat, ← toNat_carryIn]
  simp (disch := omega) only [addCarry?, sum_eq, Option.bind_eq_bind, Option.bind_some, value]
  rfl

theorem subtractCarry?_eq (left right : UInt8) (carry : Bool) :
    subtractCarry? left right carry = some (subtractCarry left right carry) := by
  have rightBound := right.toNat_lt
  have carryBound := Bool.toNat_lt carry
  simp (disch := omega) only [subtractCarry?, sum_eq, Option.bind_eq_bind, Option.bind_some]
  rfl

theorem compare?_eq (left right : UInt8) : compare? left right = some (compare left right) := by
  simp only [compare?, subtractCarry?_eq, Option.bind_eq_bind, Option.bind_some]
  rfl

theorem addWord?_eq (left right : UInt16) : addWord? left right = some (addWord left right) := by
  simp (disch := omega) only [addWord?, sum_eq, Option.bind_eq_bind, Option.bind_some]
  rfl

theorem addOffset?_eq (base : UInt16) (offset : UInt8) :
    addOffset? base offset = some (addOffset base offset) := by
  have offsetBound := offset.toNat_lt
  simp (disch := omega) only [addOffset?, sum_eq, Option.bind_eq_bind, Option.bind_some]
  rfl

theorem bitMask?_eq (index : Fin 8) : bitMask? index.val = some (bitMask index) :=
  shiftLeft_eq 1 index.isLt

end Alu

def Arithmetic.result? (operation : Arithmetic) (left right : UInt8) (carry : Bool) :
    Option AluResult :=
  match operation with
  | .add => Alu.addCarry? left right false
  | .addCarry => Alu.addCarry? left right carry
  | .subtract => Alu.subtractCarry? left right false
  | .subtractCarry => Alu.subtractCarry? left right carry
  | .compare => Alu.compare? left right
  | .and | .xor | .or => some (operation.apply left right carry)

def Rotation.result? (rotation : Rotation) (value : UInt8) (carry : Bool) : Option AluResult :=
  match rotation with
  | .left => Alu.rotateLeft? value carry
  | .right => Alu.rotateRight? value carry
  | .leftCircular | .rightCircular => some (rotation.apply value carry)

def Shift.result? (shift : Shift) (value : UInt8) (carry : Bool) : Option AluResult :=
  match shift with
  | .rotate rotation => rotation.result? value carry
  | .leftArithmetic => Alu.shiftLeftArithmetic? value
  | .rightArithmetic => Alu.shiftRightArithmetic? value
  | .rightLogical => Alu.shiftRightLogical? value
  | .swap => some (shift.apply value carry)

theorem Arithmetic.result?_eq (operation : Arithmetic) (left right : UInt8) (carry : Bool) :
    operation.result? left right carry = some (operation.apply left right carry) := by
  cases operation with
  | add | addCarry => exact Alu.addCarry?_eq left right _
  | subtract | subtractCarry => exact Alu.subtractCarry?_eq left right _
  | compare => exact Alu.compare?_eq left right
  | and | xor | or => rfl

theorem Rotation.result?_eq (rotation : Rotation) (value : UInt8) (carry : Bool) :
    rotation.result? value carry = some (rotation.apply value carry) := by
  cases rotation <;> rfl

theorem Shift.result?_eq (shift : Shift) (value : UInt8) (carry : Bool) :
    shift.result? value carry = some (shift.apply value carry) := by
  cases shift with
  | rotate rotation => exact rotation.result?_eq value carry
  | leftArithmetic | rightArithmetic | swap | rightLogical => rfl

end Dmg
