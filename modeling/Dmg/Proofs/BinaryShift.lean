import Dmg.Proofs.BinaryNumber
import Dmg.Proofs.Bits

/-!
Binary numbers of many bytes, shifted by one place.  A shift to the left goes up through the bytes
and one to the right goes down, each passing the bit that leaves a byte on in the carry flag.
-/

namespace Dmg

theorem toNat_carry_inj {left right : Bool} : left.toNat = right.toNat ↔ left = right := by
  cases left <;> cases right <;> decide

namespace Alu

theorem topBit_eq_testBit (byte : UInt8) : topBit byte = byte.toNat.testBit 7 :=
  mask_bne_zero byte (by decide : 7 < 8)

theorem bottomBit_eq_testBit (byte : UInt8) : bottomBit byte = byte.toNat.testBit 0 :=
  mask_bne_zero byte (by decide : 0 < 8)

theorem toNat_topBit (byte : UInt8) : (topBit byte).toNat = byte.toNat / 128 := by
  have bound := byte.toNat_lt
  rw [topBit_eq_testBit, Nat.toNat_testBit]
  omega

theorem toNat_bottomBit (byte : UInt8) : (bottomBit byte).toNat = byte.toNat % 2 := by
  rw [bottomBit_eq_testBit, Nat.toNat_testBit, pow_zero, Nat.div_one]

section Rotation

variable (byte : UInt8) (carry : Bool)

theorem toNat_rotateLeft :
    (rotateLeft byte carry).value.toNat = 2 * byte.toNat % 256 + carry.toNat := by
  have shifted : (byte <<< 1).toNat = 2 ^ 1 * (byte.toNat % 128) := by
    rw [UInt8.toNat_shiftLeft]
    change byte.toNat <<< 1 % 256 = _
    rw [Nat.shiftLeft_eq]
    omega
  change (byte <<< 1 ||| carryIn carry).toNat = _
  rw [UInt8.toNat_or, toNat_carryIn, shifted,
    ← Nat.two_pow_add_eq_or_of_lt (Bool.toNat_lt carry)]
  omega

theorem toNat_rotateRight :
    (rotateRight byte carry).value.toNat = byte.toNat / 2 + 128 * carry.toNat := by
  have bound := byte.toNat_lt
  have shifted : (byte >>> 1).toNat = byte.toNat / 2 := by
    rw [UInt8.toNat_shiftRight]
    rfl
  have entering : (carryIn carry <<< 7).toNat = 2 ^ 7 * carry.toNat := by
    cases carry <;> rfl
  have low : byte.toNat / 2 < 2 ^ 7 := by omega
  change (byte >>> 1 ||| carryIn carry <<< 7).toNat = _
  rw [UInt8.toNat_or, shifted, entering, Nat.or_comm, ← Nat.two_pow_add_eq_or_of_lt low]
  omega

theorem account_rotateLeft :
    (rotateLeft byte carry).value.toNat + 256 * (rotateLeft byte carry).flags.carry.toNat =
      2 * byte.toNat + carry.toNat := by
  have value := toNat_rotateLeft byte carry
  have out : (rotateLeft byte carry).flags.carry.toNat = byte.toNat / 128 := toNat_topBit byte
  omega

theorem account_rotateRight :
    2 * (rotateRight byte carry).value.toNat + (rotateRight byte carry).flags.carry.toNat =
      byte.toNat + 256 * carry.toNat := by
  have value := toNat_rotateRight byte carry
  have out : (rotateRight byte carry).flags.carry.toNat = byte.toNat % 2 := toNat_bottomBit byte
  omega

theorem rotateLeft_eq_addCarry :
    (rotateLeft byte carry).value = (addCarry byte byte carry).value ∧
      (rotateLeft byte carry).flags.carry = (addCarry byte byte carry).flags.carry := by
  have turned := account_rotateLeft byte carry
  have added := account_addCarry byte byte carry
  have turnedBelow := (rotateLeft byte carry).value.toNat_lt
  have addedBelow := (addCarry byte byte carry).value.toNat_lt
  rw [← UInt8.toNat_inj, ← toNat_carry_inj]
  omega

theorem rotateRight_rotateLeft :
    let turned := rotateLeft byte carry
    (rotateRight turned.value turned.flags.carry).value = byte ∧
      (rotateRight turned.value turned.flags.carry).flags.carry = carry := by
  intro turned
  have out : turned.value.toNat + 256 * turned.flags.carry.toNat =
      2 * byte.toNat + carry.toNat := account_rotateLeft byte carry
  have back := account_rotateRight turned.value turned.flags.carry
  have carryBound := Bool.toNat_lt carry
  have backBound := Bool.toNat_lt (rotateRight turned.value turned.flags.carry).flags.carry
  rw [← UInt8.toNat_inj, ← toNat_carry_inj]
  omega

end Rotation

theorem shiftLeftArithmetic_eq (byte : UInt8) :
    shiftLeftArithmetic byte = rotateLeft byte false := by
  rw [rotateLeft, carryIn, if_neg Bool.false_ne_true, UInt8.or_zero]
  rfl

theorem shiftRightLogical_eq (byte : UInt8) :
    shiftRightLogical byte = rotateRight byte false := by
  rw [rotateRight, carryIn, if_neg Bool.false_ne_true, UInt8.zero_shiftLeft, UInt8.or_zero]
  rfl

/-- An arithmetic shift to the right is a rotation that finds the sign in the carry. -/
theorem shiftRightArithmetic_eq (byte : UInt8) :
    shiftRightArithmetic byte = rotateRight byte (topBit byte) := by
  have mask : (byte &&& (0x80 : UInt8)).toNat = (byte.toNat.testBit 7).toNat * 2 ^ 7 :=
    toNat_and_mask byte (by decide : 7 < 8)
  have sign : byte &&& (0x80 : UInt8) = carryIn (topBit byte) <<< 7 := by
    rw [← UInt8.toNat_inj, mask, topBit_eq_testBit]
    cases byte.toNat.testBit 7 <;> rfl
  rw [shiftRightArithmetic, rotateRight, sign]

end Alu

/-! Rotating all the bytes of a number. -/

/-- Works through bytes from the highest one down, each step with the carry of the one above. -/
def trickle (step : UInt8 → Bool → AluResult) : List UInt8 → Bool → List UInt8 × Bool
  | [], carry => ([], carry)
  | byte :: higher, carry =>
      let (bytes, arriving) := trickle step higher carry
      let result := step byte arriving
      (result.value :: bytes, result.flags.carry)

theorem length_trickle (step : UInt8 → Bool → AluResult) (bytes : List UInt8) (carry : Bool) :
    (trickle step bytes carry).1.length = bytes.length := by
  induction bytes with
  | nil => rfl
  | cons byte higher ih => exact congrArg Nat.succ ih

theorem ripple_rotateLeft (bytes : List UInt8) (carry : Bool) :
    ripple Alu.rotateLeft bytes carry = chain Alu.addCarry bytes bytes carry := by
  induction bytes generalizing carry with
  | nil => rfl
  | cons byte higher ih =>
      obtain ⟨value, out⟩ := Alu.rotateLeft_eq_addCarry byte carry
      rw [ripple, value, out, ih]
      rfl

theorem binary_rotateLeft (bytes : List UInt8) (carry : Bool) :
    let total := 2 * binary bytes + carry.toNat
    binary (ripple Alu.rotateLeft bytes carry).1 = total % 256 ^ bytes.length ∧
      ((ripple Alu.rotateLeft bytes carry).2 = true ↔ 256 ^ bytes.length ≤ total) := by
  rw [ripple_rotateLeft, Nat.two_mul]
  exact binary_sum_mod rfl carry

theorem binary_rotateRight (bytes : List UInt8) (carry : Bool) :
    2 * binary (trickle Alu.rotateRight bytes carry).1 +
        (trickle Alu.rotateRight bytes carry).2.toNat =
      binary bytes + 256 ^ bytes.length * carry.toNat := by
  induction bytes with
  | nil => simp [trickle, binary, number]
  | cons byte higher ih =>
      have lowest := Alu.account_rotateRight byte (trickle Alu.rotateRight higher carry).2
      rw [trickle, binary_cons, binary_cons, List.length_cons]
      linear_combination lowest + 256 * ih

/-- Rotating to the right takes a rotation to the left back. -/
theorem trickle_ripple (bytes : List UInt8) (carry : Bool) :
    let turned := ripple Alu.rotateLeft bytes carry
    trickle Alu.rotateRight turned.1 turned.2 = (bytes, carry) := by
  induction bytes generalizing carry with
  | nil => rfl
  | cons byte higher ih =>
      obtain ⟨value, out⟩ := Alu.rotateRight_rotateLeft byte carry
      have above := ih (Alu.rotateLeft byte carry).flags.carry
      simp only [ripple, trickle] at above ⊢
      rw [above, value, out]

/-! Shifts, which begin with a step that takes no carry. -/

def rippleFrom (first : UInt8 → AluResult) (later : UInt8 → Bool → AluResult) :
    List UInt8 → List UInt8 × Bool
  | [] => ([], false)
  | lowest :: higher =>
      let result := first lowest
      let (bytes, out) := ripple later higher result.flags.carry
      (result.value :: bytes, out)

def trickleFrom (first : UInt8 → AluResult) (later : UInt8 → Bool → AluResult) :
    List UInt8 → List UInt8 × Bool
  | [] => ([], false)
  | [highest] => ([(first highest).value], (first highest).flags.carry)
  | byte :: next :: higher =>
      let (bytes, arriving) := trickleFrom first later (next :: higher)
      let result := later byte arriving
      (result.value :: bytes, result.flags.carry)

theorem rippleFrom_eq {first : UInt8 → AluResult} {later : UInt8 → Bool → AluResult}
    (starts : ∀ byte, first byte = later byte false) (bytes : List UInt8) :
    rippleFrom first later bytes = ripple later bytes false := by
  cases bytes with
  | nil => rfl
  | cons lowest higher => rw [rippleFrom, ripple, starts]

/-- The first step is one that finds the right carry in the highest byte. -/
theorem trickleFrom_eq {first : UInt8 → AluResult} {later : UInt8 → Bool → AluResult}
    {seed : UInt8 → Bool} (starts : ∀ byte, first byte = later byte (seed byte))
    (bytes : List UInt8) :
    trickleFrom first later bytes = trickle later bytes (bytes.getLast?.any seed) := by
  induction bytes with
  | nil => rfl
  | cons byte higher ih =>
      cases higher with
      | nil =>
          rw [trickleFrom, starts]
          rfl
      | cons next higher =>
          rw [trickleFrom, ih, List.getLast?_cons_cons]
          rfl

/-! Two's complement. -/

def negative (bytes : List UInt8) : Bool := bytes.getLast?.any Alu.topBit

/-- The number in two's complement that bytes hold. -/
def signed (bytes : List UInt8) : Int := Int.bmod (binary bytes) (256 ^ bytes.length)

theorem negative_iff (bytes : List UInt8) :
    negative bytes = true ↔ 256 ^ bytes.length ≤ 2 * binary bytes := by
  rcases List.eq_nil_or_concat bytes with rfl | ⟨lower, highest, rfl⟩
  · decide
  · have below := binary_lt lower
    have top : 128 ≤ highest.toNat ↔
        128 * 256 ^ lower.length ≤ binary lower + 256 ^ lower.length * highest.toNat := by
      rw [← Nat.le_div_iff_mul_le (Nat.zero_lt_of_lt below), add_mul_div_of_lt below]
    have sign : Alu.topBit highest = true ↔ 128 ≤ highest.toNat := by
      have bound := highest.toNat_lt
      rw [← Bool.toNat_eq_one, Alu.toNat_topBit]
      omega
    have highestOnly : binary [highest] = highest.toNat := by
      simp [binary, number]
    rw [List.concat_eq_append, negative, List.getLast?_concat, Option.any_some, sign, top,
      List.length_append, List.length_singleton, pow_succ, binary_append, highestOnly]
    omega

theorem testBit_binary {bytes : List UInt8} (nonempty : bytes ≠ []) :
    (binary bytes).testBit (8 * bytes.length - 1) = negative bytes := by
  have below := binary_lt bytes
  have positive := List.length_pos_iff.mpr nonempty
  have whole : 256 ^ bytes.length = 2 * 2 ^ (8 * bytes.length - 1) := by
    rw [← pow_succ', show 8 * bytes.length - 1 + 1 = 8 * bytes.length by omega, pow_mul]
    rfl
  rw [Bool.eq_iff_iff, negative_iff, ← Bool.toNat_eq_one, Nat.toNat_testBit]
  rw [whole] at below ⊢
  generalize 2 ^ (8 * bytes.length - 1) = half at below ⊢
  have single : binary bytes / half < 2 := Nat.div_lt_of_lt_mul (by omega)
  have positive : 0 < half := by omega
  have reached : 1 ≤ binary bytes / half ↔ 1 * half ≤ binary bytes :=
    Nat.le_div_iff_mul_le positive
  generalize binary bytes / half = quotient at single reached ⊢
  omega

theorem signed_eq (bytes : List UInt8) :
    signed bytes = binary bytes - 256 ^ bytes.length * (negative bytes).toNat := by
  have below := binary_lt bytes
  have sign := negative_iff bytes
  rw [signed, Int.bmod_def]
  push_cast
  rw [Int.emod_eq_of_lt (Int.natCast_nonneg _) (by exact_mod_cast below)]
  zify at below sign
  generalize (256 : Int) ^ bytes.length = whole at below sign ⊢
  generalize negative bytes = minus at sign ⊢
  cases minus <;>
    simp only [Bool.false_eq_true, false_iff, true_iff, Bool.toNat_true, Bool.toNat_false,
      Int.natCast_zero, Int.natCast_one, mul_zero, mul_one, not_le] at sign ⊢ <;>
    omega

/-- Rotating the sign in from above halves a number in two's complement. -/
theorem signed_trickle {bytes : List UInt8} (nonempty : bytes ≠ []) :
    let half := trickle Alu.rotateRight bytes (negative bytes)
    signed half.1 = signed bytes / 2 ∧ half.2.toNat = binary bytes % 2 := by
  intro half
  have law : 2 * binary half.1 + half.2.toNat =
      binary bytes + 256 ^ bytes.length * (negative bytes).toNat :=
    binary_rotateRight bytes (negative bytes)
  have length : half.1.length = bytes.length := length_trickle Alu.rotateRight bytes _
  have sign := negative_iff bytes
  have halfSign := negative_iff half.1
  have below := binary_lt bytes
  have outBound := Bool.toNat_lt half.2
  have positive := List.length_pos_iff.mpr nonempty
  obtain ⟨others, shorter⟩ := Nat.exists_eq_add_one_of_ne_zero positive.ne'
  have even : 256 ^ bytes.length = 2 * (128 * 256 ^ others) := by
    rw [shorter, pow_succ]
    omega
  have evenInt : (256 : Int) ^ bytes.length = 2 * (128 * 256 ^ others : Nat) := by
    exact_mod_cast even
  rw [signed_eq, signed_eq, length, evenInt]
  rw [length] at halfSign
  rw [even] at law sign halfSign below
  generalize negative bytes = minus at law sign ⊢
  generalize negative half.1 = halfMinus at halfSign ⊢
  -- the two signs are equal, since the sign that enters is the top bit of what comes out
  cases minus <;> cases halfMinus <;>
    simp only [Bool.false_eq_true, false_iff, true_iff, Bool.toNat_true, Bool.toNat_false,
      Int.natCast_zero, Int.natCast_one, mul_zero, mul_one, not_le]
      at law sign halfSign ⊢ <;>
    omega

/-- Shifts and rotations by one place through any number of bytes.  A shift to the left doubles,
one to the right halves, with or without a sign, and the last carry is the bit that has left the
number; rotations in the two directions take each other back, and one to the left is an addition of
the byte to itself. -/
theorem shift_chains {bytes : List UInt8} (nonempty : bytes ≠ []) :
    let doubled := rippleFrom Alu.shiftLeftArithmetic Alu.rotateLeft bytes
    let halved := trickleFrom Alu.shiftRightLogical Alu.rotateRight bytes
    let signedHalf := trickleFrom Alu.shiftRightArithmetic Alu.rotateRight bytes
    (doubled.1.length = bytes.length ∧
      binary doubled.1 = 2 * binary bytes % 256 ^ bytes.length ∧
      doubled.2 = (binary bytes).testBit (8 * bytes.length - 1)) ∧
    (halved.1.length = bytes.length ∧ binary halved.1 = binary bytes / 2 ∧
      halved.2.toNat = binary bytes % 2) ∧
    (signedHalf.1.length = bytes.length ∧ signed signedHalf.1 = signed bytes / 2 ∧
      signedHalf.2.toNat = binary bytes % 2) ∧
    (∀ carry,
      let turned := ripple Alu.rotateLeft bytes carry
      trickle Alu.rotateRight turned.1 turned.2 = (bytes, carry)) ∧
    ∀ byte carry,
      let turned := Alu.rotateLeft byte carry
      let sum := Alu.addCarry byte byte carry
      turned.value = sum.value ∧ turned.flags.carry = sum.flags.carry ∧
        turned.flags.halfCarry = false ∧ turned.flags.subtract = false ∧
        (turned.flags.zero = true ↔ turned.value = 0) := by
  intro doubled halved signedHalf
  have upward : doubled = ripple Alu.rotateLeft bytes false :=
    rippleFrom_eq Alu.shiftLeftArithmetic_eq bytes
  have downward : halved = trickle Alu.rotateRight bytes false := by
    have seedless : bytes.getLast?.any (fun _ => false) = false := Option.any_false
    rw [← seedless]
    exact trickleFrom_eq Alu.shiftRightLogical_eq bytes
  have arithmetic : signedHalf = trickle Alu.rotateRight bytes (negative bytes) :=
    trickleFrom_eq Alu.shiftRightArithmetic_eq bytes
  refine ⟨?_, ?_, ?_, trickle_ripple bytes, ?_⟩
  · obtain ⟨total, out⟩ := binary_rotateLeft bytes false
    rw [upward]
    refine ⟨length_ripple false, total, ?_⟩
    rw [testBit_binary nonempty, Bool.eq_iff_iff, out, negative_iff]
    rfl
  · have law := binary_rotateRight bytes false
    have outBound := Bool.toNat_lt (trickle Alu.rotateRight bytes false).2
    rw [Bool.toNat_false, mul_zero] at law
    rw [downward]
    refine ⟨length_trickle Alu.rotateRight bytes false, ?_, ?_⟩ <;> omega
  · rw [arithmetic]
    exact ⟨length_trickle Alu.rotateRight bytes _, signed_trickle nonempty⟩
  · intro byte carry
    obtain ⟨value, out⟩ := Alu.rotateLeft_eq_addCarry byte carry
    exact ⟨value, out, rfl, rfl, beq_iff_eq⟩

/-- FE01 becomes FC02 upwards, and downwards 7F00, or FF00 with the sign kept. -/
theorem shift_chains_negative :
    let bytes : List UInt8 := [0x01, 0xFE]
    binary (rippleFrom Alu.shiftLeftArithmetic Alu.rotateLeft bytes).1 = 0xFC02 ∧
      (rippleFrom Alu.shiftLeftArithmetic Alu.rotateLeft bytes).2 = true ∧
      binary (trickleFrom Alu.shiftRightLogical Alu.rotateRight bytes).1 = 0x7F00 ∧
      signed (trickleFrom Alu.shiftRightArithmetic Alu.rotateRight bytes).1 = -256 ∧
      (trickleFrom Alu.shiftRightArithmetic Alu.rotateRight bytes).2.toNat = 1 := by
  intro bytes
  obtain ⟨⟨_, doubled, top⟩, ⟨_, halved, _⟩, ⟨_, signedHalf, out⟩, _⟩ :=
    @shift_chains bytes (by decide)
  have number : binary bytes = 0xFE01 := by decide
  have complement : signed bytes = -511 := by decide
  rw [number] at doubled top halved out
  rw [complement] at signedHalf
  exact ⟨doubled.trans (by decide), top.trans (by decide), halved, signedHalf, out⟩

end Dmg
