import Dmg.Proofs.Ripple

/-!
Binary numbers of many bytes.  Adding or subtracting byte after byte through the carry flag adds or
subtracts the numbers, a difference takes a sum back, and the half carry at each byte is the carry
between the two halves of that byte.
-/

namespace Dmg

/-- The number that bytes hold, the lowest byte first. -/
def binary (bytes : List UInt8) : Nat := number 256 UInt8.toNat bytes

theorem binary_cons (byte : UInt8) (bytes : List UInt8) :
    binary (byte :: bytes) = byte.toNat + 256 * binary bytes :=
  number_cons 256 UInt8.toNat byte bytes

theorem binary_append (low high : List UInt8) :
    binary (low ++ high) = binary low + 256 ^ low.length * binary high := by
  simp only [binary, number, List.map_append, Nat.ofDigits_append, List.length_map]

theorem accounts_addCarry : Accounts 256 UInt8.toNat (fun _ => True) 1 Alu.addCarry := by
  constructor
  case large => decide
  case digit_lt => exact fun byte _ => byte.toNat_lt
  case valid_value => exact fun _ _ _ _ _ => trivial
  case account =>
    intro left right _ _ carry
    have law := Alu.account_addCarry left right carry
    omega

theorem accounts_subtractCarry :
    Accounts 256 UInt8.toNat (fun _ => True) (-1) Alu.subtractCarry := by
  constructor
  case large => decide
  case digit_lt => exact fun byte _ => byte.toNat_lt
  case valid_value => exact fun _ _ _ _ _ => trivial
  case account =>
    intro left right _ _ carry
    have law := Alu.account_subtractCarry left right carry
    omega

theorem binary_lt (bytes : List UInt8) : binary bytes < 256 ^ bytes.length :=
  accounts_addCarry.number_lt fun _ _ => trivial

theorem binary_inj {left right : List UInt8} (same : left.length = right.length)
    (numbers : binary left = binary right) : left = right := by
  have lengths : (left.map UInt8.toNat).length = (right.map UInt8.toNat).length := by
    rw [List.length_map, List.length_map, same]
  have digits : left.map UInt8.toNat = right.map UInt8.toNat :=
    Nat.ofDigits_inj_of_len_eq (by decide) lengths
      (List.forall_mem_map.mpr fun byte _ => byte.toNat_lt)
      (List.forall_mem_map.mpr fun byte _ => byte.toNat_lt) numbers
  exact (List.map_inj_right fun _ _ => UInt8.toNat_inj.mp).mp digits

theorem add_mul_div_of_lt {low weight : Nat} (below : low < weight) (high : Nat) :
    (low + weight * high) / weight = high := by
  rw [Nat.add_mul_div_left _ _ (Nat.zero_lt_of_lt below), Nat.div_eq_of_lt below, Nat.zero_add]

theorem binary_mod_half {bytes : List UInt8} {place : Nat} {byte : UInt8}
    (found : bytes[place]? = some byte) :
    binary bytes % (16 * 256 ^ place) =
      binary (bytes.take place) + 256 ^ place * (byte.toNat % 16) := by
  obtain ⟨inside, rfl⟩ := List.getElem?_eq_some_iff.mp found
  have below := binary_lt (bytes.take place)
  have length : (bytes.take place).length = place := List.length_take_of_le inside.le
  rw [length] at below
  have split : binary bytes = binary (bytes.take place) +
      256 ^ place * (bytes[place].toNat + 256 * binary (bytes.drop (place + 1))) := by
    conv_lhs => rw [← List.take_append_drop place bytes, List.drop_eq_getElem_cons inside]
    rw [binary_append, binary_cons, length]
  have low : (bytes[place].toNat + 256 * binary (bytes.drop (place + 1))) % 16 =
      bytes[place].toNat % 16 := by
    omega
  rw [split, Nat.mul_comm 16, Nat.mod_mul, Nat.add_mul_mod_self_left, Nat.mod_eq_of_lt below,
    add_mul_div_of_lt below, low]

/-! A chain told by the numbers alone. -/

section Chain

variable {left right : List UInt8} (same : left.length = right.length) (carry : Bool)

include same

theorem binary_sum_mod :
    let total := binary left + binary right + carry.toNat
    binary (chain Alu.addCarry left right carry).1 = total % 256 ^ left.length ∧
      ((chain Alu.addCarry left right carry).2 = true ↔ 256 ^ left.length ≤ total) := by
  exact accounts_addCarry.chain_sum same (fun _ _ => trivial) (fun _ _ => trivial) carry

theorem binary_difference_mod :
    let difference := chain Alu.subtractCarry left right carry
    (binary difference.1 : Int) =
        (binary left - binary right - carry.toNat) % (256 ^ left.length : Nat) ∧
      (difference.2 = true ↔ binary left < binary right + carry.toNat) := by
  obtain ⟨rest, borrowed⟩ :=
    accounts_subtractCarry.chain_difference same (fun _ _ => trivial) (fun _ _ => trivial) carry
  refine ⟨?_, borrowed⟩
  exact_mod_cast rest

theorem binary_sum :
    binary (chain Alu.addCarry left right carry).1 +
        256 ^ left.length * (chain Alu.addCarry left right carry).2.toNat =
      binary left + binary right + carry.toNat := by
  have law := accounts_addCarry.number_chain same (fun _ _ => trivial) (fun _ _ => trivial) carry
  rw [one_mul, one_mul, ← add_assoc] at law
  exact_mod_cast law

theorem binary_difference :
    (binary (chain Alu.subtractCarry left right carry).1 : Int) -
        256 ^ left.length * (chain Alu.subtractCarry left right carry).2.toNat =
      binary left - binary right - carry.toNat := by
  have law :=
    accounts_subtractCarry.number_chain same (fun _ _ => trivial) (fun _ _ => trivial) carry
  rw [neg_one_mul, neg_one_mul, ← sub_eq_add_neg, ← sub_eq_add_neg, ← sub_sub] at law
  exact law

/-- A difference takes a sum back, and borrows at the end if the sum has carried. -/
theorem chain_subtract_add :
    chain Alu.subtractCarry (chain Alu.addCarry left right carry).1 right carry =
      (left, (chain Alu.addCarry left right carry).2) := by
  have added := binary_sum same carry
  have sumLength := length_chain Alu.addCarry same carry
  generalize chain Alu.addCarry left right carry = sum at added sumLength
  have taken := binary_difference (sumLength.trans same) carry
  have backLength :=
    (length_chain Alu.subtractCarry (sumLength.trans same) carry).trans sumLength
  generalize chain Alu.subtractCarry sum.1 right carry = back at taken backLength
  have backBelow := binary_lt back.1
  have leftBelow := binary_lt left
  rw [sumLength] at taken
  rw [backLength] at backBelow
  have account : binary back.1 + 256 ^ left.length * sum.2.toNat =
      binary left + 256 ^ left.length * back.2.toNat := by
    zify at added ⊢
    linear_combination taken + added
  -- both numbers fit, so that neither a carry nor a borrow can stand alone
  have numbers : binary back.1 = binary left ∧ back.2 = sum.2 := by
    generalize back.2 = borrowed at account ⊢
    generalize sum.2 = carried at account ⊢
    cases borrowed <;> cases carried <;>
      simp only [Bool.toNat_true, Bool.toNat_false, mul_one, mul_zero, add_zero, and_true,
        and_false, Bool.true_eq_false, Bool.false_eq_true] at account ⊢ <;>
      omega
  exact Prod.ext (binary_inj backLength numbers.1) numbers.2

end Chain

/-! The half carry at a byte is a carry between halves of the numbers. -/

section Place

variable {left right : List UInt8} (same : left.length = right.length) {place : Nat}
  {first second : UInt8} (atLeft : left[place]? = some first)
  (atRight : right[place]? = some second) (carry : Bool)

include same in
theorem length_take_eq (place : Nat) : (left.take place).length = (right.take place).length := by
  rw [List.length_take, List.length_take, same]

include same atLeft atRight

theorem halfCarry_sum :
    (Alu.addCarry first second
        (carryInto Alu.addCarry left right carry place)).flags.halfCarry = true ↔
      16 * 256 ^ place ≤ binary left % (16 * 256 ^ place) + binary right % (16 * 256 ^ place) +
        carry.toNat := by
  obtain ⟨inside, _⟩ := List.getElem?_eq_some_iff.mp atLeft
  have lower := length_take_eq same place
  have length : (left.take place).length = place := List.length_take_of_le inside.le
  have below := binary_lt (chain Alu.addCarry (left.take place) (right.take place) carry).1
  have law := binary_sum lower carry
  rw [length_chain Alu.addCarry lower, length] at below
  rw [length] at law
  rw [Alu.halfCarry_addCarry, binary_mod_half atLeft, binary_mod_half atRight, carryInto]
  generalize chain Alu.addCarry (left.take place) (right.take place) carry = low at below law ⊢
  have total : binary (left.take place) + 256 ^ place * (first.toNat % 16) +
      (binary (right.take place) + 256 ^ place * (second.toNat % 16)) + carry.toNat =
      binary low.1 + 256 ^ place * (first.toNat % 16 + second.toNat % 16 + low.2.toNat) := by
    rw [Nat.mul_add, Nat.mul_add]
    omega
  rw [total, ← Nat.le_div_iff_mul_le (Nat.zero_lt_of_lt below), add_mul_div_of_lt below]
  rfl

theorem halfCarry_difference :
    (Alu.subtractCarry first second
        (carryInto Alu.subtractCarry left right carry place)).flags.halfCarry = true ↔
      binary left % (16 * 256 ^ place) < binary right % (16 * 256 ^ place) + carry.toNat := by
  obtain ⟨inside, _⟩ := List.getElem?_eq_some_iff.mp atLeft
  have lower := length_take_eq same place
  have length : (left.take place).length = place := List.length_take_of_le inside.le
  have below := binary_lt (chain Alu.subtractCarry (left.take place) (right.take place) carry).1
  have law := binary_difference lower carry
  rw [length_chain Alu.subtractCarry lower, length] at below
  rw [length] at law
  rw [Alu.halfCarry_subtractCarry, binary_mod_half atLeft, binary_mod_half atRight, carryInto]
  generalize chain Alu.subtractCarry (left.take place) (right.take place) carry = low
    at below law ⊢
  have total : binary low.1 + binary (right.take place) + carry.toNat =
      binary (left.take place) + 256 ^ place * low.2.toNat := by
    zify
    linear_combination law
  have borrows : first.toNat % 16 < second.toNat % 16 + low.2.toNat ↔
      binary low.1 + 256 ^ place * (first.toNat % 16) <
        (second.toNat % 16 + low.2.toNat) * 256 ^ place := by
    rw [← Nat.div_lt_iff_lt_mul (Nat.zero_lt_of_lt below), add_mul_div_of_lt below]
  rw [borrows, Nat.add_mul, Nat.mul_comm (second.toNat % 16), Nat.mul_comm low.2.toNat]
  omega

end Place

namespace Alu

/-- A comparison tells which of two bytes is the larger, and changes neither. -/
theorem compare_eq (left right : UInt8) :
    (compare left right).value = left ∧ (compare left right).flags = (subtract left right).flags ∧
      ((compare left right).flags.zero = true ↔ left = right) ∧
      ((compare left right).flags.carry = true ↔ left < right) := by
  have leftBound := left.toNat_lt
  have rightBound := right.toNat_lt
  have value := toNat_subtractCarry left right false
  have borrowed := carry_subtractCarry left right false
  refine ⟨rfl, rfl, ?_, ?_⟩
  · change ((subtractCarry left right false).value == 0) = true ↔ _
    rw [beq_iff_eq, ← UInt8.toNat_inj, ← UInt8.toNat_inj, UInt8.toNat_zero]
    rw [Bool.toNat_false] at value
    omega
  · rw [UInt8.lt_iff_toNat_lt]
    exact borrowed

end Alu

/-- Sums and differences of binary numbers of any length.  The bytes hold the result as far as it
fits, the last carry tells whether there is more, or less than nothing, and the half carry of a byte
is the carry out of its bit 3, that is, between the numbers up to that bit. -/
theorem binary_chains {left right : List UInt8} (same : left.length = right.length)
    (carry : Bool) :
    let sum := chain Alu.addCarry left right carry
    let difference := chain Alu.subtractCarry left right carry
    let whole := 256 ^ left.length
    (sum.1.length = left.length ∧
      binary sum.1 = (binary left + binary right + carry.toNat) % whole ∧
      (sum.2 = true ↔ whole ≤ binary left + binary right + carry.toNat)) ∧
    (difference.1.length = left.length ∧
      (binary difference.1 : Int) = (binary left - binary right - carry.toNat) % whole ∧
      (difference.2 = true ↔ binary left < binary right + carry.toNat)) ∧
    chain Alu.subtractCarry sum.1 right carry = (left, sum.2) ∧
    (∀ place first second, left[place]? = some first → right[place]? = some second →
      let carried := carryInto Alu.addCarry left right carry place
      let borrowed := carryInto Alu.subtractCarry left right carry place
      let added := Alu.addCarry first second carried
      let taken := Alu.subtractCarry first second borrowed
      let weight := 16 * 256 ^ place
      sum.1[place]? = some added.value ∧ difference.1[place]? = some taken.value ∧
      (added.flags.halfCarry = true ↔
        15 < first.toNat % 16 + second.toNat % 16 + carried.toNat) ∧
      (added.flags.halfCarry = true ↔
        weight ≤ binary left % weight + binary right % weight + carry.toNat) ∧
      (taken.flags.halfCarry = true ↔
        first.toNat % 16 < second.toNat % 16 + borrowed.toNat) ∧
      (taken.flags.halfCarry = true ↔
        binary left % weight < binary right % weight + carry.toNat)) ∧
    ∀ first second,
      let compared := Alu.compare first second
      compared.value = first ∧ compared.flags = (Alu.subtract first second).flags ∧
        (compared.flags.zero = true ↔ first = second) ∧
        (compared.flags.carry = true ↔ first < second) := by
  intro sum difference whole
  refine ⟨⟨length_chain _ same carry, binary_sum_mod same carry⟩,
    ⟨length_chain _ same carry, binary_difference_mod same carry⟩, chain_subtract_add same carry,
    ?_, Alu.compare_eq⟩
  intro place first second atLeft atRight
  exact ⟨getElem?_chain _ atLeft atRight carry, getElem?_chain _ atLeft atRight carry,
    Alu.halfCarry_addCarry first second _, halfCarry_sum same atLeft atRight carry,
    Alu.halfCarry_subtractCarry first second _, halfCarry_difference same atLeft atRight carry⟩

/-- The carry goes in at the bottom of 8FFF and 7000 and comes out at the top. -/
theorem binary_chains_ripple :
    let left : List UInt8 := [0xFF, 0x8F]
    let right : List UInt8 := [0x00, 0x70]
    let sum := chain Alu.addCarry left right true
    binary sum.1 = 0 ∧ sum.2 = true ∧ chain Alu.subtractCarry sum.1 right true = (left, true) ∧
      (Alu.addCarry 0x8F 0x70 (carryInto Alu.addCarry left right true 1)).flags.halfCarry =
        true := by
  intro left right sum
  obtain ⟨⟨_, total, carried⟩, _, back, places, _⟩ := @binary_chains left right rfl true
  have ofLeft : binary left = 0x8FFF := by decide
  have ofRight : binary right = 0x7000 := by decide
  obtain ⟨_, _, _, halfCarried, _⟩ := places 1 0x8F 0x70 rfl rfl
  rw [ofLeft, ofRight] at total carried halfCarried
  have out : sum.2 = true := carried.mpr (by decide)
  refine ⟨total.trans (by decide), out, ?_, halfCarried.mpr (by decide)⟩
  rw [out] at back
  exact back

end Dmg
