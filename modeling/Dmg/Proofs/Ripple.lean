import Dmg.Cpu.Alu
import Mathlib.Data.Nat.Digits.Defs
import Mathlib.Tactic.LinearCombination

/-!
Numbers of many bytes, worked through from the lowest byte on.  If every step keeps account of its
carry, so does the whole: the bytes are the result as far as it fits, and the last carry is the
rest.
-/

namespace Dmg

namespace Alu

theorem toNat_addCarry (left right : UInt8) (carry : Bool) :
    (addCarry left right carry).value.toNat =
      (left.toNat + right.toNat + carry.toNat) % 256 := by
  simp only [addCarry, UInt8.toNat_add, toNat_carryIn, Nat.mod_add_mod]

theorem toNat_subtractCarry (left right : UInt8) (carry : Bool) :
    ((subtractCarry left right carry).value.toNat : Int) =
      (left.toNat - right.toNat - carry.toNat) % 256 := by
  have leftBound := left.toNat_lt
  have rightBound := right.toNat_lt
  have carryBound := Bool.toNat_lt carry
  simp only [subtractCarry, UInt8.toNat_sub, toNat_carryIn]
  omega

section Carries

variable (left right : UInt8) (carry : Bool)

theorem halfCarry_addCarry : (addCarry left right carry).flags.halfCarry = true ↔
    15 < left.toNat % 16 + right.toNat % 16 + carry.toNat := decide_eq_true_iff

theorem carry_addCarry : (addCarry left right carry).flags.carry = true ↔
    255 < left.toNat + right.toNat + carry.toNat := decide_eq_true_iff

theorem halfCarry_subtractCarry : (subtractCarry left right carry).flags.halfCarry = true ↔
    left.toNat % 16 < right.toNat % 16 + carry.toNat := decide_eq_true_iff

theorem carry_subtractCarry : (subtractCarry left right carry).flags.carry = true ↔
    left.toNat < right.toNat + carry.toNat := decide_eq_true_iff

theorem account_addCarry :
    (addCarry left right carry).value.toNat +
        256 * (addCarry left right carry).flags.carry.toNat =
      left.toNat + right.toNat + carry.toNat := by
  have leftBound := left.toNat_lt
  have rightBound := right.toNat_lt
  have carryBound := Bool.toNat_lt carry
  have value := toNat_addCarry left right carry
  have carried := carry_addCarry left right carry
  generalize (addCarry left right carry).flags.carry = out at carried ⊢
  cases out <;>
    simp only [Bool.false_eq_true, false_iff, true_iff, Bool.toNat_true, Bool.toNat_false]
      at carried ⊢ <;>
    omega

theorem account_subtractCarry :
    ((subtractCarry left right carry).value.toNat : Int) -
        256 * (subtractCarry left right carry).flags.carry.toNat =
      left.toNat - right.toNat - carry.toNat := by
  have leftBound := left.toNat_lt
  have rightBound := right.toNat_lt
  have carryBound := Bool.toNat_lt carry
  have value := toNat_subtractCarry left right carry
  have borrowed := carry_subtractCarry left right carry
  generalize (subtractCarry left right carry).flags.carry = out at borrowed ⊢
  cases out <;>
    simp only [Bool.false_eq_true, false_iff, true_iff, Bool.toNat_true, Bool.toNat_false]
      at borrowed ⊢ <;>
    omega

end Carries

end Alu

/-- Works through items in their order, each step with the carry of the one before. -/
def ripple {α : Type} (step : α → Bool → AluResult) : List α → Bool → List UInt8 × Bool
  | [], carry => ([], carry)
  | item :: rest, carry =>
      let result := step item carry
      let (bytes, out) := ripple step rest result.flags.carry
      (result.value :: bytes, out)

def chain (step : UInt8 → UInt8 → Bool → AluResult) (left right : List UInt8) (carry : Bool) :
    List UInt8 × Bool :=
  ripple (fun (first, second) => step first second) (left.zip right) carry

section Ripple

variable {α : Type} {step : α → Bool → AluResult} {items : List α}

theorem length_ripple (carry : Bool) : (ripple step items carry).1.length = items.length := by
  induction items generalizing carry with
  | nil => rfl
  | cons item rest ih => exact congrArg Nat.succ (ih _)

theorem forall_mem_ripple {holds : UInt8 → Prop}
    (each : ∀ item ∈ items, ∀ carry, holds (step item carry).value) (carry : Bool) :
    ∀ byte ∈ (ripple step items carry).1, holds byte := by
  induction items generalizing carry with
  | nil => exact nofun
  | cons item rest ih =>
      have later := ih fun other among => each other (List.mem_cons_of_mem item among)
      intro byte among
      rcases List.mem_cons.mp among with rfl | among
      · exact each item List.mem_cons_self carry
      · exact later _ byte among

/-- Each byte is made with the carry of the items before it. -/
theorem getElem?_ripple (carry : Bool) (place : Nat) :
    (ripple step items carry).1[place]? = items[place]?.map fun item =>
      (step item (ripple step (items.take place) carry).2).value := by
  induction items generalizing carry place with
  | nil => rfl
  | cons item rest ih =>
      cases place with
      | zero => rfl
      | succ place => exact ih _ place

end Ripple

def carryInto (step : UInt8 → UInt8 → Bool → AluResult) (left right : List UInt8) (carry : Bool)
    (place : Nat) : Bool :=
  (chain step (left.take place) (right.take place) carry).2

theorem getElem?_chain (step : UInt8 → UInt8 → Bool → AluResult) {left right : List UInt8}
    {place : Nat} {first second : UInt8} (atLeft : left[place]? = some first)
    (atRight : right[place]? = some second) (carry : Bool) :
    (chain step left right carry).1[place]? =
      some (step first second (carryInto step left right carry place)).value := by
  have pair : (left.zip right)[place]? = some (first, second) :=
    List.getElem?_zip_eq_some.mpr ⟨atLeft, atRight⟩
  have below : (left.zip right).take place = (left.take place).zip (right.take place) :=
    List.take_zipWith
  rw [chain, getElem?_ripple, pair, below]
  rfl

theorem length_chain (step : UInt8 → UInt8 → Bool → AluResult) {left right : List UInt8}
    (same : left.length = right.length) (carry : Bool) :
    (chain step left right carry).1.length = left.length := by
  rw [chain, length_ripple, List.length_zip, ← same, Nat.min_self]

def number (base : Nat) (digit : UInt8 → Nat) (bytes : List UInt8) : Nat :=
  Nat.ofDigits base (bytes.map digit)

theorem number_cons (base : Nat) (digit : UInt8 → Nat) (byte : UInt8) (bytes : List UInt8) :
    number base digit (byte :: bytes) = digit byte + base * number base digit bytes := by
  simp only [number, List.map_cons, Nat.ofDigits_cons]

/-- A way to hold digits in bytes, and a step on two of them that keeps account of its carry.  The
sign is plus for a sum and minus for a difference. -/
structure Accounts (base : Nat) (digit : UInt8 → Nat) (valid : UInt8 → Prop) (sign : Int)
    (step : UInt8 → UInt8 → Bool → AluResult) : Prop where
  large : 1 < base
  digit_lt : ∀ byte, valid byte → digit byte < base
  valid_value : ∀ left right, valid left → valid right → ∀ carry,
    valid (step left right carry).value
  account : ∀ left right, valid left → valid right → ∀ carry,
    (digit (step left right carry).value : Int) +
        sign * (base * (step left right carry).flags.carry.toNat) =
      digit left + sign * (digit right + carry.toNat)

namespace Accounts

variable {base : Nat} {digit : UInt8 → Nat} {valid : UInt8 → Prop} {sign : Int}
  {step : UInt8 → UInt8 → Bool → AluResult}

theorem number_lt (accounts : Accounts base digit valid sign step) {bytes : List UInt8}
    (allValid : ∀ byte ∈ bytes, valid byte) : number base digit bytes < base ^ bytes.length := by
  have digits : ∀ place ∈ bytes.map digit, place < base :=
    List.forall_mem_map.mpr fun byte among => accounts.digit_lt byte (allValid byte among)
  have bound := Nat.ofDigits_lt_base_pow_length accounts.large digits
  rwa [List.length_map] at bound

theorem number_ripple (accounts : Accounts base digit valid sign step)
    {pairs : List (UInt8 × UInt8)} (allValid : ∀ pair ∈ pairs, valid pair.1 ∧ valid pair.2)
    (carry : Bool) :
    let result := ripple (fun (first, second) => step first second) pairs carry
    (number base digit result.1 : Int) + sign * (base ^ pairs.length * result.2.toNat) =
      number base digit (pairs.map Prod.fst) +
        sign * (number base digit (pairs.map Prod.snd) + carry.toNat) := by
  induction pairs generalizing carry with
  | nil => simp [ripple, number]
  | cons pair rest ih =>
      obtain ⟨left, right⟩ := pair
      obtain ⟨leftValid, rightValid⟩ := allValid (left, right) List.mem_cons_self
      have first := accounts.account left right leftValid rightValid carry
      have later := ih (fun other among => allValid other (List.mem_cons_of_mem _ among))
        (step left right carry).flags.carry
      simp only [ripple, List.map_cons, List.length_cons, number_cons] at later ⊢
      push_cast
      linear_combination first + (base : Int) * later

section Chain

variable {left right : List UInt8} (same : left.length = right.length)
  (leftValid : ∀ byte ∈ left, valid byte) (rightValid : ∀ byte ∈ right, valid byte)

include leftValid rightValid in
theorem valid_zip : ∀ pair ∈ left.zip right, valid pair.1 ∧ valid pair.2 := by
  intro pair among
  obtain ⟨ofLeft, ofRight⟩ := List.of_mem_zip among
  exact ⟨leftValid pair.1 ofLeft, rightValid pair.2 ofRight⟩

include same leftValid rightValid

theorem bytes_chain (accounts : Accounts base digit valid sign step) (carry : Bool) :
    (chain step left right carry).1.length = left.length ∧
      ∀ byte ∈ (chain step left right carry).1, valid byte := by
  constructor
  · exact length_chain step same carry
  · refine forall_mem_ripple (fun pair among carry => ?_) carry
    obtain ⟨first, second⟩ := valid_zip leftValid rightValid pair among
    exact accounts.valid_value pair.1 pair.2 first second carry

/-- The carry stands for as many times the base as there are bytes, and goes into the second
number's place at first. -/
theorem number_chain (accounts : Accounts base digit valid sign step) (carry : Bool) :
    (number base digit (chain step left right carry).1 : Int) +
        sign * (base ^ left.length * (chain step left right carry).2.toNat) =
      number base digit left + sign * (number base digit right + carry.toNat) := by
  have whole := accounts.number_ripple (valid_zip leftValid rightValid) carry
  rwa [List.map_fst_zip (Nat.le_of_eq same), List.map_snd_zip (Nat.le_of_eq same.symm),
    List.length_zip, ← same, Nat.min_self] at whole

theorem number_chain_lt (accounts : Accounts base digit valid sign step) (carry : Bool) :
    number base digit (chain step left right carry).1 < base ^ left.length := by
  obtain ⟨length, allValid⟩ := accounts.bytes_chain same leftValid rightValid carry
  rw [← length]
  exact accounts.number_lt allValid

theorem chain_sum (accounts : Accounts base digit valid 1 step) (carry : Bool) :
    let total := number base digit left + number base digit right + carry.toNat
    number base digit (chain step left right carry).1 = total % base ^ left.length ∧
      ((chain step left right carry).2 = true ↔ base ^ left.length ≤ total) := by
  intro total
  have below := accounts.number_chain_lt same leftValid rightValid carry
  have law : number base digit (chain step left right carry).1 +
      base ^ left.length * (chain step left right carry).2.toNat = total := by
    have whole := accounts.number_chain same leftValid rightValid carry
    rw [one_mul, one_mul, ← add_assoc] at whole
    exact_mod_cast whole
  rw [← law]
  constructor
  · rw [Nat.add_mul_mod_self_left, Nat.mod_eq_of_lt below]
  · cases (chain step left right carry).2 with
    | false => simpa using below
    | true => simp

theorem chain_difference (accounts : Accounts base digit valid (-1) step) (carry : Bool) :
    let result := chain step left right carry
    (number base digit result.1 : Int) =
        (number base digit left - number base digit right - carry.toNat) % base ^ left.length ∧
      (result.2 = true ↔ number base digit left < number base digit right + carry.toNat) := by
  intro result
  have below : (number base digit result.1 : Int) < base ^ left.length := by
    exact_mod_cast accounts.number_chain_lt same leftValid rightValid carry
  have law : (number base digit left : Int) - number base digit right - carry.toNat =
      number base digit result.1 - base ^ left.length * result.2.toNat := by
    linear_combination -accounts.number_chain same leftValid rightValid carry
  constructor
  · rw [law, Int.sub_mul_emod_self_left, Int.emod_eq_of_lt (Int.natCast_nonneg _) below]
  · generalize result.2 = borrowed at law ⊢
    cases borrowed with
    | false =>
        simp only [Bool.toNat_false, Bool.false_eq_true, false_iff, Int.natCast_zero, mul_zero]
          at law ⊢
        omega
    | true =>
        simp only [Bool.toNat_true, true_iff, Int.natCast_one, mul_one] at law ⊢
        omega

end Chain

end Accounts

end Dmg
