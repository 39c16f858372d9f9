import Dmg.Text.Address
import Dmg.Value
import Mathlib.Data.List.Forall2
import Mathlib.Data.Nat.Digits.Defs

/-!
The texts that are addresses.  What is read is what the grammar spells: a prefix that announces the
radix, at most one plus sign, and digits that hold the address by their positions.
-/

namespace Dmg

/-! Numerals. -/

def lowerAlphabet : List Char := "0123456789abcdef".toList

def upperAlphabet : List Char := "0123456789ABCDEF".toList

def StandsFor (radix : Nat) (symbol : Char) (digit : Nat) : Prop :=
  digit < radix ∧ (lowerAlphabet[digit]? = some symbol ∨ upperAlphabet[digit]? = some symbol)

instance (radix : Nat) (symbol : Char) (digit : Nat) : Decidable (StandsFor radix symbol digit) :=
  inferInstanceAs (Decidable (_ ∧ _))

/-- Digits from the highest down, and the number that they hold by their positions. -/
def Holds (radix : Nat) (symbols : List Char) (number : Nat) : Prop :=
  ∃ digits, List.Forall₂ (StandsFor radix) symbols digits ∧
    Nat.ofDigits radix digits.reverse = number

theorem digitValue?_of_alphabet : ∀ digit : Fin 16,
    lowerAlphabet[digit.val]?.bind digitValue? = some digit.val ∧
      upperAlphabet[digit.val]?.bind digitValue? = some digit.val := by
  decide

theorem alphabet_codes : ∀ digit : Fin 16,
    lowerAlphabet[digit.val]? =
        some (Char.ofNat (if digit.val < 10 then 48 + digit.val else 87 + digit.val)) ∧
      upperAlphabet[digit.val]? =
        some (Char.ofNat (if digit.val < 10 then 48 + digit.val else 55 + digit.val)) := by
  decide

theorem alphabet_of_digitValue? {symbol : Char} {digit : Nat} (small : digit < 16)
    (found : digitValue? symbol = some digit) :
    lowerAlphabet[digit]? = some symbol ∨ upperAlphabet[digit]? = some symbol := by
  have between : ∀ {first last : Char}, first ≤ symbol ∧ symbol ≤ last →
      first.toNat ≤ symbol.toNat ∧ symbol.toNat ≤ last.toNat := fun inside =>
    ⟨UInt32.le_iff_toNat_le.mp inside.1, UInt32.le_iff_toNat_le.mp inside.2⟩
  obtain ⟨lower, upper⟩ := alphabet_codes ⟨digit, small⟩
  dsimp only at lower upper
  rw [lower, upper, ← Char.ofNat_toNat symbol]
  simp only [digitValue?] at found
  split at found
  · rename_i inside
    have code : 48 ≤ symbol.toNat ∧ symbol.toNat ≤ 57 := between inside
    simp only [Option.some.injEq] at found
    left
    rw [if_pos (by omega), show 48 + digit = symbol.toNat by omega]
  · split at found
    · rename_i inside
      have code : 97 ≤ symbol.toNat ∧ symbol.toNat ≤ 122 := between inside
      simp only [Option.some.injEq] at found
      left
      rw [if_neg (by omega), show 87 + digit = symbol.toNat by omega]
    · split at found
      · rename_i inside
        have code : 65 ≤ symbol.toNat ∧ symbol.toNat ≤ 90 := between inside
        simp only [Option.some.injEq] at found
        right
        rw [if_neg (by omega), show 55 + digit = symbol.toNat by omega]
      · simp at found

theorem digit?_eq_some_iff {radix : Nat} (small : radix ≤ 16) {symbol : Char} {digit : Nat} :
    digit? radix symbol = some digit ↔ StandsFor radix symbol digit := by
  simp only [digit?, Option.filter_eq_some_iff, decide_eq_true_eq, StandsFor]
  constructor
  · rintro ⟨found, below⟩
    exact ⟨below, alphabet_of_digitValue? (by omega) found⟩
  · rintro ⟨below, lower | upper⟩
    · have known := (digitValue?_of_alphabet ⟨digit, by omega⟩).1
      rw [lower] at known
      exact ⟨known, below⟩
    · have known := (digitValue?_of_alphabet ⟨digit, by omega⟩).2
      rw [upper] at known
      exact ⟨known, below⟩

theorem digitsFrom?_eq_some_iff {radix : Nat} (small : radix ≤ 16) {symbols : List Char}
    {start number : Nat} :
    digitsFrom? radix start symbols = some number ↔
      ∃ digits, List.Forall₂ (StandsFor radix) symbols digits ∧
        digits.foldl (fun value digit => radix * value + digit) start = number := by
  induction symbols generalizing start with
  | nil =>
      simp only [digitsFrom?, Option.some.injEq]
      constructor
      · rintro rfl
        exact ⟨[], .nil, rfl⟩
      · rintro ⟨digits, each, total⟩
        cases each
        exact total
  | cons symbol rest ih =>
      simp only [digitsFrom?]
      split
      · rename_i digit found
        rw [ih]
        constructor
        · rintro ⟨digits, each, total⟩
          exact ⟨digit :: digits, .cons ((digit?_eq_some_iff small).mp found) each, total⟩
        · rintro ⟨digits, each, total⟩
          cases each with
          | cons first each =>
              have same := (digit?_eq_some_iff small).mpr first
              rw [found, Option.some.injEq] at same
              subst same
              exact ⟨_, each, total⟩
      · rename_i missing
        simp only [reduceCtorEq, false_iff, not_exists]
        rintro digits ⟨each, _⟩
        cases each with
        | cons first _ =>
            rw [(digit?_eq_some_iff small).mpr first] at missing
            cases missing

theorem digitsFrom?_zero_eq_some_iff {radix : Nat} (small : radix ≤ 16) {symbols : List Char}
    {number : Nat} : digitsFrom? radix 0 symbols = some number ↔ Holds radix symbols number := by
  have positional : ∀ digits : List Nat,
      digits.foldl (fun value digit => radix * value + digit) 0 =
        Nat.ofDigits radix digits.reverse := by
    intro digits
    rw [Nat.ofDigits_eq_foldr, List.foldr_reverse]
    simp only [Nat.cast_id, Nat.add_comm]
  simp only [digitsFrom?_eq_some_iff small, positional, Holds]

/-! Digits put in front and behind. -/

theorem Holds.nil (radix : Nat) : Holds radix [] 0 := ⟨[], .nil, rfl⟩

theorem Holds.snoc {radix : Nat} {symbols : List Char} {number : Nat}
    (holds : Holds radix symbols number) {symbol : Char} {digit : Nat}
    (last : StandsFor radix symbol digit) :
    Holds radix (symbols ++ [symbol]) (radix * number + digit) := by
  obtain ⟨digits, each, total⟩ := holds
  refine ⟨digits ++ [digit], List.rel_append each (.cons last .nil), ?_⟩
  rw [List.reverse_append, List.reverse_singleton, List.singleton_append, Nat.ofDigits_cons, total,
    Nat.add_comm]

theorem Holds.zeros {radix : Nat} (positive : 0 < radix) {symbols : List Char} {number : Nat}
    (holds : Holds radix symbols number) (count : Nat) :
    Holds radix (List.replicate count '0' ++ symbols) number := by
  have zero : StandsFor radix '0' 0 := ⟨positive, Or.inl rfl⟩
  obtain ⟨digits, each, total⟩ := holds
  refine ⟨List.replicate count 0 ++ digits, List.rel_append ?_ each, ?_⟩
  · induction count with
    | zero => exact .nil
    | succ count ih => exact .cons zero ih
  · rw [List.reverse_append, List.reverse_replicate, Nat.ofDigits_append_replicate_zero, total]

/-! Numbers as they are printed. -/

theorem standsFor_hexDigit : ∀ digit : Fin 16, StandsFor 16 (hexDigit digit) digit := by
  decide

theorem standsFor_digitChar {radix digit : Nat} (small : radix ≤ 16) (below : digit < radix) :
    StandsFor radix digit.digitChar digit := by
  have lowercase : ∀ digit : Fin 16, lowerAlphabet[digit.val]? = some digit.val.digitChar := by
    decide
  exact ⟨below, Or.inl (lowercase ⟨digit, by omega⟩)⟩

theorem holds_hexDigits {places number : Nat} (fits : number < 16 ^ places) :
    Holds 16 (hexDigits places number) number := by
  induction places generalizing number with
  | zero =>
      obtain rfl : number = 0 := Nat.lt_one_iff.mp fits
      exact Holds.nil 16
  | succ places ih =>
      have rest : number / 16 < 16 ^ places := by
        rw [pow_succ] at fits
        omega
      have last := standsFor_hexDigit ⟨number % 16, Nat.mod_lt _ (by decide)⟩
      have whole := (ih rest).snoc last
      rwa [Nat.div_add_mod] at whole

theorem holds_toDigits {radix : Nat} (large : 1 < radix) (small : radix ≤ 16) (number : Nat) :
    Holds radix (Nat.toDigits radix number) number := by
  induction number using Nat.strongRecOn with
  | ind number ih =>
      by_cases single : number < radix
      · have digit := (Holds.nil radix).snoc (standsFor_digitChar small single)
        rw [mul_zero, zero_add] at digit
        rw [Nat.toDigits_of_lt_base single]
        exact digit
      · have reached : radix ≤ number := Nat.le_of_not_lt single
        have last := standsFor_digitChar small (Nat.mod_lt number (by omega))
        have whole := (ih (number / radix) (Nat.div_lt_self (by omega) large)).snoc last
        rw [Nat.div_add_mod] at whole
        rwa [Nat.toDigits_of_base_le large reached]

/-! Numerals with a sign, and addresses. -/

inductive Announces : List Char → Nat → Prop
  | decimal : Announces [] 10
  | hexadecimal : Announces ['0', 'x'] 16
  | hexadecimalUpper : Announces ['0', 'X'] 16
  | dollar : Announces ['$'] 16

/-- A text is a numeral in the radix if it is at most one plus sign and at least one digit. -/
def Numeral (radix : Nat) (symbols : List Char) (number : Nat) : Prop :=
  ∃ sign digits, (sign = [] ∨ sign = ['+']) ∧ digits ≠ [] ∧ symbols = sign ++ digits ∧
    Holds radix digits number

/-- A text spells a number if it is an announced radix and a numeral in it. -/
def Spells (text : String) (number : Nat) : Prop :=
  ∃ start radix numeral, Announces start radix ∧ Numeral radix numeral number ∧
    text.toList = start ++ numeral

theorem StandsFor.unmarked {radix : Nat} {symbol : Char} {digit : Nat}
    (stands : StandsFor radix symbol digit) : symbol ∉ ['+', 'x', 'X', '$'] := by
  have lowerPlain : lowerAlphabet.all fun symbol => symbol ∉ ['+', 'x', 'X', '$'] := by decide
  have upperPlain : upperAlphabet.all fun symbol => symbol ∉ ['+', 'x', 'X', '$'] := by decide
  rcases stands.2 with lower | upper
  · exact of_decide_eq_true (List.all_eq_true.mp lowerPlain symbol (List.mem_of_getElem? lower))
  · exact of_decide_eq_true (List.all_eq_true.mp upperPlain symbol (List.mem_of_getElem? upper))

theorem Holds.unmarked {radix : Nat} {symbols : List Char} {number : Nat}
    (holds : Holds radix symbols number) : ∀ symbol ∈ symbols, symbol ∉ ['+', 'x', 'X', '$'] := by
  obtain ⟨digits, each, -⟩ := holds
  induction each with
  | nil => simp
  | cons first _ ih => exact List.forall_mem_cons.mpr ⟨first.unmarked, ih⟩

theorem withoutPlus_of_unsigned {symbols : List Char} (unsigned : '+' ∉ symbols) :
    withoutPlus symbols = symbols := by
  rw [withoutPlus.eq_def]
  split
  · exact (unsigned List.mem_cons_self).elim
  · rfl

theorem sign_withoutPlus (symbols : List Char) :
    ∃ sign, (sign = [] ∨ sign = ['+']) ∧ symbols = sign ++ withoutPlus symbols := by
  rw [withoutPlus.eq_def]
  split
  · exact ⟨['+'], Or.inr rfl, rfl⟩
  · exact ⟨[], Or.inl rfl, rfl⟩

theorem numeral_iff {radix : Nat} {symbols : List Char} {number : Nat} :
    Numeral radix symbols number ↔
      withoutPlus symbols ≠ [] ∧ Holds radix (withoutPlus symbols) number := by
  constructor
  · rintro ⟨sign, digits, kind, nonempty, spelled, holds⟩
    have unsigned : '+' ∉ digits := fun among => holds.unmarked '+' among (by decide)
    have stripped : withoutPlus symbols = digits := by
      rcases kind with rfl | rfl
      · rw [spelled, List.nil_append, withoutPlus_of_unsigned unsigned]
      · rw [spelled]
        rfl
    rw [stripped]
    exact ⟨nonempty, holds⟩
  · rintro ⟨nonempty, holds⟩
    obtain ⟨sign, kind, spelled⟩ := sign_withoutPlus symbols
    exact ⟨sign, _, kind, nonempty, spelled, holds⟩

theorem numeral?_eq_some_iff {radix : Nat} (small : radix ≤ 16) {bound : Nat}
    {symbols : List Char} {number : Nat} :
    numeral? radix bound symbols = some number ↔ Numeral radix symbols number ∧ number < bound := by
  rw [numeral_iff, numeral?]
  split
  · rename_i empty
    simp [empty]
  · rename_i nonempty
    rw [Option.filter_eq_some_iff, digitsFrom?_zero_eq_some_iff small, decide_eq_true_eq]
    exact and_congr_left fun _ => ⟨fun holds => ⟨nonempty, holds⟩, And.right⟩

/-- A numeral contains nothing of a prefix, so that a prefix cannot be taken for one. -/
theorem Numeral.unmarked {radix : Nat} {symbols : List Char} {number : Nat}
    (numeral : Numeral radix symbols number) : ∀ symbol ∈ symbols, symbol ∉ ['x', 'X', '$'] := by
  obtain ⟨sign, digits, kind, -, rfl, holds⟩ := numeral
  rw [List.forall_mem_append]
  constructor
  · rcases kind with rfl | rfl
    · simp
    · exact List.forall_mem_singleton.mpr (by decide)
  · intro symbol among marked
    exact holds.unmarked symbol among (List.mem_cons_of_mem '+' marked)

theorem announces_addressRadix (symbols : List Char) :
    ∃ start, Announces start (addressRadix symbols).1 ∧
      symbols = start ++ (addressRadix symbols).2 := by
  rw [addressRadix.eq_def]
  split
  · exact ⟨['0', 'x'], .hexadecimal, rfl⟩
  · exact ⟨['0', 'X'], .hexadecimalUpper, rfl⟩
  · exact ⟨['$'], .dollar, rfl⟩
  · exact ⟨[], .decimal, rfl⟩

theorem addressRadix_append {start numeral : List Char} {radix number : Nat}
    (announced : Announces start radix) (spelled : Numeral radix numeral number) :
    addressRadix (start ++ numeral) = (radix, numeral) := by
  cases announced with
  | hexadecimal | hexadecimalUpper | dollar => rfl
  | decimal =>
      rw [List.nil_append, addressRadix.eq_def]
      split
      · exact (spelled.unmarked 'x' (by simp) (by decide)).elim
      · exact (spelled.unmarked 'X' (by simp) (by decide)).elim
      · exact (spelled.unmarked '$' (by simp) (by decide)).elim
      · rfl

theorem Announces.small {start : List Char} {radix : Nat} (announced : Announces start radix) :
    radix ≤ 16 := by
  cases announced <;> decide

theorem parseAddress?_eq_some_iff {text : String} {address : UInt16} :
    parseAddress? text = some address ↔ Spells text address.toNat := by
  simp only [parseAddress?, Option.map_eq_some_iff]
  constructor
  · rintro ⟨number, read, rfl⟩
    obtain ⟨start, announced, split⟩ := announces_addressRadix text.toList
    obtain ⟨spelled, below⟩ := (numeral?_eq_some_iff announced.small).mp read
    rw [UInt16.toNat_ofNat_of_lt' below]
    exact ⟨start, _, _, announced, spelled, split⟩
  · rintro ⟨start, radix, numeral, announced, spelled, split⟩
    rw [split, addressRadix_append announced spelled]
    exact ⟨address.toNat,
      (numeral?_eq_some_iff announced.small).mpr ⟨spelled, address.toNat_lt⟩, UInt16.ofNat_toNat⟩

theorem parseAddress?_eq_none_iff {text : String} :
    parseAddress? text = none ↔ ∀ number, Spells text number → 65535 < number := by
  rw [Option.eq_none_iff_forall_ne_some]
  constructor
  · intro unread number spelled
    by_contra small
    have below : number < 2 ^ 16 := by omega
    refine unread (UInt16.ofNat number) (parseAddress?_eq_some_iff.mpr ?_)
    rwa [UInt16.toNat_ofNat_of_lt' below]
  · intro large address read
    have above := large _ (parseAddress?_eq_some_iff.mp read)
    have below := address.toNat_lt
    omega

theorem Spells.append {start digits : String} {radix number : Nat}
    (announced : Announces start.toList radix) (numeral : Numeral radix digits.toList number) :
    Spells (start ++ digits) number :=
  ⟨start.toList, radix, digits.toList, announced, numeral, String.toList_append⟩

theorem Holds.numeral {radix : Nat} {symbols : List Char} {number : Nat}
    (holds : Holds radix symbols number) (nonempty : symbols ≠ []) : Numeral radix symbols number :=
  ⟨[], symbols, Or.inl rfl, nonempty, rfl, holds⟩

def digitText (radix places number : Nat) : String :=
  String.ofList (List.leftpad places '0' (Nat.toDigits radix number))

theorem numeral_digitText {radix : Nat} (large : 1 < radix) (small : radix ≤ 16)
    (places number : Nat) : Numeral radix (digitText radix places number).toList number := by
  rw [digitText, String.toList_ofList]
  refine Holds.numeral ((holds_toDigits large small number).zeros (by omega) _) ?_
  exact List.append_ne_nil_of_right_ne_nil _ Nat.toDigits_ne_nil

theorem spells_hex {places number : Nat} (positive : 0 < places) (fits : number < 16 ^ places) :
    Spells ("0x" ++ hex places number) number := by
  have numeral : Numeral 16 (hex places number).toList number := by
    rw [hex, String.toList_ofList]
    refine (holds_hexDigits fits).numeral ?_
    rwa [← List.length_pos_iff, length_hexDigits]
  exact Spells.append .hexadecimal numeral

/-- A text is read as an address exactly if it spells it, and is refused exactly if it spells
nothing but numbers that are too large.  So an address is found again in the text of a value and
behind each of the prefixes. -/
theorem address_grammar :
    (∀ text address, parseAddress? text = some address ↔ Spells text address.toNat) ∧
    (∀ text, parseAddress? text = none ↔ ∀ number, Spells text number → 65535 < number) ∧
    (∀ word, parseAddress? (Value.word word).text = some word) ∧
    (∀ byte, parseAddress? (Value.byte byte).text = some byte.toUInt16) ∧
    ∀ (address : UInt16) (places : Nat),
      parseAddress? (digitText 10 places address.toNat) = some address ∧
      parseAddress? ("0x" ++ digitText 16 places address.toNat) = some address ∧
      parseAddress? ("0X" ++ digitText 16 places address.toNat) = some address ∧
      parseAddress? ("$" ++ digitText 16 places address.toNat) = some address := by
  refine ⟨fun _ _ => parseAddress?_eq_some_iff, fun _ => parseAddress?_eq_none_iff, ?_, ?_, ?_⟩
  · intro word
    have fits : word.toNat < 16 ^ 4 := word.toNat_lt
    exact parseAddress?_eq_some_iff.mpr (spells_hex (by decide) fits)
  · intro byte
    have fits : byte.toNat < 16 ^ 2 := byte.toNat_lt
    rw [parseAddress?_eq_some_iff, UInt8.toNat_toUInt16]
    exact spells_hex (by decide) fits
  · intro address places
    have decimal : Numeral 10 _ _ := numeral_digitText (by decide) (by decide) places address.toNat
    have hexadecimal : Numeral 16 _ _ :=
      numeral_digitText (by decide) (by decide) places address.toNat
    simp only [parseAddress?_eq_some_iff]
    exact ⟨⟨[], 10, _, .decimal, decimal, (List.nil_append _).symm⟩,
      Spells.append .hexadecimal hexadecimal, Spells.append .hexadecimalUpper hexadecimal,
      Spells.append .dollar hexadecimal⟩

example : parseAddress? "$+0ff44" = some 0xFF44 := by cbv

example : parseAddress? "0x$1" = none := by cbv

end Dmg
