import StackCode.Proofs.Tokens
import StackCode.Text.Literal

namespace StackCode

/-!
# Written numbers are literals

The digits of a number in a base are read back to it, for every base that
literals have. The decimal text of an integer has no other units than decimal
digits after its sign, so it announces no base, and it is read as a literal of
that integer; the text of a word is read as that word.
-/

namespace CodeUnit

/-- A unit from `0` to `9`. -/
def IsDecimal (unit : CodeUnit) : Prop :=
  0x30 ≤ unit ∧ unit ≤ 0x39

instance (unit : CodeUnit) : Decidable (IsDecimal unit) :=
  inferInstanceAs (Decidable (_ ∧ _))

/-- A digit is a decimal digit as a unit, too. -/
theorem isDecimal_ofChar
    {character : Char}
    (isDigit : character.isDigit = true) :
    IsDecimal (ofChar character) := by
  rw [Char.isDigit, Bool.and_eq_true, decide_eq_true_eq,
    decide_eq_true_eq] at isDigit
  have atLeast : 48 ≤ character.toNat := UInt32.le_iff_toNat_le.mp isDigit.1
  have atMost : character.toNat ≤ 57 := UInt32.le_iff_toNat_le.mp isDigit.2
  have value : (ofChar character).toNat = character.toNat := by
    rw [ofChar, UInt16.toNat_ofNat']
    exact Nat.mod_eq_of_lt (by omega)
  constructor
  · rw [UInt16.le_iff_toNat_le, value]
    exact atLeast
  · rw [UInt16.le_iff_toNat_le, value]
    exact atMost

namespace IsDecimal

variable {unit : CodeUnit}

/-- A unit that is no decimal digit is none of a decimal text. -/
theorem ne
    (isDecimal : IsDecimal unit)
    {other : CodeUnit}
    (notDecimal : ¬IsDecimal other) :
    unit ≠ other := by
  rintro rfl
  exact notDecimal isDecimal

/-- No digit is a blank. -/
theorem not_isBlank (isDecimal : IsDecimal unit) : unit.isBlank = false := by
  obtain ⟨atLeast, atMost⟩ := isDecimal
  rw [UInt16.le_iff_toNat_le] at atLeast atMost
  have small : unit.toNat < 58 := Nat.lt_succ_of_le atMost
  have large : 47 < unit.toNat := atLeast
  unfold isBlank
  simp only [Bool.or_eq_false_iff, Bool.and_eq_false_iff,
    decide_eq_false_iff_not, beq_eq_false_iff_ne, UInt16.le_iff_toNat_le, ne_eq,
    ← UInt16.toNat_inj, UInt16.reduceToNat]
  omega

end IsDecimal

end CodeUnit

namespace Literal

/-- A digit has the same value in every base that it is a digit of. -/
theorem digit?_of_lt
    {base value : Nat}
    {unit : CodeUnit}
    (read : digit? 16 unit = some value)
    (small : value < base) :
    digit? base unit = some value := by
  unfold digit? at read ⊢
  rw [Option.filter_eq_some_iff] at read ⊢
  exact ⟨read.1, decide_eq_true small⟩

/-- A digit is read back from its character. -/
theorem digit?_digitChar
    {base digit : Nat}
    (small : digit < base)
    (baseSmall : base ≤ 16) :
    digit? base (CodeUnit.ofChar (Nat.digitChar digit)) = some digit := by
  have largest :
      ∀ value : Fin 16,
        digit? 16 (CodeUnit.ofChar (Nat.digitChar value)) = some value.val := by
    decide
  exact digit?_of_lt (largest ⟨digit, Nat.lt_of_lt_of_le small baseSmall⟩) small

/-- Digits are read one after the other. -/
theorem digitsFrom?_append
    (base value : Nat)
    (first second : Text) :
    digitsFrom? base value (first ++ second) =
      (digitsFrom? base value first).bind fun reached =>
        digitsFrom? base reached second := by
  induction first generalizing value with
  | nil => rfl
  | cons unit rest inductionHypothesis =>
      rw [List.cons_append, digitsFrom?, digitsFrom?]
      cases digit? base unit with
      | none => rfl
      | some digit => exact inductionHypothesis _

/-- A number is read back from its digits in a base. -/
theorem digitsFrom?_ofNatInBase
    {base : Nat}
    (baseLarge : 1 < base)
    (baseSmall : base ≤ 16)
    (number : Nat) :
    digitsFrom? base 0 (Text.ofNatInBase base number) = some number := by
  induction number using Nat.strongRecOn with
  | ind number inductionHypothesis =>
      have lastSmall : number % base < base := Nat.mod_lt _ (by omega)
      have last := digit?_digitChar lastSmall baseSmall
      rw [Text.ofNatInBase, Nat.toDigits_eq_if baseLarge]
      by_cases oneDigit : number < base
      · rw [if_pos oneDigit, List.map_singleton, digitsFrom?]
        rw [Nat.mod_eq_of_lt oneDigit] at last
        rw [last]
        simp only [digitsFrom?, Nat.zero_mul, Nat.zero_add]
      · have smaller : number / base < number :=
          Nat.div_lt_self (by omega) baseLarge
        have front := inductionHypothesis (number / base) smaller
        rw [Text.ofNatInBase] at front
        rw [if_neg oneDigit, List.map_append, digitsFrom?_append, front,
          List.map_singleton, Option.bind_some, digitsFrom?, last]
        simp only [digitsFrom?]
        rw [Nat.mul_comm, Nat.div_add_mod]

/-- Every number is written with one digit at least. -/
theorem ofNatInBase_ne_nil (base number : Nat) :
    Text.ofNatInBase base number ≠ [] := by
  rw [Text.ofNatInBase, Ne, List.map_eq_nil_iff]
  exact List.ne_nil_of_length_pos Nat.length_toDigits_pos

/-- A number that is written in a base is read back in it. -/
theorem digits?_ofNatInBase
    {base : Nat}
    (baseLarge : 1 < base)
    (baseSmall : base ≤ 16)
    (number : Nat) :
    digits? base (Text.ofNatInBase base number) = some number := by
  have notEmpty : (Text.ofNatInBase base number).isEmpty = false :=
    List.isEmpty_eq_false_iff.mpr (ofNatInBase_ne_nil base number)
  rw [digits?, notEmpty]
  exact digitsFrom?_ofNatInBase baseLarge baseSmall number

/-- The decimal text of a number has no other units than decimal digits. -/
theorem isDecimal_of_mem_ofNat
    {number : Nat}
    {unit : CodeUnit}
    (member : unit ∈ Text.ofNat number) :
    unit.IsDecimal := by
  obtain ⟨character, isDigit, rfl⟩ := List.mem_map.mp member
  exact CodeUnit.isDecimal_ofChar
    (Nat.isDigit_of_mem_toDigits (by decide) (by decide) isDigit)

/-- Decimal digits announce no base. -/
theorem announced_of_isDecimal
    {text : Text}
    (decimal : ∀ unit ∈ text, unit.IsDecimal) :
    announced text = (10, text) := by
  rcases text with _ | ⟨zero, _ | ⟨mark, digits⟩⟩
  · rfl
  · rfl
  · have isDecimal := decimal mark (by simp)
    have notHexadecimal :
        ¬(mark = CodeUnit.ofChar 'x' ∨ mark = CodeUnit.ofChar 'X') :=
      not_or.mpr ⟨isDecimal.ne (by decide), isDecimal.ne (by decide)⟩
    have notBinary :
        ¬(mark = CodeUnit.ofChar 'b' ∨ mark = CodeUnit.ofChar 'B') :=
      not_or.mpr ⟨isDecimal.ne (by decide), isDecimal.ne (by decide)⟩
    simp only [announced, notHexadecimal, notBinary, if_false, ite_self]

/-- A number is the magnitude of its decimal text. -/
theorem magnitude?_ofNat (number : Nat) :
    magnitude? (Text.ofNat number) = some number := by
  rw [magnitude?,
    announced_of_isDecimal fun _ member => isDecimal_of_mem_ofNat member]
  have baseLarge : 1 < 10 := by decide
  exact digits?_ofNatInBase baseLarge (by decide) number

/-- An integer is the value of its decimal text. -/
theorem value?_ofInt (value : Int) :
    value? (Text.ofInt value) = some value := by
  by_cases negative : value < 0
  · have magnitude := magnitude?_ofNat value.natAbs
    rw [Text.ofNat] at magnitude
    rw [Text.ofInt, Text.ofIntInBase, if_pos negative, value?, if_pos rfl,
      magnitude]
    change some (-(value.natAbs : Int)) = some value
    congr 1
    omega
  · have magnitude := magnitude?_ofNat value.natAbs
    rw [Text.ofInt, Text.ofIntInBase, if_neg negative, ← Text.ofNat]
    cases digits : Text.ofNat value.natAbs with
    | nil => exact absurd digits (ofNatInBase_ne_nil _ _)
    | cons first rest =>
        have isDecimal : first.IsDecimal :=
          isDecimal_of_mem_ofNat (digits ▸ List.mem_cons_self)
        rw [digits] at magnitude
        rw [value?, if_neg (isDecimal.ne (by decide)),
          if_neg (isDecimal.ne (by decide)), magnitude, Option.map_some]
        congr 1
        exact Int.natAbs_of_nonneg (by omega)

/-- A word that is written is read back. -/
theorem word?_text (word : Word) : word? word.text = .ok (some word) := by
  rw [word?, Word.text, value?_ofInt]
  simp only [Word.ofInt?_toInt]

/-- The units of an integer's text are decimal digits, or the sign of it. -/
theorem mem_ofInt
    {value : Int}
    {unit : CodeUnit}
    (member : unit ∈ Text.ofInt value) :
    unit = CodeUnit.ofChar '-' ∨ unit.IsDecimal := by
  unfold Text.ofInt Text.ofIntInBase at member
  split at member
  · rcases List.mem_cons.mp member with isSign | isDigit
    · exact Or.inl isSign
    · exact Or.inr (isDecimal_of_mem_ofNat isDigit)
  · exact Or.inr (isDecimal_of_mem_ofNat member)

/-- A number is written as one token. -/
theorem isToken_ofInt (value : Int) : (Text.ofInt value).IsToken where
  nonempty := by
    unfold Text.ofInt Text.ofIntInBase
    split
    · exact List.cons_ne_nil _ _
    · exact ofNatInBase_ne_nil _ _
  noBlank := by
    intro unit member
    rcases mem_ofInt member with rfl | isDecimal
    · rfl
    · exact isDecimal.not_isBlank

end Literal

end StackCode
