import Mathlib.Data.List.Forall2
import Mathlib.Data.Nat.Digits.Defs
import StackCode.Proofs.LineGrammar
import StackCode.Proofs.Numerals

namespace StackCode

/-!
# The values of integer literals

A literal is a sign or none, what announces its base, and one digit or more of that
base. `Literal.Spells` says so, and which integer a literal stands for, by the values
of its digits and without regard to how a text is read. A text is read as a word
exactly if that word is the integer that it spells. It is refused if it spells an
integer that is no word, and it is no literal if it spells none.
-/

namespace CodeUnit

/-- Capital letters have their small ones thirty-two units above them. -/
theorem toNat_lowerCase (unit : CodeUnit) :
    unit.lowerCase.toNat =
      if 0x41 ≤ unit.toNat ∧ unit.toNat ≤ 0x5A then
        unit.toNat + 0x20
      else
        unit.toNat := by
  unfold lowerCase
  simp only [Bool.and_eq_true, decide_eq_true_eq, UInt16.le_iff_toNat_le,
    UInt16.reduceToNat]
  split
  next isCapital =>
    rw [UInt16.toNat_add]
    exact Nat.mod_eq_of_lt (by simp only [UInt16.reduceToNat]; omega)
  next => rfl

/-- A small letter is its own. -/
@[simp] theorem lowerCase_lowerCase (unit : CodeUnit) :
    unit.lowerCase.lowerCase = unit.lowerCase := by
  apply UInt16.toNat_inj.mp
  rw [toNat_lowerCase unit.lowerCase, toNat_lowerCase unit]
  split
  next isCapital => exact if_neg (by omega)
  next => rfl

/-- The units of the sixteen digits, the letters among them small. -/
theorem toNat_ofChar_digitChar
    {value : Nat}
    (small : value < 16) :
    (ofChar (Nat.digitChar value)).toNat =
      if value < 10 then 0x30 + value else 0x57 + value := by
  have table :
      ∀ value : Fin 16,
        (ofChar (Nat.digitChar value)).toNat =
          if value.val < 10 then 0x30 + value.val else 0x57 + value.val := by
    decide
  exact table ⟨value, small⟩

end CodeUnit

namespace Literal

/-- A unit is the digit of a value in a base; the case of a letter does not matter. -/
structure SpellsDigit (base : Nat) (unit : CodeUnit) (value : Nat) : Prop where
  small : value < base
  written : unit.lowerCase = CodeUnit.ofChar (Nat.digitChar value)

/-- Units are the digits of a number in a base, the most significant one first. -/
structure SpellsNumber (base : Nat) (digits : Text) (number : Nat) : Prop where
  nonempty : digits ≠ []
  spelled :
    ∃ values : List Nat,
      List.Forall₂ (SpellsDigit base) digits values ∧
        number = Nat.ofDigits base values.reverse

/-- What may stand before a number, and what that multiplies it by. -/
inductive Signs : Text → Int → Prop where
  | unsigned : Signs [] 1
  | plus : Signs "+" 1
  | minus : Signs "-" (-1)

/-- What may stand before digits, and their base. -/
inductive Announces : Text → Nat → Prop where
  | hexadecimal : Announces "0x" 16
  | hexadecimalCapital : Announces "0X" 16
  | binary : Announces "0b" 2
  | binaryCapital : Announces "0B" 2
  | decimal : Announces [] 10

/-- A text is a literal of an integer. -/
inductive Spells : Text → Int → Prop where
  | literal
      {sign mark digits : Text}
      {factor : Int}
      {base number : Nat}
      (signs : Signs sign factor)
      (announces : Announces mark base)
      (spells : SpellsNumber base digits number) :
      Spells (sign ++ mark ++ digits) (factor * number)

section Digits

variable {base : Nat} (baseSmall : base ≤ 16)

include baseSmall

/-- The units of a digit, by the ranges in which they lie. -/
theorem spellsDigit_iff
    {unit : CodeUnit}
    {value : Nat} :
    SpellsDigit base unit value ↔
      value < base ∧
        (value < 10 ∧ unit.toNat = 0x30 + value ∨
          10 ≤ value ∧
            (unit.toNat = 0x37 + value ∨ unit.toNat = 0x57 + value)) := by
  have lowerUnit := unit.toNat_lowerCase
  constructor
  · rintro ⟨small, written⟩
    rw [← UInt16.toNat_inj, lowerUnit,
      CodeUnit.toNat_ofChar_digitChar (Nat.lt_of_lt_of_le small baseSmall)] at written
    refine ⟨small, ?_⟩
    split at written <;> split at written <;> omega
  · rintro ⟨small, isUnit⟩
    refine ⟨small, UInt16.toNat_inj.mp ?_⟩
    rw [lowerUnit, CodeUnit.toNat_ofChar_digitChar (Nat.lt_of_lt_of_le small baseSmall)]
    split <;> split <;> omega

/-- A unit is read as the value whose digit it is. -/
theorem digit?_eq_some_iff
    {unit : CodeUnit}
    {value : Nat} :
    digit? base unit = some value ↔ SpellsDigit base unit value := by
  rw [spellsDigit_iff baseSmall]
  unfold digit?
  simp only [Bool.and_eq_true, decide_eq_true_eq, UInt16.le_iff_toNat_le,
    UInt16.reduceToNat, Option.filter_eq_some_iff]
  rw [and_comm]
  refine and_congr_right fun small => ?_
  -- One case a range of digits, and one for the units outside of them all.
  split
  next => rw [Option.some.injEq]; omega
  next =>
    split
    next => rw [Option.some.injEq]; omega
    next =>
      split
      next => rw [Option.some.injEq]; omega
      next => simp only [reduceCtorEq, false_iff]; omega

/-- Digits after a number are read by the values of all of them. -/
theorem digitsFrom?_eq_some_iff
    {digits : Text}
    {start number : Nat} :
    digitsFrom? base start digits = some number ↔
      ∃ values : List Nat,
        List.Forall₂ (SpellsDigit base) digits values ∧
          number = values.foldl (fun reached value => reached * base + value) start := by
  induction digits generalizing start with
  | nil =>
      simp only [digitsFrom?, Option.some.injEq, List.forall₂_nil_left_iff,
        exists_eq_left, List.foldl_nil]
      exact eq_comm
  | cons unit rest inductionHypothesis =>
      rw [digitsFrom?]
      constructor
      · intro read
        cases found : digit? base unit with
        | none =>
            rw [found] at read
            cases read
        | some value =>
            rw [found] at read
            obtain ⟨values, spelled, isNumber⟩ := inductionHypothesis.mp read
            have isDigit := (digit?_eq_some_iff baseSmall).mp found
            exact ⟨value :: values, .cons isDigit spelled, isNumber⟩
      · rintro ⟨_, spelled, isNumber⟩
        cases spelled with
        | @cons _ value _ values isDigit spelled =>
            rw [(digit?_eq_some_iff baseSmall).mpr isDigit]
            exact inductionHypothesis.mpr ⟨values, spelled, isNumber⟩

/-- Digits are read as the number that they spell. -/
theorem digits?_eq_some_iff
    {digits : Text}
    {number : Nat} :
    digits? base digits = some number ↔ SpellsNumber base digits number := by
  have valueOf (values : List Nat) :
      Nat.ofDigits base values.reverse =
        values.foldl (fun reached value => reached * base + value) 0 := by
    rw [Nat.ofDigits_eq_foldr, List.foldr_reverse]
    congr 1
    funext reached value
    exact (Nat.add_comm _ _).trans (congrArg (· + value) (Nat.mul_comm _ _))
  unfold digits?
  cases digits with
  | nil =>
      constructor
      · intro read
        cases read
      · intro spells
        exact absurd rfl spells.nonempty
  | cons unit rest =>
      refine (digitsFrom?_eq_some_iff baseSmall).trans ?_
      constructor
      · rintro ⟨values, spelled, isNumber⟩
        have isValue := isNumber.trans (valueOf values).symm
        exact ⟨List.cons_ne_nil _ _, values, spelled, isValue⟩
      · rintro ⟨_, values, spelled, isNumber⟩
        exact ⟨values, spelled, isNumber.trans (valueOf values)⟩

end Digits

/-- The digits of base ten are the decimal ones. -/
theorem SpellsDigit.isDecimal
    {unit : CodeUnit}
    {value : Nat}
    (isDigit : SpellsDigit 10 unit value) :
    unit.IsDecimal := by
  have tenSmall : 10 ≤ 16 := by decide
  have range := (spellsDigit_iff tenSmall).mp isDigit
  have atLeast : 0x30 ≤ unit.toNat := by omega
  have atMost : unit.toNat ≤ 0x39 := by omega
  exact ⟨UInt16.le_iff_toNat_le.mpr atLeast, UInt16.le_iff_toNat_le.mpr atMost⟩

/-- What spells a number to the base ten is decimal digits. -/
theorem SpellsNumber.isDecimal
    {digits : Text}
    {number : Nat}
    (spells : SpellsNumber 10 digits number) :
    ∀ unit ∈ digits, unit.IsDecimal := by
  obtain ⟨values, spelled, -⟩ := spells.spelled
  clear spells
  induction spelled with
  | nil => exact fun _ absent => absurd absent List.not_mem_nil
  | cons isDigit _ inductionHypothesis =>
      exact List.forall_mem_cons.mpr ⟨isDigit.isDecimal, inductionHypothesis⟩

section Forms

variable {mark digits text : Text} {base number : Nat} {value : Int}

/-- No announced base is greater than sixteen. -/
theorem Announces.base_le (announces : Announces mark base) : base ≤ 16 := by
  cases announces <;> decide

/-- Digits are told from what announces them. -/
theorem Announces.announced_eq
    (announces : Announces mark base)
    (spells : SpellsNumber base digits number) :
    announced (mark ++ digits) = (base, digits) := by
  cases announces with
  | hexadecimal => rfl
  | hexadecimalCapital => rfl
  | binary => rfl
  | binaryCapital => rfl
  | decimal => exact announced_of_isDecimal spells.isDecimal

/-- What a text announces stands at its beginning. -/
theorem exists_announces (text : Text) :
    ∃ mark, Announces mark (announced text).1 ∧ text = mark ++ (announced text).2 := by
  unfold announced
  split
  next zero mark digits =>
    split
    next isZero =>
      subst isZero
      split
      next isMark =>
        rcases isMark with rfl | rfl
        · exact ⟨_, .hexadecimal, rfl⟩
        · exact ⟨_, .hexadecimalCapital, rfl⟩
      next =>
        split
        next isMark =>
          rcases isMark with rfl | rfl
          · exact ⟨_, .binary, rfl⟩
          · exact ⟨_, .binaryCapital, rfl⟩
        next => exact ⟨_, .decimal, rfl⟩
    next => exact ⟨_, .decimal, rfl⟩
  next => exact ⟨_, .decimal, rfl⟩

/-- A literal without a sign is what announces its base, and its digits. -/
theorem magnitude?_eq_some_iff :
    magnitude? text = some number ↔
      ∃ mark digits base,
        text = mark ++ digits ∧
          Announces mark base ∧ SpellsNumber base digits number := by
  unfold magnitude?
  constructor
  · intro read
    obtain ⟨mark, announces, shape⟩ := exists_announces text
    exact
      ⟨mark, _, _, shape, announces,
        (digits?_eq_some_iff announces.base_le).mp read⟩
  · rintro ⟨mark, digits, base, rfl, announces, spells⟩
    rw [announces.announced_eq spells]
    exact (digits?_eq_some_iff announces.base_le).mpr spells

/-- A literal without a sign begins with a decimal digit. -/
theorem exists_isDecimal_of_announces
    (announces : Announces mark base)
    (spells : SpellsNumber base digits number) :
    ∃ (first : CodeUnit) (rest : Text),
      mark ++ digits = first :: rest ∧ first.IsDecimal := by
  cases announces with
  | hexadecimal => exact ⟨_, _, rfl, by decide⟩
  | hexadecimalCapital => exact ⟨_, _, rfl, by decide⟩
  | binary => exact ⟨_, _, rfl, by decide⟩
  | binaryCapital => exact ⟨_, _, rfl, by decide⟩
  | decimal =>
      obtain ⟨first, rest, shape⟩ := List.exists_cons_of_ne_nil spells.nonempty
      exact ⟨first, rest, shape, spells.isDecimal first (shape ▸ List.mem_cons_self)⟩

/-- What a text begins with is a sign, or none, and the rest is read without it. -/
theorem exists_signs (text : Text) :
    ∃ sign rest factor,
      text = sign ++ rest ∧
        Signs sign factor ∧
          value? text = (magnitude? rest).map fun (number : Nat) => factor * number := by
  cases text with
  | nil => exact ⟨_, _, _, rfl, .unsigned, rfl⟩
  | cons sign rest =>
      rw [value?]
      split
      next isMinus =>
        refine ⟨_, rest, _, isMinus ▸ rfl, .minus, ?_⟩
        cases magnitude? rest <;> simp
      next =>
        split
        next isPlus =>
          refine ⟨_, rest, _, isPlus ▸ rfl, .plus, ?_⟩
          cases magnitude? rest <;> simp
        next =>
          refine ⟨_, sign :: rest, _, rfl, .unsigned, ?_⟩
          cases magnitude? (sign :: rest) <;> simp

/-- Before a decimal digit no sign is missed. -/
theorem Signs.value?_eq
    {sign rest : Text}
    {factor : Int}
    {first : CodeUnit}
    (signs : Signs sign factor)
    (isDecimal : first.IsDecimal) :
    value? (sign ++ first :: rest) =
      (magnitude? (first :: rest)).map fun (number : Nat) => factor * number := by
  cases signs with
  | unsigned =>
      rw [List.nil_append, value?, if_neg (isDecimal.ne (by decide)),
        if_neg (isDecimal.ne (by decide))]
      cases magnitude? (first :: rest) <;> simp
  | plus =>
      change value? (CodeUnit.ofChar '+' :: first :: rest) = _
      rw [value?, if_neg (by decide), if_pos rfl]
      cases magnitude? (first :: rest) <;> simp
  | minus =>
      change value? (CodeUnit.ofChar '-' :: first :: rest) = _
      rw [value?, if_pos rfl]
      cases magnitude? (first :: rest) <;> simp

/-- A text has a value exactly if it is a literal of it. -/
theorem value?_eq_some_iff : value? text = some value ↔ Spells text value := by
  constructor
  · intro read
    obtain ⟨sign, rest, factor, rfl, signs, valueOf⟩ := exists_signs text
    rw [valueOf] at read
    obtain ⟨number, magnitude, rfl⟩ := Option.map_eq_some_iff.mp read
    obtain ⟨mark, digits, base, rfl, announces, spells⟩ :=
      magnitude?_eq_some_iff.mp magnitude
    rw [← List.append_assoc]
    exact .literal signs announces spells
  · rintro ⟨signs, announces, spells⟩
    have magnitude := magnitude?_eq_some_iff.mpr ⟨_, _, _, rfl, announces, spells⟩
    obtain ⟨first, rest, shape, isDecimal⟩ :=
      exists_isDecimal_of_announces announces spells
    rw [shape] at magnitude
    rw [List.append_assoc, shape, signs.value?_eq isDecimal, magnitude]
    rfl

end Forms

section Reading

variable {text : Text} {value : Int}

/-- A literal is refused exactly if it has a value and no word is that value. -/
theorem word?_eq_error_iff
    {refusal : OutOfRange} :
    word? text = .error refusal ↔
      refusal = { literal := text } ∧
        ∃ value, value? text = some value ∧ Word.ofInt? value = none := by
  unfold word?
  cases value? text with
  | none => simp
  | some value =>
      cases fits : Word.ofInt? value with
      | none => simp [fits, eq_comm]
      | some word => simp [fits]

/-- How a text is read that is a literal of an integer. -/
structure ReadAs (text : Text) (value : Int) : Prop where
  only : ∀ other, Spells text other ↔ other = value
  word : ∀ word : Word, word? text = .ok (some word) ↔ word.toInt = value
  exists_word_iff :
    (∃ word, word? text = .ok (some word)) ↔
      -0x8000000000000000 ≤ value ∧ value ≤ 0x7FFFFFFFFFFFFFFF
  refused_iff :
    (∃ refusal, word? text = .error refusal) ↔
      ¬(-0x8000000000000000 ≤ value ∧ value ≤ 0x7FFFFFFFFFFFFFFF)
  reason :
    ∀ refusal,
      word? text = .error refusal →
      refusal.reason =
        Text.concat ["integer literal out of range: `", text, "`"]

/-- What spells a value is read as that value and no other. -/
theorem readAs_of_spells (spells : Spells text value) : ReadAs text value where
  only := by
    intro other
    rw [← value?_eq_some_iff, value?_eq_some_iff.mpr spells, Option.some.injEq]
    exact eq_comm
  word := by
    intro word
    rw [word?_eq_some_iff, value?_eq_some_iff.mpr spells, Option.some.injEq]
    exact eq_comm
  exists_word_iff := by
    simp only [word?_eq_some_iff, value?_eq_some_iff.mpr spells, Option.some.injEq]
    constructor
    · rintro ⟨word, rfl⟩
      exact word.toInt_mem_range
    · intro inRange
      exact ⟨Word.wrap value, (Word.toInt_wrap_of_mem_range inRange).symm⟩
  refused_iff := by
    simp only [word?_eq_error_iff, value?_eq_some_iff.mpr spells, Option.some.injEq]
    constructor
    · rintro ⟨_, _, _, rfl, noWord⟩ inRange
      have isWord : Word.ofInt? value = some (Word.wrap value) := if_pos inRange
      cases isWord.symm.trans noWord
    · intro outOfRange
      exact ⟨_, rfl, value, rfl, if_neg outOfRange⟩
  reason := by
    intro refusal refused
    rw [(word?_eq_error_iff.mp refused).1]
    rfl

end Reading

section Writing

variable {base number : Nat} {digits : Text}

/-- A digit may be written in a capital letter. -/
theorem spellsDigit_lowerCase
    {unit : CodeUnit}
    {value : Nat} :
    SpellsDigit base unit.lowerCase value ↔ SpellsDigit base unit value := by
  constructor
  · rintro ⟨small, written⟩
    exact ⟨small, unit.lowerCase_lowerCase ▸ written⟩
  · rintro ⟨small, written⟩
    exact ⟨small, unit.lowerCase_lowerCase.symm ▸ written⟩

/-- Digits are those of the same number with any of their letters capital. -/
theorem spellsNumber_map_lowerCase :
    SpellsNumber base (digits.map CodeUnit.lowerCase) number ↔
      SpellsNumber base digits number := by
  have sameDigits (values : List Nat) :
      List.Forall₂ (SpellsDigit base) (digits.map CodeUnit.lowerCase) values ↔
        List.Forall₂ (SpellsDigit base) digits values := by
    simp only [List.forall₂_map_left_iff, spellsDigit_lowerCase]
  constructor
  · rintro ⟨nonempty, values, spelled, isNumber⟩
    exact
      ⟨mt List.map_eq_nil_iff.mpr nonempty, values, (sameDigits values).mp spelled,
        isNumber⟩
  · rintro ⟨nonempty, values, spelled, isNumber⟩
    exact
      ⟨mt List.map_eq_nil_iff.mp nonempty, values, (sameDigits values).mpr spelled,
        isNumber⟩

/-- A leading zero does not change a number. -/
theorem SpellsNumber.zero_cons
    (basePositive : 0 < base)
    (spells : SpellsNumber base digits number) :
    SpellsNumber base (CodeUnit.ofChar '0' :: digits) number := by
  obtain ⟨_, values, spelled, rfl⟩ := spells
  have isZero : SpellsDigit base (CodeUnit.ofChar '0') 0 := ⟨basePositive, by decide⟩
  refine ⟨List.cons_ne_nil _ _, 0 :: values, .cons isZero spelled, ?_⟩
  rw [List.reverse_cons, Nat.ofDigits_append_zero]

/-- Zeros in front of a number change nothing. -/
theorem SpellsNumber.zeros_append
    (basePositive : 0 < base)
    (spells : SpellsNumber base digits number)
    (zeros : Nat) :
    SpellsNumber base
      (List.replicate zeros (CodeUnit.ofChar '0') ++ digits) number := by
  induction zeros with
  | zero => exact spells
  | succ zeros inductionHypothesis => exact inductionHypothesis.zero_cons basePositive

/-- What is written for a number spells it. -/
theorem spellsNumber_ofNatInBase
    (baseLarge : 1 < base)
    (baseSmall : base ≤ 16)
    (number : Nat) :
    SpellsNumber base (Text.ofNatInBase base number) number :=
  (digits?_eq_some_iff baseSmall).mp (digits?_ofNatInBase baseLarge baseSmall number)

/-- Every announced base has two digits at least. -/
theorem Announces.one_lt_base
    {mark : Text}
    (announces : Announces mark base) :
    1 < base := by
  cases announces <;> decide

/--
A text writes a word: in decimal, or as its sign and its digits in some base, after any
number of zeros and with letters of either case.
-/
inductive Writes (word : Word) : Text → Prop where
  | decimal : Writes word word.text
  | inBase
      {sign mark digits : Text}
      {factor : Int}
      {base : Nat}
      (signs : Signs sign factor)
      (isSign : factor * word.toInt.natAbs = word.toInt)
      (announces : Announces mark base)
      (zeros : Nat)
      (written :
        digits.map CodeUnit.lowerCase = Text.ofNatInBase base word.toInt.natAbs) :
      Writes word
        (sign ++ mark ++ (List.replicate zeros (CodeUnit.ofChar '0') ++ digits))

/-- What writes a word is read as that word. -/
theorem Writes.word?_eq
    {word : Word}
    {text : Text}
    (writes : Writes word text) :
    word? text = .ok (some word) := by
  cases writes with
  | decimal => exact word?_text word
  | inBase signs isSign announces zeros written =>
      have lower :=
        spellsNumber_ofNatInBase announces.one_lt_base announces.base_le
          word.toInt.natAbs
      rw [← written] at lower
      have spells :=
        (spellsNumber_map_lowerCase.mp lower).zeros_append
          (Nat.zero_lt_of_lt announces.one_lt_base) zeros
      have literal := Spells.literal signs announces spells
      rw [isSign] at literal
      exact word?_eq_some_iff.mpr (value?_eq_some_iff.mpr literal)

end Writing

/--
Integer literals have exactly their value.

A text is no literal exactly if it is no sign, mark and digits of any integer. A literal
of an integer is one of that integer only. It is read as the word that is this integer,
or refused, with itself in the wording, exactly if no word is. Every word is read from its
decimal text, and from its sign and its digits after any number of zeros.
-/
theorem literals_have_exactly_their_value :
    (∀ text, word? text = .ok none ↔ ∀ value, ¬Spells text value) ∧
    (∀ text value, Spells text value → ReadAs text value) ∧
    ∀ (word : Word) (text : Text), Writes word text → word? text = .ok (some word) := by
  refine ⟨?_, fun _ _ => readAs_of_spells, fun _ _ => Writes.word?_eq⟩
  intro text
  rw [word?_eq_none_iff, Option.eq_none_iff_forall_ne_some]
  exact forall_congr' fun value => not_congr value?_eq_some_iff

/-- The integer after the greatest word is refused, and a sign with zeros is a word. -/
theorem first_integer_above_is_refused :
    ReadAs "+9223372036854775808" 9223372036854775808 ∧
      word? "-0X00fF" = .ok (some (-255)) := by
  have spells : Spells "+9223372036854775808" 9223372036854775808 :=
    value?_eq_some_iff.mp (by decide)
  have digits :
      ("fF" : Text).map CodeUnit.lowerCase =
        Text.ofNatInBase 16 (-255 : Word).toInt.natAbs := by
    decide
  have writes : Writes (-255) "-0X00fF" :=
    .inBase .minus (by decide) .hexadecimalCapital 2 digits
  exact
    ⟨literals_have_exactly_their_value.2.1 _ _ spells,
      literals_have_exactly_their_value.2.2 _ _ writes⟩

end Literal

end StackCode
