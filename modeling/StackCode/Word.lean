import StackCode.Text.Basic

namespace StackCode

/-!
# Machine words

A word is a 64-bit two's-complement integer. Arithmetic on words is arithmetic on
the integers they stand for, reduced modulo 2⁶⁴ into the range of words.
-/

/-- A 64-bit signed machine word. -/
abbrev Word := Int64

namespace Word

/-- The word congruent to an integer modulo 2⁶⁴. -/
def wrap (value : Int) : Word :=
  Int64.ofInt value

/-- How many words there are. -/
def count : Nat := 0x10000000000000000

/-- The least integer that a word stands for. -/
def least : Int := -0x8000000000000000

/-- The greatest integer that a word stands for. -/
def greatest : Int := 0x7FFFFFFFFFFFFFFF

/-- The word that stands for an integer, if one does. -/
def ofInt? (value : Int) : Option Word :=
  if least ≤ value ∧ value ≤ greatest then some (wrap value) else none

/-- The decimal text of a word. -/
def text (word : Word) : Text :=
  Text.ofInt word.toInt

/-- The eight octets of a word read as an unsigned number. -/
def pattern (word : Word) : Nat :=
  word.toUInt64.toNat

/-- The word whose octets, read as an unsigned number, are a given pattern. -/
def ofPattern (pattern : Nat) : Word :=
  (UInt64.ofNat pattern).toInt64

/-- Wrapping reduces to the balanced remainder modulo the number of words. -/
theorem toInt_wrap (value : Int) : (wrap value).toInt = value.bmod count :=
  Int64.toInt_ofInt

/-- A word is the wrapping of the integer that it stands for. -/
@[simp] theorem wrap_toInt (word : Word) : wrap word.toInt = word :=
  Int64.ofInt_toInt word

/-- The integer of a word lies in the range of words. -/
theorem toInt_mem_range (word : Word) :
    least ≤ word.toInt ∧ word.toInt ≤ greatest := by
  have atLeast := Int64.le_toInt word
  have below := Int64.toInt_lt word
  unfold least greatest
  omega

/-- An integer in the range of words is the one that its word stands for. -/
theorem toInt_wrap_of_mem_range
    {value : Int}
    (inRange : least ≤ value ∧ value ≤ greatest) :
    (wrap value).toInt = value := by
  unfold least greatest at inRange
  rw [toInt_wrap]
  exact Int.bmod_eq_of_le (by unfold count; omega) (by unfold count; omega)

/-- The integer of a word is that word's. -/
@[simp] theorem ofInt?_toInt (word : Word) : ofInt? word.toInt = some word := by
  rw [ofInt?, if_pos (toInt_mem_range word), wrap_toInt]

/-- An integer has a word exactly where it lies in the range of words. -/
theorem ofInt?_eq_some_iff
    {value : Int}
    {word : Word} :
    ofInt? value = some word ↔ word.toInt = value := by
  constructor
  · intro found
    unfold ofInt? at found
    split at found
    · next inRange =>
        have isWord : wrap value = word := Option.some.inj found
        rw [← isWord, toInt_wrap_of_mem_range inRange]
    · cases found
  · rintro rfl
    exact ofInt?_toInt word

/-- A word's pattern is below the number of words. -/
theorem pattern_lt (word : Word) : word.pattern < count :=
  word.toUInt64.toNat_lt

/-- A word is read back from its pattern. -/
@[simp] theorem ofPattern_pattern (word : Word) : ofPattern word.pattern = word := by
  simp [ofPattern, pattern]

end Word

end StackCode
