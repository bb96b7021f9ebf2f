import Mathlib.Algebra.Group.Nat.Defs
import Mathlib.Data.List.Infix
import StackCode.Text.Utf8

namespace StackCode

/-!
# What is read from octets

The octets that characters are written as are read as those characters. Where no
character can be read, the octets that one could begin with, as many as there are, or
one octet if there are none, are replaced together. `Utf8.Reads` says so without reading
octet by octet; it holds of one sequence of code points, which is the one that the
reader gives.

What the reader is waiting for is `Utf8.Completes`: the octets that lead from its state
to a character. It is shown for each first octet, and kept by each octet after it.
-/

namespace Utf8

/-- The octets that a character is written as. -/
def octets (character : Char) : Bytes :=
  String.utf8EncodeChar character

/-- Octets that those of some character begin with. -/
def Begins (bytes : Bytes) : Prop :=
  ∃ character, bytes <+: octets character

/--
A maximal part of what is ill-formed: octets at which no character can be read, as many
as a character could begin with, or one.
-/
structure IllFormed (part rest : Bytes) : Prop where
  nonempty : part ≠ []
  unreadable : ∀ character, ¬octets character <+: part ++ rest
  isPart : Begins part ∨ part.length = 1
  maximal :
    ∀ longer, longer <+: part ++ rest → Begins longer → longer.length ≤ part.length

/-- The code points that octets are read as. -/
inductive Reads : Bytes → List Nat → Prop where
  | nil : Reads [] []
  /-- A character is read as its code point. -/
  | character
      (character : Char)
      {rest : Bytes}
      {points : List Nat}
      (later : Reads rest points) :
      Reads (octets character ++ rest) (character.toNat :: points)
  /-- A maximal part of what is ill-formed is replaced. -/
  | replaced
      {part rest : Bytes}
      {points : List Nat}
      (illFormed : IllFormed part rest)
      (later : Reads rest points) :
      Reads (part ++ rest) (replacement :: points)

/-! ## Octets of characters -/

theorem octets_ne_nil (character : Char) : octets character ≠ [] :=
  String.utf8EncodeChar_ne_nil

/-- No character's octets begin with those of another. -/
theorem octets_append_inj
    {first second : Char}
    {later rest : Bytes}
    (same : octets first ++ later = octets second ++ rest) :
    first = second ∧ later = rest := by
  have readFirst :=
    @ByteArray.utf8DecodeChar?_utf8EncodeChar_append later.toByteArray first
  have readSecond :=
    @ByteArray.utf8DecodeChar?_utf8EncodeChar_append rest.toByteArray second
  rw [← List.toByteArray_append] at readFirst readSecond
  unfold octets at same
  rw [same, readSecond] at readFirst
  cases readFirst
  exact ⟨rfl, List.append_cancel_left same⟩

/-- What a character could begin with, it could begin with less of. -/
theorem Begins.of_prefix
    {shorter longer : Bytes}
    (isPrefix : shorter <+: longer)
    (begins : Begins longer) :
    Begins shorter := by
  obtain ⟨character, within⟩ := begins
  exact ⟨character, isPrefix.trans within⟩

theorem begins_octets (character : Char) : Begins (octets character) :=
  ⟨character, List.prefix_rfl⟩

/-- The code points of characters: all but the surrogates. -/
def IsScalar (point : Nat) : Prop :=
  point < 0xD800 ∨ 0xDFFF < point ∧ point < 0x110000

theorem isScalar_toNat (character : Char) : IsScalar character.toNat :=
  character.valid

/-- Every scalar value is that of a character. -/
theorem IsScalar.exists_character
    {point : Nat}
    (isScalar : IsScalar point) :
    ∃ character : Char, character.toNat = point :=
  ⟨Char.ofNatAux point isScalar, rfl⟩

/-! ## Ill-formed parts -/

namespace IllFormed

/-- What a character begins with is no longer than a part that no character goes on with. -/
theorem length_le_of_stuck
    {part rest longer : Bytes}
    (stuck :
      ∀ byte later, rest = byte :: later → ¬Begins (part ++ [byte]))
    (isPrefix : longer <+: part ++ rest)
    (begins : Begins longer) :
    longer.length ≤ part.length := by
  refine Nat.le_of_not_lt fun tooLong => ?_
  cases rest with
  | nil =>
      rw [List.append_nil] at isPrefix
      exact absurd isPrefix.length_le (Nat.not_le_of_lt tooLong)
  | cons byte later =>
      have next : part ++ [byte] <+: part ++ byte :: later :=
        ⟨later, by rw [List.append_assoc, List.singleton_append]⟩
      have goesOn : part ++ [byte] <+: longer :=
        List.prefix_of_prefix_length_le next isPrefix
          (by rw [List.length_append]; exact tooLong)
      exact stuck byte later rfl (begins.of_prefix goesOn)

/-- A character that is begun and not gone on with is ill-formed. -/
theorem of_begun
    {part rest more : Bytes}
    {character : Char}
    (nonempty : part ≠ [])
    (begun : octets character = part ++ more)
    (unfinished : more ≠ [])
    (stuck :
      ∀ byte later, rest = byte :: later → ¬Begins (part ++ [byte])) :
    IllFormed part rest where
  nonempty := nonempty
  isPart := Or.inl ⟨character, more, begun.symm⟩
  maximal := fun _ => length_le_of_stuck stuck
  unreadable := by
    intro other readable
    have short := length_le_of_stuck stuck readable (begins_octets other)
    -- The other character is complete before the one that is begun.
    obtain ⟨between, within⟩ :=
      List.prefix_of_prefix_length_le readable (List.prefix_append part rest) short
    have same : octets other ++ (between ++ more) = octets character ++ [] := by
      rw [← List.append_assoc, within, begun, List.append_nil]
    obtain ⟨_, nothing⟩ := octets_append_inj same
    exact unfinished (List.append_eq_nil_iff.mp nothing).2

/-- An octet that no character begins with is ill-formed by itself. -/
theorem of_lone
    {byte : UInt8}
    (lone : ¬Begins [byte])
    (rest : Bytes) :
    IllFormed [byte] rest where
  nonempty := List.cons_ne_nil byte []
  isPart := Or.inr rfl
  maximal := fun _ =>
    length_le_of_stuck fun _ _ _ begins =>
      lone (begins.of_prefix (List.prefix_append [byte] _))
  unreadable := by
    intro character readable
    have some := List.length_pos_iff.mpr (octets_ne_nil character)
    exact lone
      ⟨character,
        List.prefix_of_prefix_length_le (List.prefix_append [byte] rest) readable
          some⟩

/-- Of two ill-formed parts of the same octets none is longer. -/
theorem length_le
    {part rest other others : Bytes}
    (illFormed : IllFormed part rest)
    (otherIllFormed : IllFormed other others)
    (same : part ++ rest = other ++ others) :
    other.length ≤ part.length := by
  rcases otherIllFormed.isPart with begins | single
  · exact illFormed.maximal other ⟨others, same.symm⟩ begins
  · rw [single]
    exact List.length_pos_iff.mpr illFormed.nonempty

end IllFormed

/-- Octets are read as one sequence of code points only. -/
theorem Reads.eq
    {bytes : Bytes}
    {points others : List Nat}
    (reads : Reads bytes points)
    (readsOthers : Reads bytes others) :
    others = points := by
  generalize same : bytes = again at readsOthers
  induction reads generalizing again others with
  | nil =>
      cases readsOthers with
      | nil => rfl
      | character character _ =>
          exact absurd (List.append_eq_nil_iff.mp same.symm).1
            (octets_ne_nil character)
      | replaced illFormed _ =>
          exact absurd (List.append_eq_nil_iff.mp same.symm).1 illFormed.nonempty
  | character character _ inductionHypothesis =>
      cases readsOthers with
      | nil =>
          exact absurd (List.append_eq_nil_iff.mp same).1 (octets_ne_nil character)
      | character other otherLater =>
          obtain ⟨rfl, rest⟩ := octets_append_inj same
          rw [inductionHypothesis _ rest otherLater]
      | replaced illFormed _ =>
          exact absurd ⟨_, same⟩ (illFormed.unreadable character)
  | replaced illFormed _ inductionHypothesis =>
      cases readsOthers with
      | nil =>
          exact absurd (List.append_eq_nil_iff.mp same).1 illFormed.nonempty
      | character other _ =>
          exact absurd ⟨_, same.symm⟩ (illFormed.unreadable other)
      | replaced otherIllFormed otherLater =>
          have length :=
            Nat.le_antisymm (otherIllFormed.length_le illFormed same.symm)
              (illFormed.length_le otherIllFormed same)
          obtain ⟨_, rest⟩ := List.append_inj same length
          rw [inductionHypothesis _ rest otherLater]

/-! ## What the reader waits for -/

/-- The octets after the first one of a character: six bits of its code point in each. -/
def tails (point : Nat) : Nat → Bytes
  | 0 => []
  | count + 1 =>
      UInt8.ofNat (0x80 + point / 0x40 ^ count % 0x40) :: tails point count

/-- How many octets come after the first one of a character. -/
def tailCount (point : Nat) : Nat :=
  if point ≤ 0x7F then 0
  else if point ≤ 0x7FF then 1
  else if point ≤ 0xFFFF then 2
  else 3

/-- What the first octet of a character says of the number of those after it. -/
def mark : Nat → Nat
  | 0 => 0
  | 1 => 0xC0
  | 2 => 0xE0
  | _ => 0xF0

/-- The first octet of a character: the bits that are left, and how many octets come. -/
def lead (point : Nat) : Nat :=
  mark (tailCount point) + point / 0x40 ^ tailCount point

/-- A character is encoded as a lead octet and the tails that are due to it. -/
theorem octets_eq (character : Char) :
    octets character =
      UInt8.ofNat (lead character.toNat) ::
        tails character.toNat (tailCount character.toNat) := by
  have isScalar := isScalar_toNat character
  unfold IsScalar at isScalar
  unfold octets String.utf8EncodeChar lead tailCount
  simp only [Char.toNat_val]
  split
  · simp [mark, tails]
  split
  · simp only [mark, tails, List.cons.injEq, and_true]
    refine ⟨congrArg _ ?_, congrArg _ ?_⟩ <;> omega
  split
  · simp only [mark, tails, List.cons.injEq, and_true]
    refine ⟨congrArg _ ?_, congrArg _ ?_, congrArg _ ?_⟩ <;> omega
  · simp only [mark, tails, List.cons.injEq, and_true]
    refine ⟨congrArg _ ?_, congrArg _ ?_, congrArg _ ?_, congrArg _ ?_⟩ <;> omega

/-- A lead is an octet. -/
theorem lead_lt {point : Nat} (isScalar : IsScalar point) : lead point < 0x100 := by
  unfold IsScalar at isScalar
  unfold lead tailCount
  split
  · simp only [mark]
    omega
  split
  · simp only [mark]
    omega
  split <;>
    · simp only [mark]
      omega

/-- The octets of a character, taken apart after the first one. -/
theorem octets_eq_cons_iff
    {character : Char}
    {byte : UInt8}
    {later : Bytes} :
    octets character = byte :: later ↔
      lead character.toNat = byte.toNat ∧
        later = tails character.toNat (tailCount character.toNat) := by
  have small := lead_lt (isScalar_toNat character)
  rw [octets_eq, List.cons.injEq, eq_comm (a := later), ← UInt8.toNat_inj,
    UInt8.toNat_ofNat_of_lt' small]

/--
What leads from a state within a sequence to a character: the octets that are owed, the
first of them in the state's range.
-/
structure Completes
    (value owed : Nat)
    (least greatest : UInt8)
    (later : Bytes)
    (point : Nat) :
    Prop where
  isTails : later = tails point (owed + 1)
  begun : point / 0x40 ^ (owed + 1) = value
  atLeast : least.toNat ≤ 0x80 + point / 0x40 ^ owed % 0x40
  atMost : 0x80 + point / 0x40 ^ owed % 0x40 ≤ greatest.toNat

/-- A state within a sequence waits for what is missing from octets to make a character. -/
structure Awaits
    (before : Bytes)
    (value owed : Nat)
    (least greatest : UInt8) :
    Prop where
  nonempty : before ≠ []
  atLeast : 0x80 ≤ least.toNat
  ordered : least.toNat ≤ greatest.toNat
  atMost : greatest.toNat ≤ 0xBF
  completes :
    ∀ later point,
      Completes value owed least greatest later point ↔
        ∃ character : Char,
          character.toNat = point ∧ octets character = before ++ later

/-- An octet in the range of tails carries the six bits that it is read for. -/
theorem ofNat_tail_eq_iff
    {byte : UInt8}
    {bits : Nat} :
    UInt8.ofNat (0x80 + bits % 0x40) = byte ↔ 0x80 + bits % 0x40 = byte.toNat := by
  rw [← UInt8.toNat_inj, UInt8.toNat_ofNat_of_lt' (by change _ < 0x100; omega)]

theorem div_pow_succ (point count : Nat) :
    point / 0x40 ^ (count + 1) = point / 0x40 ^ count / 0x40 := by
  rw [Nat.pow_succ, Nat.div_div_eq_div_mul]

section Completion

variable
  {value owed point : Nat}
  {least greatest byte : UInt8}
  {later : Bytes}

/-- Something is owed within a sequence. -/
theorem Completes.exists_cons
    (completes : Completes value owed least greatest later point) :
    ∃ byte rest, later = byte :: rest :=
  ⟨_, _, completes.isTails⟩

section Ranges

variable (atLeast : 0x80 ≤ least.toNat) (atMost : greatest.toNat ≤ 0xBF)

include atLeast atMost

/-- The last octet that is owed completes a character. -/
theorem completes_last_iff :
    Completes value 0 least greatest (byte :: later) point ↔
      (least ≤ byte ∧ byte ≤ greatest) ∧
        later = [] ∧ point = value * 0x40 + (byte.toNat - 0x80) := by
  rw [UInt8.le_iff_toNat_le, UInt8.le_iff_toNat_le]
  constructor
  · rintro ⟨isTails, begun, above, below⟩
    simp only [tails, List.cons.injEq, Nat.pow_zero, Nat.div_one] at isTails above below
    have isByte := ofNat_tail_eq_iff.mp isTails.1.symm
    rw [div_pow_succ, Nat.pow_zero, Nat.div_one] at begun
    refine ⟨by omega, isTails.2, by omega⟩
  · rintro ⟨⟨above, below⟩, rfl, isPoint⟩
    have isByte : 0x80 + point % 0x40 = byte.toNat := by
      omega
    refine ⟨?_, ?_, ?_, ?_⟩
    · simp only [tails, Nat.pow_zero, Nat.div_one, ofNat_tail_eq_iff.mpr isByte]
    · rw [div_pow_succ, Nat.pow_zero, Nat.div_one]
      omega
    · rw [Nat.pow_zero, Nat.div_one, isByte]
      exact above
    · rw [Nat.pow_zero, Nat.div_one, isByte]
      exact below

/-- An octet that is owed leaves the octets after it, with six bits more. -/
theorem completes_next_iff :
    Completes value (owed + 1) least greatest (byte :: later) point ↔
      (least ≤ byte ∧ byte ≤ greatest) ∧
        Completes (value * 0x40 + (byte.toNat - 0x80)) owed 0x80 0xBF later point := by
  rw [UInt8.le_iff_toNat_le, UInt8.le_iff_toNat_le]
  constructor
  · rintro ⟨isTails, begun, above, below⟩
    rw [tails, List.cons.injEq] at isTails
    have isByte := ofNat_tail_eq_iff.mp isTails.1.symm
    rw [div_pow_succ] at begun
    refine ⟨by omega, isTails.2, by omega, ?_, ?_⟩
    · simp only [UInt8.reduceToNat]
      omega
    · simp only [UInt8.reduceToNat]
      omega
  · rintro ⟨⟨above, below⟩, isTails, begun, _, _⟩
    have isByte : 0x80 + point / 0x40 ^ (owed + 1) % 0x40 = byte.toNat := by
      omega
    refine ⟨?_, ?_, ?_, ?_⟩
    · rw [tails, ofNat_tail_eq_iff.mpr isByte, isTails]
    · rw [div_pow_succ]
      omega
    · omega
    · omega

end Ranges

/-- What is waited for can come. -/
theorem exists_completes
    (atLeast : 0x80 ≤ least.toNat)
    (ordered : least.toNat ≤ greatest.toNat)
    (atMost : greatest.toNat ≤ 0xBF)
    (value owed : Nat) :
    ∃ later point, Completes value owed least greatest later point := by
  have positive : 0 < 0x40 ^ owed := Nat.pow_pos (by decide)
  have high :
      (value * 0x40 + (least.toNat - 0x80)) * 0x40 ^ owed / 0x40 ^ owed =
        value * 0x40 + (least.toNat - 0x80) :=
    Nat.mul_div_cancel _ positive
  refine
    ⟨_, (value * 0x40 + (least.toNat - 0x80)) * 0x40 ^ owed,
      { isTails := rfl, begun := ?_, atLeast := ?_, atMost := ?_ }⟩
  · rw [div_pow_succ, high]
    omega
  · rw [high]
    omega
  · rw [high]
    omega

end Completion

/-! ## First octets -/

section TailCounts

variable {point : Nat}

/-- One tail is due to code points of eight to eleven bits. -/
theorem tailCount_eq_one_iff :
    tailCount point = 1 ↔ 0x80 ≤ point ∧ point ≤ 0x7FF := by
  unfold tailCount
  grind

/-- Two tails are due to code points of twelve to sixteen bits. -/
theorem tailCount_eq_two_iff :
    tailCount point = 2 ↔ 0x800 ≤ point ∧ point ≤ 0xFFFF := by
  unfold tailCount
  grind

/-- Three tails are due to code points of more than sixteen bits. -/
theorem tailCount_eq_three_iff : tailCount point = 3 ↔ 0x10000 ≤ point := by
  unfold tailCount
  grind

end TailCounts

/-- A first octet waits for the octets of the characters that it leads. -/
theorem awaits_of_lead
    {byte : UInt8}
    {value owed : Nat}
    {least greatest : UInt8}
    (marked : byte.toNat = mark (owed + 1) + value)
    (atLeast : 0x80 ≤ least.toNat)
    (ordered : least.toNat ≤ greatest.toNat)
    (atMost : greatest.toNat ≤ 0xBF)
    (inRange :
      ∀ point,
        point / 0x40 ^ (owed + 1) = value →
        (IsScalar point ∧ tailCount point = owed + 1 ↔
          least.toNat ≤ 0x80 + point / 0x40 ^ owed % 0x40 ∧
            0x80 + point / 0x40 ^ owed % 0x40 ≤ greatest.toNat))
    (counts :
      ∀ point,
        IsScalar point →
        lead point = byte.toNat →
        tailCount point = owed + 1) :
    Awaits [byte] value owed least greatest where
  nonempty := List.cons_ne_nil byte []
  atLeast := atLeast
  ordered := ordered
  atMost := atMost
  completes := by
    intro later point
    rw [List.singleton_append]
    constructor
    · rintro ⟨rfl, begun, above, below⟩
      obtain ⟨isScalar, count⟩ := (inRange point begun).mpr ⟨above, below⟩
      obtain ⟨character, rfl⟩ := isScalar.exists_character
      refine ⟨character, rfl, octets_eq_cons_iff.mpr ⟨?_, by rw [count]⟩⟩
      rw [lead, count, begun, marked]
    · rintro ⟨character, rfl, isOctets⟩
      obtain ⟨isLead, isTails⟩ := octets_eq_cons_iff.mp isOctets
      have isScalar := isScalar_toNat character
      have count := counts _ isScalar isLead
      have begun : character.toNat / 0x40 ^ (owed + 1) = value := by
        rw [lead, count, marked] at isLead
        exact Nat.add_left_cancel isLead
      obtain ⟨above, below⟩ := (inRange _ begun).mp ⟨isScalar, count⟩
      exact ⟨by rw [isTails, count], begun, above, below⟩

/-- The first octets that lead a number of others. -/
theorem tailCount_of_lead
    {point : Nat}
    (isScalar : IsScalar point) :
    tailCount point = 0 ∧ lead point ≤ 0x7F ∨
      tailCount point = 1 ∧ 0xC2 ≤ lead point ∧ lead point ≤ 0xDF ∨
      tailCount point = 2 ∧ 0xE0 ≤ lead point ∧ lead point ≤ 0xEF ∨
      tailCount point = 3 ∧ 0xF0 ≤ lead point ∧ lead point ≤ 0xF4 := by
  unfold IsScalar at isScalar
  unfold lead tailCount
  split
  · refine Or.inl ⟨rfl, ?_⟩
    simp only [mark, Nat.reducePow]
    omega
  split
  · refine Or.inr (Or.inl ⟨rfl, ?_⟩)
    simp only [mark, Nat.reducePow]
    omega
  split
  · refine Or.inr (Or.inr (Or.inl ⟨rfl, ?_⟩))
    simp only [mark, Nat.reducePow]
    omega
  · refine Or.inr (Or.inr (Or.inr ⟨rfl, ?_⟩))
    simp only [mark, Nat.reducePow]
    omega

section Leads

variable
  {byte : UInt8}
  {value : Nat}
  {least greatest : UInt8}
  (atLeast : 0x80 ≤ least.toNat)
  (ordered : least.toNat ≤ greatest.toNat)
  (atMost : greatest.toNat ≤ 0xBF)

include atLeast ordered atMost

/-- The first octet of a character of two octets. -/
theorem awaits_one
    (isLead : byte.toNat = 0xC0 + value)
    (noOther : 2 ≤ value ∧ value ≤ 0x1F)
    (inRange :
      ∀ point,
        point / 0x40 = value →
        (IsScalar point ∧ 0x80 ≤ point ∧ point ≤ 0x7FF ↔
          least.toNat ≤ 0x80 + point % 0x40 ∧ 0x80 + point % 0x40 ≤ greatest.toNat)) :
    Awaits [byte] value 0 least greatest := by
  refine awaits_of_lead isLead atLeast ordered atMost ?_ fun point isScalar leads => ?_
  · simpa only [tailCount_eq_one_iff, Nat.reduceAdd, Nat.pow_one, Nat.pow_zero,
      Nat.div_one] using inRange
  · have counts := tailCount_of_lead isScalar
    omega

/-- The first octet of a character of three octets. -/
theorem awaits_two
    (isLead : byte.toNat = 0xE0 + value)
    (noOther : value ≤ 0xF)
    (inRange :
      ∀ point,
        point / 0x1000 = value →
        (IsScalar point ∧ 0x800 ≤ point ∧ point ≤ 0xFFFF ↔
          least.toNat ≤ 0x80 + point / 0x40 % 0x40 ∧
            0x80 + point / 0x40 % 0x40 ≤ greatest.toNat)) :
    Awaits [byte] value 1 least greatest := by
  refine awaits_of_lead isLead atLeast ordered atMost ?_ fun point isScalar leads => ?_
  · simpa only [tailCount_eq_two_iff, Nat.reduceAdd, Nat.reducePow, Nat.pow_one]
      using inRange
  · have counts := tailCount_of_lead isScalar
    omega

/-- The first octet of a character of four octets. -/
theorem awaits_three
    (isLead : byte.toNat = 0xF0 + value)
    (inRange :
      ∀ point,
        point / 0x40000 = value →
        (IsScalar point ∧ 0x10000 ≤ point ↔
          least.toNat ≤ 0x80 + point / 0x1000 % 0x40 ∧
            0x80 + point / 0x1000 % 0x40 ≤ greatest.toNat)) :
    Awaits [byte] value 2 least greatest := by
  refine awaits_of_lead isLead atLeast ordered atMost ?_ fun point isScalar leads => ?_
  · simpa only [tailCount_eq_three_iff, Nat.reduceAdd, Nat.reducePow] using inRange
  · have counts := tailCount_of_lead isScalar
    omega

end Leads

/-- What an octet between characters does. -/
inductive Begun (byte : UInt8) : List Nat × State → Prop where
  /-- It is a character. -/
  | complete
      {character : Char}
      (isOctet : octets character = [byte]) :
      Begun byte ([character.toNat], .start)
  /-- Characters begin with it. -/
  | awaits
      {value owed : Nat}
      {least greatest : UInt8}
      (awaits : Awaits [byte] value owed least greatest) :
      Begun byte ([], .within value owed least greatest)
  /-- No character begins with it. -/
  | lone (lone : ¬Begins [byte]) : Begun byte ([replacement], .start)

/-- The decoder begins with an octet as characters do. -/
theorem begun_beginAt (byte : UInt8) : Begun byte (beginAt byte) := by
  have small : byte.toNat < 0x100 := byte.toNat_lt
  unfold beginAt
  simp only [Bool.and_eq_true, decide_eq_true_eq, beq_iff_eq, UInt8.le_iff_toNat_le,
    ← UInt8.toNat_inj, UInt8.reduceToNat]
  -- One case a range of first octets, in the order of the definition.
  split
  next isAscii =>
    have isScalar : IsScalar byte.toNat := Or.inl (by omega)
    obtain ⟨character, isPoint⟩ := isScalar.exists_character
    have count : tailCount character.toNat = 0 := if_pos (by omega)
    rw [← isPoint]
    refine .complete (octets_eq_cons_iff.mpr ⟨?_, by rw [count]; rfl⟩)
    rw [lead, count, isPoint, Nat.pow_zero, Nat.div_one]
    exact Nat.zero_add _
  split
  · refine
      .awaits
        (awaits_one (by decide) (by decide) (by decide) (by omega) (by omega)
          fun _ _ => ?_)
    simp only [IsScalar, UInt8.reduceToNat]
    omega
  split
  · refine
      .awaits
        (awaits_two (by decide) (by decide) (by decide) (by omega) (by omega)
          fun _ _ => ?_)
    simp only [IsScalar, UInt8.reduceToNat]
    omega
  split
  · refine
      .awaits
        (awaits_two (by decide) (by decide) (by decide) (by omega) (by omega)
          fun _ _ => ?_)
    simp only [IsScalar, UInt8.reduceToNat]
    omega
  split
  · refine
      .awaits
        (awaits_two (by decide) (by decide) (by decide) (by omega) (by omega)
          fun _ _ => ?_)
    simp only [IsScalar, UInt8.reduceToNat]
    omega
  split
  · refine
      .awaits
        (awaits_three (by decide) (by decide) (by decide) (by omega)
          fun _ _ => ?_)
    simp only [IsScalar, UInt8.reduceToNat]
    omega
  split
  · refine
      .awaits
        (awaits_three (by decide) (by decide) (by decide) (by omega)
          fun _ _ => ?_)
    simp only [IsScalar, UInt8.reduceToNat]
    omega
  split
  · refine
      .awaits
        (awaits_three (by decide) (by decide) (by decide) (by omega)
          fun _ _ => ?_)
    simp only [IsScalar, UInt8.reduceToNat]
    omega
  · refine .lone ?_
    rintro ⟨character, later, isOctets⟩
    have isLead := (octets_eq_cons_iff.mp isOctets.symm).1
    have leads := tailCount_of_lead (isScalar_toNat character)
    omega

/-- What an octet within a sequence does. -/
inductive Continued (before : Bytes) (byte : UInt8) : List Nat × State → Prop where
  /-- It completes a character. -/
  | complete
      {character : Char}
      (isOctets : octets character = before ++ [byte]) :
      Continued before byte ([character.toNat], .start)
  /-- More octets are owed after it. -/
  | awaits
      {value owed : Nat}
      {least greatest : UInt8}
      (awaits : Awaits (before ++ [byte]) value owed least greatest) :
      Continued before byte ([], .within value owed least greatest)
  /-- No character goes on with it. -/
  | stuck
      (stuck : ¬Begins (before ++ [byte])) :
      Continued before byte (replacement :: (beginAt byte).1, (beginAt byte).2)

namespace Awaits

variable
  {before : Bytes}
  {value owed : Nat}
  {least greatest : UInt8}

/-- Octets that wait for more are those that some character begins with. -/
theorem exists_character (awaits : Awaits before value owed least greatest) :
    ∃ character more, octets character = before ++ more ∧ more ≠ [] := by
  obtain ⟨more, point, completes⟩ :=
    exists_completes awaits.atLeast awaits.ordered awaits.atMost value owed
  obtain ⟨byte, rest, rfl⟩ := completes.exists_cons
  obtain ⟨character, _, isOctets⟩ := (awaits.completes _ _).mp completes
  exact ⟨character, _, isOctets, List.cons_ne_nil byte rest⟩

/-- An octet out of the range that is waited for leads to no character. -/
theorem not_begins
    (awaits : Awaits before value owed least greatest)
    {byte : UInt8}
    (outOfRange : ¬(least ≤ byte ∧ byte ≤ greatest)) :
    ¬Begins (before ++ [byte]) := by
  rintro ⟨character, later, isOctets⟩
  rw [List.append_assoc, List.singleton_append] at isOctets
  have completes := (awaits.completes _ _).mpr ⟨character, rfl, isOctets.symm⟩
  cases owed with
  | zero =>
      exact outOfRange
        ((completes_last_iff awaits.atLeast awaits.atMost).mp completes).1
  | succ owed =>
      exact outOfRange
        ((completes_next_iff awaits.atLeast awaits.atMost).mp completes).1

/--
The decoder goes on with an octet as characters do, and if none does, it begins anew.
-/
theorem continued_read
    (awaits : Awaits before value owed least greatest)
    (byte : UInt8) :
    Continued before byte ((State.within value owed least greatest).read byte) := by
  unfold State.read
  simp only [Bool.and_eq_true, decide_eq_true_eq]
  split
  next inRange =>
    cases owed with
    | zero =>
        have completes :
            Completes value 0 least greatest [byte]
              (value * 0x40 + (byte.toNat - 0x80)) :=
          (completes_last_iff awaits.atLeast awaits.atMost).mpr ⟨inRange, rfl, rfl⟩
        obtain ⟨character, isPoint, isOctets⟩ := (awaits.completes _ _).mp completes
        rw [← isPoint]
        exact .complete isOctets
    | succ owed =>
        refine
          .awaits
            { nonempty := List.append_ne_nil_of_left_ne_nil awaits.nonempty _
              atLeast := by decide
              ordered := by decide
              atMost := by decide
              completes := fun later point => ?_ }
        have next :=
          @completes_next_iff value owed point least greatest byte later
            awaits.atLeast awaits.atMost
        rw [awaits.completes, and_iff_right inRange] at next
        rw [← next, List.append_assoc, List.singleton_append]
  next outOfRange => exact .stuck (awaits.not_begins outOfRange)

end Awaits

/-! ## The reader -/

section Reader

variable
  {rest : Bytes}
  (readsRest : Reads rest (codePointsFrom .start rest))
  (readsWithin :
    ∀ before value owed least greatest,
      Awaits before value owed least greatest →
      Reads (before ++ rest)
        (codePointsFrom (.within value owed least greatest) rest))

include readsRest readsWithin

/-- What is read from an octet on is read maximal part by maximal part. -/
theorem reads_beginAt (byte : UInt8) :
    Reads (byte :: rest)
      ((beginAt byte).1 ++ codePointsFrom (beginAt byte).2 rest) := by
  have begun := begun_beginAt byte
  generalize beginAt byte = result at begun ⊢
  cases begun with
  | @complete character isOctet =>
      have reads := Reads.character character readsRest
      rw [isOctet] at reads
      exact reads
  | awaits awaits => exact readsWithin _ _ _ _ _ awaits
  | lone lone => exact .replaced (.of_lone lone rest) readsRest

/-- So is what is read from within a sequence on, counted from its beginning. -/
theorem reads_continued
    {before : Bytes}
    {value owed : Nat}
    {least greatest : UInt8}
    (awaits : Awaits before value owed least greatest)
    (byte : UInt8) :
    Reads (before ++ byte :: rest)
      (codePointsFrom (.within value owed least greatest) (byte :: rest)) := by
  have whole : before ++ byte :: rest = before ++ [byte] ++ rest := by
    rw [List.append_assoc, List.singleton_append]
  have continued := awaits.continued_read byte
  rw [codePointsFrom]
  generalize (State.within value owed least greatest).read byte = result
    at continued ⊢
  cases continued with
  | @complete character isOctets =>
      have reads := Reads.character character readsRest
      rw [isOctets] at reads
      rw [whole]
      exact reads
  | awaits later =>
      rw [whole]
      exact readsWithin _ _ _ _ _ later
  | stuck stuck =>
      obtain ⟨character, more, begun, unfinished⟩ := awaits.exists_character
      refine .replaced (.of_begun awaits.nonempty begun unfinished ?_)
        (reads_beginAt readsRest readsWithin byte)
      rintro other later ⟨⟩
      exact stuck

end Reader

/-- The reader reads what octets are read as, wherever it stands. -/
theorem reads_codePointsFrom (bytes : Bytes) :
    Reads bytes (codePointsFrom .start bytes) ∧
      ∀ before value owed least greatest,
        Awaits before value owed least greatest →
        Reads (before ++ bytes)
          (codePointsFrom (.within value owed least greatest) bytes) := by
  induction bytes with
  | nil =>
      refine ⟨.nil, fun before value owed least greatest awaits => ?_⟩
      obtain ⟨character, more, begun, unfinished⟩ := awaits.exists_character
      refine .replaced (.of_begun awaits.nonempty begun unfinished ?_) .nil
      rintro byte later ⟨⟩
  | cons byte rest inductionHypothesis =>
      obtain ⟨readsRest, readsWithin⟩ := inductionHypothesis
      exact
        ⟨reads_beginAt readsRest readsWithin byte,
          fun _ _ _ _ _ awaits => reads_continued readsRest readsWithin awaits byte⟩

/-- Octets are read as the text that they are decoded to. -/
theorem reads_decoded (bytes : Bytes) :
    Reads bytes (codePointsFrom .start bytes) :=
  (reads_codePointsFrom bytes).1

end Utf8

end StackCode
