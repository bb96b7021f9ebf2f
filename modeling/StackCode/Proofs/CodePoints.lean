import StackCode.Text.Basic

namespace StackCode

/-!
# Texts and their code points

A text is spelled by its code points, whether or not its surrogates are paired, and
every code point lies in the range of Unicode. The NUL is no half of a pair, so it
is a code point wherever it stands and reading a text may be interrupted there.
-/

namespace Text

/-- A surrogate pair is what its code point is spelled as. -/
theorem ofCodePoint_pair
    {high low : CodeUnit}
    (isHigh : high.isHighSurrogate = true)
    (isLow : low.isLowSurrogate = true) :
    ofCodePoint
        (0x10000 + (high.toNat - 0xD800) * 0x400 + (low.toNat - 0xDC00)) =
      [high, low] := by
  rw [CodeUnit.isHighSurrogate, Bool.and_eq_true, decide_eq_true_eq,
    decide_eq_true_eq, UInt16.le_iff_toNat_le, UInt16.le_iff_toNat_le] at isHigh
  rw [CodeUnit.isLowSurrogate, Bool.and_eq_true, decide_eq_true_eq,
    decide_eq_true_eq, UInt16.le_iff_toNat_le, UInt16.le_iff_toNat_le] at isLow
  simp only [UInt16.reduceToNat] at isHigh isLow
  have isAstral :
      ¬0x10000 + (high.toNat - 0xD800) * 0x400 + (low.toNat - 0xDC00) <
        0x10000 := by
    omega
  have highPart :
      0xD800 +
          (0x10000 + (high.toNat - 0xD800) * 0x400 + (low.toNat - 0xDC00) -
            0x10000) / 0x400 =
        high.toNat := by
    omega
  have lowPart :
      0xDC00 +
          (0x10000 + (high.toNat - 0xD800) * 0x400 + (low.toNat - 0xDC00) -
            0x10000) % 0x400 =
        low.toNat := by
    omega
  rw [ofCodePoint, if_neg isAstral, highPart, lowPart, UInt16.ofNat_toNat,
    UInt16.ofNat_toNat]

/-- A unit by itself is spelled as itself. -/
theorem ofCodePoint_toNat (unit : CodeUnit) :
    ofCodePoint unit.toNat = [unit] := by
  rw [ofCodePoint, if_pos unit.toNat_lt, UInt16.ofNat_toNat]

/-- The code points of a text spell it. -/
theorem ofCodePoints_codePoints (text : Text) :
    ofCodePoints text.codePoints = text := by
  fun_induction codePoints text with
  | case1 => rfl
  | case2 unit =>
      rw [ofCodePoints, List.flatMap_singleton, ofCodePoint_toNat]
  | case3 high low rest isPair inductionHypothesis =>
      rw [Bool.and_eq_true] at isPair
      rw [ofCodePoints] at inductionHypothesis
      rw [ofCodePoints, List.flatMap_cons, ofCodePoint_pair isPair.1 isPair.2,
        inductionHypothesis]
      rfl
  | case4 high low rest notPair inductionHypothesis =>
      rw [ofCodePoints] at inductionHypothesis
      rw [ofCodePoints, List.flatMap_cons, ofCodePoint_toNat,
        inductionHypothesis]
      rfl

/-- No code point lies above the greatest one of Unicode. -/
theorem codePoints_le (text : Text) :
    ∀ point ∈ text.codePoints, point ≤ 0x10FFFF := by
  fun_induction codePoints text with
  | case1 => simp
  | case2 unit =>
      have small := unit.toNat_lt
      simp only [List.mem_singleton, forall_eq]
      omega
  | case3 high low rest isPair inductionHypothesis =>
      rw [Bool.and_eq_true, CodeUnit.isHighSurrogate, CodeUnit.isLowSurrogate,
        Bool.and_eq_true, Bool.and_eq_true] at isPair
      simp only [decide_eq_true_eq, UInt16.le_iff_toNat_le,
        UInt16.reduceToNat] at isPair
      refine List.forall_mem_cons.mpr ⟨?_, inductionHypothesis⟩
      omega
  | case4 high low rest notPair inductionHypothesis =>
      have small := high.toNat_lt
      refine List.forall_mem_cons.mpr ⟨?_, inductionHypothesis⟩
      omega

theorem codePoints_nul_cons (rest : Text) :
    codePoints (0 :: rest) = 0 :: rest.codePoints := by
  cases rest with
  | nil => rfl
  | cons unit others =>
      have notHigh : CodeUnit.isHighSurrogate 0 = false := rfl
      rw [codePoints, notHigh]
      rfl

/-- A NUL is a code point of its own, and so reading is split at it. -/
theorem codePoints_append_nul (first second : Text) :
    codePoints (first ++ 0 :: second) =
      first.codePoints ++ 0 :: second.codePoints := by
  fun_induction codePoints first with
  | case1 => exact codePoints_nul_cons second
  | case2 unit =>
      have notLow : CodeUnit.isLowSurrogate 0 = false := rfl
      simp [codePoints, notLow, codePoints_nul_cons]
  | case3 high low rest isPair inductionHypothesis =>
      simp [codePoints, isPair, inductionHypothesis]
  | case4 high low rest notPair inductionHypothesis =>
      rw [List.cons_append] at inductionHypothesis
      simp [codePoints, notPair, inductionHypothesis]

/-- Only a NUL has the code point zero. -/
theorem ne_zero_of_mem_codePoints
    {text : Text}
    (noNul : 0 ∉ text)
    {point : Nat}
    (member : point ∈ text.codePoints) :
    point ≠ 0 := by
  rintro rfl
  apply noNul
  rw [← ofCodePoints_codePoints text]
  exact List.mem_flatMap.mpr ⟨0, member, List.mem_singleton.mpr rfl⟩

end Text

end StackCode
