import Mathlib.Data.List.TakeWhile
import Mathlib.Logic.Function.Iterate
import StackCode.Console
import StackCode.Proofs.Lines
import StackCode.Proofs.Utf8Sequences

namespace StackCode

/-!
# Lines of decoded input

A console decodes each line of its input by itself. No octet of a sequence of several is
a line end, so a line end finishes what was begun before it, and what a line is read as
does not depend on the lines around it: the lines are those of the text that the whole
input is decoded to.
-/

namespace Utf8

/-! ## Line ends between characters -/

/-- A state that waits for an octet with its high bit set, if it waits for one. -/
def State.WaitsForTail : State → Prop
  | .start => True
  | .within _ _ least _ => 0x80 ≤ least.toNat

/-- At the start, nothing is pending that a line feed could complete. -/
theorem waitsForTail_start : State.start.WaitsForTail :=
  trivial

/-- Whatever octet begins a character, only tails go on with it. -/
theorem waitsForTail_beginAt (byte : UInt8) : (beginAt byte).2.WaitsForTail := by
  have begun := begun_beginAt byte
  generalize beginAt byte = result at begun ⊢
  cases begun with
  | complete => exact waitsForTail_start
  | awaits awaits => exact awaits.atLeast
  | lone => exact waitsForTail_start

/-- A decoder that has read an octet can only be waiting for a tail. -/
theorem waitsForTail_read
    {state : State}
    (byte : UInt8) :
    (state.read byte).2.WaitsForTail := by
  unfold State.read
  split
  · exact waitsForTail_beginAt byte
  split
  · split
    · exact waitsForTail_start
    · exact Nat.le_refl 0x80
  · exact waitsForTail_beginAt byte

/-- A line feed finishes what was begun and is a character by itself. -/
theorem read_feed
    {state : State}
    (waits : state.WaitsForTail) :
    state.read 0x0A = (state.finish ++ [0x0A], .start) := by
  cases state with
  | start => rfl
  | within value owed least greatest =>
      have below : ¬least ≤ 0x0A := fun reached =>
        absurd (Nat.le_trans waits (UInt8.le_iff_toNat_le.mp reached)) (by decide)
      simp only [State.read, decide_eq_false below, Bool.false_and,
        Bool.false_eq_true, if_false]
      rfl

/--
A line feed ends what comes before it, complete or not, and decoding begins anew after
it.
-/
theorem codePointsFrom_append_feed
    {state : State}
    (waits : state.WaitsForTail)
    (before after : Bytes) :
    codePointsFrom state (before ++ 0x0A :: after) =
      codePointsFrom state before ++ 0x0A :: codePointsFrom .start after := by
  induction before generalizing state with
  | nil =>
      change
        (state.read 0x0A).1 ++ codePointsFrom (state.read 0x0A).2 after =
          state.finish ++ 0x0A :: codePointsFrom .start after
      rw [read_feed waits, List.append_assoc, List.singleton_append]
  | cons byte rest inductionHypothesis =>
      rw [List.cons_append, codePointsFrom, codePointsFrom,
        inductionHypothesis (waitsForTail_read byte), List.append_assoc]

/-- What stands on either side of a line feed is decoded by itself. -/
theorem decode_append_feed (before after : Bytes) :
    decode (before ++ 0x0A :: after) =
      decode before ++ CodeUnit.lineFeed :: decode after := by
  rw [decode, codePointsFrom_append_feed waitsForTail_start, Text.ofCodePoints,
    List.flatMap_append, List.flatMap_cons]
  rfl

/-- A line feed between two octets of a character leaves neither of them readable. -/
example : decode [0xC3, 0x0A, 0xA9] = [0xFFFD, CodeUnit.lineFeed, 0xFFFD] := by
  decide

/-- Only one code point is spelled as a line feed alone. -/
theorem eq_of_feed_eq_ofNat
    {value : Nat}
    (small : value < 0x10000)
    (isFeed : CodeUnit.lineFeed = UInt16.ofNat value) :
    value = 0x0A := by
  have same := congrArg UInt16.toNat isFeed
  rw [UInt16.toNat_ofNat_of_lt' small] at same
  exact same.symm

/-- Only the line feed's octets have a line feed in their text. -/
theorem feed_mem_of_ofCodePoint
    {character : Char}
    (member : CodeUnit.lineFeed ∈ Text.ofCodePoint character.toNat) :
    (0x0A : UInt8) ∈ octets character := by
  have isScalar := isScalar_toNat character
  unfold IsScalar at isScalar
  unfold Text.ofCodePoint at member
  split at member
  next small =>
    rw [octets_eq, eq_of_feed_eq_ofNat small (List.mem_singleton.mp member)]
    exact List.mem_cons_self
  next large =>
    -- The halves of a pair are far above the line feed.
    exfalso
    rw [List.mem_cons, List.mem_singleton] at member
    rcases member with isHigh | isLow
    · have value := eq_of_feed_eq_ofNat (by omega) isHigh
      omega
    · have value := eq_of_feed_eq_ofNat (by omega) isLow
      omega

/-- A line feed is decoded from its own octet and from no other ones. -/
theorem Reads.feed_mem
    {bytes : Bytes}
    {points : List Nat}
    (reads : Reads bytes points)
    (member : CodeUnit.lineFeed ∈ Text.ofCodePoints points) :
    (0x0A : UInt8) ∈ bytes := by
  induction reads with
  | nil => cases member
  | character character _ inductionHypothesis =>
      rw [Text.ofCodePoints, List.flatMap_cons, List.mem_append] at member
      rcases member with isFirst | isLater
      · exact List.mem_append_left _ (feed_mem_of_ofCodePoint isFirst)
      · exact List.mem_append_right _ (inductionHypothesis isLater)
  | replaced _ _ inductionHypothesis =>
      rw [Text.ofCodePoints, List.flatMap_cons, List.mem_append] at member
      rcases member with isFirst | isLater
      · exact absurd isFirst (by decide)
      · exact List.mem_append_right _ (inductionHypothesis isLater)

/-- Where no octet ends a line, no line feed is decoded. -/
theorem noFeed_decode
    {bytes : Bytes}
    (noEnd : (0x0A : UInt8) ∉ bytes) :
    CodeUnit.lineFeed ∉ decode bytes :=
  fun member => noEnd ((reads_decoded bytes).feed_mem member)

/-- Whatever octets there are, something is read from them. -/
theorem decode_ne_nil
    {bytes : Bytes}
    (nonempty : bytes ≠ []) :
    decode bytes ≠ [] := by
  have spelled (point : Nat) : Text.ofCodePoint point ≠ [] := by
    unfold Text.ofCodePoint
    split <;> exact List.cons_ne_nil _ _
  have reads := reads_decoded bytes
  unfold decode Text.ofCodePoints
  generalize codePointsFrom .start bytes = points at reads ⊢
  cases reads with
  | nil => exact absurd rfl nonempty
  | character =>
      rw [List.flatMap_cons]
      exact List.append_ne_nil_of_left_ne_nil (spelled _) _
  | replaced =>
      rw [List.flatMap_cons]
      exact List.append_ne_nil_of_left_ne_nil (spelled _) _

end Utf8

namespace Text

/-! ## Pieces between line feeds -/

/-- A text cut at its line feeds: the pieces that one ends, and what is left. -/
structure Pieces (text : Text) (ended : List Text) (last : Text) : Prop where
  split : text = ofLines ended ++ last
  noFeed : ∀ piece ∈ ended, CodeUnit.lineFeed ∉ piece
  lastNoFeed : CodeUnit.lineFeed ∉ last

/-- Every text can be cut at its line feeds. -/
theorem exists_pieces (text : Text) : ∃ ended last, Pieces text ended last := by
  induction text with
  | nil =>
      exact ⟨[], [], rfl, fun _ absent => absurd absent List.not_mem_nil,
        List.not_mem_nil⟩
  | cons unit rest inductionHypothesis =>
      obtain ⟨ended, last, rfl, noFeed, lastNoFeed⟩ := inductionHypothesis
      by_cases isFeed : unit = CodeUnit.lineFeed
      · refine ⟨[] :: ended, last, ?_, ?_, lastNoFeed⟩
        · rw [ofLines_cons, isFeed]
          rfl
        · exact List.forall_mem_cons.mpr ⟨List.not_mem_nil, noFeed⟩
      · have apart {piece : Text} (without : CodeUnit.lineFeed ∉ piece) :
            CodeUnit.lineFeed ∉ unit :: piece :=
          List.not_mem_cons_of_ne_of_not_mem (Ne.symm isFeed) without
        cases ended with
        | nil => exact ⟨[], unit :: last, rfl, noFeed, apart lastNoFeed⟩
        | cons piece others =>
            obtain ⟨firstNoFeed, othersNoFeed⟩ := List.forall_mem_cons.mp noFeed
            refine ⟨(unit :: piece) :: others, last, ?_, ?_, lastNoFeed⟩
            · rw [ofLines_cons, ofLines_cons]
              rfl
            · exact List.forall_mem_cons.mpr ⟨apart firstNoFeed, othersNoFeed⟩

/-- The lines that pieces make: a last piece that is empty is none. -/
def linesOf (ended : List Text) (last : Text) : List Text :=
  ended.map dropReturn ++ if last = [] then [] else [last]

/-- The lines of a text are its pieces, less the returns that stand before line feeds. -/
theorem Pieces.lines_eq
    {text last : Text}
    {ended : List Text}
    (pieces : Pieces text ended last) :
    lines text = linesOf ended last := by
  obtain ⟨rfl, noFeed, lastNoFeed⟩ := pieces
  induction ended with
  | nil => exact lines_of_noFeed lastNoFeed
  | cons piece others inductionHypothesis =>
      obtain ⟨firstNoFeed, othersNoFeed⟩ := List.forall_mem_cons.mp noFeed
      rw [ofLines_cons, List.append_assoc, List.cons_append,
        lines_piece_append_feed firstNoFeed, inductionHypothesis othersNoFeed]
      rfl

end Text

namespace Console

/-! ## One line after the other -/

/-- Ask for a line: the line, if there is input for one, and the input after it. -/
def read (input : Bytes) : Option Text × Bytes :=
  match readLine? input with
  | none => (none, input)
  | some (line, rest) => (some line, rest)

/-- What is left of input after a number of lines have been asked for. -/
def unreadAfter (count : Nat) (input : Bytes) : Bytes :=
  (fun unread => (read unread).2)^[count] input

/-- The line that is next in the input, and the input after it. -/
inductive TakesLine : Bytes → Option Text → Bytes → Prop where
  /-- The input has ended. -/
  | nothing : TakesLine [] none []
  /-- A line is taken with its end; a return before the end is left out of it. -/
  | ended
      {piece : Bytes}
      (noEnd : lineEnd ∉ piece)
      (rest : Bytes) :
      TakesLine (piece ++ lineEnd :: rest) (some (Utf8.decode piece).dropReturn) rest
  /-- The last line need not have an end; nothing is left out of it then. -/
  | unended
      {piece : Bytes}
      (nonempty : piece ≠ [])
      (noEnd : lineEnd ∉ piece) :
      TakesLine piece (some (Utf8.decode piece)) []

/-- There is always a next line, or the input has ended. -/
theorem exists_takesLine (input : Bytes) :
    ∃ line rest, TakesLine input line rest := by
  by_cases isEnded : lineEnd ∈ input
  · obtain ⟨piece, rest, rfl, noEnd⟩ := List.eq_append_cons_of_mem isEnded
    exact ⟨_, rest, .ended noEnd rest⟩
  · cases input with
    | nil => exact ⟨none, [], .nothing⟩
    | cons first later => exact ⟨_, [], .unended (List.cons_ne_nil _ _) isEnded⟩

/--
Of input that has not ended, what comes before the first line end is read, and decoded
as a whole.
-/
theorem readLine?_of_ne_nil
    {input : Bytes}
    (nonempty : input ≠ []) :
    readLine? input =
      match input.dropWhile (· != lineEnd) with
      | [] => some (Utf8.decode (input.takeWhile (· != lineEnd)), [])
      | _ :: rest =>
          some ((Utf8.decode (input.takeWhile (· != lineEnd))).dropReturn, rest) := by
  cases input with
  | nil => exact absurd rfl nonempty
  | cons first later => rfl

namespace TakesLine

variable {input rest : Bytes} {line : Text} {line? : Option Text}

/-- The line that is next is the one that is read. -/
theorem readLine?_eq (takes : TakesLine input (some line) rest) :
    readLine? input = some (line, rest) := by
  have goesOn {piece : Bytes} (noEnd : lineEnd ∉ piece) :
      ∀ byte ∈ piece, (byte != lineEnd) = true := fun byte member =>
    bne_iff_ne.mpr fun isEnd => noEnd (isEnd ▸ member)
  cases takes with
  | @ended piece noEnd =>
      rw [readLine?_of_ne_nil
          (List.append_ne_nil_of_right_ne_nil piece (List.cons_ne_nil lineEnd rest)),
        List.takeWhile_append_of_pos (goesOn noEnd),
        List.dropWhile_append_of_pos (goesOn noEnd)]
      exact congrArg (fun before => some (Text.dropReturn (Utf8.decode before), rest))
        (List.append_nil piece)
  | unended nonempty noEnd =>
      rw [readLine?_of_ne_nil nonempty, List.takeWhile_eq_self_iff.mpr (goesOn noEnd),
        List.dropWhile_eq_nil_iff.mpr (goesOn noEnd)]

/-- What is asked for is the line that is next, or nothing once the input has ended. -/
theorem read_eq (takes : TakesLine input line? rest) : read input = (line?, rest) := by
  cases line? with
  | none =>
      cases takes
      rfl
  | some line => rw [read, takes.readLine?_eq]

/-- The line that is next comes before all others. -/
theorem lines_eq (takes : TakesLine input (some line) rest) :
    lines input = line :: lines rest := by
  rw [lines]
  split
  next unread =>
    rw [takes.readLine?_eq] at unread
    cases unread
  next isRead =>
    rw [takes.readLine?_eq] at isRead
    cases isRead
    rfl

theorem length_lt (takes : TakesLine input (some line) rest) :
    rest.length < input.length :=
  length_lt_of_readLine? takes.readLine?_eq

end TakesLine

/-- What is asked for is what is next. -/
theorem takesLine_read (input : Bytes) :
    TakesLine input (read input).1 (read input).2 := by
  obtain ⟨line, rest, takes⟩ := exists_takesLine input
  rw [takes.read_eq]
  exact takes

theorem lines_nil : lines [] = [] := by
  rw [lines]
  rfl

/-- Input is nothing, or it is a line and what comes after it. -/
@[elab_as_elim]
theorem lineInduction
    {motive : Bytes → Prop}
    (nothing : motive [])
    (takes :
      ∀ input line rest,
        TakesLine input (some line) rest → motive rest → motive input)
    (input : Bytes) :
    motive input := by
  induction count : input.length using Nat.strongRecOn generalizing input with
  | ind count inductionHypothesis =>
      obtain ⟨line?, rest, takesLine⟩ := exists_takesLine input
      cases line? with
      | none =>
          cases takesLine
          exact nothing
      | some line =>
          exact takes input line rest takesLine
            (inductionHypothesis _ (count ▸ takesLine.length_lt) rest rfl)

/-- Lines that are decoded one by one are those of the decoded input. -/
theorem lines_eq_lines_decode (input : Bytes) :
    lines input = (Utf8.decode input).lines := by
  induction input using lineInduction with
  | nothing => exact lines_nil
  | takes input line rest takesLine inductionHypothesis =>
      rw [takesLine.lines_eq]
      cases takesLine with
      | ended noEnd rest =>
          have feed : lineEnd = 0x0A := rfl
          rw [feed, Utf8.decode_append_feed,
            Text.lines_piece_append_feed (Utf8.noFeed_decode noEnd), inductionHypothesis]
      | unended nonempty noEnd =>
          rw [lines_nil, Text.lines_of_noFeed (Utf8.noFeed_decode noEnd),
            if_neg (Utf8.decode_ne_nil nonempty)]

theorem unreadAfter_succ (count : Nat) (input : Bytes) :
    unreadAfter (count + 1) input = unreadAfter count (read input).2 :=
  Function.iterate_succ_apply _ count input

theorem unreadAfter_succ' (count : Nat) (input : Bytes) :
    unreadAfter (count + 1) input = (read (unreadAfter count input)).2 :=
  Function.iterate_succ_apply' _ count input

/-- Asked for again and again, the lines come in order, and nothing after the last. -/
theorem read_unreadAfter (count : Nat) (input : Bytes) :
    (read (unreadAfter count input)).1 = (lines input)[count]? := by
  induction count generalizing input with
  | zero =>
      obtain ⟨line?, rest, takes⟩ := exists_takesLine input
      change (read input).1 = _
      cases line? with
      | none =>
          cases takes
          rw [lines_nil]
          rfl
      | some line =>
          rw [takes.read_eq, takes.lines_eq]
          rfl
  | succ count inductionHypothesis =>
      obtain ⟨line?, rest, takes⟩ := exists_takesLine input
      rw [unreadAfter_succ, takes.read_eq, inductionHypothesis]
      cases line? with
      | none =>
          cases takes
          rw [lines_nil]
          rfl
      | some line =>
          rw [takes.lines_eq]
          rfl

/--
What asking for lines gives: the whole input is read as code points, their text is cut
at its line feeds, and each call gives the next of the lines that the pieces make, or
nothing when there is no other one. It takes the octets of that line and no others.
-/
structure GivesDecodedLines
    (input : Bytes)
    (points : List Nat)
    (ended : List Text)
    (last : Text) :
    Prop where
  reads : Utf8.Reads input points
  readsOnly : ∀ others, Utf8.Reads input others → others = points
  pieces : Text.Pieces (Text.ofCodePoints points) ended last
  gives : ∀ count, (read (unreadAfter count input)).1 = (Text.linesOf ended last)[count]?
  takes :
    ∀ count,
      TakesLine (unreadAfter count input) (read (unreadAfter count input)).1
        (unreadAfter (count + 1) input)

end Console

end StackCode
