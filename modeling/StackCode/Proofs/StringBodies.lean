import Mathlib.Logic.ExistsUnique
import StackCode.Proofs.Escapes

namespace StackCode

/-!
# Cutting bodies of string literals into pieces

A piece of a body is an escape or a unit that is no backslash. Every body is a row of
pieces up to its end, or up to a backslash with which no escape begins, and it can be
cut in this one way only. Up to the end, the body is read as what its pieces stand for,
one after the other. Otherwise that backslash is the first bad one, and it decides why
the body is refused.
-/

namespace Escape

/-- What can stand after a backslash, with what the two stand for. -/
def escapes : List (CodeUnit × CodeUnit) :=
  [(CodeUnit.ofChar 'n', CodeUnit.lineFeed),
    (CodeUnit.ofChar 't', 0x09),
    (CodeUnit.ofChar '0', 0x00),
    (backslash, backslash)]

/-- A piece of a body. -/
inductive Piece where
  /-- A backslash and a unit that can stand after it. -/
  | escape (escaped value : CodeUnit) (listed : (escaped, value) ∈ escapes)
  /-- A unit that stands for itself. -/
  | single (unit : CodeUnit) (noBackslash : unit ≠ backslash)

namespace Piece

/-- The units of a piece. -/
def spelling : Piece → Text
  | escape escaped _ _ => [backslash, escaped]
  | single unit _ => [unit]

/-- The unit that a piece stands for. -/
def value : Piece → CodeUnit
  | escape _ value _ => value
  | single unit _ => unit

/-- The body that pieces make up. -/
def body (pieces : List Piece) : Text :=
  pieces.flatMap spelling

/-- The text that pieces stand for. -/
def text (pieces : List Piece) : Text :=
  pieces.map value

theorem body_cons (piece : Piece) (pieces : List Piece) :
    body (piece :: pieces) = piece.spelling ++ body pieces :=
  List.flatMap_cons

end Piece

/-- A text begins with a backslash but with no escape: why, and the wording of that. -/
inductive BadBackslash : Text → Defect → Text → Prop where
  /-- The backslash is the last unit. -/
  | unterminated :
      BadBackslash [backslash] .unterminated "unterminated escape sequence"
  /-- The unit after the backslash is in no escape. -/
  | unknown
      {unit : CodeUnit}
      {rest : Text}
      (unlisted : ∀ value, (unit, value) ∉ escapes) :
      BadBackslash (backslash :: unit :: rest)
        (.unknown unit)
        (Text.concat ["unknown escape sequence `\\", [unit], "`"])

/-- What can follow the pieces of a body: nothing, or a bad backslash. -/
inductive StopsPieces : Text → Prop where
  | ended : StopsPieces []
  | bad
      {rest wording : Text}
      {defect : Defect}
      (isBad : BadBackslash rest defect wording) :
      StopsPieces rest

/-- Pieces up to where no other piece begins. -/
@[ext] structure Cut where
  pieces : List Piece
  rest : Text
  stops : StopsPieces rest

/-- The body that is cut. -/
def Cut.body (cut : Cut) : Text :=
  Piece.body cut.pieces ++ cut.rest

/-- The escapes that are read are those of the table. -/
theorem meaning?_eq_some_iff
    {escaped value : CodeUnit} :
    meaning? escaped = some value ↔ (escaped, value) ∈ escapes := by
  constructor
  · fun_cases meaning? escaped with
    | case5 => rintro ⟨⟩
    | _ =>
        rintro ⟨⟩
        simp_all [escapes]
  · intro listed
    simp only [escapes, List.mem_cons, Prod.mk.injEq, List.not_mem_nil,
      or_false] at listed
    rcases listed with ⟨rfl, rfl⟩ | ⟨rfl, rfl⟩ | ⟨rfl, rfl⟩ | ⟨rfl, rfl⟩ <;> rfl

theorem meaning?_eq_none_iff
    {escaped : CodeUnit} :
    meaning? escaped = none ↔ ∀ value, (escaped, value) ∉ escapes :=
  Option.eq_none_iff_forall_ne_some.trans
    (forall_congr' fun _ => not_congr meaning?_eq_some_iff)

section Reading

variable {body text rest wording : Text} {defect : Defect}

/-- A body stands for a text exactly if it has pieces that do. -/
theorem standsFor_iff :
    StandsFor body text ↔
      ∃ pieces, body = Piece.body pieces ∧ text = Piece.text pieces := by
  constructor
  · intro stands
    induction stands with
    | nil => exact ⟨[], rfl, rfl⟩
    | @escape escaped value _ _ means _ inductionHypothesis =>
        obtain ⟨pieces, rfl, rfl⟩ := inductionHypothesis
        have listed := meaning?_eq_some_iff.mp means
        exact ⟨.escape escaped value listed :: pieces, rfl, rfl⟩
    | @unit unit _ _ noBackslash _ inductionHypothesis =>
        obtain ⟨pieces, rfl, rfl⟩ := inductionHypothesis
        exact ⟨.single unit noBackslash :: pieces, rfl, rfl⟩
  · rintro ⟨pieces, rfl, rfl⟩
    induction pieces with
    | nil => exact .nil
    | cons piece _ inductionHypothesis =>
        cases piece with
        | escape _ _ listed =>
            exact .escape (meaning?_eq_some_iff.mpr listed) inductionHypothesis
        | single _ noBackslash => exact .unit noBackslash inductionHypothesis

theorem resolve_body_append (pieces : List Piece) (rest : Text) :
    resolve (Piece.body pieces ++ rest) =
      (Piece.text pieces ++ ·) <$> resolve rest :=
  (standsFor_iff.mpr ⟨pieces, rfl, rfl⟩).resolve_append rest

/-- Nothing is read from a bad backslash on. -/
theorem BadBackslash.resolve_eq
    (isBad : BadBackslash rest defect wording) :
    resolve rest = .error defect ∧ wording = defect.reason := by
  cases isBad with
  | unterminated => exact ⟨rfl, rfl⟩
  | unknown unlisted =>
      refine ⟨?_, rfl⟩
      rw [resolve, if_pos rfl]
      simp only [meaning?_eq_none_iff.mpr unlisted]

/-- Every body can be cut. -/
theorem exists_cut (body : Text) : ∃ cut : Cut, cut.body = body := by
  fun_induction resolve body with
  | case1 => exact ⟨⟨[], [], .ended⟩, rfl⟩
  | case2 => exact ⟨⟨[], [backslash], .bad .unterminated⟩, rfl⟩
  | case3 escaped rest noMeaning =>
      have unlisted := meaning?_eq_none_iff.mp noMeaning
      exact ⟨⟨[], backslash :: escaped :: rest, .bad (.unknown unlisted)⟩, rfl⟩
  | case4 escaped _ value means inductionHypothesis =>
      obtain ⟨cut, rfl⟩ := inductionHypothesis
      have listed := meaning?_eq_some_iff.mp means
      exact ⟨{ cut with pieces := .escape escaped value listed :: cut.pieces }, rfl⟩
  | case5 unit _ noBackslash inductionHypothesis =>
      obtain ⟨cut, rfl⟩ := inductionHypothesis
      exact ⟨{ cut with pieces := .single unit noBackslash :: cut.pieces }, rfl⟩

/-- A body is refused exactly for a bad backslash after a row of pieces. -/
theorem resolve_eq_error_iff :
    resolve body = .error defect ↔
      ∃ pieces rest,
        body = Piece.body pieces ++ rest ∧
          BadBackslash rest defect defect.reason := by
  constructor
  · intro refused
    obtain ⟨⟨pieces, rest, stops⟩, rfl⟩ := exists_cut body
    rw [Cut.body, resolve_body_append] at refused
    cases stops with
    | ended => cases refused
    | bad isBad =>
        obtain ⟨restRefused, rfl⟩ := isBad.resolve_eq
        rw [restRefused] at refused
        cases refused
        exact ⟨pieces, rest, rfl, isBad⟩
  · rintro ⟨pieces, rest, rfl, isBad⟩
    rw [resolve_body_append, isBad.resolve_eq.1]
    rfl

end Reading

section Cutting

variable {rest otherRest : Text}

/-- A text begins with one piece only. -/
theorem Piece.spelling_append_inj
    {piece other : Piece}
    (same : piece.spelling ++ rest = other.spelling ++ otherRest) :
    piece = other ∧ rest = otherRest := by
  cases piece with
  | escape escaped value listed =>
      cases other with
      | escape otherEscaped otherValue otherListed =>
          cases same
          have sameValue :=
            (meaning?_eq_some_iff.mpr listed).symm.trans
              (meaning?_eq_some_iff.mpr otherListed)
          cases sameValue
          exact ⟨rfl, rfl⟩
      | single unit noBackslash =>
          exact absurd (List.cons.inj same).1.symm noBackslash
  | single unit noBackslash =>
      cases other with
      | escape => exact absurd (List.cons.inj same).1 noBackslash
      | single =>
          cases same
          exact ⟨rfl, rfl⟩

/-- Where pieces stop, no other piece begins. -/
theorem StopsPieces.ne_spelling_append
    (stops : StopsPieces rest)
    (piece : Piece)
    (others : Text) :
    rest ≠ piece.spelling ++ others := by
  intro begins
  cases stops with
  | ended => cases piece <;> cases begins
  | bad isBad =>
      cases piece with
      | escape _ value listed =>
          cases isBad with
          | unterminated => cases begins
          | unknown unlisted =>
              cases begins
              exact unlisted value listed
      | single _ noBackslash =>
          -- A bad backslash is a backslash all the same, and no single unit is.
          cases isBad <;> exact noBackslash (List.cons.inj begins).1.symm

/-- A body determines its pieces and what follows them. -/
theorem body_append_inj
    (stops : StopsPieces rest)
    (otherStops : StopsPieces otherRest)
    {pieces others : List Piece}
    (same : Piece.body pieces ++ rest = Piece.body others ++ otherRest) :
    pieces = others ∧ rest = otherRest := by
  induction pieces generalizing others with
  | nil =>
      cases others with
      | nil => exact ⟨rfl, same⟩
      | cons other others =>
          rw [Piece.body_cons, List.append_assoc] at same
          exact absurd same (stops.ne_spelling_append other _)
  | cons piece pieces inductionHypothesis =>
      rw [Piece.body_cons, List.append_assoc] at same
      cases others with
      | nil => exact absurd same.symm (otherStops.ne_spelling_append piece _)
      | cons other others =>
          rw [Piece.body_cons, List.append_assoc] at same
          obtain ⟨rfl, sameRest⟩ := Piece.spelling_append_inj same
          obtain ⟨rfl, sameStop⟩ := inductionHypothesis sameRest
          exact ⟨rfl, sameStop⟩

/-- A body is cut in one way only. -/
theorem Cut.eq_of_body_eq {cut other : Cut} (same : cut.body = other.body) :
    cut = other := by
  obtain ⟨samePieces, sameRest⟩ := body_append_inj cut.stops other.stops same
  exact Cut.ext samePieces sameRest

end Cutting

/--
Escapes are resolved exactly.

Every body is a row of pieces up to its end or up to a bad backslash, in one way only. It
is read exactly if the row is all of it, as the text that the pieces stand for, and it is
refused exactly if a bad backslash follows the row, for what that backslash lacks. What
follows a body that is read is read or refused as if it stood alone. Every text is read
from what is written for it.
-/
theorem escapes_are_resolved_exactly :
    (∀ body, ∃! cut : Cut, cut.body = body) ∧
    (∀ body text,
      resolve body = .ok text ↔
        ∃ pieces, body = Piece.body pieces ∧ text = Piece.text pieces) ∧
    (∀ body defect,
      resolve body = .error defect ↔
        ∃ pieces rest,
          body = Piece.body pieces ++ rest ∧
            BadBackslash rest defect defect.reason) ∧
    (∀ first text,
      resolve first = .ok text →
      ∀ second, resolve (first ++ second) = (text ++ ·) <$> resolve second) ∧
    ∀ text, resolve (write text) = .ok text := by
  refine ⟨?_, ?_, fun _ _ => resolve_eq_error_iff, ?_, resolve_write⟩
  · intro body
    obtain ⟨cut, rfl⟩ := exists_cut body
    exact ⟨cut, rfl, fun _ same => Cut.eq_of_body_eq same⟩
  · intro body text
    exact resolve_eq_ok_iff.trans standsFor_iff
  · intro first text read second
    exact (resolve_eq_ok_iff.mp read).resolve_append second

/-- After a pair of backslashes, an escape is read and half of a character is refused. -/
theorem half_character_is_refused :
    resolve "a\\\\" = .ok "a\\" ∧
      resolve "a\\\\\\n" = .ok "a\\\n" ∧
      resolve "a\\\\\\😀" = .error (.unknown 0xD83D) := by
  have read : resolve "a\\\\" = .ok "a\\" := rfl
  refine ⟨read, ?_, ?_⟩
  · exact escapes_are_resolved_exactly.2.2.2.1 _ _ read "\\n"
  · exact escapes_are_resolved_exactly.2.2.2.1 _ _ read "\\😀"

end Escape

end StackCode
