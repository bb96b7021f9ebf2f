import StackCode.Machine.Session
import StackCode.Text.Line
import StackCode.Text.Utf8

namespace StackCode

/-!
# Answers on a console

A console answers a question with a line of its input. A line that cannot be
understood is complained about, and the question is asked again; the end of input
means not to go on. Each line is read with its line end and nothing beyond it.
-/

/-- What a line of input means as an answer. -/
inductive Answer where
  /-- Go on. -/
  | proceed
  /-- Do not go on. -/
  | abort
  /-- Neither. -/
  | unclear
  deriving Repr, DecidableEq

namespace Answer

/-- What a line means, whatever its case and the blanks around it. -/
def ofLine (line : Text) : Answer :=
  let word := line.trim.map CodeUnit.lowerCase
  if word = [] ∨ word = "y" ∨ word = "yes" then
    .proceed
  else if word = "n" ∨ word = "no" then
    .abort
  else
    .unclear

/-- What input means; its end means not to go on. -/
def ofInput : Option Text → Answer
  | none => .abort
  | some line => ofLine line

end Answer

/-- A console with input that has not been read. -/
structure Console where
  unread : Bytes
  deriving Repr, DecidableEq

namespace Console

/-- The octet that ends a line. -/
def lineEnd : UInt8 := 0x0A

/-- Read a line: the line without its end, and the input after it. -/
def readLine? : Bytes → Option (Text × Bytes)
  | [] => none
  | first :: later =>
      let input := first :: later
      let line := Utf8.decode (input.takeWhile (· != lineEnd))
      match input.dropWhile (· != lineEnd) with
      | [] => some (line, [])
      | _ :: rest => some (line.dropReturn, rest)

/-- A line takes something from the input. -/
theorem length_lt_of_readLine?
    {input rest : Bytes}
    {line : Text}
    (read : readLine? input = some (line, rest)) :
    rest.length < input.length := by
  cases input with
  | nil => simp [readLine?] at read
  | cons first later =>
      have shorter :
          ((first :: later).dropWhile (· != lineEnd)).length ≤
            (first :: later).length :=
        (List.dropWhile_sublist _).length_le
      simp only [readLine?] at read
      split at read
      · simp only [Option.some.injEq, Prod.mk.injEq] at read
        simp [← read.2]
      · next dropped =>
          simp only [Option.some.injEq, Prod.mk.injEq] at read
          rw [dropped] at shorter
          simp only [← read.2, List.length_cons] at shorter ⊢
          omega

/-- All lines of input, without their ends. -/
def lines (input : Bytes) : List Text :=
  match read : readLine? input with
  | none => []
  | some (line, rest) =>
      have := length_lt_of_readLine? read
      line :: lines rest
termination_by input.length

/-- What is written before an answer is read. -/
def promptText (question : Text) : Text :=
  question ++ " [Y/n] "

/-- What is written after a line that cannot be understood. -/
def complaint : Text := "please answer y or n\n"

/-- Ask until a line can be understood or the input ends. -/
def confirm (question : Text) (input : Bytes) : Reply Console :=
  match read : readLine? input with
  | none =>
      { proceed := false
        written := [promptText question]
        rest := { unread := [] } }
  | some (line, rest) =>
      have := length_lt_of_readLine? read
      match Answer.ofLine line with
      | .proceed =>
          { proceed := true
            written := [promptText question]
            rest := { unread := rest } }
      | .abort =>
          { proceed := false
            written := [promptText question]
            rest := { unread := rest } }
      | .unclear =>
          let reply := confirm question rest
          { reply with
            written := promptText question :: complaint :: reply.written }
termination_by input.length

instance : Respondent Console where
  confirm console question := confirm question console.unread

end Console

end StackCode
