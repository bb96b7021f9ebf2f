import StackCode.Instruction.Basic
import StackCode.Text.Escape
import StackCode.Text.Literal

namespace StackCode

/-!
# Statements

A source line holds at most one statement: an instruction, a label definition, a
string to push or a breakpoint. `Statement.Defect` lists what can be wrong with a
line, and `Statement.Defect.reason` words it.
-/

/-- What a `PUSH` pushes. -/
inductive Operand where
  /-- A word that the line spells. -/
  | word (value : Word)
  /-- The address of a label. -/
  | label (name : Text)
  deriving Repr, DecidableEq

/-- What a source line says. -/
inductive Statement where
  /-- Emit a `PUSH`. -/
  | push (operand : Operand)
  /-- Emit an operation. -/
  | operate (operation : Operation)
  /-- Name the address of the next instruction. -/
  | label (name : Text)
  /-- Emit the instructions that push a text. -/
  | string (text : Text)
  /-- Stop before the next instruction. -/
  | breakpoint
  deriving Repr, DecidableEq

namespace Statement

/-- Why a line holds no statement. -/
inductive Defect where
  /-- A colon stands without a name before it. -/
  | emptyLabel
  /-- A label would be read as a number where it is used. -/
  | literalLabel (name : Text)
  /-- A token follows a label. -/
  | unexpectedAfterLabel (token : Text)
  /-- No directive has the name. -/
  | unknownDirective (name : Text)
  /-- A token follows a breakpoint. -/
  | unexpectedAfterBreakpoint (token : Text)
  /-- A string directive stands without a string. -/
  | missingString
  /-- A token stands where a string is expected. -/
  | notAString (token : Text)
  /-- No token ends the string. -/
  | unterminatedString
  /-- The string has an escape that cannot be read. -/
  | escape (defect : Escape.Defect)
  /-- More tokens follow than a statement takes. -/
  | tooManyArguments (token : Text)
  /-- No instruction has the mnemonic. -/
  | unknownMnemonic (token : Text)
  /-- A token follows an operation. -/
  | superfluousArgument (operation : Operation) (token : Text)
  /-- `PUSH` stands without an operand. -/
  | missingArgument
  /-- An operand is a number that is no word. -/
  | literal (refusal : Literal.OutOfRange)
  deriving Repr, DecidableEq

/-- The wording of a line's defect. -/
def Defect.reason : Defect → Text
  | .emptyLabel => "empty label name"
  | .literalLabel name =>
      Text.concat ["label name `", name, "` is an integer literal"]
  | .unexpectedAfterLabel token =>
      Text.concat ["unexpected `", token, "` after label"]
  | .unknownDirective name =>
      Text.concat ["no such metainstruction `@", name, "`"]
  | .unexpectedAfterBreakpoint token =>
      Text.concat ["`@Break` takes no argument, found `", token, "`"]
  | .missingString => "`@PushStr` expects one string argument"
  | .notAString token =>
      Text.concat ["expected string literal, found `", token, "`"]
  | .unterminatedString => "unterminated string literal"
  | .escape defect => defect.reason
  | .tooManyArguments token =>
      Text.concat ["too many arguments: `", token, "`"]
  | .unknownMnemonic token => Text.concat ["no such mnemonic `", token, "`"]
  | .superfluousArgument operation token =>
      Text.concat
        ["`", operation.mnemonic, "` takes no argument, found `", token, "`"]
  | .missingArgument => Instruction.OperandDefect.missing.reason
  | .literal refusal => refusal.reason

end Statement

end StackCode
