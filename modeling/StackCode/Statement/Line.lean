import StackCode.Statement.Basic
import StackCode.Text.Blank

namespace StackCode

/-!
# Reading a line

A line is read through its tokens, the runs between blanks, so blanks matter in a
string only, and there a run of them counts as one space. A token that begins with
a semicolon ends the line where a statement could end; inside a string it is part
of the string. The first token decides what kind of statement a line holds.
-/

namespace Statement

/-- What a comment begins with. -/
def commentMark : CodeUnit := CodeUnit.ofChar ';'

/-- What a label definition ends with. -/
def labelMark : CodeUnit := CodeUnit.ofChar ':'

/-- What a directive begins with. -/
def directiveMark : CodeUnit := CodeUnit.ofChar '@'

/-- What a string literal begins and ends with. -/
def quote : CodeUnit := CodeUnit.ofChar '"'

/-- The directive that pushes a string. -/
def stringDirective : Text := "PushStr"

/-- The directive that sets a breakpoint. -/
def breakpointDirective : Text := "Break"

/-- Whether a token begins a comment. -/
def isComment (token : Text) : Bool :=
  token.startsWith commentMark

/-- The tokens before the first that begins a comment. -/
def beforeComment (tokens : List Text) : List Text :=
  tokens.takeWhile fun token => !isComment token

/-- Whether a text that begins with a quote is a whole string literal. -/
def isClosed (literal : Text) : Bool :=
  decide (2 ≤ literal.length) && literal.endsWith quote

/--
Extend the beginning of a string literal by tokens until it is whole: the literal
and the tokens after it, or nothing if the tokens end first.
-/
def closeLiteral? (literal : Text) (tokens : List Text) :
    Option (Text × List Text) :=
  if isClosed literal then
    some (literal, tokens)
  else
    match tokens with
    | [] => none
    | token :: rest =>
        closeLiteral? (literal ++ CodeUnit.space :: token) rest

/-- What stands between the quotes of a string literal. -/
def literalBody (literal : Text) : Text :=
  (literal.drop 1).dropLast

/-- The label statement of a name and the tokens after it, comments taken off. -/
def labelOfTokens (name : Text) (rest : List Text) : Except Defect Statement :=
  if name.isEmpty then
    .error .emptyLabel
  else if (Literal.value? name).isSome then
    .error (.literalLabel name)
  else
    match rest with
    | token :: _ => .error (.unexpectedAfterLabel token)
    | [] => .ok (.label name)

/-- The string statement of the tokens after its directive. -/
def stringOfTokens : List Text → Except Defect Statement
  | [] => .error .missingString
  | token :: rest =>
      if isComment token then
        .error .missingString
      else if !token.startsWith quote then
        .error (.notAString token)
      else
        match closeLiteral? token rest with
        | none => .error .unterminatedString
        | some (literal, rest) =>
            match beforeComment rest with
            | token :: _ => .error (.tooManyArguments token)
            | [] =>
                match Escape.resolve (literalBody literal) with
                | .error defect => .error (.escape defect)
                | .ok text => .ok (.string text)

/-- The breakpoint statement of the tokens after its directive. -/
def breakpointOfTokens (rest : List Text) : Except Defect Statement :=
  match beforeComment rest with
  | token :: _ => .error (.unexpectedAfterBreakpoint token)
  | [] => .ok .breakpoint

/-- The statement of a directive's name and the tokens after it. -/
def directiveOfTokens (name : Text) (rest : List Text) : Except Defect Statement :=
  if name = stringDirective then
    stringOfTokens rest
  else if name = breakpointDirective then
    breakpointOfTokens rest
  else
    .error (.unknownDirective name)

/-- The operand that a token spells: a word if it is a literal, else a label. -/
def operandOfToken (token : Text) : Except Defect Operand :=
  match Literal.word? token with
  | .error refusal => .error (.literal refusal)
  | .ok none => .ok (.label token)
  | .ok (some value) => .ok (.word value)

/-- The statement of a mnemonic and the tokens after it, comments taken off. -/
def instructionOfTokens (mnemonic : Text) (rest : List Text) :
    Except Defect Statement :=
  match Opcode.ofMnemonic? mnemonic with
  | none => .error (.unknownMnemonic mnemonic)
  | some opcode =>
      match opcode, rest with
      | _, _ :: token :: _ => .error (.tooManyArguments token)
      | .operate operation, [] => .ok (.operate operation)
      | .operate operation, [token] =>
          .error (.superfluousArgument operation token)
      | .push, [] => .error .missingArgument
      | .push, [token] =>
          match operandOfToken token with
          | .error defect => .error defect
          | .ok operand => .ok (.push operand)

/-- The statement of a line's first token, which begins no comment, and the rest. -/
def ofHead (head : Text) (rest : List Text) : Except Defect Statement :=
  if head.endsWith labelMark then
    labelOfTokens head.dropLast (beforeComment rest)
  else if head.startsWith directiveMark then
    directiveOfTokens (head.drop 1) rest
  else
    instructionOfTokens head (beforeComment rest)

/-- The statement of a line's tokens; `none` where they hold none. -/
def ofTokens : List Text → Except Defect (Option Statement)
  | [] => .ok none
  | head :: rest =>
      if isComment head then
        .ok none
      else
        match ofHead head rest with
        | .error defect => .error defect
        | .ok statement => .ok (some statement)

/-- The statement of a line; `none` for a blank line and for a comment. -/
def ofLine (line : Text) : Except Defect (Option Statement) :=
  ofTokens line.tokens

end Statement

end StackCode
