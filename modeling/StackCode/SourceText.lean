import StackCode.Listing
import StackCode.Text.Line

namespace StackCode

/-!
# The source text of a program

Every instruction is written on an indented line of its own. The name of an
address and its breakpoint come on the lines before it; those of the address after
the last instruction come at the end. Operands are written as numbers.
-/

namespace SourceText

/-- What stands before a statement on its line. -/
def indent : Text := "    "

/-- The lines for an address's annotations. -/
def annotationLines (annotations : Annotations) (address : Int) : List Text :=
  Listing.labelLine annotations address ++
    if annotations.breaksAt address then [indent ++ "@Break"] else []

/-- The lines of a program with its annotations. -/
def lines (program : Program) (annotations : Annotations) : List Text :=
  (program.toList.zipIdx.flatMap fun (instruction, address) =>
    annotationLines annotations address ++
      [indent ++ instruction.sourceText]) ++
    annotationLines annotations program.size

/-- The source text of a program with its annotations. -/
def write (program : Program) (annotations : Annotations) : Text :=
  Text.ofLines (lines program annotations)

end SourceText

end StackCode
