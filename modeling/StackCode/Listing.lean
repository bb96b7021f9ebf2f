import StackCode.Annotations
import StackCode.Instruction.Basic

namespace StackCode

/-!
# Listings

A listing has a line for each instruction: its address, a mark where the machine
stands, a star at a breakpoint, and the instruction. The name of an address stands
on a line of its own before it. `Listing.stack` shows a stack and
`Listing.state` shows both under headings, as a debugger prints them.
-/

namespace Listing

/-- The columns of a heading where no other width is asked for. -/
def defaultWidth : Int := 80

/-- The line that names an address, where it has a name. -/
def labelLine (annotations : Annotations) (address : Int) : List Text :=
  match annotations.labelAt? address with
  | none => []
  | some name => [name ++ [CodeUnit.ofChar ':']]

/-- The line of an instruction. -/
def instructionLine
    (annotations : Annotations)
    (current : Option Int)
    (address : Int)
    (instruction : Instruction) :
    Text :=
  Text.joined [CodeUnit.space]
    [addressText address,
      if current = some address then ">>" else "  ",
      if annotations.breaksAt address then "*" else " ",
      instruction.listingText]

/-- The lines of a program; `current` is the address that is marked, if any. -/
def program
    (program : Program)
    (annotations : Annotations)
    (current : Option Int) :
    List Text :=
  program.toList.zipIdx.flatMap fun (instruction, address) =>
    labelLine annotations address ++
      [instructionLine annotations current address instruction]

/-- The columns of an entry's index and what separates it from the value. -/
def indexColumns : Nat := 6

/-- The lines of a stack, given with its bottom first. -/
def stack (values : List Word) : List Text :=
  if values.isEmpty then
    ["<no entries>"]
  else
    values.zipIdx.map fun (value, index) =>
      (addressText index).padRight indexColumns ++ Word.text value

/--
A title between two equal runs of colons.

Each run takes half of the width less half of the title and one space; halves are
rounded down, and a run that would be shorter than nothing is empty.
-/
def heading (title : Text) (width : Int) : Text :=
  let run : Text :=
    List.replicate (width / 2 - (title.length / 2 : Nat) - 1).toNat
      (CodeUnit.ofChar ':')
  Text.joined [CodeUnit.space] [run, title, run]

/-- The listing and the stack that a debugger prints; the stack's bottom is first. -/
def state
    (instructions : Program)
    (annotations : Annotations)
    (current : Option Int)
    (values : List Word)
    (width : Int) :
    Text :=
  Text.joined [CodeUnit.lineFeed]
    ([[], heading "Instructions" width, []] ++
      program instructions annotations current ++
      [[], heading "Stack" width, []] ++
      stack values ++ [[]])

end Listing

end StackCode
