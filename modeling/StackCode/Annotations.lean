import StackCode.Address

namespace StackCode

/-!
# Annotations of a program

What a debugger knows beside the instructions: addresses to stop at, names of
addresses, and whether it shows listings and stops at all. An address has one name
at most, the last that it was given. Annotations do not change what a program
does.
-/

/-- Breakpoints, address names and the verbosity of a debugging session. -/
structure Annotations where
  breakpoints : AddressSet := ∅
  /-- Address names, the latest given first. -/
  names : List (Int × Text) := []
  verbose : Bool := false
  deriving DecidableEq

namespace Annotations

instance : Inhabited Annotations where
  default := {}

/-- Stop at one address more. -/
def addBreakpoint (address : Int) (annotations : Annotations) : Annotations :=
  { annotations with breakpoints := annotations.breakpoints.insert address }

/-- Whether the debugger stops at an address. -/
def breaksAt (annotations : Annotations) (address : Int) : Bool :=
  decide (address ∈ annotations.breakpoints)

/-- Name an address; an earlier name of it is forgotten. -/
def addLabel
    (address : Int)
    (name : Text)
    (annotations : Annotations) :
    Annotations :=
  { annotations with names := (address, name) :: annotations.names }

/-- The name of an address. -/
def labelAt? (annotations : Annotations) (address : Int) : Option Text :=
  annotations.names.lookup address

/-- Show listings and stop at breakpoints, or do neither. -/
def setVerbose (verbose : Bool) (annotations : Annotations) : Annotations :=
  { annotations with verbose := verbose }

/-- Nothing has a name at first. -/
@[simp] theorem labelAt?_empty (address : Int) :
    ({} : Annotations).labelAt? address = none :=
  rfl

/-- A new name replaces the old one of its address and no other. -/
theorem labelAt?_addLabel
    (annotations : Annotations)
    (address other : Int)
    (name : Text) :
    (annotations.addLabel address name).labelAt? other =
      if other = address then some name else annotations.labelAt? other := by
  simp only [labelAt?, addLabel, List.lookup_cons]
  by_cases same : other = address
  · simp [same]
  · have differ : (other == address) = false := beq_eq_false_iff_ne.mpr same
    simp [same, differ]

/-- Breakpoints leave names alone. -/
@[simp] theorem labelAt?_addBreakpoint
    (annotations : Annotations)
    (address other : Int) :
    (annotations.addBreakpoint address).labelAt? other =
      annotations.labelAt? other :=
  rfl

/-- A new breakpoint adds its address and no other. -/
theorem breaksAt_addBreakpoint
    (annotations : Annotations)
    (address other : Int) :
    (annotations.addBreakpoint address).breaksAt other =
      (decide (other = address) || annotations.breaksAt other) := by
  simp [breaksAt, addBreakpoint]

/-- Names leave breakpoints alone. -/
@[simp] theorem breaksAt_addLabel
    (annotations : Annotations)
    (address other : Int)
    (name : Text) :
    (annotations.addLabel address name).breaksAt other =
      annotations.breaksAt other :=
  rfl

end Annotations

end StackCode
