import Mathlib.Data.List.Nodup
import StackCode.Proofs.BackPatching
import StackCode.Proofs.WrittenLines

namespace StackCode

/-!
# Written programs assemble back

The source text of a program assembles to the program and to all annotations
within it, as long as the names there can be written: each can be a label's and
no two addresses share one. Assembly makes no other names, so what any source
assembles to can be written and assembled again, and the second text is the
first one.
-/

namespace Annotations

variable {annotations : Annotations}

/-- The names below a bound, without their addresses. -/
theorem map_fst_namesBelow (annotations : Annotations) (bound : Nat) :
    (annotations.namesBelow bound).map Prod.fst =
      (List.range bound).filterMap fun (address : Nat) =>
        annotations.labelAt? address := by
  rw [namesBelow, List.map_filterMap]
  congr 1
  funext address
  rw [Option.map_map]
  exact Option.map_id'

/--
The debugger stops at its breakpoints from the first address to a last one.
-/
theorem exists_mem_stopsBelow {last : Nat} {address : Int} :
    (∃ stop ∈ annotations.stopsBelow (last + 1), (stop : Int) = address) ↔
      (0 ≤ address ∧ address ≤ last) ∧ address ∈ annotations.breakpoints := by
  simp only [stopsBelow, List.mem_filter, List.mem_range, breaksAt,
    decide_eq_true_eq]
  constructor
  · rintro ⟨stop, ⟨within, breaks⟩, rfl⟩
    exact ⟨by omega, breaks⟩
  · rintro ⟨within, breaks⟩
    have isNat : (address.toNat : Int) = address := Int.toNat_of_nonneg within.1
    refine ⟨address.toNat, ⟨by omega, ?_⟩, isNat⟩
    rw [isNat]
    exact breaks

/-- Well-named annotations name no two addresses alike. -/
theorem WellNamed.nodup_names
    {last : Nat}
    (wellNamed : annotations.WellNamed last) :
    ((annotations.namesBelow (last + 1)).map Prod.fst).Nodup := by
  rw [map_fst_namesBelow]
  refine List.pairwise_filterMap.mpr ?_
  refine List.Pairwise.imp_of_mem ?_ (List.nodup_range (n := last + 1))
  intro first second firstMember secondMember differ name named other otherNamed
  rintro rfl
  exact differ
    (wellNamed.distinct first second name
      (Nat.le_of_lt_succ (List.mem_range.mp firstMember))
      (Nat.le_of_lt_succ (List.mem_range.mp secondMember))
      named otherNamed)

/-- Nothing is named where there are no annotations. -/
theorem wellNamed_empty (last : Nat) : WellNamed {} last where
  isLabelName := by
    intro address name _ named
    cases named
  distinct := by
    intro first second name _ _ named
    cases named

end Annotations

namespace SourceText

/--
Only the annotations from the first address to the one after the last are
written.
-/
theorem lines_congr
    {program : Program}
    {annotations others : Annotations}
    (sameNames :
      ∀ address : Nat,
        address ≤ program.size →
        annotations.labelAt? address = others.labelAt? address)
    (sameStops :
      ∀ address : Nat,
        address ≤ program.size →
        annotations.breaksAt address = others.breaksAt address) :
    lines program annotations = lines program others := by
  have same (address : Nat) (within : address ≤ program.size) :
      annotationLines annotations address = annotationLines others address := by
    rw [annotationLines, annotationLines, Listing.labelLine, Listing.labelLine,
      sameNames address within, sameStops address within]
  rw [lines, lines, same program.size (Nat.le_refl _)]
  congr 1
  rw [List.flatMap_def, List.flatMap_def]
  refine congrArg List.flatten (List.map_congr_left fun entry member => ?_)
  have within : entry.2 < program.size := List.snd_lt_of_mem_zipIdx member
  simp only [same entry.2 (Nat.le_of_lt within)]

end SourceText

namespace TwoPass

variable {statements : List Statement}

/--
Where statements define the names below a bound, they name the addresses below
it.
-/
theorem nameAt?_of_namesBelow
    {annotations : Annotations}
    {bound : Nat}
    (defined : definitions statements = annotations.namesBelow bound)
    (address : Int) :
    nameAt? statements address =
      if 0 ≤ address ∧ address < bound then
        annotations.labelAt? address
      else
        none := by
  rw [nameAt?, defined]
  clear defined
  induction bound with
  | zero =>
      rw [if_neg (by omega)]
      rfl
  | succ bound inductionHypothesis =>
      rw [Annotations.namesBelow_succ, List.reverse_append]
      by_cases here : address = bound
      · rw [if_pos (by omega), here]
        rw [here, if_neg (by omega)] at inductionHypothesis
        cases named : annotations.labelAt? bound with
        | none => simpa using inductionHypothesis
        | some name => simp
      · have elsewhere :
            (0 ≤ address ∧ address < (bound + 1 : Nat)) ↔
              0 ≤ address ∧ address < bound := by
          omega
        rw [if_congr elsewhere rfl rfl, ← inductionHypothesis]
        cases annotations.labelAt? bound with
        | none => rfl
        | some name => simp [Ne.symm here]

/-- A name that lines define can be a label's. -/
theorem isLabelName_of_defined
    {lines : List Text}
    {name : Text}
    (defined : name ∈ (statementsOf lines).filterMap Statement.defines?) :
    Statement.IsLabelName name := by
  obtain ⟨statement, held, defines⟩ := List.mem_filterMap.mp defined
  obtain ⟨line, _, holds⟩ := List.mem_filterMap.mp held
  have read := read_of_held holds
  cases statement with
  | label other =>
      cases defines
      exact Statement.isLabelName_of_ofLine read
  | _ => cases defines

/-- The name of an address stands with it among the definitions. -/
theorem mem_definitions_of_nameAt?
    {address : Nat}
    {name : Text}
    (named : nameAt? statements address = some name) :
    (name, address) ∈ definitions statements := by
  obtain ⟨entry, found, rfl⟩ := Option.map_eq_some_iff.mp named
  have member := List.mem_reverse.mp (List.mem_of_find?_eq_some found)
  have holds := List.find?_some found
  have same : entry.2 = address := Int.ofNat.inj (of_decide_eq_true holds)
  rw [← same]
  exact member

namespace LaysOut

variable
  {annotations : Annotations}
  {program : Program}
  (laidOut :
    LaysOut annotations (program.size + 1) (program.size + 1) program.toList
      statements)

include laidOut

/-- What lays a program out emits it. -/
theorem program_eq : TwoPass.program statements = program := by
  rw [TwoPass.program, laidOut.emitted]

/-- Where all operands are words no name is left to resolve. -/
theorem unresolved_eq_nil : unresolved statements = [] := by
  rw [unresolved, referredNames, laidOut.references]
  rfl

/-- Addresses of the program keep their names, and no others have any. -/
theorem labelAt?_eq (address : Int) :
    (TwoPass.annotations statements).labelAt? address =
      if 0 ≤ address ∧ address ≤ program.size then
        annotations.labelAt? address
      else
        none := by
  rw [labelAt?_annotations, nameAt?_of_namesBelow laidOut.definitions]
  exact if_congr (by omega) rfl rfl

/-- Addresses of the program keep their breakpoints, and no others have any. -/
theorem mem_breakpoints_iff (address : Int) :
    address ∈ (TwoPass.annotations statements).breakpoints ↔
      (0 ≤ address ∧ address ≤ program.size) ∧
        address ∈ annotations.breakpoints := by
  rw [mem_breakpoints_annotations, laidOut.breakpoints,
    Annotations.exists_mem_stopsBelow]

/-- What is assembled is written as what was assembled. -/
theorem lines_eq :
    SourceText.lines program (TwoPass.annotations statements) =
      SourceText.lines program annotations := by
  apply SourceText.lines_congr <;> intro address within
  · rw [laidOut.labelAt?_eq, if_pos (by omega)]
  · refine decide_eq_decide.mpr ((laidOut.mem_breakpoints_iff address).trans ?_)
    exact and_iff_right (by omega)

end LaysOut

/-- Assembly names addresses so that they can be written. -/
theorem wellNamed_annotations
    {lines : List Text}
    (free : FreeOfDefects lines)
    (last : Nat) :
    (TwoPass.annotations (statementsOf lines)).WellNamed last where
  isLabelName := by
    intro address name _ named
    rw [labelAt?_annotations] at named
    have member :=
      List.mem_map_of_mem (f := Prod.fst) (mem_definitions_of_nameAt? named)
    rw [map_fst_definitions] at member
    exact isLabelName_of_defined member
  distinct := by
    intro first second name _ _ firstNamed secondNamed
    rw [labelAt?_annotations] at firstNamed secondNamed
    have nodup := free.nodup_defines
    rw [← map_fst_definitions] at nodup
    have same :=
      List.inj_on_of_nodup_map nodup
        (mem_definitions_of_nameAt? firstNamed)
        (mem_definitions_of_nameAt? secondNamed) rfl
    exact congrArg Prod.snd same

end TwoPass

/--
A program's source text, written with annotations, assembles back: to the
program, to the names and breakpoints from its first address to the one after
its last instruction and to no others, and so to the same text.
-/
structure AssemblesBack
    (file : Text)
    (program : Program)
    (annotations : Annotations)
    (assembly : Assembly) :
    Prop where
  assembled :
    Assembly.ofSource file (SourceText.write program annotations) = .ok assembly
  sameProgram : assembly.program = program
  labelTable :
    assembly.labels =
      (List.range (program.size + 1)).filterMap fun (address : Nat) =>
        (annotations.labelAt? address).map fun name => (name, address)
  names :
    ∀ address : Int,
      assembly.annotations.labelAt? address =
        if 0 ≤ address ∧ address ≤ program.size then
          annotations.labelAt? address
        else
          none
  stops :
    ∀ address : Int,
      address ∈ assembly.annotations.breakpoints ↔
        (0 ≤ address ∧ address ≤ program.size) ∧
          address ∈ annotations.breakpoints
  again :
    SourceText.write assembly.program assembly.annotations =
      SourceText.write program annotations

/-- Every program assembles back from its source text with writable names. -/
theorem assemblesBack_of_wellNamed
    (file : Text)
    (program : Program)
    {annotations : Annotations}
    (wellNamed : annotations.WellNamed program.size) :
    ∃ assembly, AssemblesBack file program annotations assembly := by
  have laidOut := TwoPass.laysOut_statements annotations program.toList
  have spell := SourceText.lines_spell program wellNamed
  have held := spell.statementsOf_eq
  have lines :
      (SourceText.write program annotations).lines =
        SourceText.lines program annotations :=
    Text.lines_ofLines spell.areLines
  generalize SourceText.statements program.toList annotations = statements at *
  rw [Array.length_toList] at laidOut
  have free : TwoPass.FreeOfDefects (SourceText.lines program annotations) := by
    refine spell.freeOfDefects ?_
    rw [← TwoPass.map_fst_definitions, laidOut.definitions]
    exact wellNamed.nodup_names
  have resolved := laidOut.unresolved_eq_nil
  refine
    ⟨TwoPass.assembly statements,
      { assembled := ?_
        sameProgram := laidOut.program_eq
        labelTable := laidOut.definitions
        names := laidOut.labelAt?_eq
        stops := laidOut.mem_breakpoints_iff
        again := ?_ }⟩
  · rw [← held] at resolved ⊢
    rw [← lines] at free resolved ⊢
    exact TwoPass.ofSource_of_resolved file free resolved
  · change SourceText.write (TwoPass.program statements) _ = _
    rw [laidOut.program_eq, SourceText.write, SourceText.write]
    exact congrArg Text.ofLines laidOut.lines_eq

/--
Whatever is written assembles back.

A program's text does with all annotations whose names can be written, and with
none at all. Whatever a source assembles to has such names only, so it does as
well.
-/
theorem source_text_assembles_back (file : Text) :
    (∀ (program : Program) (annotations : Annotations),
      annotations.WellNamed program.size →
      ∃ assembly, AssemblesBack file program annotations assembly) ∧
    (∀ (origin source : Text) (assembly : Assembly),
      Assembly.ofSource origin source = .ok assembly →
      assembly.annotations.WellNamed assembly.program.size ∧
        ∃ again,
          AssemblesBack file assembly.program assembly.annotations again) ∧
    (∀ program : Program,
      ∃ assembly,
        AssemblesBack file program {} assembly ∧
          assembly.labels = [] ∧
          assembly.annotations.breakpoints = ∅ ∧
          ∀ address, assembly.annotations.labelAt? address = none) := by
  refine ⟨?_, ?_, ?_⟩
  · intro program annotations wellNamed
    exact assemblesBack_of_wellNamed file program wellNamed
  · intro origin source assembly assembled
    obtain ⟨free, rfl⟩ := TwoPass.resolved_of_ofSource origin assembled
    have wellNamed := TwoPass.wellNamed_annotations free
    exact ⟨wellNamed _, assemblesBack_of_wellNamed file _ (wellNamed _)⟩
  · intro program
    obtain ⟨assembly, back⟩ :=
      assemblesBack_of_wellNamed file program (Annotations.wellNamed_empty _)
    refine ⟨assembly, back, ?_, ?_, ?_⟩
    · rw [back.labelTable]
      exact List.filterMap_eq_nil_iff.mpr fun _ _ => rfl
    · have noStops : ∀ address, address ∉ assembly.annotations.breakpoints := by
        intro address member
        have emptyMember := ((back.stops address).mp member).2
        exact AddressSet.not_mem_empty address emptyMember
      exact AddressSet.ext (List.eq_nil_iff_forall_not_mem.mpr noStops)
    · intro address
      rw [back.names, Annotations.labelAt?_empty, ite_self]

/--
A name with a directive mark, a semicolon, a quote and a colon assembles back.
-/
theorem odd_name_assembles_back :
    ∃ assembly,
      AssemblesBack "odd.asm" #[.push (Word.wrap (-9223372036854775808))]
        { names := [(1, "@a;\":")] } assembly := by
  refine (source_text_assembles_back "odd.asm").1 _ _ ?_
  have onlyName (address : Nat) (name : Text)
      (named :
        Annotations.labelAt? { names := [(1, "@a;\":")] } address = some name) :
      address = 1 ∧ name = "@a;\":" := by
    rw [Annotations.labelAt?, List.lookup_cons] at named
    split at named
    next same =>
      cases named
      exact ⟨Int.ofNat.inj (beq_iff_eq.mp same), rfl⟩
    next => cases named
  have noneBlank :
      List.all ("@a;\":" : Text) (fun unit => !unit.isBlank) = true := by
    decide
  constructor
  · intro address name _ named
    rw [(onlyName address name named).2]
    exact
      { nonempty := by decide
        noBlank := fun unit member =>
          (Bool.not_eq_true' _).mp (List.all_eq_true.mp noneBlank unit member)
        noComment := by decide
        noLiteral := by decide }
  · intro first second name _ _ firstNamed secondNamed
    rw [(onlyName first name firstNamed).1,
      (onlyName second name secondNamed).1]

end StackCode
