import Mathlib.Data.List.Basic
import StackCode.Proofs.LabelReferences
import StackCode.Proofs.LaterLines
import StackCode.Proofs.SourceLayout

namespace StackCode

/-!
# Missing labels

A source that fails because names are used and never defined lacks nothing else: with
lines after it that define them, in the order in which the failure lists them, it
assembles. Each name then stands for the address after the last instruction, the
instructions that waited for one push that address, and all others are those that had
been emitted when the source failed.
-/

namespace Text

/-- After a break, what a text says follows what stands before the break. -/
theorem saidLines_append_after_break
    (source : Text)
    {ending : Text}
    (isBreak : IsBreak ending)
    (after : Text) :
    saidLines (source ++ (ending ++ after)) =
      saidLines source ++ saidLines after := by
  obtain ⟨before, piece, rfl, begins, noFeed⟩ := exists_unended source
  rw [List.append_assoc, saidLines_append begins, saidLines_append begins,
    saidLines_append_break noFeed isBreak, List.append_assoc]

end Text

/-- The lines that define the names of a table, in its order. -/
def PendingTable.definitionLines (pending : PendingTable) : List Text :=
  (pending.map Prod.fst).map Statement.definitionLine

namespace Draft

/-- Let names stand for the next address, one after the other. -/
def defineAll (draft : Draft) (names : List Text) : Draft :=
  names.foldl (fun reached name => reached.define name) draft

section DefineAll

variable (draft : Draft) (names : List Text)

/-- Definitions emit nothing. -/
@[simp] theorem size_defineAll :
    (draft.defineAll names).program.size = draft.program.size := by
  induction names generalizing draft with
  | nil => rfl
  | cons name rest inductionHypothesis =>
      exact (inductionHypothesis (draft.define name)).trans (size_patch _ _ _)

/-- All names are defined as the end of the program. -/
theorem labels_defineAll :
    (draft.defineAll names).labels =
      draft.labels ++ names.map fun name => (name, draft.program.size) := by
  induction names generalizing draft with
  | nil => exact (List.append_nil _).symm
  | cons name rest inductionHypothesis =>
      have sameSize : (draft.define name).program.size = draft.program.size :=
        size_patch _ _ _
      refine (inductionHypothesis (draft.define name)).trans ?_
      rw [sameSize, define, List.append_assoc, List.map_cons,
        List.singleton_append]

theorem breakpoints_defineAll :
    (draft.defineAll names).annotations.breakpoints =
      draft.annotations.breakpoints := by
  induction names generalizing draft with
  | nil => rfl
  | cons name rest inductionHypothesis =>
      exact inductionHypothesis (draft.define name)

/-- Nothing waits any more once all names that wait are defined. -/
theorem pending_defineAll
    (all : draft.pending.map Prod.fst ⊆ names) :
    (draft.defineAll names).pending = [] := by
  induction names generalizing draft with
  | nil => exact List.map_eq_nil_iff.mp (List.subset_nil.mp all)
  | cons name rest inductionHypothesis =>
      refine inductionHypothesis (draft.define name) ?_
      intro other member
      obtain ⟨entry, isEntry, rfl⟩ := List.mem_map.mp member
      obtain ⟨isOld, differs⟩ := PendingTable.mem_erase.mp isEntry
      have listed := all (List.mem_map_of_mem isOld)
      exact (List.mem_cons.mp listed).resolve_left differs

end DefineAll

/-- Lines that define new names one after the other are added without an error. -/
theorem addLines_definitionLines
    (file : Text)
    (number : Nat)
    {draft : Draft}
    {names : List Text}
    (areNames : ∀ name ∈ names, Statement.IsLabelName name)
    (once : names.Nodup)
    (undefined : ∀ name ∈ names, draft.labels.lookup name = none) :
    addLines file draft number (names.map Statement.definitionLine) =
      .ok (draft.defineAll names) := by
  induction names generalizing draft number with
  | nil => rfl
  | cons name rest inductionHypothesis =>
      obtain ⟨notInRest, restOnce⟩ := List.nodup_cons.mp once
      have read :
          Statement.ofLine (Statement.definitionLine name) =
            .ok (some (.label name)) :=
        Statement.ofLine_label (areNames name List.mem_cons_self)
      have step :
          draft.addLine (Statement.definitionLine name) =
            .ok (draft.define name) := by
        rw [addLine, read]
        exact
          add_label_eq_ok_iff.mpr ⟨undefined name List.mem_cons_self, rfl⟩
      have restUndefined :
          ∀ other ∈ rest, (draft.define name).labels.lookup other = none := by
        intro other member
        have differs : other ≠ name := by
          rintro rfl
          exact notInRest member
        simp only [define, LabelTable.lookup_append_singleton,
          undefined other (List.mem_cons_of_mem _ member), if_neg differs,
          Option.none_or]
      rw [List.map_cons, addLines, step]
      exact
        inductionHypothesis (number + 1)
          (fun other member => areNames other (List.mem_cons_of_mem _ member))
          restOnce restUndefined

/-- What an assembly makes of a draft in which names wait. -/
structure RepairedBy (draft : Draft) (assembly : Assembly) : Prop where
  sameSize : assembly.program.size = draft.program.size
  /-- What waited pushes the address after the last instruction. -/
  patched :
    ∀ entry ∈ draft.pending,
      ∀ address ∈ entry.2,
        assembly.program[address]? =
          some (.push (Word.wrap assembly.program.size))
  others :
    ∀ address,
      (∀ entry ∈ draft.pending, address ∉ entry.2) →
      assembly.program[address]? = draft.program[address]?
  /-- The names that waited stand for that address. -/
  defined :
    ∀ entry ∈ draft.pending,
      assembly.labels.lookup entry.1 = some assembly.program.size
  labels :
    assembly.labels =
      draft.labels ++
        draft.pending.map fun entry => (entry.1, assembly.program.size)
  stops :
    assembly.annotations.breakpoints = draft.annotations.breakpoints

/-- The assembly of a draft in which the names that wait are defined at the end. -/
def repaired (draft : Draft) : Assembly where
  program := (draft.defineAll (draft.pending.map Prod.fst)).program
  annotations := (draft.defineAll (draft.pending.map Prod.fst)).annotations
  labels := (draft.defineAll (draft.pending.map Prod.fst)).labels

/-- A draft in which all pending names have been defined can be finished. -/
theorem finish_defineAll (draft : Draft) :
    (draft.defineAll (draft.pending.map Prod.fst)).finish =
      .ok draft.repaired := by
  rw [finish, pending_defineAll draft _ (List.Subset.refl _)]
  rfl

/-- Names that all stand for one address are found there. -/
theorem lookup_map_const
    {pending : PendingTable}
    {entry : Text × List Nat}
    (member : entry ∈ pending)
    (address : Nat) :
    (pending.map fun other => (other.1, address)).lookup entry.1 =
      some address := by
  have byNames :
      (pending.map fun other => (other.1, address)) =
        (pending.map Prod.fst).map fun name => (name, address) := by
    rw [List.map_map]
    rfl
  rw [byNames]
  exact List.lookup_graph (fun _ => address) (List.mem_map_of_mem member)

/-- What repairs a sound draft changes nothing but what was pending. -/
theorem Sound.repairedBy
    {draft : Draft}
    (sound : draft.Sound)
    (continues :
      draft.Continues (draft.defineAll (draft.pending.map Prod.fst))) :
    draft.RepairedBy draft.repaired := by
  have size : draft.repaired.program.size = draft.program.size :=
    size_defineAll _ _
  have labels :
      draft.repaired.labels =
        draft.labels ++
          draft.pending.map fun entry => (entry.1, draft.program.size) := by
    refine (labels_defineAll _ _).trans ?_
    rw [List.map_map]
    rfl
  have defined :
      ∀ entry ∈ draft.pending,
        draft.repaired.labels.lookup entry.1 = some draft.program.size := by
    intro entry member
    rw [labels, List.lookup_append, sound.undefined entry member,
      Option.none_or, lookup_map_const member]
  refine
    { sameSize := size
      patched := ?_
      others := ?_
      defined := size ▸ defined
      labels := size ▸ labels
      stops := breakpoints_defineAll _ _ }
  · intro entry member address waits
    rw [← PendingTable.addressesOf_of_mem sound.pendingOnce member] at waits
    rw [size]
    exact (continues.patched _ _ (defined entry member) address waits).1
  · intro address apart
    by_cases within : address < draft.program.size
    · exact
        continues.kept address within fun _ waits =>
          apart _ (PendingTable.mem_of_waits waits) waits
    · rw [Array.getElem?_eq_none (Nat.le_of_not_lt within),
        Array.getElem?_eq_none (size ▸ Nat.le_of_not_lt within)]

/-- No line by itself is to blame for names that nothing defines. -/
theorem ne_unresolved_of_addLines
    {file : Text}
    {draft : Draft}
    {number : Nat}
    {lines : List Text}
    {error : AssemblyError}
    (failed : addLines file draft number lines = .error error)
    (pending : PendingTable) :
    error.defect ≠ .unresolvedLabels pending := by
  rcases defect_of_addLines failed with ⟨_, isStatement⟩ | ⟨_, _, isDuplicate⟩
  · rw [isStatement]
    rintro ⟨⟩
  · rw [isDuplicate]
    rintro ⟨⟩

end Draft

namespace Assembly

/-- A source whose names are not all defined has been read to its end. -/
theorem exists_draft_of_unresolved
    {file source : Text}
    {error : AssemblyError}
    {pending : PendingTable}
    (failed : ofSource file source = .error error)
    (unresolved : error.defect = .unresolvedLabels pending) :
    ∃ draft,
      Draft.addLines file {} 1 source.lines = .ok draft ∧
        draft.pending = pending := by
  unfold ofSource ofLines at failed
  cases added : Draft.addLines file {} 1 source.lines with
  | error other =>
      rw [added] at failed
      cases failed
      exact absurd unresolved (Draft.ne_unresolved_of_addLines added pending)
  | ok draft =>
      refine ⟨draft, rfl, ?_⟩
      rw [added] at failed
      unfold Draft.finish at failed
      cases none : draft.pending.isEmpty with
      | true =>
          simp only [none, if_true] at failed
          cases failed
      | false =>
          simp only [none] at failed
          cases failed
          exact AssemblyDefect.unresolvedLabels.inj unresolved

/-- What lines make of a draft is what a source assembles to that they follow. -/
theorem ofSource_of_continued
    (file : Text)
    {origin source ending after : Text}
    {number : Nat}
    {draft reached : Draft}
    {assembly : Assembly}
    (added : Draft.addLines origin {} 1 source.lines = .ok draft)
    (isBreak : Text.IsBreak ending)
    (continued : Draft.addLines origin draft number after.lines = .ok reached)
    (finished : reached.finish = .ok assembly) :
    ofSource file (source ++ (ending ++ after)) = .ok assembly := by
  rw [Draft.addLines_eq_ok_iff] at added continued
  refine (ofSource_eq_ok_iff _ _ _).mpr ⟨reached, ?_, finished⟩
  rw [Text.saidLines_append_after_break source isBreak, List.foldlM_append,
    Text.saidLines, Text.tokenLines, added]
  exact continued

/--
Every failure that comes from undefined names is repaired by defining them.

A source that fails so has been read to its end. Followed by a break and by lines
that define the names that the failure lists, in its order, it assembles. Every
address that the failure lists then pushes the address after the last instruction,
for which all of the names stand, and every other instruction is the one that had
been emitted. Such lines can always be written, because a line can define a name
exactly where a line can refer to it.
-/
theorem missing_labels_can_be_defined (file : Text) :
    (∀ (origin source : Text) (error : AssemblyError) (pending : PendingTable),
      ofSource origin source = .error error →
      error.defect = .unresolvedLabels pending →
      ∃ draft,
        Draft.addLines origin {} 1 source.lines = .ok draft ∧
          draft.pending = pending ∧
          (Text.ofLines pending.definitionLines).lines =
            pending.definitionLines ∧
          ∀ ending after : Text,
            Text.IsBreak ending →
            after.lines = pending.definitionLines →
            ∃ assembly,
              ofSource file (source ++ (ending ++ after)) = .ok assembly ∧
                draft.RepairedBy assembly) ∧
    ∀ name : Text,
      ((∃ line, Statement.ofLine line = .ok (some (.push (.label name)))) ↔
        Statement.ofLine (Statement.definitionLine name) =
          .ok (some (.label name))) ∧
      ((∃ line, Statement.ofLine line = .ok (some (.label name))) ↔
        Statement.ofLine (Statement.referenceLine name) =
          .ok (some (.push (.label name)))) := by
  constructor
  · intro origin source error pending failed unresolved
    obtain ⟨draft, added, rfl⟩ := exists_draft_of_unresolved failed unresolved
    have sound := Draft.Sound.empty.addLines added
    have areNames :
        ∀ name ∈ draft.pending.map Prod.fst, Statement.IsLabelName name := by
      have names : draft.NamesMeet Statement.IsLabelName :=
        Draft.NamesMeet.empty.addLines
          (fun _ _ _ _ => Statement.isLabelName_of_mentions) added
      exact List.forall_mem_map.mpr names.pending
    rw [PendingTable.definitionLines]
    refine ⟨draft, added, rfl, ?_, ?_⟩
    · refine Text.lines_ofLines (List.forall_mem_map.mpr ?_)
      exact fun name member =>
        Statement.isLine_definitionLine (areNames name member)
    · intro ending after isBreak afterLines
      have continued :=
        Draft.addLines_definitionLines origin 1 areNames sound.pendingOnce
          (List.forall_mem_map.mpr sound.undefined)
      rw [← afterLines] at continued
      exact
        ⟨draft.repaired,
          ofSource_of_continued file added isBreak continued
            draft.finish_defineAll,
          sound.repairedBy (sound.continues_addLines continued)⟩
  · intro name
    rw [← Statement.isLabelName_iff_referredTo,
      ← Statement.isLabelName_iff_defined]
    exact
      ⟨⟨Statement.ofLine_label, fun read => Statement.isLabelName_of_ofLine read⟩,
        ⟨Statement.ofLine_referenceLine,
          fun read => Statement.isLabelName_of_mentions read rfl⟩⟩

/-- References to names that look like a directive, a comment, a number or a string. -/
def oddReferences : Text :=
  "PUSH @x ; twice\nPUSH :\nPUSH 12;\nPUSH 0xg\nPUSH \"q\"\nPUSH @x"

/-- Lines that define them, the last of them without a break. -/
def oddDefinitions : Text :=
  "@x:\n::\n12;:\n0xg:\n\"q\":"

/-- After a return and a line feed, the odd names are defined at the end. -/
theorem odd_names_are_defined :
    ∃ draft assembly,
      Draft.addLines "odd.asm" {} 1 oddReferences.lines = .ok draft ∧
        ofSource "odd.asm" (oddReferences ++ ("\r\n" ++ oddDefinitions)) =
          .ok assembly ∧
        draft.RepairedBy assembly ∧
        assembly.program =
          #[.push 6, .push 6, .push 6, .push 6, .push 6, .push 6] := by
  have failed :
      ofSource "odd.asm" oddReferences =
        .error
          { defect :=
              .unresolvedLabels
                [("@x", [0, 5]), (":", [1]), ("12;", [2]), ("0xg", [3]),
                  ("\"q\"", [4])]
            file := "odd.asm"
            line := 6 } := by
    decide +kernel
  obtain ⟨draft, added, _, _, repairs⟩ :=
    (missing_labels_can_be_defined "odd.asm").1 _ _ _ _ failed rfl
  obtain ⟨assembly, assembled, repaired⟩ :=
    repairs _ oddDefinitions .returnAndFeed (by decide +kernel)
  refine ⟨draft, assembly, added, assembled, repaired, ?_⟩
  have program :
      (ofSource "odd.asm" (oddReferences ++ ("\r\n" ++ oddDefinitions))).map
          Assembly.program =
        .ok #[.push 6, .push 6, .push 6, .push 6, .push 6, .push 6] := by
    decide +kernel
  exact Except.ok.inj ((congrArg _ assembled).symm.trans program)

end Assembly

end StackCode
