import Mathlib.Data.List.Dedup
import Mathlib.Data.List.Sort
import StackCode.Proofs.RoundTrip

namespace StackCode

/-!
# Names that share an address

Several labels may stand before the same instruction, but annotations keep one name
for an address, the last. So a program's source text has the last names only:
`LabelTable.lasting` is what is left of a label table when the program is written
and assembled again, and it is all of it exactly where no two names share an
address.
-/

namespace LabelTable

/-- The names that are the last to be given to their addresses. -/
def lasting (labels : LabelTable) : LabelTable :=
  labels.pwFilter fun earlier later => earlier.2 ≠ later.2

variable {labels : LabelTable}

/-- The names that last are among those that were given. -/
theorem lasting_sublist : labels.lasting.Sublist labels :=
  List.pwFilter_sublist _

/-- No two names that last share an address. -/
theorem pairwise_lasting :
    labels.lasting.Pairwise fun earlier later => earlier.2 ≠ later.2 :=
  List.pairwise_pwFilter _

/-- All names last exactly where no two of them share an address. -/
theorem lasting_eq_self_iff :
    labels.lasting = labels ↔ (labels.map Prod.snd).Nodup := by
  rw [lasting, List.pwFilter_eq_self, List.Nodup, List.pairwise_map]

/-- A name lasts where no later one has its address. -/
theorem lasting_cons (entry : Text × Nat) (later : LabelTable) :
    lasting (entry :: later) =
      if entry.2 ∈ later.map Prod.snd then
        lasting later
      else
        entry :: lasting later := by
  have differs_iff :
      (∀ other ∈ lasting later, entry.2 ≠ other.2) ↔
        entry.2 ∉ later.map Prod.snd := by
    have onAll :=
      List.forall_mem_pwFilter
        (R := fun earlier later : Text × Nat => earlier.2 ≠ later.2)
        (fun {first second third} differ => by
          by_cases same : first.2 = second.2
          · exact Or.inr (same ▸ differ)
          · exact Or.inl same)
        entry later
    rw [lasting, onAll, List.mem_map, not_exists]
    exact forall_congr' fun other =>
      ⟨fun differ ⟨member, same⟩ => differ member same.symm,
        fun apart member same => apart ⟨member, same.symm⟩⟩
  by_cases shared : entry.2 ∈ later.map Prod.snd
  · rw [if_pos shared]
    exact List.pwFilter_cons_of_neg fun differs =>
      differs_iff.mp differs shared
  · rw [if_neg shared]
    exact List.pwFilter_cons_of_pos (differs_iff.mpr shared)

/-- The last name that is given to an address, with the address. -/
def lastAt? (labels : LabelTable) (address : Nat) : Option (Text × Nat) :=
  labels.reverse.find? fun entry => decide (entry.2 = address)

/-- A later name at the same address counts instead. -/
theorem lastAt?_cons
    (entry : Text × Nat)
    (later : LabelTable)
    (address : Nat) :
    lastAt? (entry :: later) address =
      (lastAt? later address).or
        (if entry.2 = address then some entry else none) := by
  simp only [lastAt?, List.reverse_cons, List.find?_append,
    List.find?_singleton, decide_eq_true_eq]

/-- Later names count before earlier ones. -/
theorem lastAt?_append (first second : LabelTable) (address : Nat) :
    lastAt? (first ++ second) address =
      (second.lastAt? address).or (first.lastAt? address) := by
  rw [lastAt?, List.reverse_append, List.find?_append, ← lastAt?, ← lastAt?]

/-- There is no last name exactly where there is none at all. -/
theorem lastAt?_eq_none_iff {address : Nat} :
    labels.lastAt? address = none ↔ address ∉ labels.map Prod.snd := by
  simp only [lastAt?, List.find?_eq_none, List.mem_reverse, decide_eq_true_eq,
    List.mem_map, not_exists, not_and]

/-- A name lasts if it is the last of its address. -/
theorem mem_lasting_iff {entry : Text × Nat} :
    entry ∈ labels.lasting ↔ labels.lastAt? entry.2 = some entry := by
  induction labels with
  | nil => exact iff_of_false List.not_mem_nil nofun
  | cons first later inductionHypothesis =>
      rw [lasting_cons, lastAt?_cons]
      by_cases here : first.2 = entry.2
      · rw [if_pos here]
        by_cases shared : first.2 ∈ later.map Prod.snd
        · have isSome : (lastAt? later entry.2).isSome = true := by
            rw [here] at shared
            rw [Option.isSome_iff_ne_none, ne_eq, lastAt?_eq_none_iff]
            exact not_not_intro shared
          rw [if_pos shared, inductionHypothesis, Option.or_of_isSome isSome]
        · have nothing : lastAt? later entry.2 = none := by
            rwa [lastAt?_eq_none_iff, ← here]
          rw [if_neg shared, List.mem_cons, inductionHypothesis, nothing,
            Option.none_or, Option.some.injEq, eq_comm]
          exact or_iff_left nofun
      · have other : entry ≠ first := by
          rintro rfl
          exact here rfl
        rw [if_neg here, Option.or_none, ← inductionHypothesis]
        split
        · rfl
        · exact List.mem_cons.trans (or_iff_right other)

/-- Where no name is defined twice, a name is lost if a later one has its address. -/
theorem not_mem_lasting_iff
    {before later : LabelTable}
    {name : Text}
    {address : Nat}
    (shape : labels = before ++ (name, address) :: later)
    (once : (labels.map Prod.fst).Nodup) :
    name ∉ labels.lasting.map Prod.fst ↔ address ∈ later.map Prod.snd := by
  have isEntry : (name, address) ∈ labels := by
    rw [shape]
    exact List.mem_append_right _ List.mem_cons_self
  have kept_iff :
      name ∈ labels.lasting.map Prod.fst ↔
        labels.lastAt? address = some (name, address) := by
    have lasts : (name, address) ∈ labels.lasting ↔ _ := mem_lasting_iff
    refine Iff.trans ⟨?_, List.mem_map_of_mem⟩ lasts
    intro kept
    obtain ⟨entry, member, named⟩ := List.mem_map.mp kept
    have same :=
      List.inj_on_of_nodup_map once (lasting_sublist.subset member) isEntry
        named
    rwa [← same]
  rw [kept_iff, shape, lastAt?_append, lastAt?_cons, if_pos rfl]
  cases found : lastAt? later address with
  | none =>
      rw [lastAt?_eq_none_iff] at found
      exact iff_of_false (not_not_intro rfl) found
  | some entry =>
      have isLater := List.mem_reverse.mp (List.mem_of_find?_eq_some found)
      have here : entry.2 = address := by
        simpa using List.find?_some found
      refine iff_of_true ?_ (List.mem_map.mpr ⟨entry, isLater, here⟩)
      rintro ⟨⟩
      rw [shape, List.map_append, List.map_cons] at once
      exact
        (List.nodup_cons.mp (List.nodup_append.mp once).2.1).1
          (List.mem_map_of_mem isLater)

end LabelTable

namespace TwoPass

/-- Definitions stand within the layout, in ascending order of their addresses. -/
theorem definitions_ascending (statements : List Statement) :
    (definitions statements).Pairwise (fun earlier later => earlier.2 ≤ later.2) ∧
      ∀ entry ∈ definitions statements, entry.2 ≤ extent statements := by
  induction statements using List.reverseRecOn with
  | nil => exact ⟨List.Pairwise.nil, List.forall_mem_nil _⟩
  | append_singleton earlier last inductionHypothesis =>
      obtain ⟨ascending, within⟩ := inductionHypothesis
      rw [definitions_append_singleton, extent_append_singleton]
      have further :
          ∀ entry ∈ definitions earlier,
            entry.2 ≤ extent earlier + last.size := fun entry member =>
        Nat.le_add_right_of_le (within entry member)
      cases last.defines? with
      | none =>
          rw [Option.map_none, Option.toList_none, List.append_nil]
          exact ⟨ascending, further⟩
      | some name =>
          rw [Option.map_some, Option.toList_some]
          constructor
          · refine List.pairwise_append.mpr
              ⟨ascending, List.pairwise_singleton _ _, ?_⟩
            intro entry member new isNew
            rw [List.mem_singleton.mp isNew]
            exact within entry member
          · intro entry member
            rcases List.mem_append.mp member with isEarlier | isNew
            · exact further entry isEarlier
            · rw [List.mem_singleton.mp isNew]
              exact Nat.le_add_right _ _

variable {statements : List Statement}

/-- An address has the name that lasts of those defined there. -/
theorem nameAt?_eq_some_iff {address : Nat} {name : Text} :
    nameAt? statements address = some name ↔
      (name, address) ∈ (definitions statements).lasting := by
  rw [LabelTable.mem_lasting_iff, LabelTable.lastAt?, nameAt?,
    Option.map_eq_some_iff]
  simp only [Int.ofNat_inj]
  constructor
  · rintro ⟨⟨other, place⟩, found, rfl⟩
    have here : place = address := by
      simpa using List.find?_some found
    rw [found, here]
  · intro found
    exact ⟨_, found, rfl⟩

/-- The names of all addresses are those that last. -/
theorem namesBelow_annotations {bound : Nat} (above : extent statements < bound) :
    (annotations statements).namesBelow bound =
      (definitions statements).lasting := by
  obtain ⟨ascending, within⟩ := definitions_ascending statements
  let Precedes : Text × Nat → Text × Nat → Prop :=
    fun earlier later => earlier.2 < later.2
  have irreflexive : Std.Irrefl Precedes :=
    ⟨fun entry => Nat.lt_irrefl entry.2⟩
  have antisymmetric : Std.Antisymm Precedes :=
    ⟨fun _ _ before after => absurd before (Nat.lt_asymm after)⟩
  have namesAscend :
      ((annotations statements).namesBelow bound).Pairwise Precedes := by
    refine List.pairwise_filterMap.mpr (List.pairwise_lt_range.imp ?_)
    intro first second precedes entry isEntry other isOther
    obtain ⟨_, _, rfl⟩ := Option.map_eq_some_iff.mp isEntry
    obtain ⟨_, _, rfl⟩ := Option.map_eq_some_iff.mp isOther
    exact precedes
  have lastingAscend :
      (definitions statements).lasting.Pairwise Precedes :=
    ((ascending.sublist LabelTable.lasting_sublist).and
        LabelTable.pairwise_lasting).imp
      fun both => Nat.lt_of_le_of_ne both.1 both.2
  refine namesAscend.eq_of_mem_iff lastingAscend fun (name, address) => ?_
  rw [← nameAt?_eq_some_iff, ← labelAt?_annotations,
    Annotations.namesBelow, List.mem_filterMap]
  constructor
  · rintro ⟨place, _, isEntry⟩
    obtain ⟨other, named, same⟩ := Option.map_eq_some_iff.mp isEntry
    cases same
    exact named
  · intro named
    refine ⟨address, List.mem_range.mpr ?_, by rw [named]; rfl⟩
    rw [labelAt?_annotations, nameAt?_eq_some_iff] at named
    exact
      Nat.lt_of_le_of_lt
        (within _ (LabelTable.lasting_sublist.subset named)) above

end TwoPass

/--
What is left of the names of an assembly in another one: those that are the last of
their addresses.
-/
structure Assembly.KeepsLastNames (assembly again : Assembly) : Prop where
  program : again.program = assembly.program
  labels : again.labels = assembly.labels.lasting
  unchanged_iff :
    again.labels = assembly.labels ↔ (assembly.labels.map Prod.snd).Nodup
  lost_iff :
    ∀ before name address later,
      assembly.labels = before ++ (name, address) :: later →
      (name ∉ again.labels.map Prod.fst ↔ address ∈ later.map Prod.snd)

/--
Written and assembled again, an assembly keeps the last name of every address.

All of its label table is kept exactly where no two names share an address, and a
name is lost exactly where a later one has its address.
-/
theorem last_names_are_kept
    (file origin : Text)
    {source : Text}
    {assembly : Assembly}
    (assembled : Assembly.ofSource origin source = .ok assembly) :
    ∃ again,
      Assembly.ofSource file
          (SourceText.write assembly.program assembly.annotations) =
        .ok again ∧
      assembly.KeepsLastNames again := by
  obtain ⟨free, rfl⟩ := TwoPass.resolved_of_ofSource origin assembled
  have once := free.nodup_defines
  rw [← TwoPass.map_fst_definitions] at once
  obtain ⟨again, back⟩ :=
    assemblesBack_of_wellNamed file
      (TwoPass.program (TwoPass.statementsOf source.lines))
      (TwoPass.wellNamed_annotations free _)
  have labels :
      again.labels =
        (TwoPass.definitions (TwoPass.statementsOf source.lines)).lasting := by
    refine back.labelTable.trans (TwoPass.namesBelow_annotations ?_)
    rw [TwoPass.size_program]
    exact Nat.lt_succ_self _
  refine ⟨again, back.assembled, back.sameProgram, labels, ?_, ?_⟩
  · rw [labels]
    exact LabelTable.lasting_eq_self_iff
  · intro before name address later shape
    rw [labels]
    exact LabelTable.not_mem_lasting_iff shape once

/-- A loop that has two names. -/
def twiceNamedLoop : Text :=
  "loop:\nagain:\nPUSH loop\nJMP\n"

/-- Of the two names of a loop the second is kept. -/
theorem second_name_is_kept :
    ∃ assembly again,
      Assembly.ofSource "loop.asm" twiceNamedLoop = .ok assembly ∧
        Assembly.ofSource "loop.asm"
            (SourceText.write assembly.program assembly.annotations) =
          .ok again ∧
        assembly.KeepsLastNames again ∧
        again.labels = [(("again" : Text), 0)] := by
  have assembled :
      Assembly.ofSource "loop.asm" twiceNamedLoop =
        .ok
          { program := #[.push 0, .operate .jump]
            annotations := { names := [(0, "again"), (0, "loop")] }
            labels := [("loop", 0), ("again", 0)] } := by
    decide +kernel
  obtain ⟨again, assembledBack, keeps⟩ :=
    last_names_are_kept "loop.asm" "loop.asm" assembled
  exact ⟨_, again, assembled, assembledBack, keeps, keeps.labels⟩

/-- The first of them is lost, with the address that it has been defined at. -/
theorem first_name_is_lost :
    ∃ assembly again,
      Assembly.ofSource "loop.asm" twiceNamedLoop = .ok assembly ∧
        Assembly.ofSource "loop.asm"
            (SourceText.write assembly.program assembly.annotations) =
          .ok again ∧
        assembly.labels.lookup ("loop" : Text) = some 0 ∧
        again.labels.lookup ("loop" : Text) = none ∧
        again.labels ≠ assembly.labels := by
  refine
    ⟨{ program := #[.push 0, .operate .jump]
       annotations := { names := [(0, "again"), (0, "loop")] }
       labels := [("loop", 0), ("again", 0)] },
      { program := #[.push 0, .operate .jump]
        annotations := { names := [(0, "again")] }
        labels := [("again", 0)] }, ?_⟩
  decide +kernel

end StackCode
