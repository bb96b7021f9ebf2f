import StackCode.Proofs.BackPatching
import StackCode.Proofs.DraftInvariant

namespace StackCode

/-!
# What later lines change

A draft that lines are added to keeps what it has, but for the addresses that wait.
Each of those keeps its zero until a line defines the name that it waits for; then it
gets the address of the name, and no later line touches it again. `Draft.Continues`
is what one statement leaves of a draft. It is transitive because an address that has
been patched no longer waits, and because no old address begins to wait.
-/

namespace Draft

namespace Sound

variable {draft : Draft} {name other : Text} {address : Nat}

/-- No address waits for a name that is defined. -/
theorem undefined_of_waits
    (sound : draft.Sound)
    (waits : address ∈ draft.pending.addressesOf name) :
    draft.labels.lookup name = none :=
  sound.undefined _ (PendingTable.mem_of_waits waits)

/-- An address waits for one name. -/
theorem eq_of_waits
    (sound : draft.Sound)
    (waits : address ∈ draft.pending.addressesOf name)
    (alsoWaits : address ∈ draft.pending.addressesOf other) :
    name = other := by
  have entry := PendingTable.mem_of_waits waits
  have otherEntry := PendingTable.mem_of_waits alsoWaits
  refine Decidable.byContradiction fun differ => ?_
  exact sound.disjoint _ entry _ otherEntry differ waits alsoWaits

end Sound

/-- What is left of a draft in a later one. -/
structure Continues (earlier later : Draft) : Prop where
  longer : earlier.program.size ≤ later.program.size
  /-- What does not wait is not touched. -/
  kept :
    ∀ address < earlier.program.size,
      (∀ name, address ∉ earlier.pending.addressesOf name) →
      later.program[address]? = earlier.program[address]?
  /-- No old address begins to wait. -/
  waited :
    ∀ address < earlier.program.size,
      ∀ name,
        address ∈ later.pending.addressesOf name →
        address ∈ earlier.pending.addressesOf name
  labels : earlier.labels <+: later.labels
  stops :
    ∀ address ∈ earlier.annotations.breakpoints,
      address ∈ later.annotations.breakpoints
  /-- What waits for a name goes on until the name is defined. -/
  waits :
    ∀ name,
      later.labels.lookup name = none →
      ∀ address ∈ earlier.pending.addressesOf name,
        address ∈ later.pending.addressesOf name
  /-- Then it has the address of the name and waits for none. -/
  patched :
    ∀ name target,
      later.labels.lookup name = some target →
      ∀ address ∈ earlier.pending.addressesOf name,
        later.program[address]? = some (.push (Word.wrap target)) ∧
          ∀ other, address ∉ later.pending.addressesOf other

namespace Continues

variable {earlier later last : Draft}

/-- A label that has been defined keeps its address. -/
theorem lookup_eq
    (continues : earlier.Continues later)
    {name : Text}
    {address : Nat}
    (defined : earlier.labels.lookup name = some address) :
    later.labels.lookup name = some address := by
  obtain ⟨others, extended⟩ := continues.labels
  rw [← extended, List.lookup_append, defined]
  rfl

/-- What continues a draft's continuation continues the draft. -/
theorem trans
    (first : earlier.Continues later)
    (second : later.Continues last) :
    earlier.Continues last where
  longer := Nat.le_trans first.longer second.longer
  kept := by
    intro address within untouched
    have stillUntouched :
        ∀ name, address ∉ later.pending.addressesOf name := fun name waits =>
      untouched name (first.waited address within name waits)
    rw [second.kept address (Nat.lt_of_lt_of_le within first.longer)
        stillUntouched,
      first.kept address within untouched]
  waited := fun address within name waits =>
    first.waited address within name
      (second.waited address (Nat.lt_of_lt_of_le within first.longer) name
        waits)
  labels := first.labels.trans second.labels
  stops := fun address member =>
    second.stops address (first.stops address member)
  waits := by
    intro name undefined address waits
    have undefinedBefore : later.labels.lookup name = none := by
      cases found : later.labels.lookup name with
      | none => rfl
      | some target =>
          rw [second.lookup_eq found] at undefined
          cases undefined
    exact
      second.waits name undefined address
        (first.waits name undefinedBefore address waits)
  patched := by
    intro name target defined address waits
    cases found : later.labels.lookup name with
    | none =>
        exact
          second.patched name target defined address
            (first.waits name found address waits)
    | some place =>
        -- The name has been defined already, and the address stays as it was patched.
        obtain ⟨patched, settled⟩ := first.patched name place found address waits
        have samePlace : place = target := by
          rw [second.lookup_eq found] at defined
          exact Option.some.inj defined
        have within : address < later.program.size :=
          (Array.getElem?_eq_some_iff.mp patched).1
        refine ⟨?_, fun other waitsLater => ?_⟩
        · rw [second.kept address within settled, patched, samePlace]
        · exact settled other (second.waited address within other waitsLater)

end Continues

/-- Lines that say nothing leave everything. -/
theorem Sound.continues_self
    {draft : Draft}
    (sound : draft.Sound) :
    draft.Continues draft where
  longer := Nat.le_refl _
  kept := fun _ _ _ => rfl
  waited := fun _ _ _ waits => waits
  labels := List.prefix_refl _
  stops := fun _ member => member
  waits := fun _ _ _ waits => waits
  patched := by
    intro name target defined address waits
    rw [sound.undefined_of_waits waits] at defined
    cases defined

namespace Sound

variable {draft next : Draft}

/-- A statement that defines nothing may emit, and its own address may begin to wait. -/
theorem continues_of_sameLabels
    (sound : draft.Sound)
    (instructions : List Instruction)
    (program : next.program = draft.program ++ instructions)
    (labels : next.labels = draft.labels)
    (stops :
      ∀ address ∈ draft.annotations.breakpoints,
        address ∈ next.annotations.breakpoints)
    (waits :
      ∀ name,
        ∀ address ∈ draft.pending.addressesOf name,
          address ∈ next.pending.addressesOf name)
    (waited :
      ∀ address < draft.program.size,
        ∀ name,
          address ∈ next.pending.addressesOf name →
          address ∈ draft.pending.addressesOf name) :
    draft.Continues next where
  longer := by
    rw [program, ← Array.length_toList, ← Array.length_toList,
      Array.toList_appendList, List.length_append]
    exact Nat.le_add_right _ _
  kept := by
    intro address within _
    rw [program, getElem?_appendList draft.program instructions within]
  waited := waited
  labels := labels ▸ List.prefix_refl _
  stops := stops
  waits := fun name _ => waits name
  patched := by
    intro name target defined address waits
    rw [labels, sound.undefined_of_waits waits] at defined
    cases defined

/-- A reference continues a sound draft. -/
theorem continues_pushLabel
    (sound : draft.Sound)
    (name : Text) :
    draft.Continues (draft.pushLabel name) := by
  unfold Draft.pushLabel
  cases draft.labels.lookup name with
  | some address =>
      exact
        sound.continues_of_sameLabels _ rfl rfl (fun _ member => member)
          (fun _ _ waits => waits) fun _ _ _ waits => waits
  | none =>
      refine
        sound.continues_of_sameLabels [.push 0] rfl rfl
          (fun _ member => member) ?_ ?_
      · intro other address waits
        simp only [Draft.emit, Draft.wait, PendingTable.addressesOf_add]
        exact List.mem_append_left _ waits
      · -- The address that begins to wait is that of the new instruction.
        intro address within other waits
        simp only [Draft.emit, Draft.wait, PendingTable.addressesOf_add,
          List.mem_append] at waits
        refine waits.resolve_right fun isNew => ?_
        split at isNew
        · exact Nat.ne_of_lt within (List.mem_singleton.mp isNew)
        · cases isNew

/-- A definition patches what waits for its name. -/
theorem continues_define
    (sound : draft.Sound)
    {name : Text}
    (undefined : draft.labels.lookup name = none) :
    draft.Continues (draft.define name) where
  longer := Nat.le_of_eq (size_patch _ _ _).symm
  kept := by
    intro address _ untouched
    simp only [Draft.define, getElem?_patch, if_neg (untouched name)]
  waited := by
    intro address _ other waits
    simp only [Draft.define, PendingTable.addressesOf_erase] at waits
    split at waits
    · cases waits
    · exact waits
  labels := List.prefix_append _ _
  stops := fun _ member => member
  waits := by
    intro other stillUndefined address waits
    simp only [Draft.define, LabelTable.lookup_append_singleton,
      sound.undefined_of_waits waits, Option.none_or] at stillUndefined
    have differs : other ≠ name := by
      rintro rfl
      rw [if_pos rfl] at stillUndefined
      cases stillUndefined
    simp only [Draft.define, PendingTable.addressesOf_erase, if_neg differs]
    exact waits
  patched := by
    intro other target defined address waits
    simp only [Draft.define, LabelTable.lookup_append_singleton,
      sound.undefined_of_waits waits, Option.none_or] at defined
    split at defined
    next isName =>
      cases isName
      cases defined
      constructor
      · simp only [Draft.define, getElem?_patch, if_pos waits,
          sound.waits waits]
        rfl
      · intro third waitsToo
        simp only [Draft.define, PendingTable.addressesOf_erase] at waitsToo
        split at waitsToo
        · cases waitsToo
        next differs => exact differs (sound.eq_of_waits waitsToo waits)
    next => cases defined

/-- Every statement that can be added continues a sound draft. -/
theorem continues_add
    (sound : draft.Sound)
    {statement : Statement}
    (added : draft.add statement = .ok next) :
    draft.Continues next := by
  have emits (instructions : List Instruction) :
      draft.Continues (draft.emit instructions) :=
    sound.continues_of_sameLabels _ rfl rfl (fun _ member => member)
      (fun _ _ waits => waits) fun _ _ _ waits => waits
  cases statement with
  | push operand =>
      cases operand with
      | word value =>
          rw [Draft.add_push_word] at added
          cases added
          exact emits _
      | label name =>
          rw [Draft.add_push_label] at added
          cases added
          exact sound.continues_pushLabel name
  | operate operation =>
      cases added
      exact emits _
  | string text =>
      cases added
      exact emits _
  | breakpoint =>
      cases added
      exact
        sound.continues_of_sameLabels [] rfl rfl
          (fun _ member => AddressSet.mem_insert.mpr (Or.inr member))
          (fun _ _ waits => waits) fun _ _ _ waits => waits
  | label name =>
      obtain ⟨undefined, rfl⟩ := add_label_eq_ok_iff.mp added
      exact sound.continues_define undefined

/-- The run of the step: lines continue a sound draft. -/
theorem continues_addLines
    (sound : draft.Sound)
    {file : Text}
    {number : Nat}
    {lines : List Text}
    {reached : Draft}
    (added : Draft.addLines file draft number lines = .ok reached) :
    draft.Continues reached := by
  refine
    (addLines_preserves
      (fun reached => reached.Sound ∧ draft.Continues reached) added
      ⟨sound, sound.continues_self⟩ ?_).2
  rintro statement _ earlier next ⟨earlierSound, continues⟩ step
  exact
    ⟨earlierSound.add step, continues.trans (earlierSound.continues_add step)⟩

end Sound

/-- Lines can be added in two parts, the second with the line numbers after the first. -/
theorem addLines_append_eq_ok_iff
    {file : Text}
    {draft reached : Draft}
    {number : Nat}
    {before lines : List Text} :
    addLines file draft number (before ++ lines) = .ok reached ↔
      ∃ middle,
        addLines file draft number before = .ok middle ∧
          addLines file middle (number + before.length) lines =
            .ok reached := by
  rw [TwoPass.addLines_append]
  cases addLines file draft number before with
  | error error => simp
  | ok middle => simp

/-- A statement adds the name that it defines to the labels, and no other. -/
theorem labels_of_add
    {draft next : Draft}
    {statement : Statement}
    (added : draft.add statement = .ok next) :
    next.labels =
      draft.labels ++
        (statement.defines?.map fun name =>
          (name, draft.program.size)).toList := by
  cases statement with
  | label name =>
      obtain ⟨_, rfl⟩ := add_label_eq_ok_iff.mp added
      rfl
  | push operand =>
      cases operand with
      | word value =>
          rw [add_push_word] at added
          cases added
          exact (List.append_nil _).symm
      | label name =>
          rw [add_push_label] at added
          cases added
          unfold pushLabel
          split <;> exact (List.append_nil _).symm
  | _ =>
      cases added
      exact (List.append_nil _).symm

/-- A name is defined as the address that comes next. -/
theorem lookup_define
    {draft : Draft}
    {name : Text}
    (undefined : draft.labels.lookup name = none) :
    (draft.define name).labels.lookup name = some draft.program.size := by
  simp only [define, LabelTable.lookup_append_singleton, undefined,
    Option.none_or, if_pos]

/-- A name that no line defines stays undefined. -/
theorem undefined_of_addLines
    {file : Text}
    {draft reached : Draft}
    {number : Nat}
    {lines : List Text}
    {name : Text}
    (added : addLines file draft number lines = .ok reached)
    (undefined : draft.labels.lookup name = none)
    (definedNowhere :
      ∀ line ∈ lines, Statement.ofLine line ≠ .ok (some (.label name))) :
    reached.labels.lookup name = none := by
  refine
    addLines_preserves (fun reached => reached.labels.lookup name = none) added
      undefined ?_
  rintro statement ⟨line, member, read⟩ earlier next stillUndefined step
  rw [labels_of_add step, List.lookup_append, stillUndefined, Option.none_or]
  cases statement with
  | label other =>
      have differ : name ≠ other := by
        rintro rfl
        exact definedNowhere line member read
      simp [Statement.defines?, lookup_cons_eq_ite, differ]
  | _ => rfl

/-- A name that a line defines is defined from then on. -/
theorem defined_of_addLines
    {file : Text}
    {draft reached : Draft}
    {number : Nat}
    {lines : List Text}
    {name : Text}
    (sound : draft.Sound)
    (added : addLines file draft number lines = .ok reached)
    (defined :
      ∃ line ∈ lines, Statement.ofLine line = .ok (some (.label name))) :
    ∃ target, reached.labels.lookup name = some target := by
  obtain ⟨line, member, read⟩ := defined
  obtain ⟨before, after, rfl⟩ := List.append_of_mem member
  obtain ⟨middle, reachedMiddle, rest⟩ := addLines_append_eq_ok_iff.mp added
  have step : middle.addLine line = middle.add (.label name) := by
    rw [addLine, read]
  rw [addLines, step] at rest
  cases accepted : middle.add (.label name) with
  | error defect =>
      rw [accepted] at rest
      cases rest
  | ok next =>
      rw [accepted] at rest
      have nextSound := (sound.addLines reachedMiddle).add accepted
      obtain ⟨undefined, rfl⟩ := add_label_eq_ok_iff.mp accepted
      have continues := nextSound.continues_addLines rest
      exact ⟨_, continues.lookup_eq (lookup_define undefined)⟩

/-- What lines make of a draft, by the names that they define. -/
structure PatchedBy
    (first : Draft)
    (lines : List Text)
    (whole : Draft) :
    Prop where
  longer : first.program.size ≤ whole.program.size
  /-- What does not wait is not touched. -/
  untouched :
    ∀ address < first.program.size,
      (∀ name, address ∉ first.pending.addressesOf name) →
      whole.program[address]? = first.program[address]?
  /-- What waits has its zero as long as no line defines the name. -/
  waiting :
    ∀ name,
      (∀ line ∈ lines, Statement.ofLine line ≠ .ok (some (.label name))) →
      ∀ address ∈ first.pending.addressesOf name,
        whole.program[address]? = some (.push 0) ∧
          address ∈ whole.pending.addressesOf name
  /-- It has the name's address as soon as one does, and waits no more. -/
  patched :
    ∀ name,
      (∃ line ∈ lines, Statement.ofLine line = .ok (some (.label name))) →
      ∃ target,
        whole.labels.lookup name = some target ∧
          ∀ address ∈ first.pending.addressesOf name,
            whole.program[address]? = some (.push (Word.wrap target)) ∧
              ∀ other, address ∉ whole.pending.addressesOf other
  /-- Names that are defined keep their addresses, and nothing waits for them. -/
  labels :
    ∀ name target,
      first.labels.lookup name = some target →
      whole.labels.lookup name = some target ∧
        whole.pending.addressesOf name = []
  stops :
    ∀ address ∈ first.annotations.breakpoints,
      address ∈ whole.annotations.breakpoints

/-- Later lines patch what waits for the names that they define and nothing else. -/
theorem Sound.patchedBy
    {file : Text}
    {first whole : Draft}
    {number : Nat}
    {lines : List Text}
    (sound : first.Sound)
    (added : Draft.addLines file first number lines = .ok whole) :
    first.PatchedBy lines whole := by
  have continues := sound.continues_addLines added
  have wholeSound := sound.addLines added
  refine
    { longer := continues.longer
      untouched := continues.kept
      waiting := ?_
      patched := ?_
      labels := ?_
      stops := continues.stops }
  · intro name definedNowhere address waits
    have undefined :=
      undefined_of_addLines added (sound.undefined_of_waits waits)
        definedNowhere
    have stillWaits := continues.waits name undefined address waits
    exact ⟨wholeSound.waits stillWaits, stillWaits⟩
  · intro name definedSomewhere
    obtain ⟨target, defined⟩ := defined_of_addLines sound added definedSomewhere
    exact ⟨target, defined, continues.patched name target defined⟩
  · intro name target defined
    have stillDefined := continues.lookup_eq defined
    refine ⟨stillDefined, List.eq_nil_iff_forall_not_mem.mpr ?_⟩
    intro address waits
    rw [wholeSound.undefined_of_waits waits] at stillDefined
    cases stillDefined

end Draft

/--
Back-patching touches only what waits, and once.

Wherever the lines of a source are split into a first part and some lines after it
that are processed without an error, the program after the first part is a beginning
of the later one but for the addresses that wait. These keep their zero until the
line that defines their name, and have the address of the name after any lines that
contain it. Names keep their addresses, and nothing waits for them again; breakpoints
stay set.
-/
theorem Draft.back_patching_touches_what_waits
    (file : Text)
    {first lines : List Text}
    {whole : Draft}
    (processed : addLines file {} 1 (first ++ lines) = .ok whole) :
    ∃ part,
      addLines file {} 1 first = .ok part ∧ part.PatchedBy lines whole := by
  obtain ⟨part, reachedPart, rest⟩ := addLines_append_eq_ok_iff.mp processed
  exact ⟨part, reachedPart, (Sound.empty.addLines reachedPart).patchedBy rest⟩

/-- A name that waits at two addresses, a zero that does not, and a defined name. -/
def linesUpToLoop : List Text :=
  ["PUSH end", "PUSH 0", "PUSH loop", "PUSH end", "@Break", "loop:"]

/-- Lines that refer to the names again and define the one that waits. -/
def linesUpToEnd : List Text :=
  ["PUSH loop", "end:", "PUSH end"]

/--
Both addresses that wait for the end get its address. The zero between them does not
wait, and the reference to the loop has been patched before.
-/
theorem Draft.end_is_patched_where_it_waits :
    ∃ part whole : Draft,
      addLines "end.asm" {} 1 linesUpToLoop = .ok part ∧
        addLines "end.asm" {} 1 (linesUpToLoop ++ linesUpToEnd) = .ok whole ∧
        part.PatchedBy linesUpToEnd whole ∧
        part.program = #[.push 0, .push 0, .push 4, .push 0] ∧
        whole.program = #[.push 5, .push 0, .push 4, .push 5, .push 4, .push 5] := by
  have processed :
      addLines "end.asm" {} 1 (linesUpToLoop ++ linesUpToEnd) =
        .ok
          { program :=
              #[.push 5, .push 0, .push 4, .push 5, .push 4, .push 5]
            labels := [("loop", 4), ("end", 5)]
            annotations :=
              ((Annotations.addBreakpoint 4 {}).addLabel 4 "loop").addLabel 5
                "end" } := by
    decide +kernel
  have reached :
      addLines "end.asm" {} 1 linesUpToLoop =
        .ok
          { program := #[.push 0, .push 0, .push 4, .push 0]
            labels := [("loop", 4)]
            pending := [("end", [0, 3])]
            annotations :=
              (Annotations.addBreakpoint 4 {}).addLabel 4 "loop" } := by
    decide +kernel
  obtain ⟨part, reachedPart, patched⟩ :=
    back_patching_touches_what_waits "end.asm" processed
  obtain rfl := Except.ok.inj (reachedPart.symm.trans reached)
  exact ⟨_, _, reached, processed, patched, rfl, rfl⟩

end StackCode
