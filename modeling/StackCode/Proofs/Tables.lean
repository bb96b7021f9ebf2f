import StackCode.Proofs.Emission

namespace StackCode

/-!
# Tables of names

Labels and the addresses that wait for them are kept as lists of entries, in which the
first entry of a name counts. Each operation on such a table changes what it holds
under one name and leaves the rest.
-/

theorem lookup_cons_eq_ite
    {Value : Type}
    (name other : Text)
    (value : Value)
    (rest : List (Text × Value)) :
    ((other, value) :: rest).lookup name =
      if name = other then some value else rest.lookup name := by
  rw [List.lookup_cons]
  by_cases same : name = other
  · rw [if_pos same, beq_iff_eq.mpr same]
  · rw [if_neg same, beq_eq_false_iff_ne.mpr same]

/-- What a table holds under a name is found with what has been made of it. -/
theorem lookup_map_values
    {Key Value Other : Type}
    [BEq Key]
    (key : Key)
    (change : Value → Other)
    (table : List (Key × Value)) :
    (table.map fun entry => (entry.1, change entry.2)).lookup key =
      (table.lookup key).map change := by
  induction table with
  | nil => rfl
  | cons first rest inductionHypothesis =>
      rw [List.map_cons, List.lookup_cons, List.lookup_cons, inductionHypothesis]
      cases key == first.1 <;> rfl

/-- A definition that is added last is found only under a name without another one. -/
theorem LabelTable.lookup_append_singleton
    (labels : LabelTable)
    (name other : Text)
    (address : Nat) :
    (labels ++ [(name, address)]).lookup other =
      (labels.lookup other).or (if other = name then some address else none) := by
  rw [List.lookup_append, lookup_cons_eq_ite, List.lookup_nil]

namespace PendingTable

variable {pending : PendingTable} {name : Text} {address : Nat}

/-- The addresses that wait for a name stand in its first entry. -/
theorem addressesOf_cons
    (known other : Text)
    (addresses : List Nat)
    (rest : PendingTable) :
    addressesOf other ((known, addresses) :: rest) =
      if other = known then addresses else addressesOf other rest := by
  rw [addressesOf, lookup_cons_eq_ite, apply_ite (Option.getD · [])]
  rfl

/-- The addresses of a name are those of its entry, if it has one. -/
theorem addressesOf_eq_nil_or_mem (pending : PendingTable) (name : Text) :
    pending.addressesOf name = [] ∨
      (name, pending.addressesOf name) ∈ pending := by
  unfold addressesOf
  cases found : pending.lookup name with
  | none => exact Or.inl rfl
  | some addresses =>
      obtain ⟨before, after, split, _⟩ := List.lookup_eq_some_iff.mp found
      exact Or.inr (by simp [split])

/-- A name that an address waits for has an entry. -/
theorem mem_of_waits (waits : address ∈ pending.addressesOf name) :
    (name, pending.addressesOf name) ∈ pending :=
  (addressesOf_eq_nil_or_mem pending name).resolve_left
    (List.ne_nil_of_mem waits)

/-- Where names wait once, the addresses of an entry are those of its name. -/
theorem addressesOf_of_mem
    {entry : Text × List Nat}
    (once : (pending.map Prod.fst).Nodup)
    (member : entry ∈ pending) :
    pending.addressesOf entry.1 = entry.2 := by
  induction pending with
  | nil => cases member
  | cons first rest inductionHypothesis =>
      obtain ⟨notInRest, restOnce⟩ := List.nodup_cons.mp once
      rw [addressesOf_cons]
      rcases List.mem_cons.mp member with rfl | inRest
      · exact if_pos rfl
      · have differs : entry.1 ≠ first.1 := by
          intro same
          exact notInRest (same ▸ List.mem_map_of_mem inRest)
        rw [if_neg differs]
        exact inductionHypothesis restOnce inRest

/-- An address that begins to wait changes the entry of its name and no other. -/
theorem mem_add
    {entry : Text × List Nat}
    (member : entry ∈ pending.add name address) :
    entry ∈ pending ∨
      entry = (name, pending.addressesOf name ++ [address]) := by
  induction pending with
  | nil => exact Or.inr (List.mem_singleton.mp member)
  | cons first rest inductionHypothesis =>
      obtain ⟨other, addresses⟩ := first
      rw [addressesOf_cons]
      by_cases isFirst : other = name
      · rw [add, if_pos isFirst, List.mem_cons] at member
        rw [if_pos isFirst.symm, ← isFirst]
        rcases member with isEntry | inRest
        · exact Or.inr isEntry
        · exact Or.inl (List.mem_cons_of_mem _ inRest)
      · rw [add, if_neg isFirst, List.mem_cons] at member
        rw [if_neg (Ne.symm isFirst)]
        rcases member with isEntry | inRest
        · exact Or.inl (isEntry ▸ List.mem_cons_self)
        · exact
            (inductionHypothesis inRest).imp_left (List.mem_cons_of_mem _)

/-- An address that begins to wait is the last of its name, and of no other. -/
theorem addressesOf_add
    (pending : PendingTable)
    (name other : Text)
    (address : Nat) :
    (pending.add name address).addressesOf other =
      pending.addressesOf other ++ if other = name then [address] else [] := by
  induction pending with
  | nil =>
      rw [add, addressesOf_cons]
      split <;> rfl
  | cons first rest inductionHypothesis =>
      obtain ⟨known, addresses⟩ := first
      by_cases isFirst : known = name
      · subst isFirst
        rw [add, if_pos rfl, addressesOf_cons, addressesOf_cons]
        by_cases same : other = known <;> simp [same]
      · rw [add, if_neg isFirst, addressesOf_cons, addressesOf_cons,
          inductionHypothesis]
        by_cases same : other = known
        · simp [same, isFirst]
        · simp [same]

/-- An address that begins to wait brings one new name at most, as the last. -/
theorem map_fst_add (pending : PendingTable) (name : Text) (address : Nat) :
    (pending.add name address).map Prod.fst =
      if name ∈ pending.map Prod.fst then
        pending.map Prod.fst
      else
        pending.map Prod.fst ++ [name] := by
  induction pending with
  | nil => rfl
  | cons first rest inductionHypothesis =>
      obtain ⟨other, addresses⟩ := first
      by_cases isFirst : other = name
      · simp [add, isFirst]
      · simp only [add, if_neg isFirst, List.map_cons, inductionHypothesis,
          List.mem_cons, Ne.symm isFirst, false_or]
        split <;> rfl

/-- What is erased are the entries of one name. -/
theorem mem_erase {entry : Text × List Nat} :
    entry ∈ pending.erase name ↔ entry ∈ pending ∧ entry.1 ≠ name := by
  simp [erase]

/-- What is erased is what waits for the name. -/
theorem addressesOf_erase
    (pending : PendingTable)
    (name other : Text) :
    (pending.erase name).addressesOf other =
      if other = name then [] else pending.addressesOf other := by
  induction pending with
  | nil => exact (ite_self _).symm
  | cons first rest inductionHypothesis =>
      obtain ⟨known, addresses⟩ := first
      unfold erase at inductionHypothesis ⊢
      by_cases isFirst : known = name
      · subst isFirst
        rw [List.filter_cons_of_neg (by simp), inductionHypothesis,
          addressesOf_cons]
        by_cases same : other = known <;> simp [same]
      · rw [List.filter_cons_of_pos (by simpa using isFirst), addressesOf_cons,
          addressesOf_cons, inductionHypothesis]
        by_cases same : other = known
        · simp [same, isFirst]
        · simp [same]

end PendingTable

end StackCode
