import StackCode.Text.Basic

namespace StackCode

/-!
# Addresses

An instruction's address is its index in the program. Annotations may name any
integer as an address, also one that no program has, so address texts and address
sets are over the integers. A set of addresses is kept strictly ascending: equal
sets are equal values, and its list is its ascending enumeration.
-/

/-- Four or more hexadecimal digits; a minus sign counts as one of the four. -/
def addressText (address : Int) : Text :=
  (Text.ofIntInBase 16 address).leftpad 4 (CodeUnit.ofChar '0')

/-- A finite set of addresses. -/
@[ext] structure AddressSet where
  /-- The addresses in ascending order. -/
  ascending : List Int
  /-- No address stands before a smaller or an equal one. -/
  sorted : ascending.Pairwise (· < ·)
  deriving DecidableEq

namespace AddressSet

/-- Insert an address into an ascending list that may hold it already. -/
def insertInto (address : Int) : List Int → List Int
  | [] => [address]
  | first :: rest =>
      if address < first then
        address :: first :: rest
      else if address = first then
        first :: rest
      else
        first :: insertInto address rest

/-- Insertion adds the address and loses none. -/
theorem mem_insertInto
    {address other : Int}
    {addresses : List Int} :
    other ∈ insertInto address addresses ↔
      other = address ∨ other ∈ addresses := by
  induction addresses with
  | nil => simp [insertInto]
  | cons first rest inductionHypothesis =>
      simp only [insertInto]
      split
      · simp
      · split
        · next same => simp [same]
        · simp only [List.mem_cons, inductionHypothesis]
          constructor
          · rintro (isFirst | isAddress | inRest)
            · exact Or.inr (Or.inl isFirst)
            · exact Or.inl isAddress
            · exact Or.inr (Or.inr inRest)
          · rintro (isAddress | isFirst | inRest)
            · exact Or.inr (Or.inl isAddress)
            · exact Or.inl isFirst
            · exact Or.inr (Or.inr inRest)

/-- Insertion keeps a list strictly ascending. -/
theorem sorted_insertInto
    {address : Int}
    {addresses : List Int}
    (sorted : addresses.Pairwise (· < ·)) :
    (insertInto address addresses).Pairwise (· < ·) := by
  induction addresses with
  | nil => simp [insertInto]
  | cons first rest inductionHypothesis =>
      have belowRest := (List.pairwise_cons.mp sorted).1
      have sortedRest := (List.pairwise_cons.mp sorted).2
      simp only [insertInto]
      split
      · next below =>
          refine List.pairwise_cons.mpr ⟨fun other member => ?_, sorted⟩
          rcases List.mem_cons.mp member with isFirst | inRest
          · omega
          · have := belowRest other inRest
            omega
      · split
        · exact sorted
        · refine List.pairwise_cons.mpr
            ⟨fun other member => ?_, inductionHypothesis sortedRest⟩
          rcases mem_insertInto.mp member with isAddress | inRest
          · omega
          · exact belowRest other inRest

/-- The set without addresses. -/
def empty : AddressSet where
  ascending := []
  sorted := List.Pairwise.nil

instance : EmptyCollection AddressSet where
  emptyCollection := empty

instance : Inhabited AddressSet where
  default := empty

instance : Membership Int AddressSet where
  mem addresses address := address ∈ addresses.ascending

instance (address : Int) (addresses : AddressSet) :
    Decidable (address ∈ addresses) :=
  inferInstanceAs (Decidable (address ∈ addresses.ascending))

/-- The set with one address more. -/
def insert (address : Int) (addresses : AddressSet) : AddressSet where
  ascending := insertInto address addresses.ascending
  sorted := sorted_insertInto addresses.sorted

/-- The empty set has no member. -/
@[simp] theorem not_mem_empty (address : Int) : address ∉ (∅ : AddressSet) :=
  List.not_mem_nil

/-- The members after an insertion are the inserted address and those before it. -/
@[simp] theorem mem_insert
    {address other : Int}
    {addresses : AddressSet} :
    other ∈ addresses.insert address ↔
      other = address ∨ other ∈ addresses :=
  mem_insertInto

end AddressSet

end StackCode
