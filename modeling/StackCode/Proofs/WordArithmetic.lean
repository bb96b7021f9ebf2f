import StackCode.Proofs.BufferedInstructions
import StackCode.Proofs.PrintedStrings
import StackCode.Proofs.Resumption

namespace StackCode

/-!
# Arithmetic on words

Addition, subtraction and multiplication of words are those of the integers they stand
for, reduced modulo 2⁶⁴; division cuts the quotient off towards zero, and one quotient
only is no word. Reduction respects sums, differences and products. So along a row of
such operations nothing is lost by reducing each result: the last one is that of the
unbounded integers, reduced once.
-/

namespace Word

/-- The only integer in the range of words that is congruent to a value is a word's. -/
def ReducedFrom (value : Int) (word : Word) : Prop :=
  ∀ other : Int,
    (least ≤ other ∧ other ≤ greatest ∧ (count : Int) ∣ other - value) ↔
      other = word.toInt

/-- A word is reduced from every integer that it is wrapped from. -/
theorem reducedFrom_wrap (value : Int) : (wrap value).ReducedFrom value :=
  fun _ => toInt_wrap_eq_iff

/-- An integer that is a word is reduced to itself. -/
theorem toInt_eq_of_reducedFrom
    {value : Int}
    {word : Word}
    (reduced : word.ReducedFrom value)
    (inRange : least ≤ value ∧ value ≤ greatest) :
    word.toInt = value := by
  have congruent : (count : Int) ∣ value - value := by
    rw [Int.sub_self]
    exact Int.dvd_zero _
  exact ((reduced value).mp ⟨inRange.1, inRange.2, congruent⟩).symm

end Word

/-- A quotient that is cut off towards zero, and the remainder that it leaves. -/
structure CutsOff (dividend divisor quotient remainder : Int) : Prop where
  whole : dividend = quotient * divisor + remainder
  small : remainder.natAbs < divisor.natAbs
  sign : remainder = 0 ∨ remainder.sign = dividend.sign

/-- Quotients that are cut off towards zero are those of truncating division. -/
theorem cutsOff_iff
    {dividend divisor quotient remainder : Int}
    (nonzero : divisor ≠ 0) :
    CutsOff dividend divisor quotient remainder ↔
      dividend.tdiv divisor = quotient ∧ dividend.tmod divisor = remainder := by
  constructor
  · rintro ⟨whole, small, sign⟩
    rw [Int.mul_comm, Int.add_comm] at whole
    by_cases nonneg : 0 ≤ dividend
    · refine (Int.tdiv_tmod_unique nonneg nonzero).mpr ⟨whole.symm, ?_, ?_⟩
      · rcases sign with isZero | sameSign
        · exact Int.le_of_eq isZero.symm
        · rw [← Int.sign_nonneg_iff, sameSign, Int.sign_nonneg_iff]
          exact nonneg
      · omega
    · have nonpos : dividend ≤ 0 := by omega
      refine (Int.tdiv_tmod_unique' nonpos nonzero).mpr ⟨whole.symm, ?_, ?_⟩
      · omega
      · rcases sign with isZero | sameSign
        · exact Int.le_of_eq isZero
        · rw [← Int.sign_nonpos_iff, sameSign, Int.sign_nonpos_iff]
          exact nonpos
  · rintro ⟨rfl, rfl⟩
    refine ⟨?_, ?_, ?_⟩
    · rw [Int.mul_comm, Int.mul_tdiv_add_tmod]
    · rw [Int.natAbs_tmod]
      exact Nat.mod_lt _ (Int.natAbs_pos.mpr nonzero)
    · by_cases divides : divisor ∣ dividend
      · exact Or.inl (Int.tmod_eq_zero_of_dvd divides)
      · exact Or.inr (by rw [Int.sign_tmod, if_neg divides])

/-- What an operation makes of two integers, the first of them on top. -/
inductive Operation.Computes : Operation → Int → Int → Int → Prop where
  | sum (top second : Int) : Computes .add top second (top + second)
  | difference (top second : Int) : Computes .subtract top second (top - second)
  | product (top second : Int) : Computes .multiply top second (top * second)
  | quotient
      {top second result remainder : Int}
      (cutsOff : CutsOff top second result remainder) :
      Computes .divide top second result

/-- The operations whose result is reduced as the integers are that it is made of. -/
inductive Operation.Reducible : Operation → Prop where
  | add : Reducible .add
  | subtract : Reducible .subtract
  | multiply : Reducible .multiply

namespace Word

variable {top second : Word} {quotient remainder : Int}

/-- The words that have a quotient which is no word. -/
def Overflow (top second : Word) : Prop :=
  top.toInt = -0x8000000000000000 ∧ second.toInt = -1

/-- Nothing is cut off by zero. -/
theorem ne_zero_of_cutsOff
    (cutsOff : CutsOff top.toInt second.toInt quotient remainder) :
    second ≠ 0 := by
  rintro rfl
  exact Nat.not_lt_zero _ cutsOff.small

theorem toInt_ne_zero (nonzero : second ≠ 0) : second.toInt ≠ 0 :=
  fun isZero => nonzero (Int64.toInt_inj.mp isZero)

/-- A quotient of words is the integers' quotient, reduced. -/
theorem div_eq_wrap
    (cutsOff : CutsOff top.toInt second.toInt quotient remainder) :
    top / second = wrap quotient := by
  have nonzero := toInt_ne_zero (ne_zero_of_cutsOff cutsOff)
  apply Int64.toInt_inj.mp
  rw [Int64.toInt_div, toInt_wrap, ((cutsOff_iff nonzero).mp cutsOff).1]
  rfl

/-- One quotient of words is no word. -/
theorem quotient_mem_range_iff
    (cutsOff : CutsOff top.toInt second.toInt quotient remainder) :
    (least ≤ quotient ∧ quotient ≤ greatest) ↔ ¬Overflow top second := by
  have nonzero := toInt_ne_zero (ne_zero_of_cutsOff cutsOff)
  have isQuotient := ((cutsOff_iff nonzero).mp cutsOff).1
  have size : quotient.natAbs = top.toInt.natAbs / second.toInt.natAbs := by
    rw [← isQuotient]
    exact Int.natAbs_tdiv _ _
  obtain ⟨whole, small, _⟩ := cutsOff
  have topRange := top.toInt_mem_range
  unfold least greatest at topRange
  unfold least greatest Overflow
  by_cases isUnit : second.toInt.natAbs = 1
  · have noRemainder : remainder = 0 := by omega
    rcases Int.natAbs_eq_iff.mp isUnit with isOne | isMinusOne
    · rw [isOne] at whole ⊢
      omega
    · rw [isMinusOne] at whole ⊢
      omega
  · have half : quotient.natAbs ≤ top.toInt.natAbs / 2 := by
      rw [size]
      exact Nat.div_le_div_left (by omega) (by decide)
    omega

section Reduced

variable
  {result : Word}
  (cutsOff : CutsOff top.toInt second.toInt quotient remainder)
  (reduced : result.ReducedFrom quotient)

include cutsOff reduced

/-- The one quotient that is no word is the one that reduction changes. -/
theorem toInt_eq_quotient_iff : result.toInt = quotient ↔ ¬Overflow top second := by
  rw [← quotient_mem_range_iff cutsOff]
  constructor
  · rintro rfl
    exact result.toInt_mem_range
  · exact toInt_eq_of_reducedFrom reduced

/-- The one quotient that is out of range comes back as the least word. -/
theorem toInt_of_overflow (overflow : Overflow top second) :
    result.toInt = -0x8000000000000000 := by
  obtain ⟨whole, small, _⟩ := cutsOff
  rw [overflow.1, overflow.2] at whole
  rw [overflow.2] at small
  have tooGreat : quotient = 0x8000000000000000 := by omega
  have congruent : (count : Int) ∣ -0x8000000000000000 - quotient := by
    rw [tooGreat]
    decide
  exact ((reduced _).mp ⟨by decide, by decide, congruent⟩).symm

end Reduced

end Word

namespace Operation

variable {operation : Operation} {value result : Int} {second : Word} {below : Stack}

/-- What can be reduced once in the end has a result for any two integers. -/
theorem Reducible.exists_computes
    (reducible : operation.Reducible)
    (top second : Int) :
    ∃ result, operation.Computes top second result := by
  cases reducible with
  | add => exact ⟨_, .sum top second⟩
  | subtract => exact ⟨_, .difference top second⟩
  | multiply => exact ⟨_, .product top second⟩

/-- It does not matter whether a value is reduced before the operation or after it. -/
theorem Reducible.execute_eq
    (reducible : operation.Reducible)
    (computes : operation.Computes value second.toInt result)
    (address : Nat) :
    operation.execute address (Word.wrap value :: second :: below) =
      .goTo (address + 1) (Word.wrap result :: below) := by
  cases computes with
  | sum => rw [execute, Word.wrap, Word.wrap, Int64.ofInt_add, Int64.ofInt_toInt]
  | difference => rw [execute, Word.wrap, Word.wrap, Int64.ofInt_sub, Int64.ofInt_toInt]
  | product => rw [execute, Word.wrap, Word.wrap, Int64.ofInt_mul, Int64.ofInt_toInt]
  | quotient => cases reducible

/-- An operation leaves its result in place of its two values. -/
theorem execute_of_computes
    {top : Word}
    (computes : operation.Computes top.toInt second.toInt result)
    (address : Nat) :
    operation.execute address (top :: second :: below) =
      .goTo (address + 1) (Word.wrap result :: below) := by
  have reduced (reducible : operation.Reducible) :
      operation.execute address (top :: second :: below) =
        .goTo (address + 1) (Word.wrap result :: below) := by
    rw [← reducible.execute_eq computes, Word.wrap_toInt]
  cases computes with
  | sum => exact reduced .add
  | difference => exact reduced .subtract
  | product => exact reduced .multiply
  | quotient cutsOff =>
      rw [execute, if_neg (Word.ne_zero_of_cutsOff cutsOff), Word.div_eq_wrap cutsOff]

end Operation

/--
What a row of operations makes of an integer on top and of those below it that it takes,
without any bounds.
-/
inductive ComputesInTurn : List Operation → Int → List Int → Int → Prop where
  | done (value : Int) : ComputesInTurn [] value [] value
  | next
      {operation : Operation}
      {operations : List Operation}
      {top second reached result : Int}
      {below : List Int}
      (first : operation.Computes top second reached)
      (rest : ComputesInTurn operations reached below result) :
      ComputesInTurn (operation :: operations) top (second :: below) result

namespace Session

variable {σ : Type} [Respondent σ] {session : Session σ}

/-- The next steps of a session execute operations in turn, and none is given up. -/
inductive Executes : List Operation → Session σ → Prop where
  | done (session : Session σ) : Executes [] session
  | next
      {operation : Operation}
      {operations : List Operation}
      {session : Session σ}
      (running : session.machine.status = .running)
      (confirmed :
        session.machine.stopsAtBreakpoint = true → session.ask.1 = true)
      (found : session.machine.instruction? = some (.operate operation))
      (rest : Executes operations session.step.2) :
      Executes (operation :: operations) session

/-- How a session stands after steps that have all gone on and printed nothing. -/
structure GoesOn (count : Nat) (stack : Stack) (session : Session σ) : Prop where
  reports : session.reports count = List.replicate count (.ok true)
  machine :
    (session.stepped count).machine =
      session.machine.movedTo (session.machine.pointer + count) stack
  output : (session.stepped count).output = session.output

/-- What steps report, they report in turn. -/
theorem reports_add (first second : Nat) :
    session.reports (first + second) =
      session.reports first ++ (session.stepped first).reports second := by
  induction second with
  | zero => exact (List.append_nil _).symm
  | succ second inductionHypothesis =>
      rw [← Nat.add_assoc, reports, inductionHypothesis, stepped_add, List.append_assoc]
      rfl

namespace GoesOn

/-- Steps that go on after steps that have gone on. -/
theorem trans
    {first second : Nat}
    {stack last : Stack}
    (before : session.GoesOn first stack)
    (after : (session.stepped first).GoesOn second last) :
    session.GoesOn (first + second) last where
  reports := by
    rw [reports_add, before.reports, after.reports, List.replicate_append_replicate]
  machine := by
    rw [stepped_add, after.machine, before.machine, Machine.pointer_movedTo,
      Nat.add_assoc]
    rfl
  output := by rw [stepped_add, after.output, before.output]

/-- An operation that goes on at the next address does so in one step. -/
theorem one
    {operation : Operation}
    {stack : Stack}
    (running : session.machine.status = .running)
    (confirmed :
      session.machine.stopsAtBreakpoint = true → session.ask.1 = true)
    (found : session.machine.instruction? = some (.operate operation))
    (effect :
      operation.execute session.machine.pointer session.machine.stack =
        .goTo (session.machine.pointer + 1) stack) :
    session.GoesOn 1 stack := by
  have executed :
      session.machine.executeNext =
        (session.machine.movedTo (session.machine.pointer + 1) stack, []) :=
    Machine.executeNext_of_proceed found effect
  obtain ⟨reported, machine⟩ := step_of_confirmed running confirmed
  have output := output_step_of_confirmed running confirmed
  rw [executed] at reported machine output
  have goesOn : session.step.1 = .ok true := by
    rw [reported, Machine.movedTo, running]
    rfl
  exact
    { reports := congrArg (fun report => [report]) goesOn
      machine := machine
      output := output.trans (List.append_nil _) }

end GoesOn

/-- One arithmetic operation leaves the integers' result, reduced. -/
theorem goesOn_of_computes
    {operation : Operation}
    {top second : Word}
    {below : Stack}
    {value : Int}
    (executes : session.Executes [operation])
    (stack : session.machine.stack = top :: second :: below)
    (computes : operation.Computes top.toInt second.toInt value) :
    session.GoesOn 1 (Word.wrap value :: below) := by
  obtain _ | ⟨running, confirmed, found, _⟩ := executes
  refine .one running confirmed found ?_
  rw [stack]
  exact Operation.execute_of_computes computes _

/--
A row of operations that reduction respects leaves the result of the unbounded
integers, reduced, also where the value it begins with is reduced already.
-/
theorem goesOn_of_reducible
    {operations : List Operation}
    {value : Int}
    {taken left : Stack}
    (reducible : ∀ operation ∈ operations, operation.Reducible)
    (executes : session.Executes operations)
    (enough : taken.length = operations.length)
    (stack : session.machine.stack = Word.wrap value :: (taken ++ left)) :
    ∃ result,
      ComputesInTurn operations value (taken.map Int64.toInt) result ∧
        session.GoesOn operations.length (Word.wrap result :: left) := by
  induction executes generalizing value taken with
  | done session =>
      obtain rfl := List.eq_nil_of_length_eq_zero enough
      exact
        ⟨value, .done value,
          { reports := rfl
            machine := by
              change session.machine =
                { session.machine with stack := Word.wrap value :: ([] ++ left) }
              rw [← stack]
            output := rfl }⟩
  | @next operation operations session running confirmed found _ inductionHypothesis =>
      obtain ⟨firstReducible, othersReducible⟩ := List.forall_mem_cons.mp reducible
      cases taken with
      | nil => cases enough
      | cons second others =>
          obtain ⟨reached, computes⟩ :=
            firstReducible.exists_computes value second.toInt
          have goesOn :
              session.GoesOn 1 (Word.wrap reached :: (others ++ left)) := by
            refine .one running confirmed found ?_
            rw [stack]
            exact firstReducible.execute_eq computes _
          have reachedStack :
              session.step.2.machine.stack = Word.wrap reached :: (others ++ left) :=
            congrArg Machine.stack goesOn.machine
          obtain ⟨result, computesRest, goesOnRest⟩ :=
            inductionHypothesis othersReducible (Nat.succ.inj enough) reachedStack
          refine ⟨result, .next computes computesRest, ?_⟩
          rw [List.length_cons, Nat.add_comm]
          exact goesOn.trans goesOnRest

/-- A step leaves the one word that is congruent to an integer, above other values. -/
def Leaves (value : Int) (below : Stack) (session : Session σ) : Prop :=
  ∃ result : Word, result.ReducedFrom value ∧ session.GoesOn 1 (result :: below)

/-- What a step does with two values on top that executes an arithmetic operation. -/
structure ComputesExactly
    (top second : Word)
    (below : Stack)
    (session : Session σ) :
    Prop where
  sum :
    session.Executes [.add] → session.Leaves (top.toInt + second.toInt) below
  difference :
    session.Executes [.subtract] → session.Leaves (top.toInt - second.toInt) below
  product :
    session.Executes [.multiply] → session.Leaves (top.toInt * second.toInt) below
  /-- The quotient is a word but for one pair of values. -/
  quotient :
    session.Executes [.divide] →
    second ≠ 0 →
    ∃ (quotient remainder : Int) (result : Word),
      CutsOff top.toInt second.toInt quotient remainder ∧
        (∀ other left,
          CutsOff top.toInt second.toInt other left →
          other = quotient ∧ left = remainder) ∧
        (result.toInt = quotient ↔ ¬Word.Overflow top second) ∧
        (Word.Overflow top second → result.toInt = -0x8000000000000000) ∧
        session.GoesOn 1 (result :: below)

/-- With two values on the stack, a step computes their result exactly. -/
theorem computesExactly_of_stack
    {top second : Word}
    {below : Stack}
    (stack : session.machine.stack = top :: second :: below) :
    session.ComputesExactly top second below := by
  have leaves {operation : Operation} {value : Int}
      (computes : operation.Computes top.toInt second.toInt value)
      (executes : session.Executes [operation]) :
      session.Leaves value below :=
    ⟨_, Word.reducedFrom_wrap value, goesOn_of_computes executes stack computes⟩
  refine ⟨leaves (.sum _ _), leaves (.difference _ _), leaves (.product _ _), ?_⟩
  intro executes nonzero
  have isDivisor := Word.toInt_ne_zero nonzero
  have cutsOff := (@cutsOff_iff top.toInt _ _ _ isDivisor).mpr ⟨rfl, rfl⟩
  obtain ⟨result, reduced, goesOn⟩ := leaves (.quotient cutsOff) executes
  refine
    ⟨_, _, result, cutsOff, ?_, Word.toInt_eq_quotient_iff cutsOff reduced,
      Word.toInt_of_overflow cutsOff reduced, goesOn⟩
  intro other left otherCutsOff
  obtain ⟨rfl, rfl⟩ := (cutsOff_iff isDivisor).mp otherCutsOff
  exact ⟨rfl, rfl⟩

/--
Arithmetic is exact modulo 2⁶⁴.

A sum, a difference or a product takes the place of the two top values as the one word
that is congruent to that of their integers; so does a quotient, cut off towards zero, but
for the one that is no word, of the least word and minus one. What lies below stays.
Whatever row of additions, subtractions and multiplications is executed, it leaves the
result on unbounded integers, reduced once.
-/
theorem arithmetic_is_exact (session : Session σ) :
    (∀ top second below,
      session.machine.stack = top :: second :: below →
      session.ComputesExactly top second below) ∧
    ∀ (operations : List Operation) (top : Word) (taken left : Stack),
      (∀ operation ∈ operations, operation.Reducible) →
      session.Executes operations →
      taken.length = operations.length →
      session.machine.stack = top :: (taken ++ left) →
      ∃ (integer : Int) (result : Word),
        ComputesInTurn operations top.toInt (taken.map Int64.toInt) integer ∧
          result.ReducedFrom integer ∧
          session.GoesOn operations.length (result :: left) := by
  refine ⟨fun _ _ _ => computesExactly_of_stack, ?_⟩
  intro operations top taken left reducible executes enough stack
  rw [← Word.wrap_toInt top] at stack
  obtain ⟨integer, computes, goesOn⟩ :=
    goesOn_of_reducible reducible executes enough stack
  exact ⟨integer, _, computes, Word.reducedFrom_wrap integer, goesOn⟩

/-- A machine whose sum, product and quotient are all beyond the words. -/
def wrappingThrice : Session Script :=
  ofMachine
    { program := #[.operate .add, .operate .multiply, .operate .divide]
      stack := [0x7FFFFFFFFFFFFFFF, 1, 3, -1, 7] }
    {}

/--
The product of the unbounded sum is left, reduced. It is the least word, which minus one
divides into the least word again.
-/
theorem sum_and_product_are_reduced_once :
    (∃ (integer : Int) (result : Word),
      ComputesInTurn [.add, .multiply] 0x7FFFFFFFFFFFFFFF [1, 3] integer ∧
        result.ReducedFrom integer ∧
        wrappingThrice.GoesOn 2 [result, -1, 7]) ∧
      ∃ result : Word,
        result.toInt = -0x8000000000000000 ∧
          (wrappingThrice.stepped 2).GoesOn 1 [result, 7] := by
  have executes : wrappingThrice.Executes [.add, .multiply] :=
    .next rfl (fun _ => rfl) rfl (.next rfl (fun _ => rfl) rfl (.done _))
  have reducible (operation : Operation) (member : operation ∈ [.add, .multiply]) :
      operation.Reducible := by
    cases member with
    | head => exact .add
    | tail _ member => exact List.mem_singleton.mp member ▸ .multiply
  have divides : (wrappingThrice.stepped 2).Executes [.divide] :=
    .next rfl (fun _ => rfl) rfl (.done _)
  have computes :=
    (arithmetic_is_exact (wrappingThrice.stepped 2)).1 (-0x8000000000000000) (-1) [7] rfl
  obtain ⟨_, _, result, _, _, _, ofOverflow, goesOn⟩ :=
    computes.quotient divides (by decide)
  exact
    ⟨(arithmetic_is_exact wrappingThrice).2 [.add, .multiply] 0x7FFFFFFFFFFFFFFF [1, 3]
        [-1, 7] reducible executes rfl rfl,
      result, ofOverflow ⟨rfl, rfl⟩, goesOn⟩

end Session

end StackCode
