import StackCode.Proofs.DecodedLines

namespace StackCode

/-!
# Questions and the lines that answer them

A question is answered by the first line that can be understood; the lines before it are
complained about, and the next question finds the input right after it. However many
questions there are, they are answered by the lines that can be understood, one after the
other, as if there were no others.
-/

namespace Answer

/-- What a line says, without the blanks around it and in small letters. -/
def said (line : Text) : Text :=
  line.trim.map CodeUnit.lowerCase

/-- A line that says to go on. -/
def IsYes (line : Text) : Prop :=
  said line ∈ ([[], "y", "yes"] : List Text)

/-- A line that says not to go on. -/
def IsNo (line : Text) : Prop :=
  said line ∈ (["n", "no"] : List Text)

/-- A line that can be understood. -/
def IsClear (line : Text) : Prop :=
  IsYes line ∨ IsNo line

instance (line : Text) : Decidable (IsYes line) :=
  inferInstanceAs (Decidable (said line ∈ ([[], "y", "yes"] : List Text)))

instance (line : Text) : Decidable (IsNo line) :=
  inferInstanceAs (Decidable (said line ∈ (["n", "no"] : List Text)))

instance (line : Text) : Decidable (IsClear line) :=
  inferInstanceAs (Decidable (IsYes line ∨ IsNo line))

/-- A line means what it says, and what it says decides between three answers. -/
theorem ofLine_eq (line : Text) :
    ofLine line =
      if IsYes line then .proceed else if IsNo line then .abort else .unclear := by
  simp only [IsYes, IsNo, List.mem_cons, List.not_mem_nil, or_false]
  rfl

/-- A line that can be understood is a yes or a no. -/
theorem ofLine_of_isClear
    {line : Text}
    (clear : IsClear line) :
    ofLine line = if IsYes line then .proceed else .abort := by
  rw [ofLine_eq]
  rcases clear with isYes | isNo
  · rw [if_pos isYes, if_pos isYes]
  · rw [if_pos isNo]

/-- A line that is neither a yes nor a no is unclear. -/
theorem ofLine_of_not_isClear
    {line : Text}
    (unclear : ¬IsClear line) :
    ofLine line = .unclear := by
  obtain ⟨notYes, notNo⟩ := not_or.mp unclear
  rw [ofLine_eq, if_neg notYes, if_neg notNo]

end Answer

namespace Console

/-! ## The octets of lines -/

/-- The octets of each line, with those that end it. -/
def rawLines : Bytes → List Bytes
  | [] => []
  | byte :: rest =>
      if byte = lineEnd then
        [byte] :: rawLines rest
      else
        match rawLines rest with
        | [] => [[byte]]
        | first :: others => (byte :: first) :: others

/-- The line that is read from its octets. -/
def lineOf (octets : Bytes) : Text :=
  (read octets).1.getD []

/-- Lines with their ends make up the whole input. -/
theorem flatten_rawLines (input : Bytes) : (rawLines input).flatten = input := by
  induction input with
  | nil => rfl
  | cons byte rest inductionHypothesis =>
      rw [rawLines]
      split
      · rw [List.flatten_cons, inductionHypothesis]
        rfl
      · split
        next noLines =>
          rw [noLines] at inductionHypothesis
          rw [← inductionHypothesis]
          rfl
        next first others lines =>
          rw [lines] at inductionHypothesis
          rw [← inductionHypothesis]
          rfl

/-- An octet that ends a line parts it from the lines after it. -/
theorem rawLines_ended
    {piece : Bytes}
    (noEnd : lineEnd ∉ piece)
    (rest : Bytes) :
    rawLines (piece ++ lineEnd :: rest) = (piece ++ [lineEnd]) :: rawLines rest := by
  induction piece with
  | nil => exact if_pos rfl
  | cons byte later inductionHypothesis =>
      rw [List.mem_cons, not_or] at noEnd
      obtain ⟨goesOn, laterNoEnd⟩ := noEnd
      rw [List.cons_append, rawLines, if_neg (Ne.symm goesOn),
        inductionHypothesis laterNoEnd]
      rfl

/-- What no line end follows is one line. -/
theorem rawLines_unended
    {piece : Bytes}
    (nonempty : piece ≠ [])
    (noEnd : lineEnd ∉ piece) :
    rawLines piece = [piece] := by
  induction piece with
  | nil => exact absurd rfl nonempty
  | cons byte later inductionHypothesis =>
      rw [List.mem_cons, not_or] at noEnd
      obtain ⟨goesOn, laterNoEnd⟩ := noEnd
      rw [rawLines, if_neg (Ne.symm goesOn)]
      cases later with
      | nil => rfl
      | cons next others =>
          rw [inductionHypothesis (List.cons_ne_nil next others) laterNoEnd]

/-- The octets of the line that is next, which may be moved before other input. -/
structure NextLine (octets : Bytes) (line : Text) (rest : Bytes) : Prop where
  isLine : lineOf octets = line
  isFirst :
    ∀ other, (rest = [] → other = []) →
      rawLines (octets ++ other) = octets :: rawLines other

/-- The line that is next stands at the beginning of the input, as octets of its own. -/
theorem TakesLine.exists_octets
    {input rest : Bytes}
    {line : Text}
    (takes : TakesLine input (some line) rest) :
    ∃ octets, input = octets ++ rest ∧ NextLine octets line rest := by
  cases takes with
  | @ended piece noEnd =>
      have alone := (TakesLine.ended noEnd []).read_eq
      refine ⟨piece ++ [lineEnd], by rw [List.append_assoc]; rfl, ?_, fun other _ => ?_⟩
      · rw [lineOf, alone]
        rfl
      · rw [List.append_assoc]
        exact rawLines_ended noEnd other
  | unended nonempty noEnd =>
      have alone := (TakesLine.unended nonempty noEnd).read_eq
      refine ⟨input, (List.append_nil input).symm, ?_, fun other nothing => ?_⟩
      · rw [lineOf, alone]
        rfl
      · rw [nothing rfl, List.append_nil]
        exact rawLines_unended nonempty noEnd

/-- The lines of an input are read from the octets of each. -/
theorem map_lineOf_rawLines (input : Bytes) : (rawLines input).map lineOf = lines input := by
  induction input using lineInduction with
  | nothing => exact lines_nil.symm
  | takes input line rest takes inductionHypothesis =>
      obtain ⟨octets, rfl, next⟩ := takes.exists_octets
      rw [takes.lines_eq, next.isFirst rest id, List.map_cons, next.isLine,
        inductionHypothesis]

/-- Those of a number of lines that can be understood. -/
def clearOf (lines : List Bytes) : List Bytes :=
  lines.filter fun octets => decide (Answer.IsClear (lineOf octets))

theorem clearOf_append (first later : List Bytes) :
    clearOf (first ++ later) = clearOf first ++ clearOf later :=
  List.filter_append first later

theorem clearOf_cons (octets : Bytes) (others : List Bytes) :
    clearOf (octets :: others) =
      if Answer.IsClear (lineOf octets) then
        octets :: clearOf others
      else
        clearOf others := by
  rw [clearOf, List.filter_cons]
  simp only [decide_eq_true_eq]
  rfl

/-- Where no line can be understood, none is left. -/
theorem clearOf_eq_nil
    {lines : List Bytes}
    (unclear : ∀ octets ∈ lines, ¬Answer.IsClear (lineOf octets)) :
    clearOf lines = [] :=
  List.filter_eq_nil_iff.mpr fun octets member isClear =>
    unclear octets member (of_decide_eq_true isClear)

/-- The lines of input that can be understood, with their octets. -/
def clearLines (input : Bytes) : List Bytes :=
  clearOf (rawLines input)

/-- Input without the lines that cannot be understood. -/
def understood (input : Bytes) : Bytes :=
  (clearLines input).flatten

/--
Without the lines that cannot be understood, the others are the lines of what is left.
-/
theorem rawLines_understood (input : Bytes) :
    rawLines (understood input) = clearLines input := by
  induction input using lineInduction with
  | nothing => rfl
  | takes input line rest takesLine inductionHypothesis =>
      obtain ⟨octets, rfl, next⟩ := takesLine.exists_octets
      unfold understood clearLines at inductionHypothesis ⊢
      rw [next.isFirst rest id, clearOf_cons]
      split
      · rw [List.flatten_cons, next.isFirst, inductionHypothesis]
        rintro rfl
        rfl
      · exact inductionHypothesis

/-- To leave out the lines that cannot be understood loses none of the others. -/
theorem clearLines_understood (input : Bytes) :
    clearLines (understood input) = clearLines input := by
  rw [clearLines, rawLines_understood, clearLines, clearOf, clearOf, List.filter_filter]
  simp only [Bool.and_self]

/-! ## One question -/

/-- What is written while a number of lines are not understood. -/
def asked (question : Text) (misunderstood : Nat) : List Text :=
  (List.replicate misunderstood [promptText question, complaint]).flatten ++
    [promptText question]

/-- A question is decided by the first line that can be understood. -/
inductive Decides (question : Text) (input : Bytes) (reply : Reply Console) : Prop where
  /-- There is such a line, and the input after it is left. -/
  | byLine
      (misunderstood : List Bytes)
      (octets : Bytes)
      (unclear : ∀ other ∈ misunderstood, ¬Answer.IsClear (lineOf other))
      (clear : Answer.IsClear (lineOf octets))
      (isNext :
        rawLines input = misunderstood ++ octets :: rawLines reply.rest.unread)
      (taken : input = misunderstood.flatten ++ octets ++ reply.rest.unread)
      (turns : reply.rest.unread = unreadAfter (misunderstood.length + 1) input)
      (answer : reply.proceed = true ↔ Answer.IsYes (lineOf octets))
      (written : reply.written = asked question misunderstood.length)
  /-- There is none, and nothing is left of the input. -/
  | byEnd
      (unclear : ∀ other ∈ rawLines input, ¬Answer.IsClear (lineOf other))
      (taken : reply.rest.unread = [])
      (turns : reply.rest.unread = unreadAfter ((rawLines input).length + 1) input)
      (answer : reply.proceed = false)
      (written : reply.written = asked question (rawLines input).length)

/-- A line that is not understood costs one question and one complaint. -/
theorem asked_succ (question : Text) (misunderstood : Nat) :
    asked question (misunderstood + 1) =
      promptText question :: complaint :: asked question misunderstood := by
  rw [asked, List.replicate_succ, List.flatten_cons, List.append_assoc]
  rfl

/-- When the input has ended, a question is asked in vain. -/
theorem confirm_nil (question : Text) :
    confirm question [] =
      { proceed := false
        written := [promptText question]
        rest := { unread := [] } } := by
  rw [confirm]
  rfl

section Line

variable
  {input rest : Bytes}
  {line : Text}
  (takes : TakesLine input (some line) rest)
  (question : Text)

include takes

/-- A line answers the question, or it is asked again of the input after the line. -/
theorem confirm_eq :
    confirm question input =
      match Answer.ofLine line with
      | .proceed =>
          { proceed := true
            written := [promptText question]
            rest := { unread := rest } }
      | .abort =>
          { proceed := false
            written := [promptText question]
            rest := { unread := rest } }
      | .unclear =>
          { confirm question rest with
            written :=
              promptText question :: complaint :: (confirm question rest).written } := by
  rw [confirm]
  split
  next unread =>
    rw [takes.readLine?_eq] at unread
    cases unread
  next isRead =>
    rw [takes.readLine?_eq] at isRead
    cases isRead
    rfl

/-- A line that can be understood decides, and what comes after it is left. -/
theorem confirm_of_isClear (clear : Answer.IsClear line) :
    confirm question input =
      { proceed := decide (Answer.IsYes line)
        written := [promptText question]
        rest := { unread := rest } } := by
  rw [confirm_eq takes, Answer.ofLine_of_isClear clear]
  by_cases isYes : Answer.IsYes line
  · rw [if_pos isYes, decide_eq_true isYes]
  · rw [if_neg isYes, decide_eq_false isYes]

/-- After a line that cannot be understood it is as if the question were asked there. -/
theorem confirm_of_not_isClear (unclear : ¬Answer.IsClear line) :
    confirm question input =
      { confirm question rest with
        written :=
          promptText question :: complaint :: (confirm question rest).written } := by
  rw [confirm_eq takes, Answer.ofLine_of_not_isClear unclear]

end Line

/-- Every question is decided. -/
theorem decides_confirm (question : Text) (input : Bytes) :
    Decides question input (confirm question input) := by
  induction input using lineInduction with
  | nothing =>
      rw [confirm_nil]
      exact .byEnd (fun _ absent => absurd absent List.not_mem_nil) rfl rfl rfl rfl
  | takes input line rest takes inductionHypothesis =>
      obtain ⟨octets, rfl, next⟩ := takes.exists_octets
      have isFirst := next.isFirst rest id
      have turns (count : Nat) :
          unreadAfter (count + 1) (octets ++ rest) = unreadAfter count rest := by
        rw [unreadAfter_succ, takes.read_eq]
      -- A clear line decides at once; otherwise what decides the rest does, one line later.
      by_cases clear : Answer.IsClear line
      · rw [confirm_of_isClear takes question clear]
        rw [← next.isLine] at clear ⊢
        exact
          .byLine [] octets (fun _ absent => absurd absent List.not_mem_nil) clear
            isFirst rfl (turns 0).symm decide_eq_true_iff rfl
      · rw [confirm_of_not_isClear takes question clear]
        rw [← next.isLine] at clear
        cases inductionHypothesis with
        | byLine misunderstood decisive unclear isClear isNext taken later answer written =>
            refine
              .byLine (octets :: misunderstood) decisive
                (List.forall_mem_cons.mpr ⟨clear, unclear⟩) isClear ?_ ?_ ?_ answer ?_
            · rw [isFirst, isNext]
              rfl
            · rw [List.flatten_cons, List.append_assoc, List.append_assoc,
                ← List.append_assoc misunderstood.flatten, ← taken]
            · rw [List.length_cons, turns]
              exact later
            · rw [List.length_cons, asked_succ, ← written]
        | byEnd unclear taken later answer written =>
            refine .byEnd ?_ taken ?_ answer ?_
            · rw [isFirst]
              exact List.forall_mem_cons.mpr ⟨clear, unclear⟩
            · rw [isFirst, List.length_cons, turns]
              exact later
            · rw [isFirst, List.length_cons, asked_succ, ← written]

/-- Lines that cannot be understood do not count among those that can. -/
theorem clearLines_eq_cons
    {input rest octets : Bytes}
    {misunderstood : List Bytes}
    (unclear : ∀ other ∈ misunderstood, ¬Answer.IsClear (lineOf other))
    (clear : Answer.IsClear (lineOf octets))
    (isNext : rawLines input = misunderstood ++ octets :: rawLines rest) :
    clearLines input = octets :: clearLines rest := by
  rw [clearLines, isNext, clearOf_append, clearOf_eq_nil unclear, clearOf_cons,
    if_pos clear]
  rfl

namespace Decides

variable {question : Text} {input : Bytes} {reply : Reply Console}

/-- What decides a question is the first of the lines that can be understood. -/
theorem proceed_iff (decides : Decides question input reply) :
    reply.proceed = true ↔
      ∃ octets, (clearLines input)[0]? = some octets ∧ Answer.IsYes (lineOf octets) := by
  cases decides with
  | byLine misunderstood octets unclear clear isNext taken turns answer written =>
      rw [clearLines_eq_cons unclear clear isNext, answer, List.getElem?_cons_zero]
      constructor
      · exact fun isYes => ⟨octets, rfl, isYes⟩
      · rintro ⟨_, ⟨⟩, isYes⟩
        exact isYes
  | byEnd unclear taken turns answer written =>
      have noLine : clearLines input = [] := clearOf_eq_nil unclear
      rw [noLine, answer]
      constructor
      · rintro ⟨⟩
      · rintro ⟨_, ⟨⟩, _⟩

/-- A question takes one of the lines that can be understood. -/
theorem clearLines_rest (decides : Decides question input reply) :
    clearLines reply.rest.unread = (clearLines input).tail := by
  cases decides with
  | byLine misunderstood octets unclear clear isNext taken turns answer written =>
      rw [clearLines_eq_cons unclear clear isNext, List.tail_cons]
  | byEnd unclear taken turns answer written =>
      have noLine : clearLines input = [] := clearOf_eq_nil unclear
      rw [noLine, taken]
      rfl

/-- At the end of the input a question is decided with no. -/
theorem of_ended (decides : Decides question [] reply) :
    reply.proceed = false ∧ reply.rest.unread = [] := by
  cases decides with
  | byLine misunderstood octets unclear clear isNext =>
      exact absurd isNext.symm
        (List.append_ne_nil_of_right_ne_nil misunderstood (List.cons_ne_nil octets _))
  | byEnd unclear taken turns answer written => exact ⟨answer, taken⟩

end Decides

/-! ## Many questions -/

/-- The replies to questions that are asked one after the other. -/
def replies : List Text → Bytes → List (Reply Console)
  | [], _ => []
  | question :: later, input =>
      let reply := confirm question input
      reply :: replies later reply.rest.unread

/-- Replies of which each decides its question on the input that those before it leave. -/
inductive Conversation : List Text → Bytes → List (Reply Console) → Prop where
  | nil (input : Bytes) : Conversation [] input []
  | cons
      {question : Text}
      {input : Bytes}
      {reply : Reply Console}
      {later : List Text}
      {others : List (Reply Console)}
      (decides : Decides question input reply)
      (conversation : Conversation later reply.rest.unread others) :
      Conversation (question :: later) input (reply :: others)

/-- Questions that are asked in turn make a conversation. -/
theorem conversation_replies (questions : List Text) (input : Bytes) :
    Conversation questions input (replies questions input) := by
  induction questions generalizing input with
  | nil => exact .nil input
  | cons question later inductionHypothesis =>
      exact .cons (decides_confirm question input) (inductionHypothesis _)

namespace Conversation

variable
  {questions : List Text}
  {input : Bytes}
  {replies : List (Reply Console)}

/-- The questions are answered by the lines that can be understood, in their order. -/
theorem proceed_iff
    (conversation : Conversation questions input replies)
    {index : Nat}
    {reply : Reply Console}
    (isReply : replies[index]? = some reply) :
    reply.proceed = true ↔
      ∃ octets,
        (clearLines input)[index]? = some octets ∧ Answer.IsYes (lineOf octets) := by
  induction conversation generalizing index with
  | nil => cases isReply
  | @cons question input first later others decides conversation inductionHypothesis =>
      cases index with
      | zero =>
          cases isReply
          exact decides.proceed_iff
      | succ index =>
          rw [inductionHypothesis isReply, decides.clearLines_rest, List.getElem?_tail]

/-- At the end of the input every question is answered with no. -/
theorem of_ended
    (conversation : Conversation questions input replies)
    (ended : input = []) :
    ∀ reply ∈ replies, reply.proceed = false ∧ reply.rest.unread = [] := by
  induction conversation with
  | nil => exact fun _ absent => absurd absent List.not_mem_nil
  | cons decides conversation inductionHypothesis =>
      subst ended
      exact
        List.forall_mem_cons.mpr
          ⟨decides.of_ended, inductionHypothesis decides.of_ended.2⟩

/-- Once the input has ended, all later questions are decided with no. -/
theorem pairwise
    (conversation : Conversation questions input replies) :
    replies.Pairwise fun reply later =>
      reply.rest.unread = [] → later.proceed = false ∧ later.rest.unread = [] := by
  induction conversation with
  | nil => exact .nil
  | cons decides conversation inductionHypothesis =>
      refine .cons (fun later member ended => ?_) inductionHypothesis
      exact conversation.of_ended ended later member

/-- Two inputs with the same clear lines decide the same questions alike. -/
theorem proceeds_eq
    {other : Bytes}
    {otherReplies : List (Reply Console)}
    (conversation : Conversation questions input replies)
    (otherConversation : Conversation questions other otherReplies)
    (same : clearLines other = clearLines input) :
    otherReplies.map Reply.proceed = replies.map Reply.proceed := by
  induction conversation generalizing other otherReplies with
  | nil =>
      cases otherConversation
      rfl
  | cons decides conversation inductionHypothesis =>
      cases otherConversation with
      | cons otherDecides otherConversation =>
          rw [List.map_cons, List.map_cons, inductionHypothesis otherConversation]
          · congr 1
            rw [Bool.eq_iff_iff, decides.proceed_iff, otherDecides.proceed_iff, same]
          · rw [otherDecides.clearLines_rest, decides.clearLines_rest, same]

end Conversation

/--
How questions are answered: each by the first line that can be understood, all of them by
such lines in order, and with no when the input has ended. Lines that cannot be understood
might as well not be there.
-/
structure AnswersByClearLines (questions : List Text) (input : Bytes) : Prop where
  whole : (rawLines input).flatten = input
  linesAreRead : (rawLines input).map lineOf = lines input
  decided : Conversation questions input (replies questions input)
  inOrder :
    ∀ (index : Nat) (reply : Reply Console),
      (replies questions input)[index]? = some reply →
      (reply.proceed = true ↔
        ∃ octets,
          (clearLines input)[index]? = some octets ∧ Answer.IsYes (lineOf octets))
  ended :
    (replies questions input).Pairwise fun (reply later : Reply Console) =>
      reply.rest.unread = [] → later.proceed = false ∧ later.rest.unread = []
  undisturbed :
    (replies questions (understood input)).map Reply.proceed =
      (replies questions input).map Reply.proceed

end Console

end StackCode
