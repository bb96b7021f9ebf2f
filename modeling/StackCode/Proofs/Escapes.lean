import StackCode.Text.Escape

namespace StackCode

/-!
# Bodies of string literals and what they stand for

A body that can be read is a row of escapes and of units other than the backslash.
`Escape.StandsFor` relates such a row to the text that it stands for, and reading a
body finds that text. Units that escapes neither consist of nor stand for are the same
in both, in the same places.
-/

namespace Escape

/-- What escapes can stand for. -/
def values : List CodeUnit :=
  [CodeUnit.lineFeed, 0x09, 0x00, backslash]

/-- The units that escapes consist of. -/
def parts : List CodeUnit :=
  backslash :: ['n', 't', '0'].map CodeUnit.ofChar

/-- A unit that escapes neither consist of nor stand for. -/
structure IsPlain (unit : CodeUnit) : Prop where
  notPart : unit ∉ parts
  notValue : unit ∉ values

/-- An escape is one of a few units and stands for one of a few. -/
theorem mem_of_meaning?
    {escaped value : CodeUnit}
    (means : meaning? escaped = some value) :
    escaped ∈ parts ∧ value ∈ values := by
  revert means
  fun_cases meaning? escaped with
  | case5 => rintro ⟨⟩
  | _ =>
      rintro ⟨⟩
      simp_all [parts, values]

/-- A body and the text that it stands for. -/
inductive StandsFor : Text → Text → Prop where
  | nil : StandsFor [] []
  /-- A backslash and the unit after it stand for one unit. -/
  | escape
      {escaped value : CodeUnit}
      {body text : Text}
      (means : meaning? escaped = some value)
      (rest : StandsFor body text) :
      StandsFor (backslash :: escaped :: body) (value :: text)
  /-- Any other unit stands for itself. -/
  | unit
      {unit : CodeUnit}
      {body text : Text}
      (noBackslash : unit ≠ backslash)
      (rest : StandsFor body text) :
      StandsFor (unit :: body) (unit :: text)

/-- What stands for a text is read as that text before whatever follows. -/
theorem StandsFor.resolve_append
    {body text : Text}
    (stands : StandsFor body text)
    (rest : Text) :
    resolve (body ++ rest) = (text ++ ·) <$> resolve rest := by
  induction stands with
  | nil =>
      rw [List.nil_append]
      cases resolve rest <;> rfl
  | @escape escaped value body _ means _ inductionHypothesis =>
      change resolve (backslash :: escaped :: (body ++ rest)) = _
      rw [resolve, if_pos rfl]
      simp only [means, inductionHypothesis]
      cases resolve rest <;> rfl
  | @unit unit body _ noBackslash _ inductionHypothesis =>
      change resolve (unit :: (body ++ rest)) = _
      rw [resolve.eq_def]
      simp only [if_neg noBackslash, inductionHypothesis]
      cases resolve rest <;> rfl

theorem map_eq_ok_iff
    {unit : CodeUnit}
    {read : Except Defect Text}
    {text : Text} :
    (unit :: ·) <$> read = .ok text ↔
      ∃ rest, read = .ok rest ∧ text = unit :: rest := by
  cases read with
  | error defect => exact ⟨nofun, nofun⟩
  | ok rest =>
      constructor
      · rintro ⟨⟩
        exact ⟨rest, rfl, rfl⟩
      · rintro ⟨_, ⟨⟩, rfl⟩
        rfl

/-- A body is read as what it stands for. -/
theorem resolve_eq_ok_iff
    {body text : Text} :
    resolve body = .ok text ↔ StandsFor body text := by
  constructor
  · intro read
    fun_induction resolve body generalizing text with
    | case1 =>
        cases read
        exact .nil
    | case2 => cases read
    | case3 => cases read
    | case4 escaped rest value means inductionHypothesis =>
        obtain ⟨others, readRest, rfl⟩ := map_eq_ok_iff.mp read
        exact .escape means (inductionHypothesis readRest)
    | case5 unit rest noBackslash inductionHypothesis =>
        obtain ⟨others, readRest, rfl⟩ := map_eq_ok_iff.mp read
        exact .unit noBackslash (inductionHypothesis readRest)
  · intro stands
    rw [← List.append_nil body, stands.resolve_append]
    exact congrArg Except.ok (List.append_nil text)

/-- What is written stands for the text. -/
theorem standsFor_write (text : Text) : StandsFor (write text) text :=
  resolve_eq_ok_iff.mp (resolve_write text)

namespace StandsFor

variable {body text : Text} {unit : CodeUnit}

/-- A unit of a text stands in its body, or an escape for it does. -/
theorem mem_or_mem_values
    (stands : StandsFor body text)
    (member : unit ∈ text) :
    unit ∈ body ∨ unit ∈ values := by
  induction stands with
  | nil => cases member
  | escape means _ inductionHypothesis =>
      rcases List.mem_cons.mp member with rfl | inRest
      · exact Or.inr (mem_of_meaning? means).2
      · exact (inductionHypothesis inRest).imp_left fun inBody =>
          List.mem_cons_of_mem _ (List.mem_cons_of_mem _ inBody)
  | unit _ _ inductionHypothesis =>
      rcases List.mem_cons.mp member with rfl | inRest
      · exact Or.inl List.mem_cons_self
      · exact (inductionHypothesis inRest).imp_left
          (List.mem_cons_of_mem _)

/-- A plain unit begins a text and its body, or neither of them. -/
theorem head?_iff
    (stands : StandsFor body text)
    (plain : IsPlain unit) :
    text.head? = some unit ↔ body.head? = some unit := by
  cases stands with
  | nil => rfl
  | unit => rfl
  | escape means =>
      constructor
      · rintro ⟨⟩
        exact absurd (mem_of_meaning? means).2 plain.notValue
      · rintro ⟨⟩
        exact absurd List.mem_cons_self plain.notPart

end StandsFor

/-- What is written for a unit is the unit itself, or the parts of an escape. -/
theorem mem_writeUnit
    {unit other : CodeUnit}
    (member : unit ∈ writeUnit other) :
    (unit = other ∧ unit ∉ values) ∨ unit ∈ parts := by
  revert member
  fun_cases writeUnit other with
  | case5 noBackslash noFeed noTab noNul =>
      intro member
      rw [List.mem_singleton] at member
      simp_all [values]
  | _ =>
      intro member
      rw [List.mem_cons, List.mem_singleton] at member
      exact Or.inr (by rcases member with rfl | rfl <;> decide)

/-- A written unit stands as it is in the text, or is part of an escape. -/
theorem mem_of_mem_write
    {unit : CodeUnit}
    {text : Text}
    (member : unit ∈ write text) :
    (unit ∈ text ∧ unit ∉ values) ∨ unit ∈ parts := by
  obtain ⟨other, inText, inWritten⟩ := List.mem_flatMap.mp member
  refine (mem_writeUnit inWritten).imp_left ?_
  rintro ⟨rfl, noValue⟩
  exact ⟨inText, noValue⟩

end Escape

end StackCode
