import StackCode.FileStore

namespace StackCode

/-!
# What a write does to the files

A write changes what is kept at one location, and no directory is lost by it, so every
path that has led somewhere still leads there. The path that was written to leads to
what was written; a file at another location is read as before.
-/

namespace Text

/--
The last piece of a text is empty only where the text is or ends with a separator.
-/
theorem exists_last_piece (separates : CodeUnit → Bool) (text : Text) :
    ∃ pieces last,
      text.split separates = pieces ++ [last] ∧
        (last = [] →
          text = [] ∨
            ∃ separator,
              text.getLast? = some separator ∧
                separates separator = true) := by
  induction text with
  | nil => exact ⟨[], [], rfl, fun _ => Or.inl rfl⟩
  | cons unit rest inductionHypothesis =>
      obtain ⟨pieces, last, shape, lastEmpty⟩ := inductionHypothesis
      cases separated : separates unit with
      | true =>
          refine ⟨[] :: pieces, last, ?_, ?_⟩
          · rw [split, cut_cons, if_pos separated, shape, List.cons_append]
          · intro isEmpty
            refine Or.inr ?_
            rcases lastEmpty isEmpty with rfl | ⟨separator, isLast, separates⟩
            · exact ⟨unit, rfl, separated⟩
            · refine ⟨separator, ?_, separates⟩
              rw [List.getLast?_cons, isLast]
              rfl
      | false =>
          have joined :
              split separates (unit :: rest) =
                (unit :: (cut separates rest).1) :: (cut separates rest).2 := by
            rw [split, cut_cons, separated]
            rfl
          rw [split] at shape
          cases pieces with
          | nil =>
              obtain ⟨isFirst, noMore⟩ := List.cons.inj shape
              refine ⟨[], unit :: last, ?_, fun isEmpty => nomatch isEmpty⟩
              rw [joined, isFirst, noMore]
              rfl
          | cons first pieces =>
              obtain ⟨isFirst, more⟩ := List.cons.inj shape
              refine ⟨(unit :: first) :: pieces, last, ?_, ?_⟩
              · rw [joined, isFirst, more]
                rfl
              · intro isEmpty
                refine Or.inr ?_
                rcases lastEmpty isEmpty with rfl | ⟨separator, isLast, separates⟩
                · -- The empty text has one piece only.
                  cases pieces <;> cases more
                · refine ⟨separator, ?_, separates⟩
                  rw [List.getLast?_cons, isLast]
                  rfl

end Text

namespace FileStore

variable {store : FileStore} {location place : Location} {content : Bytes}

/-- Where a path leads, whatever is kept there. -/
def locate (store : FileStore) (path : Text) : Except FileFault Location :=
  match Path.fault? path with
  | some fault => .error fault
  | none => store.follow (Path.start path) (Path.components path)

/-- A path leads to where a file can be created or replaced. -/
def Writable (store : FileStore) (path : Text) : Prop :=
  ∃ location,
    store.target path = .ok location ∧
      store.entry? location ≠ some .directory

/-- A write that is not refused puts a file where its path leads. -/
theorem write_eq_ok_iff
    {path : Text}
    {after : FileStore} :
    store.write path content = .ok after ↔
      ∃ location,
        store.target path = .ok location ∧
          store.entry? location ≠ some .directory ∧
          after = store.put location (.file content) := by
  unfold write
  cases store.target path with
  | error fault => simp
  | ok location =>
      by_cases isDirectory : store.entry? location = some .directory
      · simp [isDirectory]
      · simp only [isDirectory, if_false, Except.ok.injEq, ne_eq,
          exists_eq_left', not_false_eq_true, true_and]
        exact eq_comm

/-- A read that is not refused gives the file where its path leads. -/
theorem read_eq_ok_iff {path : Text} :
    store.read path = .ok content ↔
      ∃ location,
        store.locate path = .ok location ∧
          store.entry? location = some (.file content) := by
  unfold read locate
  cases Path.fault? path with
  | some fault => simp
  | none =>
      cases store.follow (Path.start path) (Path.components path) with
      | error fault => simp
      | ok location =>
          simp only [Except.ok.injEq, exists_eq_left']
          cases store.entry? location with
          | none => simp
          | some entry => cases entry <;> simp

/-- To leave out other entries does not change which one is found. -/
theorem lookup_filter
    (entries : List (Location × Entry))
    (stays : Location × Entry → Bool)
    (kept : ∀ entry, stays (location, entry) = true) :
    (entries.filter stays).lookup location = entries.lookup location := by
  induction entries with
  | nil => rfl
  | cons first rest inductionHypothesis =>
      obtain ⟨other, held⟩ := first
      by_cases same : location = other
      · subst same
        simp [kept]
      · have differ : (location == other) = false := beq_eq_false_iff_ne.mpr same
        cases isKept : stays (other, held) <;>
          simp [isKept, List.lookup_cons, differ, inductionHypothesis]

/--
What was put at a location, which no origin is, is there, and what was elsewhere too.
-/
theorem entry_put
    (entry : Entry)
    (isNamed : place.names ≠ [])
    (location : Location) :
    FileStore.entry? (store.put place entry) location =
      if location = place then some entry else store.entry? location := by
  by_cases same : location = place
  · subst same
    simp [FileStore.entry?, put, isNamed]
  · have differ : (location == place) = false := beq_eq_false_iff_ne.mpr same
    simp only [FileStore.entry?, put, List.lookup_cons, differ, same, if_false]
    rw [lookup_filter store.entries (fun held => held.1 != place) fun _ =>
      bne_iff_ne.mpr same]

section Put

variable
  (isNamed : place.names ≠ [])
  (noDirectory : store.entry? place ≠ some .directory)
include isNamed noDirectory

/-- A file that is put somewhere does not take the place of a directory. -/
theorem requireDirectory_put
    (entry : Entry)
    (required : store.requireDirectory location = .ok ()) :
    (store.put place entry).requireDirectory location = .ok () := by
  have isDirectory : store.entry? location = some .directory := by
    unfold requireDirectory at required
    cases held : store.entry? location with
    | none =>
        rw [held] at required
        cases required
    | some entry =>
        rw [held] at required
        cases entry with
        | file content => cases required
        | directory => rfl
  have elsewhere : location ≠ place := by
    rintro rfl
    exact noDirectory isDirectory
  rw [requireDirectory, entry_put entry isNamed, if_neg elsewhere, isDirectory]

/-- Components lead where they have led before. -/
theorem follow_put
    (entry : Entry)
    {names : List Text}
    {reached : Location}
    (followed : store.follow location names = .ok reached) :
    (store.put place entry).follow location names = .ok reached := by
  induction names generalizing location with
  | nil => exact followed
  | cons name rest inductionHypothesis =>
      rw [follow] at followed ⊢
      cases required : store.requireDirectory location with
      | error fault =>
          rw [required] at followed
          cases followed
      | ok _ =>
          rw [required] at followed
          rw [requireDirectory_put isNamed noDirectory entry required]
          simp only at followed ⊢
          split at followed
          · next stays =>
              rw [if_pos stays]
              exact inductionHypothesis followed
          · next moves =>
              rw [if_neg moves]
              split at followed
              · next isAbove =>
                  rw [if_pos isAbove]
                  exact inductionHypothesis followed
              · next isName =>
                  rw [if_neg isName]
                  split at followed
                  · cases followed
                  · next fits =>
                      rw [if_neg fits]
                      exact inductionHypothesis followed

/-- A file that is put somewhere leads no path elsewhere. -/
theorem locate_put
    (entry : Entry)
    {path : Text}
    (located : store.locate path = .ok location) :
    (store.put place entry).locate path = .ok location := by
  unfold locate at located ⊢
  cases faulty : Path.fault? path with
  | some fault =>
      rw [faulty] at located
      cases located
  | none =>
      rw [faulty] at located
      exact follow_put isNamed noDirectory entry located

end Put

/-- Names are followed one after the other. -/
theorem follow_append
    (location : Location)
    (names others : List Text) :
    store.follow location (names ++ others) =
      match store.follow location names with
      | .error fault => .error fault
      | .ok reached => store.follow reached others := by
  induction names generalizing location with
  | nil => rfl
  | cons name rest inductionHypothesis =>
      rw [List.cons_append, follow, follow]
      cases store.requireDirectory location with
      | error fault => rfl
      | ok _ =>
          simp only [inductionHypothesis]
          split
          · rfl
          · split
            · rfl
            · split <;> rfl

/-- A name in a directory, as the last component of a path. -/
structure NamedIn
    (store : FileStore)
    (directory : Location)
    (name : Text) :
    Prop where
  nonempty : name ≠ []
  notCurrent : name ≠ Path.current
  notAbove : name ≠ Path.above
  fits : Path.isTooLong name = false
  isDirectory : store.requireDirectory directory = .ok ()

/-- A name in a directory leads to what is there. -/
theorem NamedIn.follow_eq
    {directory : Location}
    {name : Text}
    (named : store.NamedIn directory name) :
    store.follow directory [name] = .ok (directory.child name) := by
  simp only [follow, named.isDirectory, List.isEmpty_iff, named.nonempty,
    named.notCurrent, named.notAbove, named.fits, or_self, if_false,
    Bool.false_eq_true]

/-- A path that can be written to names a file in a directory. -/
theorem exists_namedIn_of_target
    {path : Text}
    (target : store.target path = .ok location) :
    ∃ before name directory,
      Path.fault? path = none ∧
        Path.components path = before ++ [name] ∧
        store.follow (Path.start path) before = .ok directory ∧
        store.NamedIn directory name ∧
        location = directory.child name := by
  unfold FileStore.target at target
  cases faulty : Path.fault? path with
  | some fault =>
      rw [faulty] at target
      cases target
  | none =>
      obtain ⟨before, name, shape, emptyName⟩ :=
        Text.exists_last_piece (· == Path.separator) path
      have components : Path.components path = before ++ [name] := shape
      by_cases ends : path.endsWith Path.separator = true
      · simp only [faulty, ends, or_true, if_true] at target
        split at target
        · cases target
        · split at target
          · cases target
          · split at target <;> cases target
      · have nonempty : name ≠ [] := by
          intro isEmpty
          rcases emptyName isEmpty with rfl | ⟨separator, isLast, isSeparator⟩
          · cases faulty
          · refine ends ?_
            rw [Text.endsWith, isLast, ← beq_iff_eq.mp isSeparator]
            exact beq_self_eq_true _
        have names :
            (before ++ [name]).reverse.dropWhile List.isEmpty =
              name :: before.reverse := by
          rw [List.reverse_append, List.reverse_singleton, List.singleton_append,
            List.dropWhile_cons_of_neg (by simpa using nonempty)]
        simp only [faulty, components, names, List.reverse_reverse] at target
        cases followed : store.follow (Path.start path) before with
        | error fault =>
            simp only [followed] at target
            cases target
        | ok directory =>
            cases required : store.requireDirectory directory with
            | error fault =>
                simp only [followed, required] at target
                cases target
            | ok _ =>
                simp only [followed, required] at target
                split at target
                · cases target
                · next plain =>
                    simp only [not_or] at plain
                    split at target
                    · cases target
                    · next fits =>
                        cases target
                        exact
                          ⟨before, name, directory, rfl, components, followed,
                            { nonempty := nonempty
                              notCurrent := plain.1
                              notAbove := plain.2.1
                              fits := Bool.eq_false_iff.mpr fits
                              isDirectory := required },
                            rfl⟩

/-- A write reaches what its path leads to, which is no origin. -/
theorem locate_of_target
    {path : Text}
    (target : store.target path = .ok location) :
    store.locate path = .ok location ∧ location.names ≠ [] := by
  obtain ⟨before, name, directory, faultless, components, followed, named, rfl⟩ :=
    exists_namedIn_of_target target
  constructor
  · simp only [locate, faultless, components, follow_append, followed,
      named.follow_eq]
  · exact List.cons_ne_nil _ _

/-- What has been written to a path is read from it. -/
theorem read_write
    {path : Text}
    {after : FileStore}
    (written : store.write path content = .ok after) :
    after.read path = .ok content := by
  obtain ⟨place, target, noDirectory, rfl⟩ := write_eq_ok_iff.mp written
  obtain ⟨located, isNamed⟩ := locate_of_target target
  refine read_eq_ok_iff.mpr
    ⟨_, locate_put isNamed noDirectory _ located, ?_⟩
  rw [entry_put _ isNamed, if_pos rfl]

/-- A file elsewhere is read as before. -/
theorem read_write_of_ne
    {path other : Text}
    {kept : Bytes}
    {after : FileStore}
    (written : store.write path content = .ok after)
    (found : store.read other = .ok kept)
    (elsewhere : store.locate other ≠ store.target path) :
    after.read other = .ok kept := by
  obtain ⟨place, target, noDirectory, rfl⟩ := write_eq_ok_iff.mp written
  obtain ⟨location, located, isFile⟩ := read_eq_ok_iff.mp found
  have isNamed := (locate_of_target target).2
  refine read_eq_ok_iff.mpr
    ⟨_, locate_put isNamed noDirectory _ located, ?_⟩
  have differ : location ≠ place := by
    rintro rfl
    exact elsewhere (located.trans target.symm)
  rw [entry_put _ isNamed, if_neg differ, isFile]

end FileStore

end StackCode
