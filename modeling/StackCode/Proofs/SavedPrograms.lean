import StackCode.Proofs.Arguments
import StackCode.Proofs.Endings
import StackCode.Proofs.ImageFormat
import StackCode.Proofs.StoredFiles

namespace StackCode

/-!
# Programs that are saved and run

A program's image has neither names nor breakpoints, but a run that shows nothing makes
no use of them. So a program that is run from its saved image does what it does when it
is assembled and run at once.
-/

namespace Options

/-- What is read as the name of an input. -/
structure IsInputName (name : Text) : Prop where
  nonempty : name ≠ []
  noOption : name.startsWith (CodeUnit.ofChar '-') = false

variable {name : Text}

/-- An input's name is taken for one wherever an option could stand. -/
theorem readFlags_cons
    (isName : IsInputName name)
    (flags : Flags)
    (rest : List Text) :
    readFlags flags (name :: rest) =
      readFlags { flags with input := name } rest :=
  readFlags_of_spells (.input isName.noOption) flags rest

section

variable (isName : IsInputName name)
include isName

/-- Arguments that assemble a source and save its image. -/
theorem ofArguments_save
    {image : Text}
    (nonempty : image ≠ []) :
    ofArguments [name, "-a", "-o", image] =
      .ok
        { input := name
          output := some image
          assembles := true
          runs := false
          verbose := false
          lists := false } := by
  have flags :
      readFlags {} [name, "-a", "-o", image] =
        .ok { input := name, output := image, assembles := true } := by
    rw [readFlags_cons isName]
    rfl
  simp only [ofArguments, flags, Flags.selectedOutput, List.isEmpty_cons,
    List.isEmpty_eq_false_iff.mpr isName.nonempty,
    List.isEmpty_eq_false_iff.mpr nonempty]
  rfl

/-- Arguments that assemble a source and run it. -/
theorem ofArguments_assemble_run :
    ofArguments [name, "-a", "-r"] =
      .ok
        { input := name
          output := none
          assembles := true
          runs := true
          verbose := false
          lists := false } := by
  have flags :
      readFlags {} [name, "-a", "-r"] =
        .ok { input := name, assembles := true, runs := true } := by
    rw [readFlags_cons isName]
    rfl
  simp only [ofArguments, flags, List.isEmpty_cons,
    List.isEmpty_eq_false_iff.mpr isName.nonempty]
  rfl

/-- Arguments that run an image. -/
theorem ofArguments_run :
    ofArguments [name, "-r"] =
      .ok
        { input := name
          output := none
          assembles := false
          runs := true
          verbose := false
          lists := false } := by
  have flags :
      readFlags {} [name, "-r"] = .ok { input := name, runs := true } := by
    rw [readFlags_cons isName]
    rfl
  simp only [ofArguments, flags, List.isEmpty_cons,
    List.isEmpty_eq_false_iff.mpr isName.nonempty]
  rfl

end

end Options

namespace Command

variable
  {source image : Text}
  {content : Bytes}
  {assembly : Assembly}
  {program : Program}
  {host : Host}

/-- A program that is assembled and run ends as it does by itself. -/
theorem run_source
    (isName : Options.IsInputName source)
    (found : host.files.read source = .ok content)
    (assembled : Assembly.ofFile source content = .ok assembly)
    (fuel : Nat) :
    run fuel [source, "-a", "-r"] host =
      endingOf fuel assembly.program host := by
  simp only [run, Options.ofArguments_assemble_run isName, perform, found,
    Loaded.ofInput, Loaded.ofSourceFile, assembled, list, save]
  exact finish_of_quiet rfl rfl fuel host

/-- A program's image is run as the program itself. -/
theorem run_image
    (isName : Options.IsInputName image)
    (found : host.files.read image = .ok (Image.encode program))
    (countable : program.size < LittleEndian.capacity Image.countSize)
    (fuel : Nat) :
    run fuel [image, "-r"] host = endingOf fuel program host := by
  have decoded : Image.decode (Image.encode program) = .ok program := by
    have read := Image.decode_encode_append countable []
    rwa [List.append_nil] at read
  simp only [run, Options.ofArguments_run isName, perform, found,
    Loaded.ofInput, Loaded.ofImageFile, Image.load, decoded, list, save]
  exact finish_of_quiet rfl rfl fuel host

/-- An assembled program is saved at once, whatever it does when it runs. -/
theorem run_save
    (isName : Options.IsInputName source)
    (imageNonempty : image ≠ [])
    (found : host.files.read source = .ok content)
    (assembled : Assembly.ofFile source content = .ok assembly)
    {files : FileStore}
    (written :
      host.files.write image (Image.encode assembly.program) = .ok files)
    (fuel : Nat) :
    run fuel [source, "-a", "-o", image] host =
      some
        (success,
          { host with files := files }.writeLine
            (savedText assembly.program image)) := by
  simp only [run, Options.ofArguments_save isName imageNonempty, perform, found,
    Loaded.ofInput, Loaded.ofSourceFile, assembled, list, save, finish,
    FileStore.saveProgram, written, if_true, if_false, Bool.false_eq_true]

/--
Running a saved program is running its source.

Saving a source that can be assembled to a path that can be written succeeds, leaves
exactly the program's image there, and says so. From then on the image and the source
run alike: with the same status, the same output and the same errors for a program that
halts or fails, and without an end for one that does neither. An image counts its
instructions in eight octets, so the program has to have fewer than 2⁶⁴ of them.
-/
theorem saved_program_runs_like_its_source
    (sourceName : Options.IsInputName source)
    (imageName : Options.IsInputName image)
    (found : host.files.read source = .ok content)
    (assembled : Assembly.ofFile source content = .ok assembly)
    (countable :
      assembly.program.size < LittleEndian.capacity Image.countSize)
    (writable : host.files.Writable image)
    (elsewhere : host.files.locate source ≠ host.files.target image) :
    ∃ saved : Host,
      (∀ fuel,
        run fuel [source, "-a", "-o", image] host = some (success, saved)) ∧
      saved.files.read image = .ok (Image.encode assembly.program) ∧
      saved.errors = host.errors ∧
      ∀ later : Host,
        later.files = saved.files →
        (∀ fuel,
          run fuel [image, "-r"] later = endingOf fuel assembly.program later ∧
            run fuel [source, "-a", "-r"] later =
              endingOf fuel assembly.program later) ∧
        (∀ status after,
          Returns [image, "-r"] later status after ↔
            Returns [source, "-a", "-r"] later status after) ∧
        ((∃ status after, Returns [image, "-r"] later status after) ↔
          ∃ count,
            (Session.stepped count
                (sessionOf assembly.program later)).machine.status ≠
              .running) := by
  obtain ⟨location, target, noDirectory⟩ := writable
  have written :=
    FileStore.write_eq_ok_iff.mpr
      ⟨location, target, noDirectory,
        Eq.refl
          (host.files.put location
            (.file (Image.encode assembly.program)))⟩
  have imageRead := FileStore.read_write written
  have sourceRead := FileStore.read_write_of_ne written found elsewhere
  refine
    ⟨_, run_save sourceName imageName.nonempty found assembled written,
      imageRead, rfl, ?_⟩
  intro later sameFiles
  have fromImage (fuel : Nat) :
      run fuel [image, "-r"] later = endingOf fuel assembly.program later :=
    run_image imageName ((congrArg (·.read image) sameFiles).trans imageRead)
      countable fuel
  have fromSource (fuel : Nat) :
      run fuel [source, "-a", "-r"] later =
        endingOf fuel assembly.program later :=
    run_source sourceName
      ((congrArg (·.read source) sameFiles).trans sourceRead) assembled fuel
  refine ⟨fun fuel => ⟨fromImage fuel, fromSource fuel⟩, ?_, ?_⟩
  · intro status after
    simp only [Returns, fromImage, fromSource]
  · rw [← exists_endingOf_iff]
    simp only [Returns, fromImage, Prod.exists]
    exact ⟨fun ⟨status, after, fuel, ends⟩ => ⟨fuel, status, after, ends⟩,
      fun ⟨fuel, status, after, ends⟩ => ⟨status, after, fuel, ends⟩⟩

/-- A source that pushes a word and prints it. -/
def sevenSource : Bytes := "PUSH 7\nPRINTOUT\nEXIT\n".toUTF8.data.toList

/-- A host with that source and nothing else. -/
def sevenHost : Host where
  files :=
    { entries :=
        [({ origin := .working 0, names := ["p.asm"] }, .file sevenSource)] }

/-- Saved and run, the program prints the word and halts. -/
theorem seven_is_saved_and_run :
    ∃ saved : Host,
      saved.files.read "p.spvm" =
          .ok (Image.encode #[.push 7, .operate .printNumber, .operate .exit]) ∧
        ∃ after, Returns ["p.spvm", "-r"] saved success after := by
  have sourceName : Options.IsInputName "p.asm" := ⟨by decide, by decide⟩
  have imageName : Options.IsInputName "p.spvm" := ⟨by decide, by decide⟩
  have found : sevenHost.files.read "p.asm" = .ok sevenSource := by
    decide +kernel
  have assembled :
      Assembly.ofFile "p.asm" sevenSource =
        .ok
          { program := #[.push 7, .operate .printNumber, .operate .exit]
            annotations := {}
            labels := [] } := by
    decide +kernel
  have writable : sevenHost.files.Writable "p.spvm" :=
    ⟨{ origin := .working 0, names := ["p.spvm"] }, by decide +kernel,
      by decide +kernel⟩
  obtain ⟨saved, _, image, _, runsAlike⟩ :=
    saved_program_runs_like_its_source sourceName imageName found assembled
      (by decide) writable (by decide +kernel)
  obtain ⟨alike, _, _⟩ := runsAlike saved rfl
  have ends := (alike 3).1
  exact ⟨saved, image, _, 3, ends⟩

end Command

end StackCode
