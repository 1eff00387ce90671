import PCode.Proofs.Command.Arguments
import PCode.Proofs.Command.Execution
import PCode.Proofs.Files.Writing
import PCode.Proofs.Wire.Binary

/-!
# How commands end

Whatever the arguments and the files are, `pl0vm` ends in one of six ways: it says what was not as
it should be, it shows how it is used, it shows a program, it makes a file, it fails to make one, or
it executes a program. Only the fourth and the fifth can change a file, and only the last can end
with a fault.

A file system can refuse to read or write a file for reasons of its own, such as a missing
permission or a full disk, and a write that is refused may have changed the file by then. So the six
ways are found for any refusals. On a `Directory` a write that is refused changes nothing.

* `Plan.outcome_readText`, `Plan.outcome_readProgram`: reading a file goes on with what it holds.
* `Plan.MayEnd`: what can come of a plan where files can be refused for any reason.
* `Ending`: the six ways, and `ending_of_mayEnd`: there are no others.
* `refusals_change_nothing_else`: exit codes, files and standard output, for any refusals.
* `failure_changes_nothing`: the same on a `Directory`.
-/

namespace PCode

open Files

/-! ## Reading and writing -/

namespace Files.Directory

/-- The file at the path is the text. -/
def HoldsText (d : Directory) (path text : String) : Prop :=
  ∃ content, d.read path = .ok content ∧ Text.text? content = some text

/-- The file at the path is the program in binary. -/
def HoldsProgram (d : Directory) (path : String) (p : Program) : Prop :=
  ∃ content, d.read path = .ok content ∧ Program.decode content = .ok p

end Files.Directory

namespace Plan

variable {fuel : Nat} {d d' : Directory} {path : String} {content : Bytes} {p : Program}

theorem outcome_readFile (h : d.read path = .ok content) (next : Bytes → Plan) :
    (readFile path next).outcome fuel d = (next content).outcome fuel d := by
  unfold readFile
  simp only [outcome, h]

/-- The message about a file that cannot be read does not depend on what it was to be read for. -/
theorem outcome_readFile_of_error {e : SystemError} (h : d.read path = .error e)
    (next : Bytes → Plan) :
    (readFile path next).outcome fuel d =
      (fail s!"cannot read '{path}': {e.message}").outcome fuel d := by
  unfold readFile
  simp only [outcome, h]

theorem outcome_readText {text : String} (h : d.HoldsText path text) (next : String → Plan) :
    (readText path next).outcome fuel d = (next text).outcome fuel d := by
  obtain ⟨content, hread, htext⟩ := h
  unfold readText
  rw [outcome_readFile hread, htext]

theorem outcome_readProgram (h : d.HoldsProgram path p) (next : Program → Plan) :
    (readProgram path next).outcome fuel d = (next p).outcome fuel d := by
  obtain ⟨content, hread, hdecode⟩ := h
  unfold readProgram
  rw [outcome_readFile hread, hdecode]

theorem outcome_readProgram_of_not (h : ∀ p, ¬d.HoldsProgram path p) :
    ∃ message, ∀ fuel next,
      (readProgram path next).outcome fuel d = (fail message).outcome fuel d := by
  cases hread : d.read path with
  | error e => exact ⟨_, fun fuel next => outcome_readFile_of_error hread _⟩
  | ok content =>
    cases hdecode : Program.decode content with
    | ok p => exact absurd ⟨content, hread, hdecode⟩ (h p)
    | error e =>
      refine ⟨s!"invalid binary: {e.message}", fun fuel next => ?_⟩
      unfold readProgram
      rw [outcome_readFile hread, hdecode]

theorem outcome_run {options : RunOptions} (h : d.HoldsProgram options.input p) :
    (Command.run options).plan.outcome fuel d =
      (Machine.run p fuel (.plain { stackSize := options.stackSize })).map fun (result, m) =>
        let shown :=
          if options.debug then Outcome.transcript p { stackSize := options.stackSize } fuel else ""
        ⟨Outcome.exitOf result, m.output.text, shown ++ Outcome.report result, d⟩ := by
  rw [Command.plan, outcome_readProgram h, outcome, Outcome.ofExecution_eq]

theorem outcome_writeProgram (hencode : p.encode = .ok content)
    (hwrite : d.write path content = .ok d') :
    ∃ report, ∀ fuel, (writeProgram path p).outcome fuel d = some ⟨.success, "", report, d'⟩ := by
  unfold writeProgram
  simp only [hencode, outcome, hwrite, Option.some.injEq, Outcome.mk.injEq, true_and, and_true]
  exact ⟨_, fun _ => rfl⟩

end Plan

/-! ## Files that are refused -/

/-- What a write that fails can do: the files before, the path, the content that was to be written,
and the files after. -/
abbrev WriteFailure := Directory → String → Bytes → Directory → Prop

/-- A write that fails does nothing. -/
def WriteFailure.harmless : WriteFailure := fun d _ _ d' => d' = d

namespace Plan

/-- What can come of a plan where any file can turn out to be refused when it is to be read or
written. A write that is refused leaves the files as `leaves` says. -/
inductive MayEnd (leaves : WriteFailure) (fuel : Nat) : Directory → Plan → Outcome → Prop
  | done {d : Directory} {exit : Exit} {stdout stderr : String} :
      MayEnd leaves fuel d (.done exit stdout stderr) ⟨exit, stdout, stderr, d⟩
  | read {d : Directory} {path : String} {next : Except SystemError Bytes → Plan} {o : Outcome} :
      MayEnd leaves fuel d (next (d.read path)) o → MayEnd leaves fuel d (.read path next) o
  | unread {d : Directory} {path : String} {next : Except SystemError Bytes → Plan} {o : Outcome}
      (e : SystemError) :
      MayEnd leaves fuel d (next (.error e)) o → MayEnd leaves fuel d (.read path next) o
  | write {d d' : Directory} {path : String} {content : Bytes}
      {next : Except SystemError Unit → Plan} {o : Outcome}
      (hwrite : d.write path content = .ok d') :
      MayEnd leaves fuel d' (next (.ok ())) o → MayEnd leaves fuel d (.write path content next) o
  | unwritten {d d' : Directory} {path : String} {content : Bytes}
      {next : Except SystemError Unit → Plan} {o : Outcome} (e : SystemError)
      (hleaves : leaves d path content d') :
      MayEnd leaves fuel d' (next (.error e)) o → MayEnd leaves fuel d (.write path content next) o
  | execute {d : Directory} {p : Program} {limits : Limits} {debug : Bool} {o : Outcome}
      (ho : Outcome.ofExecution fuel d p limits debug = some o) :
      MayEnd leaves fuel d (.execute p limits debug) o

/-- What comes of a plan on a directory is one of the things that can come of it. -/
theorem mayEnd_of_outcome {plan : Plan} {fuel : Nat} {d : Directory} {o : Outcome}
    (h : plan.outcome fuel d = some o) : plan.MayEnd .harmless fuel d o := by
  induction plan generalizing d with
  | done exit stdout stderr =>
    obtain rfl := Option.some.inj h
    exact .done
  | read path next ih => exact .read (ih _ h)
  | write path content next ih =>
    cases hwrite : d.write path content with
    | ok d' =>
      simp only [outcome, hwrite] at h
      exact .write hwrite (ih _ h)
    | error e =>
      simp only [outcome, hwrite] at h
      exact .unwritten e rfl (ih _ h)
  | execute p limits debug => exact .execute h

namespace MayEnd

variable {leaves : WriteFailure} {fuel : Nat} {d : Directory} {path : String} {o : Outcome}

theorem eq_of_done {exit : Exit} {stdout stderr : String}
    (h : (Plan.done exit stdout stderr).MayEnd leaves fuel d o) :
    o = ⟨exit, stdout, stderr, d⟩ := by
  cases h with
  | done => rfl

theorem of_readFile {next : Bytes → Plan} (h : (readFile path next).MayEnd leaves fuel d o) :
    (∃ content, d.read path = .ok content ∧ (next content).MayEnd leaves fuel d o) ∨
      ∃ message, (fail message).MayEnd leaves fuel d o := by
  unfold readFile at h
  cases h with
  | read h =>
    cases hread : d.read path with
    | ok content =>
      rw [hread] at h
      exact .inl ⟨content, rfl, h⟩
    | error e =>
      rw [hread] at h
      exact .inr ⟨_, h⟩
  | unread e h => exact .inr ⟨_, h⟩

theorem of_readText {next : String → Plan} (h : (readText path next).MayEnd leaves fuel d o) :
    (∃ text, d.HoldsText path text ∧ (next text).MayEnd leaves fuel d o) ∨
      ∃ message, (fail message).MayEnd leaves fuel d o := by
  rcases of_readFile h with ⟨content, hread, hnext⟩ | hfail
  · cases htext : Text.text? content with
    | some text =>
      rw [htext] at hnext
      exact .inl ⟨text, ⟨content, hread, htext⟩, hnext⟩
    | none =>
      rw [htext] at hnext
      exact .inr ⟨_, hnext⟩
  · exact .inr hfail

theorem of_readProgram {next : Program → Plan}
    (h : (readProgram path next).MayEnd leaves fuel d o) :
    (∃ p, d.HoldsProgram path p ∧ (next p).MayEnd leaves fuel d o) ∨
      ∃ message, (fail message).MayEnd leaves fuel d o := by
  rcases of_readFile h with ⟨content, hread, hnext⟩ | hfail
  · cases hdecode : Program.decode content with
    | ok p =>
      rw [hdecode] at hnext
      exact .inl ⟨p, ⟨content, hread, hdecode⟩, hnext⟩
    | error e =>
      rw [hdecode] at hnext
      exact .inr ⟨_, hnext⟩
  · exact .inr hfail

/-- Writing a program ends with a message about the program, or the program has been written, or the
file has been refused. -/
theorem of_writeProgram {p : Program} (h : (writeProgram path p).MayEnd leaves fuel d o) :
    (∃ message, (fail message).MayEnd leaves fuel d o) ∨
      ∃ content d', p.encode = .ok content ∧
        ((∃ report, d.write path content = .ok d' ∧ o = ⟨.success, "", report, d'⟩) ∨
          ∃ message, leaves d path content d' ∧ o = ⟨.failure, "", message, d'⟩) := by
  unfold writeProgram at h
  cases hencode : p.encode with
  | error e =>
    rw [hencode] at h
    exact .inl ⟨_, h⟩
  | ok content =>
    rw [hencode] at h
    cases h with
    | write hwrite h => exact .inr ⟨content, _, rfl, .inl ⟨_, hwrite, h.eq_of_done⟩⟩
    | unwritten e hleaves h => exact .inr ⟨content, _, rfl, .inr ⟨_, hleaves, h.eq_of_done⟩⟩

end MayEnd

end Plan

/-! ## The six ways -/

/-- The ways in which `pl0vm` can end. -/
inductive Ending (leaves : WriteFailure) (args : List String) (fuel : Nat) (d : Directory) :
    Outcome → Prop
  /-- It says what was not as it should be. -/
  | failed (message : String) : Ending leaves args fuel d ⟨.failure, "", message, d⟩
  /-- It shows how the commands are used. -/
  | helped (usage : String) (hasks : Command.Asks args .help) :
    Ending leaves args fuel d ⟨.success, "", usage, d⟩
  /-- It shows a program. -/
  | shown {input : String} (text : String) (hasks : Command.Asks args (.disassemble input)) :
    Ending leaves args fuel d ⟨.success, text, "", d⟩
  /-- It has made a file. -/
  | made {input output : String} {p : Program} {content : Bytes} {d' : Directory} (report : String)
      (hasks : Command.Asks args (.assemble input output)) (hencode : p.encode = .ok content)
      (hwrite : d.write output content = .ok d') :
    Ending leaves args fuel d ⟨.success, "", report, d'⟩
  /-- It has not been able to make a file, and says so. -/
  | unmade {input output : String} {content : Bytes} {d' : Directory} (message : String)
      (hasks : Command.Asks args (.assemble input output)) (hleaves : leaves d output content d') :
    Ending leaves args fuel d ⟨.failure, "", message, d'⟩
  /-- It has executed a program. -/
  | executed {options : RunOptions} {p : Program} {result : Except Fault Unit}
      {m : Machine Buffer Buffer} (stderr : String) (hasks : Command.Asks args (.run options))
      (hholds : d.HoldsProgram options.input p)
      (hrun : Machine.run p fuel (.plain { stackSize := options.stackSize }) = some (result, m)) :
    Ending leaves args fuel d ⟨Outcome.exitOf result, m.output.text, stderr, d⟩

section Ending

variable {leaves : WriteFailure} {args : List String} {fuel : Nat} {d : Directory} {o : Outcome}

theorem Ending.of_fail {message : String} (h : (Plan.fail message).MayEnd leaves fuel d o) :
    Ending leaves args fuel d o := by
  obtain rfl := h.eq_of_done
  exact .failed _

theorem ending_of_run {options : RunOptions} (hasks : Command.Asks args (.run options))
    (h : (Command.run options).plan.MayEnd leaves fuel d o) : Ending leaves args fuel d o := by
  rcases h.of_readProgram with ⟨p, hp, hnext⟩ | ⟨message, hfail⟩
  · cases hnext with
    | execute ho =>
      rw [Outcome.ofExecution_eq] at ho
      obtain ⟨⟨result, m⟩, hrun, rfl⟩ := Option.map_eq_some_iff.mp ho
      exact .executed _ hasks hp hrun
  · exact .of_fail hfail

theorem ending_of_assemble {input output : String}
    (hasks : Command.Asks args (.assemble input output))
    (h : (Command.assemble input output).plan.MayEnd leaves fuel d o) :
    Ending leaves args fuel d o := by
  rcases h.of_readText with ⟨text, -, hnext⟩ | ⟨message, hfail⟩
  · cases hassemble : Program.assemble text with
    | error e =>
      rw [hassemble] at hnext
      exact .of_fail hnext
    | ok p =>
      rw [hassemble] at hnext
      rcases hnext.of_writeProgram with ⟨message, hfail⟩ | ⟨content, d', hencode, hend⟩
      · exact .of_fail hfail
      · rcases hend with ⟨report, hwrite, rfl⟩ | ⟨message, hleaves, rfl⟩
        · exact .made report hasks hencode hwrite
        · exact .unmade message hasks hleaves
  · exact .of_fail hfail

theorem ending_of_disassemble {input : String} (hasks : Command.Asks args (.disassemble input))
    (h : (Command.disassemble input).plan.MayEnd leaves fuel d o) :
    Ending leaves args fuel d o := by
  rcases h.of_readProgram with ⟨p, -, hnext⟩ | ⟨message, hfail⟩
  · obtain rfl := hnext.eq_of_done
    exact .shown _ hasks
  · exact .of_fail hfail

/-- **Endings.** There are no other ways to end, whichever files are refused. -/
theorem ending_of_mayEnd (h : (pl0vm args).MayEnd leaves fuel d o) :
    Ending leaves args fuel d o := by
  cases hparse : Command.parse args with
  | error e =>
    unfold pl0vm at h
    rw [hparse] at h
    obtain rfl := h.eq_of_done
    exact .failed _
  | ok command =>
    have hasks := Command.parse_eq_ok_iff.mp hparse
    rw [hasks.pl0vm_eq] at h
    cases command with
    | help =>
      obtain rfl := h.eq_of_done
      exact .helped _ hasks
    | run options => exact ending_of_run hasks h
    | assemble input output => exact ending_of_assemble hasks h
    | disassemble input => exact ending_of_disassemble hasks h

/-! ## Exit codes -/

/-- The program that `run` is asked to execute meets a fault. -/
def RunFaults (args : List String) (fuel : Nat) (d : Directory) : Prop :=
  ∃ rest options p fault m, args = "run" :: rest ∧ RunOptions.parse rest = .ok options ∧
    d.HoldsProgram options.input p ∧
    Machine.run p fuel (.plain { stackSize := options.stackSize }) = some (.error fault, m)

theorem exit_of_runFaults (hfaults : RunFaults args fuel d)
    (h : (pl0vm args).outcome fuel d = some o) : o.exit = .fault := by
  obtain ⟨rest, options, p, fault, m, rfl, hrest, hp, hrun⟩ := hfaults
  have hasks : Command.Asks ("run" :: rest) (.run options) := .run hrest
  rw [hasks.pl0vm_eq, Plan.outcome_run hp, hrun] at h
  obtain rfl := Option.some.inj h
  rfl

/-- `assemble` is asked to make the file at the output path: that after `-o`, or else the path of
the input with another extension. -/
def MakesFile (args : List String) (output : String) : Prop :=
  ∃ input, (args = ["assemble", input] ∧ output = withExtension "pl0b" input) ∨
    args = ["assemble", input, "-o", output]

theorem makesFile_of_asks {input output : String}
    (h : Command.Asks args (.assemble input output)) : MakesFile args output := by
  cases h with
  | assembleBeside => exact ⟨input, .inl ⟨rfl, rfl⟩⟩
  | assemble => exact ⟨input, .inr rfl⟩

theorem MakesFile.head?_eq {output : String} (h : MakesFile args output) :
    args.head? = some "assemble" := by
  obtain ⟨input, ⟨rfl, -⟩ | rfl⟩ := h
  all_goals rfl

namespace Ending

theorem code_cases (h : Ending leaves args fuel d o) :
    o.exit.code = 0 ∨ o.exit.code = 1 ∨ o.exit.code = 2 := by
  cases h with
  | helped | shown | made => exact .inl rfl
  | failed | unmade => exact .inr (.inl rfl)
  | @executed options p result =>
    cases result with
    | ok => exact .inl rfl
    | error fault => exact .inr (.inr rfl)

theorem runFaults (h : Ending leaves args fuel d o) (hcode : o.exit.code = 2) :
    RunFaults args fuel d := by
  cases h with
  | failed | helped | shown | made | unmade => cases hcode
  | @executed options p result m stderr hasks hp hrun =>
    cases hasks with
    | run hrest =>
      cases result with
      | ok => cases hcode
      | error fault => exact ⟨_, options, p, fault, m, rfl, hrest, hp, hrun⟩

theorem stdout_eq (h : Ending leaves args fuel d o) (hcode : o.exit.code = 1) : o.stdout = "" := by
  cases h with
  | failed | helped | made | unmade => rfl
  | shown => cases hcode
  | @executed options p result => cases result <;> cases hcode

/-- A command that has not assembled a file has left all files as they were, or has failed to write
the one that it was to make. -/
theorem directory_cases (h : Ending leaves args fuel d o)
    (hnot : ¬(args.head? = some "assemble" ∧ o.exit.code = 0)) :
    o.directory = d ∨
      ∃ output content, MakesFile args output ∧ leaves d output content o.directory := by
  cases h with
  | failed | helped | shown | executed => exact .inl rfl
  | made report hasks => exact absurd ⟨(makesFile_of_asks hasks).head?_eq, rfl⟩ hnot
  | unmade message hasks hleaves => exact .inr ⟨_, _, makesFile_of_asks hasks, hleaves⟩

/-- A command that has assembled a file has changed no other, and the file is a program. -/
theorem assembled (h : Ending leaves args fuel d o) (hhead : args.head? = some "assemble")
    (hcode : o.exit.code = 0) :
    ∃ output place, MakesFile args output ∧ d.locate (Path.ofString output) = .ok place ∧
      (∀ l ≠ place, o.directory.file? l = d.file? l) ∧
      ∃ p, o.directory.HoldsProgram output p := by
  cases h with
  | failed | unmade => cases hcode
  | helped _ hasks | shown _ hasks | executed _ hasks =>
    obtain ⟨_, _, hcommand⟩ := hasks.eq_assemble hhead
    cases hcommand
  | @made input output p content d' report hasks hencode hwrite =>
    obtain ⟨place, hplace, hothers⟩ := Directory.file?_of_write hwrite
    have hholds : d'.HoldsProgram output p :=
      ⟨content, Directory.read_of_write hwrite, Program.decode_of_encode hencode⟩
    exact ⟨output, place, makesFile_of_asks hasks, hplace, hothers, p, hholds⟩

end Ending

/-- **Files that are refused.** Files may be refused for any reason, and a write that is refused may
do anything. A command still exits with 0, 1 or 2, and with 2 only if it was to execute a program,
had one, and the program met a fault. Only `assemble` changes files. If it exits with 0, the file at the output path is a
program and all other files are as they were. If not, all files are as they were, or as the refused
write of the output file has left them. A command that exits with 1 has nothing on the standard
output. -/
theorem refusals_change_nothing_else (h : (pl0vm args).MayEnd leaves fuel d o) :
    (o.exit.code = 0 ∨ o.exit.code = 1 ∨ o.exit.code = 2) ∧
    (o.exit.code = 2 → RunFaults args fuel d) ∧
    (args.head? ≠ some "assemble" → o.directory = d) ∧
    (args.head? = some "assemble" → o.exit.code = 0 →
      ∃ output place, MakesFile args output ∧ d.locate (Path.ofString output) = .ok place ∧
        (∀ l ≠ place, o.directory.file? l = d.file? l) ∧
        ∃ p, o.directory.HoldsProgram output p) ∧
    (o.exit.code ≠ 0 → o.directory = d ∨
      ∃ output content, MakesFile args output ∧ leaves d output content o.directory) ∧
    (o.exit.code = 1 → o.stdout = "") := by
  have hend := ending_of_mayEnd h
  refine ⟨hend.code_cases, hend.runFaults, fun hhead => ?_, hend.assembled, fun hcode => ?_,
    hend.stdout_eq⟩
  · rcases hend.directory_cases fun hassembled => hhead hassembled.1 with hsame | ⟨_, _, hmakes, -⟩
    · exact hsame
    · exact absurd hmakes.head?_eq hhead
  · exact hend.directory_cases fun hassembled => hcode hassembled.2

/-- **Commands that fail.** A command that comes to its end exits with 0, 1 or 2, and with 2 exactly
if it was to execute a program, had one, and the program met a fault. All files are as they were,
unless a file has been assembled with success; then only the file at the output path can have
changed. A command that exits with 1 has nothing on the standard output.

There is no `Exit` with another code, and the codes here are those of the six ways to end. The
arguments are Unicode texts, and the standard output and the standard error take what is written to
them. That failed writes change nothing is so on a `Directory`; `refusals_change_nothing_else` does
without it. -/
theorem failure_changes_nothing (args : List String) (fuel : Nat) (d : Directory) (o : Outcome)
    (h : (pl0vm args).outcome fuel d = some o) :
    (o.exit.code = 0 ∨ o.exit.code = 1 ∨ o.exit.code = 2) ∧
    (o.exit.code = 2 ↔ RunFaults args fuel d) ∧
    (¬(args.head? = some "assemble" ∧ o.exit.code = 0) → o.directory = d) ∧
    (args.head? = some "assemble" ∧ o.exit.code = 0 →
      ∃ output place, MakesFile args output ∧ d.locate (Path.ofString output) = .ok place ∧
        ∀ l ≠ place, o.directory.file? l = d.file? l) ∧
    (o.exit.code = 1 → o.stdout = "") := by
  have hend := ending_of_mayEnd (Plan.mayEnd_of_outcome h)
  refine ⟨hend.code_cases, ⟨hend.runFaults, fun hfaults => ?_⟩, fun hnot => ?_,
    fun ⟨hhead, hcode⟩ => ?_, hend.stdout_eq⟩
  · rw [exit_of_runFaults hfaults h]
    rfl
  · rcases hend.directory_cases hnot with hsame | ⟨_, _, -, hsame⟩
    · exact hsame
    · exact hsame
  · obtain ⟨output, place, hmakes, hplace, hothers, -⟩ := hend.assembled hhead hcode
    exact ⟨output, place, hmakes, hplace, hothers⟩

/-- The text of a program that halts at once, and a program that jumps to nowhere. -/
def twoFiles : Directory :=
  ⟨[(⟨.above 0, ["a.pl0s"]⟩, Text.utf8 "JMP 0\n"), (⟨.above 0, ["b.pl0b"]⟩, [8, 5, 0])]⟩

/-- Assembling the text makes a third file; executing the program ends with a fault. -/
theorem failure_changes_nothing_twoFiles :
    let made : Outcome := ⟨.success, "", "assembled 1 instructions (3 bytes) -> a.pl0b\n",
      twoFiles.put ⟨.above 0, ["a.pl0b"]⟩ [8, 0, 0]⟩
    let faulted : Outcome := ⟨.fault, "",
      "runtime error: program counter 5 out of range at instruction 5\n", twoFiles⟩
    (pl0vm ["assemble", "a.pl0s"]).outcome 0 twoFiles = some made ∧
      (∃ output place, MakesFile ["assemble", "a.pl0s"] output ∧
        twoFiles.locate (Path.ofString output) = .ok place ∧
        ∀ l ≠ place, made.directory.file? l = twoFiles.file? l) ∧
      (pl0vm ["run", "b.pl0b"]).outcome 2 twoFiles = some faulted ∧
      RunFaults ["run", "b.pl0b"] 2 twoFiles := by
  intro made faulted
  have hmade : (pl0vm ["assemble", "a.pl0s"]).outcome 0 twoFiles = some made := by decide +kernel
  have hfaulted : (pl0vm ["run", "b.pl0b"]).outcome 2 twoFiles = some faulted := by decide +kernel
  obtain ⟨-, -, -, hfile, -⟩ := failure_changes_nothing _ 0 twoFiles made hmade
  obtain ⟨-, hcode, -⟩ := failure_changes_nothing _ 2 twoFiles faulted hfaulted
  exact ⟨hmade, hfile ⟨rfl, rfl⟩, hfaulted, hcode.mp rfl⟩

end Ending

end PCode
