import Mathlib.Control.Monad.Basic
import PCode.Proofs.Assembly.Acceptance
import PCode.Proofs.Command.Endings

/-!
# From text to binary and back, through files

The three commands that work on files hand programs to each other. What `assemble` writes is what
`disassemble` shows and `run` executes, and what `disassemble` shows is what `assemble` makes the
same file of.

* `Plan.outcome_assemble_of_ok`: assembling a text writes its program in binary.
* `Plan.outcome_disassemble`, `Plan.outcome_run_of_word`: what is read back is that program.
* `commands_agree_through_files`: the commands one after another.
-/

namespace PCode

open Files

/-- What comes of running a program that ended with the given result and output. -/
def Outcome.ofRun (d : Directory) : Except Fault Unit × String → Outcome
  | (.ok (), output) => ⟨.success, output, "", d⟩
  | (.error fault, output) => ⟨.fault, output, s!"runtime error: {fault.message}\n", d⟩

namespace Plan

variable {d : Directory} {input output path text : String} {p : Program} {bytes : Bytes}

/-! ## The commands one by one -/

theorem outcome_assemble_of_ok (htext : d.HoldsText input text) (houtput : d.Writable output)
    (hp : Program.assemble text = .ok p) (hbytes : p.encode = .ok bytes) :
    ∃ report d', d'.read output = .ok bytes ∧
      ∀ fuel, (pl0vm ["assemble", input, "-o", output]).outcome fuel d =
        some ⟨.success, "", report, d'⟩ := by
  obtain ⟨d', hwrite⟩ := Directory.exists_write_of_writable houtput bytes
  obtain ⟨report, hreport⟩ := outcome_writeProgram hbytes hwrite
  refine ⟨report, d', Directory.read_of_write hwrite, fun fuel => ?_⟩
  rw [(Command.Asks.assemble input output).pl0vm_eq, Command.plan, outcome_readText htext, hp]
  exact hreport fuel

theorem outcome_assemble_of_error {e : Assembly.Error} (htext : d.HoldsText input text)
    (he : Program.assemble text = .error e) (fuel : Nat) :
    (pl0vm ["assemble", input, "-o", output]).outcome fuel d = (fail e.message).outcome fuel d := by
  rw [(Command.Asks.assemble input output).pl0vm_eq, Command.plan, outcome_readText htext, he]

theorem outcome_disassemble (hp : d.HoldsProgram path p) (fuel : Nat) :
    (pl0vm ["disassemble", path]).outcome fuel d = some ⟨.success, p.disassemble, "", d⟩ := by
  rw [(Command.Asks.disassemble path []).pl0vm_eq, Command.plan, outcome_readProgram hp]
  rfl

/-- A path that does not start with a dash is run as it stands, with the usual sizes. -/
theorem outcome_run_of_word (hpath : path.toList.head? ≠ some '-') (hp : d.HoldsProgram path p)
    (fuel : Nat) :
    (pl0vm ["run", path]).outcome fuel d = (p.run fuel).map (Outcome.ofRun d) := by
  let options : RunOptions := ⟨path, false, ({} : Limits).stackSize⟩
  have hasks : Command.Asks ["run", path] (.run options) := .run (RunOptions.parse_of_word hpath)
  have hinput : d.HoldsProgram options.input p := hp
  have hlimits : ({ stackSize := options.stackSize } : Limits) = {} := rfl
  rw [hasks.pl0vm_eq, outcome_run hinput, hlimits]
  show _ = ((Machine.run p fuel (.plain {})).map _).map _
  rw [Option.map_map]
  refine Option.map_congr ?_
  rintro ⟨result, m⟩ -
  cases result with
  | ok => rfl
  | error fault =>
    show (⟨.fault, m.output.text, "" ++ s!"runtime error: {fault.message}\n", d⟩ : Outcome) =
      ⟨.fault, m.output.text, s!"runtime error: {fault.message}\n", d⟩
    rw [String.empty_append]

end Plan

namespace Program

/-- What the bytes are read as is assembled again from its text, and written as the same bytes. -/
theorem reassemble_of_decode {p : Program} {bytes : Bytes} (h : decode bytes = .ok p) :
    assemble p.disassemble = .ok p ∧ p.encode = .ok bytes := by
  have hencode : p.encode = .ok bytes := encode_eq_ok_iff.mpr (decode_eq_ok_iff.mp h)
  exact ⟨assemble_disassemble_of_representable (exists_encode_iff.mp ⟨bytes, hencode⟩), hencode⟩

end Program

/-! ## The commands one after another -/

/-- **Through files.** Assembling a text to a file succeeds exactly if the text is that of a
program. The file then holds the program in binary. Disassembling the file shows the text of the
program, and running it gives the output of the program, with an exit code and a message that say
whether it met a fault. The other way round, the text that is shown of any file with a program is
assembled to the same bytes. -/
theorem commands_agree_through_files :
    (∀ (d : Directory) (input output text : String), d.HoldsText input text →
      d.Writable output → output.toList.head? ≠ some '-' →
      ∃ o, (∀ fuel, (pl0vm ["assemble", input, "-o", output]).outcome fuel d = some o) ∧
        (o.exit.code = 0 ↔ ∃ p, Program.assemble text = .ok p) ∧
        ∀ p, Program.assemble text = .ok p →
          (∃ bytes, p.encode = .ok bytes ∧ o.directory.read output = .ok bytes) ∧
          ∀ fuel,
            (pl0vm ["disassemble", output]).outcome fuel o.directory =
              some ⟨.success, p.disassemble, "", o.directory⟩ ∧
            (pl0vm ["run", output]).outcome fuel o.directory =
              (p.run fuel).map (Outcome.ofRun o.directory)) ∧
    ∀ (d : Directory) (path : String) (bytes : Bytes) (p : Program), d.read path = .ok bytes →
      Program.decode bytes = .ok p →
      ∃ shown, (∀ fuel, (pl0vm ["disassemble", path]).outcome fuel d =
          some ⟨.success, shown, "", d⟩) ∧
        ∀ (d' : Directory) (input output : String), d'.read input = .ok (Text.utf8 shown) →
          d'.Writable output →
          ∃ o, (∀ fuel, (pl0vm ["assemble", input, "-o", output]).outcome fuel d' = some o) ∧
            o.exit.code = 0 ∧ o.directory.read output = .ok bytes := by
  constructor
  · intro d input output text htext houtput hdash
    cases hassemble : Program.assemble text with
    | error e =>
      exact ⟨_, Plan.outcome_assemble_of_error htext hassemble, ⟨nofun, nofun⟩, nofun⟩
    | ok p =>
      obtain ⟨bytes, hbytes⟩ :=
        Program.exists_encode_iff.mpr (Program.representable_of_assemble hassemble)
      obtain ⟨report, d', hread, ho⟩ :=
        Plan.outcome_assemble_of_ok htext houtput hassemble hbytes
      have hholds : d'.HoldsProgram output p := ⟨bytes, hread, Program.decode_of_encode hbytes⟩
      refine ⟨_, ho, ⟨fun _ => ⟨p, rfl⟩, fun _ => rfl⟩, ?_⟩
      rintro _ ⟨rfl⟩
      refine ⟨⟨bytes, hbytes, hread⟩, fun fuel => ⟨?_, ?_⟩⟩
      · exact Plan.outcome_disassemble hholds fuel
      · exact Plan.outcome_run_of_word hdash hholds fuel
  · intro d path bytes p hread hdecode
    obtain ⟨hassemble, hencode⟩ := Program.reassemble_of_decode hdecode
    refine ⟨p.disassemble, Plan.outcome_disassemble ⟨bytes, hread, hdecode⟩, ?_⟩
    intro d' input output hinput houtput
    have htext : d'.HoldsText input p.disassemble := ⟨_, hinput, Text.text?_utf8 _⟩
    obtain ⟨report, d'', hwritten, ho⟩ :=
      Plan.outcome_assemble_of_ok htext houtput hassemble hencode
    exact ⟨_, ho, rfl, hwritten⟩

/-- The text of a program that writes a number and then divides by zero. -/
def divisionText : String := "lit 7 ; seven\n\nopr wrt\nlit 1\nlit 0\nopr div"

/-- The text in a directory of its own. -/
def divisionFile : Directory := ⟨[(⟨.above 0, ["src", "a.pl0s"]⟩, Text.utf8 divisionText)]⟩

/-- A program that halts at once, and the text that is shown of it. -/
def haltFiles : Directory :=
  ⟨[(⟨.above 0, ["p.pl0b"]⟩, [8, 0, 0]), (⟨.above 0, ["p.pl0s"]⟩, Text.utf8 "JMP 0\n")]⟩

/-- The text is assembled next to itself, then shown and run. The program that halts is assembled
again from its text. -/
theorem commands_agree_through_files_division :
    (divisionFile.HoldsText "src/a.pl0s" divisionText ∧ divisionFile.Writable "src/a.pl0b" ∧
      ∃ o, (∀ fuel, (pl0vm ["assemble", "src/a.pl0s", "-o", "src/a.pl0b"]).outcome fuel
          divisionFile = some o) ∧ o.exit.code = 0 ∧
        (pl0vm ["disassemble", "src/a.pl0b"]).outcome 0 o.directory =
          some ⟨.success, "LIT 7\nOPR WRT\nLIT 1\nLIT 0\nOPR DIV\n", "", o.directory⟩ ∧
        (pl0vm ["run", "src/a.pl0b"]).outcome 5 o.directory =
          some ⟨.fault, "7 ", "runtime error: division by zero at instruction 4\n",
            o.directory⟩) ∧
    (pl0vm ["disassemble", "p.pl0b"]).outcome 0 haltFiles =
        some ⟨.success, "JMP 0\n", "", haltFiles⟩ ∧
      ∃ o, (pl0vm ["assemble", "p.pl0s", "-o", "q.pl0b"]).outcome 0 haltFiles = some o ∧
        o.directory.read "q.pl0b" = .ok [8, 0, 0] := by
  obtain ⟨hforth, hback⟩ := commands_agree_through_files
  constructor
  · let p : Program := .ofList [.value Opcode.lit.code 7, .operation Operation.wrt.code,
      .value Opcode.lit.code 1, .value Opcode.lit.code 0, .operation Operation.div.code]
    have htext : divisionFile.HoldsText "src/a.pl0s" divisionText :=
      ⟨Text.utf8 divisionText, by decide +kernel, Text.text?_utf8 _⟩
    have hwritable : divisionFile.Writable "src/a.pl0b" :=
      ⟨[], divisionFile.put ⟨.above 0, ["src", "a.pl0b"]⟩ [], by decide +kernel⟩
    have hassemble : Program.assemble divisionText = .ok p := by decide +kernel
    have hdisassemble : p.disassemble = "LIT 7\nOPR WRT\nLIT 1\nLIT 0\nOPR DIV\n" := by
      decide +kernel
    have hrun : p.run 5 = some (.error ⟨4, .divisionByZero⟩, "7 ") := by decide +kernel
    obtain ⟨o, ho, hcode, hfile⟩ :=
      hforth divisionFile "src/a.pl0s" "src/a.pl0b" divisionText htext hwritable (by decide)
    refine ⟨htext, hwritable, o, ho, hcode.mpr ⟨p, hassemble⟩, ?_, ?_⟩
    · rw [((hfile p hassemble).2 0).1, hdisassemble]
    · rw [((hfile p hassemble).2 5).2, hrun]
      rfl
  · have hread : haltFiles.read "p.pl0b" = .ok [8, 0, 0] := by decide +kernel
    have hdecode : Program.decode [8, 0, 0] = .ok (.ofList [.value Opcode.jmp.code 0]) := by
      decide +kernel
    have hjump : (pl0vm ["disassemble", "p.pl0b"]).outcome 0 haltFiles =
        some ⟨.success, "JMP 0\n", "", haltFiles⟩ := by decide +kernel
    have htext : haltFiles.read "p.pl0s" = .ok (Text.utf8 "JMP 0\n") := by decide +kernel
    have hwritable : haltFiles.Writable "q.pl0b" :=
      ⟨[], haltFiles.put ⟨.above 0, ["q.pl0b"]⟩ [], by decide +kernel⟩
    obtain ⟨shown, hshown, hagain⟩ := hback haltFiles "p.pl0b" _ _ hread hdecode
    obtain rfl : "JMP 0\n" = shown :=
      congrArg Outcome.stdout (Option.some.inj (hjump.symm.trans (hshown 0)))
    obtain ⟨o, ho, -, hwritten⟩ := hagain haltFiles "p.pl0s" "q.pl0b" htext hwritable
    exact ⟨hjump, o, ho 0, hwritten⟩

end PCode
