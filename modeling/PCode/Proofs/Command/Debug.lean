import PCode.Proofs.Command.Endings

/-!
# Showing the trace

The option `--debug`, or `-d` for short, asks `run` to show the listing and the trace of the
program. It adds a text to the standard error, in front of what is there without it, and changes
nothing else. An option that is there already is not counted twice: the text is shown once, however
often it is asked for.

* `AddsTranscript`: an outcome with the text against one without.
* `debug_adds_transcript`: a run with the option against one without.
-/

namespace PCode

open Files RunOptions

section Debug

variable {args : List String} {fuel : Nat} {d : Directory}

/-- The second outcome is the first, with the transcript of the program in front of the standard
error if a program has been executed. The arguments are those of the first. If they ask for the
transcript, it is there already, and nothing is added. -/
structure AddsTranscript (args : List String) (d : Directory) (o o' : Outcome) : Prop where
  code_eq : o'.exit.code = o.exit.code
  stdout_eq : o'.stdout = o.stdout
  directory_eq : o'.directory = o.directory
  stderr_of_failure : o.exit.code = 1 → o'.stderr = o.stderr
  stderr_of_execution : o.exit.code ≠ 1 → ∃ options p k,
    RunOptions.parse args = .ok options ∧ d.HoldsProgram options.input p ∧
      Machine.StopsAfter p (.plain { stackSize := options.stackSize }) k ∧
      o'.stderr = (if AsksDebug args then ""
        else Outcome.transcript p { stackSize := options.stackSize } k) ++ o.stderr

theorem AddsTranscript.of_failure (message : String) :
    AddsTranscript args d ⟨.failure, "", message, d⟩ ⟨.failure, "", message, d⟩ :=
  ⟨rfl, rfl, rfl, fun _ => rfl, fun h => absurd rfl h⟩

theorem addsTranscript_of_run {options : RunOptions} {p : Program}
    (hargs : RunOptions.parse args = .ok options) (hp : d.HoldsProgram options.input p) :
    Option.Rel (AddsTranscript args d) ((Command.run options).plan.outcome fuel d)
      ((Command.run { options with debug := true }).plan.outcome fuel d) := by
  have hp' : d.HoldsProgram { options with debug := true }.input p := hp
  rw [Plan.outcome_run hp, Plan.outcome_run hp']
  cases hrun : Machine.run p fuel (.plain { stackSize := options.stackSize }) with
  | none => exact .none
  | some r =>
    obtain ⟨result, m⟩ := r
    obtain ⟨last, hlast, hstops, -⟩ := Machine.run_eq_some hrun
    rw [Machine.reset_plain] at hstops
    have hrecords := Machine.records_of_stopped hstops.stopped hlast
    refine .some ⟨rfl, rfl, rfl, fun hcode => ?_, fun _ => ?_⟩
    · cases result <;> cases hcode
    · refine ⟨options, p, last + 1, hargs, hp, hstops, ?_⟩
      have hdebug := debug_of_parse hargs
      by_cases hasks : AsksDebug args
      · simp [hasks, hdebug.mpr hasks]
      · simp [hasks, mt hdebug.mp hasks, Outcome.transcript, hrecords]

/-- **Showing the trace.** With `--debug` in front of its arguments, `run` ends exactly if it does
without, and with the same exit code, standard output and files. If it ends with 1 the standard
error is the same. Otherwise a program has been executed. The listing of the program and the records
of its steps, up to the one that stopped it, are then put in front of the standard error, unless the
other arguments ask for them already; then the standard error is the same. -/
theorem debug_adds_transcript (args : List String) (d : Directory) (fuel : Nat) :
    Option.Rel (AddsTranscript args d) ((pl0vm ("run" :: args)).outcome fuel d)
      ((pl0vm ("run" :: "--debug" :: args)).outcome fuel d) := by
  have hdebug := parse_debug_cons args
  cases hargs : RunOptions.parse args with
  | error e =>
    rw [hargs] at hdebug
    rw [Command.pl0vm_run_of_error hargs, Command.pl0vm_run_of_error hdebug]
    exact .some (.of_failure _)
  | ok options =>
    rw [hargs] at hdebug
    have hasks : Command.Asks ("run" :: args) (.run options) := .run hargs
    have hasks' : Command.Asks ("run" :: "--debug" :: args) (.run { options with debug := true }) :=
      .run hdebug
    rw [hasks.pl0vm_eq, hasks'.pl0vm_eq]
    by_cases hholds : ∃ p, d.HoldsProgram options.input p
    · obtain ⟨p, hp⟩ := hholds
      exact addsTranscript_of_run hargs hp
    · obtain ⟨message, hmessage⟩ := Plan.outcome_readProgram_of_not (not_exists.mp hholds)
      simp only [Command.plan, hmessage]
      exact .some (.of_failure _)

/-- A file with the program that jumps to its start. -/
def jumpFile : Directory := ⟨[(⟨.above 0, ["p.pl0b"]⟩, [8, 0, 0])]⟩

/-- With `-d` among the arguments, `--debug` in front of them does not show the trace again. -/
theorem debug_not_shown_twice :
    ∃ o o', (pl0vm ["run", "-d", "p.pl0b"]).outcome 1 jumpFile = some o ∧
      (pl0vm ["run", "--debug", "-d", "p.pl0b"]).outcome 1 jumpFile = some o' ∧
      o.exit.code ≠ 1 ∧
      ¬∃ p k, jumpFile.HoldsProgram "p.pl0b" p ∧ Machine.StopsAfter p (.plain {}) k ∧
        o'.stderr = p.listing ++ String.join (Machine.records p (.plain {}) k) ++ o.stderr := by
  let o : Outcome := ⟨.success, "", "0: JMP 0\nJMP 0\n  pc=0\n", jumpFile⟩
  refine ⟨o, o, by decide +kernel, by decide +kernel, by decide, ?_⟩
  rintro ⟨p, k, ⟨content, hread, hdecode⟩, -, hstderr⟩
  have hlisting : p.listing.length = 9 := by
    have hcontent : jumpFile.read "p.pl0b" = .ok [8, 0, 0] := by decide +kernel
    have hjump : Program.decode [8, 0, 0] = .ok (.ofList [.value Opcode.jmp.code 0]) := by
      decide +kernel
    obtain rfl := Except.ok.inj (hcontent.symm.trans hread)
    obtain rfl := Except.ok.inj (hjump.symm.trans hdecode)
    decide +kernel
  have hlength := congrArg String.length hstderr
  simp only [String.length_append] at hlength
  omega

end Debug

end PCode
