import PCode.Command.Plan
import PCode.Proofs.Traversal

/-!
# What the arguments ask for

The arguments of `pl0vm` name a command and its files. Those of `run` are read one by one into a
draft, so what is said of them is said of any draft and any arguments that are left.

* `RunOptions.debug_of_parse`: the trace is shown exactly if one of the arguments asks for it.
* `RunOptions.parse_debug_cons`: asking for it changes nothing else of what is asked for, and no
  error.
* `Command.parse_eq_ok_iff`: which arguments ask for which command.
-/

namespace PCode

open Files

/-! ## The arguments of `run` -/

namespace RunOptions

variable {args : List String} {options : RunOptions}

/-- One of the arguments asks for the trace. -/
def AsksDebug (args : List String) : Prop := "--debug" ∈ args ∨ "-d" ∈ args

instance (args : List String) : Decidable (AsksDebug args) := inferInstanceAs (Decidable (_ ∨ _))

theorem asksDebug_cons {argument : String} :
    AsksDebug (argument :: args) ↔
      (argument = "--debug" ∨ argument = "-d") ∨ AsksDebug args := by
  simp only [AsksDebug, List.mem_cons, eq_comm (a := argument)]
  exact or_or_or_comm

theorem parseFrom_of_debug {draft : Draft} {argument : String}
    (h : argument = "--debug" ∨ argument = "-d") (rest : List String) :
    parseFrom draft (argument :: rest) = parseFrom { draft with debug := true } rest := by
  rw [parseFrom.eq_def]
  exact if_pos h

theorem parseFrom_of_word (draft : Draft) {argument : String}
    (hdebug : ¬(argument = "--debug" ∨ argument = "-d")) (hsize : argument ≠ "--stack-size")
    (rest : List String) :
    parseFrom draft (argument :: rest) =
      if argument.toList.head? = some '-' then .error (.unknownOption argument)
      else if draft.input.isSome then .error (.unexpectedArgument argument)
      else parseFrom { draft with input := some argument } rest := by
  rw [parseFrom.eq_def]
  dsimp only
  rw [if_neg hdebug, if_neg hsize]

/-- Neither of the two options can be the value of `--stack-size`. -/
theorem not_debug_of_size {value : String} {n : Nat} (h : size value = .ok n) :
    ¬(value = "--debug" ∨ value = "-d") := by
  rintro (rfl | rfl)
  · have herror : size "--debug" = .error (.invalidSize "--debug") := rfl
    cases herror.symm.trans h
  · have herror : size "-d" = .error (.invalidSize "-d") := rfl
    cases herror.symm.trans h

theorem debug_of_parseFrom {draft : Draft} (h : parseFrom draft args = .ok options) :
    options.debug = true ↔ draft.debug = true ∨ AsksDebug args := by
  fun_induction parseFrom draft args with
  | case1 draft input hinput =>
    cases h
    simp [AsksDebug]
  | case3 draft argument rest hdebug ih =>
    rw [ih h, asksDebug_cons]
    simp [hdebug]
  | case5 draft value rest n hsize hstack ih =>
    rw [ih h, asksDebug_cons, asksDebug_cons]
    simp only [hstack, not_debug_of_size hsize, false_or]
  | case9 draft argument rest hdebug hstack hdash hinput ih =>
    rw [ih h, asksDebug_cons]
    simp only [hdebug, false_or]
  | case2 | case4 | case6 | case7 | case8 => cases h

/-- The trace is shown exactly if an argument asks for it. -/
theorem debug_of_parse (h : parse args = .ok options) :
    options.debug = true ↔ AsksDebug args := by
  rw [debug_of_parseFrom h]
  simp

/-- Asking for the trace changes nothing else of what is asked for, and no error. -/
theorem parseFrom_debug (draft : Draft) (args : List String) :
    parseFrom { draft with debug := true } args =
      (parseFrom draft args).map ({ · with debug := true }) := by
  fun_induction parseFrom draft args with
  | case1 draft input hinput => simp [parseFrom, hinput, Except.map]
  | case2 draft hinput => simp [parseFrom, hinput, Except.map]
  | case3 draft argument rest hdebug ih =>
    rw [parseFrom_of_debug hdebug]
    exact ih
  | case4 draft hdebug => simp [parseFrom, Except.map]
  | case5 draft value rest n hsize hdebug ih =>
    rw [parseFrom, if_neg hdebug, if_pos rfl]
    simp only [hsize]
    exact ih
  | case6 draft value rest e hsize hdebug =>
    rw [parseFrom, if_neg hdebug, if_pos rfl]
    simp only [hsize]
    rfl
  | case7 draft argument rest hdebug hstack hdash =>
    rw [parseFrom_of_word _ hdebug hstack, if_pos hdash]
    rfl
  | case8 draft argument rest hdebug hstack hdash hinput =>
    rw [parseFrom_of_word _ hdebug hstack, if_neg hdash, if_pos hinput]
    rfl
  | case9 draft argument rest hdebug hstack hdash hinput ih =>
    rw [parseFrom_of_word _ hdebug hstack, if_neg hdash, if_neg hinput]
    exact ih

theorem parse_debug_cons (args : List String) :
    parse ("--debug" :: args) = (parse args).map ({ · with debug := true }) := by
  unfold parse
  rw [parseFrom_of_debug (.inl rfl)]
  exact parseFrom_debug {} args

theorem parseFrom_of_path (draft : Draft) {path : String} (h : path.toList.head? ≠ some '-')
    (rest : List String) :
    parseFrom draft (path :: rest) =
      if draft.input.isSome then .error (.unexpectedArgument path)
      else parseFrom { draft with input := some path } rest := by
  have hoption {option : String} (hdash : option.toList.head? = some '-') : path ≠ option := by
    rintro rfl
    exact h hdash
  have hdebug : ¬(path = "--debug" ∨ path = "-d") := not_or.mpr ⟨hoption rfl, hoption rfl⟩
  rw [parseFrom_of_word draft hdebug (hoption rfl), if_neg h]

/-- A single argument without a dash in front is the program. -/
theorem parse_of_word {path : String} (h : path.toList.head? ≠ some '-') :
    parse [path] = .ok { input := path, debug := false, stackSize := ({} : Limits).stackSize } := by
  rw [parse, parseFrom_of_path {} h]
  rfl

end RunOptions

/-! ## Commands -/

namespace Command

variable {args : List String} {command : Command}

/-- The arguments ask for the command. -/
inductive Asks : List String → Command → Prop
  | help {name : String} (rest : List String)
      (hname : name = "--help" ∨ name = "-h" ∨ name = "help") : Asks (name :: rest) .help
  | run {rest : List String} {options : RunOptions} (hrest : RunOptions.parse rest = .ok options) :
    Asks ("run" :: rest) (.run options)
  | assembleBeside (input : String) :
    Asks ["assemble", input] (.assemble input (withExtension "pl0b" input))
  | assemble (input output : String) :
    Asks ["assemble", input, "-o", output] (.assemble input output)
  | disassemble (input : String) (rest : List String) :
    Asks ("disassemble" :: input :: rest) (.disassemble input)

theorem asks_of_parseAssemble (h : parseAssemble args = .ok command) :
    Asks ("assemble" :: args) command := by
  unfold parseAssemble at h
  split at h
  next => cases h
  next input =>
    cases h
    exact .assembleBeside input
  next input _ _ =>
    split at h
    next option output _ =>
      split at h
      next hoption =>
        cases h
        rw [hoption]
        exact .assemble input output
      next => cases h
    next => cases h

theorem asks_of_parseDisassemble (h : parseDisassemble args = .ok command) :
    Asks ("disassemble" :: args) command := by
  cases args with
  | nil => cases h
  | cons input rest =>
    cases h
    exact .disassemble input rest

theorem asks_of_parse (h : parse args = .ok command) : Asks args command := by
  unfold parse at h
  split at h
  next => cases h
  next name rest =>
    split at h
    next hname =>
      obtain ⟨options, hrest, rfl⟩ := map_eq_ok_iff.mp (mapError_eq_ok_iff.mp h)
      rw [hname]
      exact .run hrest
    next =>
      split at h
      next hname =>
        rw [hname]
        exact asks_of_parseAssemble h
      next =>
        split at h
        next hname =>
          rw [hname]
          exact asks_of_parseDisassemble h
        next =>
          split at h
          next hname =>
            cases h
            exact .help rest hname
          next => cases h

theorem Asks.parse_eq (h : Asks args command) : parse args = .ok command := by
  cases h with
  | help rest hname => rcases hname with rfl | rfl | rfl <;> rfl
  | @run rest options hrest =>
    show ((RunOptions.parse rest).map Command.run).mapError UsageError.run = .ok (.run options)
    rw [hrest]
    rfl
  | assembleBeside | assemble | disassemble => rfl

theorem parse_eq_ok_iff : parse args = .ok command ↔ Asks args command :=
  ⟨asks_of_parse, Asks.parse_eq⟩

theorem Asks.eq_assemble (h : Asks args command) (hhead : args.head? = some "assemble") :
    ∃ input output, command = .assemble input output := by
  cases h with
  | help rest hname =>
    obtain rfl := Option.some.inj hhead
    exact absurd hname (by decide)
  | run | disassemble => exact absurd (Option.some.inj hhead) (by decide)
  | assembleBeside input => exact ⟨input, _, rfl⟩
  | assemble input output => exact ⟨input, output, rfl⟩

theorem Asks.pl0vm_eq (h : Asks args command) : pl0vm args = command.plan := by
  unfold pl0vm
  rw [h.parse_eq]

theorem pl0vm_run_of_error {rest : List String} {e : RunOptions.Error}
    (h : RunOptions.parse rest = .error e) :
    pl0vm ("run" :: rest) = .done .failure "" (UsageError.run e).message := by
  have hparse : parse ("run" :: rest) = .error (.run e) := by
    show ((RunOptions.parse rest).map Command.run).mapError UsageError.run = .error (.run e)
    rw [h]
    rfl
  unfold pl0vm
  rw [hparse]

end Command

end PCode
