import PCode.Command.RunOptions
import PCode.Files.Path

/-!
# The commands

The first argument of `pl0vm` names a command; what the others mean depends on it.
-/

namespace PCode

/-- What `pl0vm` is asked to do. -/
inductive Command where
  /-- Say how the commands are used. -/
  | help
  /-- Execute a binary program. -/
  | run (options : RunOptions)
  /-- Make a binary program of assembly text. -/
  | assemble (input output : String)
  /-- Show a binary program as assembly text. -/
  | disassemble (input : String)
deriving DecidableEq, Repr

/-! ## Usage -/

namespace Usage

/-- How the commands are used. -/
def all : String :=
  "Usage: pl0vm <command> [args]\n" ++
  "\n" ++
  "Commands:\n" ++
  "  run [--debug] [--stack-size N] <prog.pl0b>   Execute a binary program\n" ++
  "  assemble <input.pl0s> [-o output.pl0b]       Assemble text to binary\n" ++
  "  disassemble <prog.pl0b>                      Disassemble binary to text\n" ++
  "\n" ++
  "Set RUST_LOG=debug for engine logging.\n"

/-- How `run` is used. -/
def run : String := "Usage: pl0vm run [--debug] [--stack-size N] <prog.pl0b>\n"

/-- How `assemble` is used. -/
def assemble : String := "Usage: pl0vm assemble <input.pl0s> [-o output.pl0b]\n"

/-- How `disassemble` is used. -/
def disassemble : String := "Usage: pl0vm disassemble <prog.pl0b>\n"

end Usage

/-- Why the arguments ask for nothing. -/
inductive UsageError where
  /-- There are no arguments. -/
  | noCommand
  /-- The first argument names no command. -/
  | unknownCommand (name : String)
  /-- The arguments of `run` do not fit. -/
  | run (e : RunOptions.Error)
  /-- `assemble` has no argument. -/
  | assembleNothing
  /-- What follows the input of `assemble` is not `-o` and one path. -/
  | assembleRest (input : String)
  /-- `disassemble` has no argument. -/
  | disassembleNothing
deriving DecidableEq, Repr

namespace UsageError

/-- The error in words, with the usage that it goes against. -/
def message : UsageError → String
  | noCommand => Usage.all
  | unknownCommand name => s!"error: unknown command '{name}'\n\n" ++ Usage.all
  | run e => s!"error: {e.message}\n" ++ Usage.run
  | assembleNothing => "error: assemble requires an input file\n" ++ Usage.assemble
  | assembleRest input => s!"error: unexpected arguments after '{input}'\n" ++ Usage.assemble
  | disassembleNothing => "error: disassemble requires an input file\n" ++ Usage.disassemble

end UsageError

/-! ## Arguments -/

namespace Command

/-- What the arguments of `assemble` ask for. Without `-o` the output is next to the input. -/
def parseAssemble : List String → Except UsageError Command
  | [] => .error .assembleNothing
  | [input] => .ok (assemble input (Files.withExtension "pl0b" input))
  | input :: rest =>
    match rest with
    | [option, output] =>
      if option = "-o" then .ok (assemble input output) else .error (.assembleRest input)
    | _ => .error (.assembleRest input)

/-- What the arguments of `disassemble` ask for. Those after the first do not matter. -/
def parseDisassemble : List String → Except UsageError Command
  | [] => .error .disassembleNothing
  | input :: _ => .ok (disassemble input)

/-- What the arguments of `pl0vm` ask for. -/
def parse : List String → Except UsageError Command
  | [] => .error .noCommand
  | name :: arguments =>
    if name = "run" then (RunOptions.parse arguments).map run |>.mapError .run
    else if name = "assemble" then parseAssemble arguments
    else if name = "disassemble" then parseDisassemble arguments
    else if name = "--help" ∨ name = "-h" ∨ name = "help" then .ok help
    else .error (.unknownCommand name)

end Command

end PCode
