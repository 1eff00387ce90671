import PCode.Machine.State
import PCode.Text.Numeral

/-!
# The arguments of `run`

One program, and in any order around it `--debug` or `-d` and `--stack-size` with a number. The
last size counts. Arguments are read from left to right, and the first that does not fit is
reported; that there is no program is reported only if all of them fit.
-/

namespace PCode

/-- What `run` is asked to do. -/
structure RunOptions where
  /-- The path of the program. -/
  input : String
  /-- Show the listing and the trace of the program. -/
  debug : Bool
  /-- The number of cells of the stack. -/
  stackSize : Nat
deriving DecidableEq, Repr

namespace RunOptions

/-- The largest size of the stack that can be asked for. -/
def maxStackSize : Nat := 0x1000000

/-- Why the arguments do not fit. -/
inductive Error where
  /-- `--stack-size` is the last argument. -/
  | missingSize
  /-- What follows `--stack-size` is no number, or needs more than 64 bits. -/
  | invalidSize (value : String)
  /-- The size is too large. -/
  | sizeTooLarge (size : Nat)
  /-- The argument starts with a dash and is no option. -/
  | unknownOption (option : String)
  /-- There is a second program. -/
  | unexpectedArgument (argument : String)
  /-- There is no program. -/
  | missingInput
deriving DecidableEq, Repr

namespace Error

/-- The error in words. -/
def message : Error → String
  | missingSize => "--stack-size requires a value"
  | invalidSize value => s!"invalid stack size '{value}'"
  | sizeTooLarge size => s!"stack size {size} exceeds the maximum of {maxStackSize}"
  | unknownOption option => s!"unknown option '{option}'"
  | unexpectedArgument argument => s!"unexpected argument '{argument}'"
  | missingInput => "run requires an input file"

end Error

/-- The size that the argument of `--stack-size` stands for. -/
def size (value : String) : Except Error Nat :=
  match (Text.unsigned? value.toList).filter (· < UInt64.size) with
  | none => .error (.invalidSize value)
  | some size => if size ≤ maxStackSize then .ok size else .error (.sizeTooLarge size)

/-- What has been read of the arguments so far. -/
structure Draft where
  /-- The path of the program. -/
  input : Option String := none
  /-- Show the listing and the trace of the program. -/
  debug : Bool := false
  /-- The number of cells of the stack. -/
  stackSize : Nat := ({} : Limits).stackSize
deriving DecidableEq, Repr

/-- Reads the arguments that are left. -/
def parseFrom (draft : Draft) : List String → Except Error RunOptions
  | [] =>
    match draft.input with
    | some input => .ok ⟨input, draft.debug, draft.stackSize⟩
    | none => .error .missingInput
  | argument :: rest =>
    if argument = "--debug" ∨ argument = "-d" then parseFrom { draft with debug := true } rest
    else if argument = "--stack-size" then
      match rest with
      | [] => .error .missingSize
      | value :: rest =>
        match size value with
        | .ok size => parseFrom { draft with stackSize := size } rest
        | .error e => .error e
    else if argument.toList.head? = some '-' then .error (.unknownOption argument)
    else if draft.input.isSome then .error (.unexpectedArgument argument)
    else parseFrom { draft with input := some argument } rest

/-- What the arguments of `run` ask for. -/
def parse (arguments : List String) : Except Error RunOptions := parseFrom {} arguments

end RunOptions

end PCode
