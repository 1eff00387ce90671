import PCode.Assembly.Source
import PCode.Command.Invocation
import PCode.Files.Directory
import PCode.Listing
import PCode.Machine.Step
import PCode.Text.Utf8
import PCode.Wire.Binary

/-!
# What a command does

A `Plan` is what is left to do of a command: to end, to read or write a file and go on with what
came of it, or to execute a program. `Command.plan` is the plan of a command, and `pl0vm` that of
a list of arguments. A plan does nothing by itself: it can be carried out on a `Directory`, where
everything about it can be proved, or on the real file system.

Three things are taken for granted. The arguments are texts, so all of them are Unicode. The
standard output and the standard error take all that is written to them. And `RUST_LOG` is unset: a
plan has no log lines, so what it puts on the standard error is what the command itself says.
-/

namespace PCode

open Files

/-- How a command ends. -/
inductive Exit where
  /-- All went well. -/
  | success
  /-- The arguments or a file were not as they should be. -/
  | failure
  /-- The program that was executed met a fault. -/
  | fault
deriving DecidableEq, Repr

namespace Exit

/-- The exit code. -/
def code : Exit → UInt32
  | success => 0
  | failure => 1
  | fault => 2

end Exit

/-- What is left to do of a command. -/
inductive Plan where
  /-- End, with these texts on the standard output and the standard error. -/
  | done (exit : Exit) (stdout stderr : String)
  /-- Read the file at a path, and go on with its content or the error. -/
  | read (path : String) (next : Except SystemError Bytes → Plan)
  /-- Write the file at a path, and go on with the error, if any. -/
  | write (path : String) (content : Bytes) (next : Except SystemError Unit → Plan)
  /-- Execute a program, with its listing and its trace on the standard error or without them. -/
  | execute (p : Program) (limits : Limits) (debug : Bool)

namespace Plan

/-- End with a message about what was not as it should be. -/
def fail (message : String) : Plan := done .failure "" s!"error: {message}\n"

/-- Read the file at a path and go on with its content. -/
def readFile (path : String) (next : Bytes → Plan) : Plan :=
  read path fun
    | .ok content => next content
    | .error e => fail s!"cannot read '{path}': {e.message}"

/-- Read the file at a path and go on with the text in it. -/
def readText (path : String) (next : String → Plan) : Plan :=
  readFile path fun content =>
    match Text.text? content with
    | some text => next text
    | none => fail s!"cannot read '{path}': stream did not contain valid UTF-8"

/-- Read the file at a path and go on with the program in it. -/
def readProgram (path : String) (next : Program → Plan) : Plan :=
  readFile path fun content =>
    match Program.decode content with
    | .ok p => next p
    | .error e => fail s!"invalid binary: {e.message}"

/-- Write a program in binary to the file at a path. -/
def writeProgram (path : String) (p : Program) : Plan :=
  match p.encode with
  | .error e => fail e.message
  | .ok bytes =>
    write path bytes fun
      | .ok () =>
        let report := s!"assembled {p.size} instructions ({bytes.length} bytes) -> {path}\n"
        done .success "" report
      | .error e => fail s!"cannot write '{path}': {e.message}"

end Plan

namespace Command

/-- What a command does. -/
def plan : Command → Plan
  | help => .done .success "" Usage.all
  | run options =>
    .readProgram options.input fun p =>
      .execute p { stackSize := options.stackSize } options.debug
  | assemble input output =>
    .readText input fun text =>
      match Program.assemble text with
      | .ok p => .writeProgram output p
      | .error e => .fail e.message
  | disassemble input => .readProgram input fun p => .done .success p.disassemble ""

end Command

/-- What `pl0vm` does with its arguments. -/
def pl0vm (arguments : List String) : Plan :=
  match Command.parse arguments with
  | .ok command => command.plan
  | .error e => .done .failure "" e.message

end PCode
