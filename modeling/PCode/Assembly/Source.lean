import PCode.Assembly.Line

/-!
# Assembly text

A text denotes the program made of the instructions of its lines, in order; blank lines denote
nothing. The first line with an error is the one reported, and blank lines count.
-/

namespace PCode

namespace Assembly

/-- The instruction of the line with a given number. -/
def ofNumberedLine (number : Nat) (line : List Char) : Except Error (Option Instruction) :=
  (ofLine line).mapError (Error.mk number)

end Assembly

namespace Program

/-- The program that an assembly text denotes. -/
def assemble (text : String) : Except Assembly.Error Program := do
  let found ← ((Text.lines text).zipIdx 1).mapM fun (line, number) =>
    Assembly.ofNumberedLine number line
  return ofList found.reduceOption

end Program

end PCode
