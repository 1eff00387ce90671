import PCode.Instruction

/-!
# The text of a program

`Program.disassemble` writes one instruction a line and nothing else. `Program.listing` puts the
position of each instruction in front of it, right-aligned in a column as wide as the last position;
positions are what jumps and calls refer to.
-/

namespace PCode

/-- `text` with spaces in front, to fill `width` characters. -/
def alignRight (width : Nat) (text : String) : String :=
  String.ofList (List.replicate (width - text.length) ' ') ++ text

namespace Program

/-- The program as assembly text: each instruction on a line of its own. -/
def disassemble (p : Program) : String :=
  String.join (p.toList.map fun i => i.text ++ "\n")

/-- The width of the column of positions: that of the last position. -/
def positionWidth (p : Program) : Nat := (toString (p.size - 1)).length

/-- One line of a listing: the position, a colon and the instruction. -/
def listingLine (width position : Nat) (i : Instruction) : String :=
  alignRight width (toString position) ++ ": " ++ i.text ++ "\n"

/-- The program as assembly text with the position of each instruction in front of it. -/
def listing (p : Program) : String :=
  String.join (p.toList.zipIdx.map fun (i, position) => listingLine p.positionWidth position i)

end Program

end PCode
