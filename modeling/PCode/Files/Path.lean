import PCode.Text.Pieces

/-!
# Paths

A path is a text of names between slashes. It starts at the root if it starts with a slash. Empty
names mean nothing, so slashes may be repeated, but a slash at the end asks for a directory.

`withExtension` gives a path another extension. The extension of a name is what follows its last
dot, unless that dot is the first character of the name.
-/

namespace PCode.Files

open Text

/-- A path, taken apart. -/
structure Path where
  /-- It starts at the root. -/
  absolute : Bool
  /-- Its names, in order. -/
  names : List String
  /-- It ends with a slash. -/
  endsWithSlash : Bool
  /-- How many bytes its text takes. -/
  size : Nat
deriving DecidableEq, Repr

namespace Path

/-- The parts of a path's text. -/
def ofString (text : String) : Path where
  absolute := text.toList.head? == some '/'
  names := ((pieces (· == '/') text.toList).filter (!·.isEmpty)).map String.ofList
  endsWithSlash := text.toList.getLast? == some '/'
  size := text.utf8ByteSize

end Path

/-! ## Extensions -/

/-- Drops the slashes, and the names `.` after a slash, from the front of a path that is written
backwards. -/
def dropTail : List Char → List Char
  | '/' :: rest => dropTail rest
  | '.' :: '/' :: rest => dropTail rest
  | rest => rest

/-- The last name of a path, and what stands before it. -/
def splitLast (path : List Char) : List Char × List Char :=
  let backwards := dropTail path.reverse
  ((backwards.dropWhile (· != '/')).reverse, (backwards.takeWhile (· != '/')).reverse)

/-- The name without its last dot and what follows it, if it has an extension. -/
def stem (name : List Char) : List Char :=
  let before := ((name.reverse.dropWhile (· != '.')).drop 1).reverse
  if before.isEmpty then name else before

/-- The path with another extension. A path that ends in no name, or in `.` or `..`, has none and
stays as it is. A last name of two dots and an extension keeps only the dots if nothing follows it,
which leaves no name to extend. -/
def withExtension (extension path : String) : String :=
  let (before, name) := splitLast path.toList
  if name.isEmpty || name == ['.'] || name == ['.', '.'] then path
  else if stem name == ['.'] && path.toList == before ++ name then
    String.ofList (before ++ ['.', '.'])
  else String.ofList (before ++ stem name) ++ "." ++ extension

end PCode.Files
