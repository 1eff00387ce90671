import PCode.Assembly.Error
import PCode.Text.Blank
import PCode.Text.Numeral
import PCode.Text.Pieces
import PCode.Text.Upper

/-!
# The tokens of a line

A semicolon ends the content of a line. Content whose first character, white space apart, is a
number sign is a comment. The words of any other content are what stands between its commas and
white space; a first word such as `12:` is the index of a listing and is skipped.

Each word is one token. A word that starts with a number sign is a raw code. A word that starts
with a digit, after one sign or none, is a number. Every other word is a name, and its letter case
does not matter. All words of a line are read before any of them is given a meaning, so a
malformed number is reported whatever else is wrong with the line.
-/

namespace PCode.Assembly

open Text

/-- A word of assembly text with its meaning. -/
inductive Token where
  /-- A name, in upper case. -/
  | name (upperCase : String)
  /-- A number. -/
  | number (value : Int)
  /-- The code of an operation that need not have a name. -/
  | raw (code : UInt8)
deriving DecidableEq, Repr

namespace Token

/-- The token as it is quoted in messages. -/
def text : Token → String
  | name upperCase => upperCase
  | number value => toString value
  | raw code => "#" ++ toString code.toNat

/-- The code that a raw code has after its number sign: an unsigned decimal of at most 255. -/
def rawCode? (digits : List Char) : Option UInt8 :=
  ((unsigned? digits).filter (· < 256)).map UInt8.ofNat

/-- The token that a word stands for. -/
def ofWord (word : List Char) : Except LineError Token :=
  let malformed := LineError.invalidNumber (String.ofList word)
  match word with
  | '#' :: digits => ((rawCode? digits).map raw).elim (.error malformed) .ok
  | _ =>
    if startsNumeral word then ((signed? word).map number).elim (.error malformed) .ok
    else .ok (name (String.ofList (upper word)))

end Token

/-- Commas and white space separate words. -/
def isSeparator (c : Char) : Bool := c == ',' || isBlank c

/-- The part of a line before its first semicolon. -/
def content (line : List Char) : List Char := line.takeWhile (· != ';')

/-- The content starts with a number sign, white space apart. -/
def isComment (content : List Char) : Bool := (content.dropWhile isBlank).head? == some '#'

/-- The words of the content of a line. -/
def words (content : List Char) : List (List Char) :=
  (pieces isSeparator content).filter (!·.isEmpty)

/-- The word is one or more digits and a colon. -/
def isIndex (word : List Char) : Bool :=
  word.getLast? == some ':' && !word.dropLast.isEmpty && word.dropLast.all Char.isDigit

/-- The words without the index in front of them. -/
def skipIndex : List (List Char) → List (List Char)
  | [] => []
  | word :: rest => if isIndex word then rest else word :: rest

/-- The words of a line that have a meaning. A comment has none. -/
def lineWords (line : List Char) : List (List Char) :=
  if isComment (content line) then [] else skipIndex (words (content line))

/-- The tokens of a line, or the first of its words that is malformed. -/
def lineTokens (line : List Char) : Except LineError (List Token) :=
  (lineWords line).mapM Token.ofWord

end PCode.Assembly
