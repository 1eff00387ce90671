import PCode.Text.UpperTable

/-!
# Upper case

The full upper-case mapping of Unicode, one character at a time: `ß` becomes `SS`, `ı` becomes `I`,
`ς` becomes `Σ`. Characters without a mapping stay as they are.

* `upperChar_of_ascii`: on ASCII it is the core library's `Char.toUpper`.
-/

namespace PCode.Text

/-- The upper case of a character. -/
def upperChar (c : Char) : List Char :=
  let n := c.toNat
  if n < 0x80 then [c.toUpper]
  else
    match upperExpansions.lookup n with
    | some points => points.map Char.ofNat
    | none =>
      match upperRuns.find? (·.has n) with
      | some run => [Char.ofNat (n + run.shift).toNat]
      | none => [c]

/-- The upper case of a text. -/
def upper (cs : List Char) : List Char := cs.flatMap upperChar

theorem upperChar_of_ascii {c : Char} (h : c.toNat < 0x80) : upperChar c = [c.toUpper] := by
  simp [upperChar, h]

@[simp] theorem upper_nil : upper [] = [] := rfl

@[simp] theorem upper_cons (c : Char) (cs : List Char) :
    upper (c :: cs) = upperChar c ++ upper cs := by
  simp [upper]

theorem upper_append (cs ds : List Char) : upper (cs ++ ds) = upper cs ++ upper ds := by
  simp [upper]

end PCode.Text
