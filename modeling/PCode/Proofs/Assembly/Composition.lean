import Mathlib.Data.List.ReduceOption
import PCode.Proofs.Assembly.Reassembly
import PCode.Proofs.Text.Lines

/-!
# Texts one after the other

A text is assembled line by line, and every line for itself. So two texts with a line end between
them denote the instructions of the first and then those of the second, and an error is the one that
the part had alone, counted from the first line of the whole.

* `gather_append`: the same for any numbered items.
* `assemble_newline`: assembling such a text, as one equation.
* `assemble_eq_error_iff`: an error names the first bad line and what is wrong with it.
* `assemble_composes`: what becomes of the programs and of the errors of the two parts.
-/

namespace PCode

open Assembly

/-- The error on the same line of a text that has `n` more lines in front. -/
def Assembly.Error.later (n : Nat) (e : Assembly.Error) : Assembly.Error :=
  { e with line := e.line + n }

/-! ## Lines -/

namespace Text

/-- How many lines a text has. A line feed ends a line, so what follows the last one is a line only
if there is something. -/
def lineCount (text : String) : Nat :=
  text.toList.count '\n' + if text.toList.getLast?.all (· == '\n') then 0 else 1

/-- The piece that is not counted as a line is empty. -/
theorem length_le_lineCount {text : String} {before after : List (List Char)} {line : List Char}
    (h : lines text = before ++ line :: after) (hline : line ≠ []) :
    before.length + 1 ≤ lineCount text := by
  have hlength := length_lines text
  rw [h, List.length_append, List.length_cons] at hlength
  unfold lineCount
  split
  next hended =>
    obtain ⟨front, hfront⟩ : ∃ front, lines text = front ++ [[]] := by
      cases hlast : text.toList.getLast? with
      | none =>
        rw [List.getLast?_eq_none_iff] at hlast
        exact ⟨[], by rw [lines, hlast, pieces_nil, List.nil_append]⟩
      | some c =>
        rw [hlast] at hended
        obtain rfl : c = '\n' := by simpa using hended
        obtain ⟨cs, hcs⟩ := List.getLast?_eq_some_iff.mp hlast
        exact ⟨pieces (· == '\n') cs, by rw [lines, hcs, pieces_append (by decide), pieces_nil]⟩
    have hafter : after ≠ [] := by
      rintro rfl
      rw [h] at hfront
      exact hline (by simpa using (List.append_inj' hfront rfl).2)
    have hpos := List.length_pos_iff.mpr hafter
    omega
  next => omega

end Text

/-! ## Programs -/

namespace Program

/-- Items in two parts denote the program of the first part and then that of the second. -/
theorem gather_append {α : Type} {f : α → Except LineError (Option Instruction)} (xs ys : List α) :
    gather f (xs ++ ys) = (do
      let p ← gather f xs
      let q ← (gather f ys).mapError (Assembly.Error.later xs.length)
      return ofList (p.toList ++ q.toList)) := by
  have hlater : numbered (1 + xs.length) f Assembly.Error.mk ys =
      (numbered 1 f Assembly.Error.mk ys).mapError (Assembly.Error.later xs.length) :=
    numbered_add fun _ _ => rfl
  rw [gather, gather, gather, numbered_append, hlater]
  cases numbered 1 f Assembly.Error.mk xs with
  | error e => rfl
  | ok found =>
    cases numbered 1 f Assembly.Error.mk ys with
    | error e => rfl
    | ok found' =>
      exact congrArg (fun l => Except.ok (ofList l)) (List.reduceOption_append found found')

/-- **Assembling two texts.** The second text is assembled if the first one is fine, and its lines
are counted on. -/
theorem assemble_newline (s t : String) :
    assemble (s ++ "\n" ++ t) = (do
      let p ← assemble s
      let q ← (assemble t).mapError (Assembly.Error.later (s.toList.count '\n' + 1))
      return ofList (p.toList ++ q.toList)) := by
  rw [assemble_eq_gather, Text.lines_newline, gather_append, ← assemble_eq_gather,
    ← assemble_eq_gather, Text.length_lines]

/-- **The first bad line.** An error has the number of the first line that denotes no instruction
and is not blank, where all lines count, and says what is wrong with this line. -/
theorem assemble_eq_error_iff {text : String} {e : Assembly.Error} :
    assemble text = .error e ↔
      ∃ before line after, Text.lines text = before ++ line :: after ∧
        (∀ fine ∈ before, ∃ found, ofLine fine = .ok found) ∧ ofLine line = .error e.cause ∧
        e.line = before.length + 1 := by
  rw [assemble_eq_gather, gather, map_eq_error_iff, numbered_eq_error_iff]
  constructor
  · rintro ⟨before, line, after, cause, hsplit, hbefore, hline, rfl⟩
    exact ⟨before, line, after, hsplit, hbefore, hline, Nat.add_comm 1 _⟩
  · rintro ⟨before, line, after, hsplit, hbefore, hline, hnumber⟩
    refine ⟨before, line, after, e.cause, hsplit, hbefore, hline, ?_⟩
    rw [Nat.add_comm 1, ← hnumber]

theorem line_of_assemble {text : String} {e : Assembly.Error} (h : assemble text = .error e) :
    1 ≤ e.line ∧ e.line ≤ Text.lineCount text := by
  obtain ⟨before, line, after, hsplit, -, hline, hnumber⟩ := assemble_eq_error_iff.mp h
  have hne : line ≠ [] := by
    rintro rfl
    exact nomatch hline
  have hle := Text.length_le_lineCount hsplit hne
  omega

/-- **Assembling is compositional.** Put two texts together with a line end between them. If the
first has an error, the whole has it. If both denote programs, the whole denotes one after the
other. If only the second has an error, the whole has the same, on a line that is later by the
number of lines of the first, which is one more than the number of its line ends. So an error names
the first bad line, blank lines and comments are counted, and there is a line with that number. -/
theorem assemble_composes (s t : String) :
    (∀ e, assemble s = .error e → assemble (s ++ "\n" ++ t) = .error e) ∧
    (∀ p q, assemble s = .ok p → assemble t = .ok q →
      assemble (s ++ "\n" ++ t) = .ok (ofList (p.toList ++ q.toList))) ∧
    (∀ p e, assemble s = .ok p → assemble t = .error e →
      assemble (s ++ "\n" ++ t) = .error { e with line := e.line + (s.toList.count '\n' + 1) }) ∧
    ∀ e, assemble s = .error e → 1 ≤ e.line ∧ e.line ≤ Text.lineCount s ∧
      ∃ before line after, Text.lines s = before ++ line :: after ∧
        (∀ fine ∈ before, ∃ found, ofLine fine = .ok found) ∧ ofLine line = .error e.cause ∧
        e.line = before.length + 1 := by
  refine ⟨fun e hs => ?_, fun p q hs ht => ?_, fun p e hs ht => ?_, fun e hs => ?_⟩
  · rw [assemble_newline, hs]
    rfl
  · rw [assemble_newline, hs, ht]
    rfl
  · rw [assemble_newline, hs, ht]
    rfl
  · obtain ⟨hlow, hhigh⟩ := line_of_assemble hs
    exact ⟨hlow, hhigh, assemble_eq_error_iff.mp hs⟩

/-- A text of a comment and an instruction, ended by a line end of its own, and one whose first line
is blank and whose second is an error. Put together they have it on the fifth line, of five. -/
theorem assemble_composes_blank_lines :
    let s := "# header\r\nJMP 1\n"
    let t := " \nLIT 99999999999\n"
    let p := ofList [.value Opcode.jmp.code 1]
    let cause := LineError.outOfRange .lit .immediate 99999999999
    assemble s = .ok p ∧ assemble t = .error ⟨2, cause⟩ ∧
      assemble (s ++ "\n" ++ t) = .error ⟨5, cause⟩ ∧
      assemble (t ++ "\n" ++ s) = .error ⟨2, cause⟩ ∧
      assemble (s ++ "\n" ++ s) =
        .ok (ofList [.value Opcode.jmp.code 1, .value Opcode.jmp.code 1]) ∧
      5 ≤ Text.lineCount (s ++ "\n" ++ t) := by
  intro s t p cause
  have hs : assemble s = .ok p := by decide +kernel
  have ht : assemble t = .error ⟨2, cause⟩ := by decide +kernel
  have hends : s.toList.count '\n' = 2 := by decide +kernel
  have hst : assemble (s ++ "\n" ++ t) = .error ⟨5, cause⟩ := by
    rw [(assemble_composes s t).2.2.1 p _ hs ht, hends]
  refine ⟨hs, ht, hst, ?_, ?_, ?_⟩
  · exact (assemble_composes t s).1 _ ht
  · exact (assemble_composes s s).2.1 p p hs hs
  · exact ((assemble_composes (s ++ "\n" ++ t) t).2.2.2 _ hst).2.1

end Program

end PCode
