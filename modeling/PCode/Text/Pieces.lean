/-!
# Cutting text into pieces

`pieces sep cs` cuts a list of characters at every character that `sep` picks out, and drops those
characters. There is always one piece more than there were cuts; a piece may be empty.

* `pieces_append`: the pieces around a cut are those of what stands before it and then those of
  what stands after it.
* `pieces_of_forall`: text without a cut is one piece.
-/

namespace PCode.Text

/-- Puts a character in front of the first piece. -/
def consFirst (c : Char) : List (List Char) → List (List Char)
  | [] => [[c]]
  | piece :: rest => (c :: piece) :: rest

/-- The text between the characters that `sep` picks out. -/
def pieces (sep : Char → Bool) (cs : List Char) : List (List Char) :=
  cs.foldr (fun c rest => if sep c then [] :: rest else consFirst c rest) [[]]

/-- The lines of a text: what stands between its line feeds. -/
def lines (text : String) : List (List Char) := pieces (· == '\n') text.toList

@[simp] theorem pieces_nil (sep : Char → Bool) : pieces sep [] = [[]] := rfl

theorem pieces_cons (sep : Char → Bool) (c : Char) (cs : List Char) :
    pieces sep (c :: cs) = if sep c then [] :: pieces sep cs else consFirst c (pieces sep cs) := rfl

theorem consFirst_append (c : Char) {ps : List (List Char)} (h : ps ≠ []) (qs : List (List Char)) :
    consFirst c (ps ++ qs) = consFirst c ps ++ qs := by
  cases ps with
  | nil => exact absurd rfl h
  | cons p ps => rfl

theorem pieces_ne_nil (sep : Char → Bool) (cs : List Char) : pieces sep cs ≠ [] := by
  cases cs with
  | nil => simp
  | cons c cs =>
    rw [pieces_cons]
    split
    · simp
    · cases pieces sep cs <;> simp [consFirst]

theorem pieces_append {sep : Char → Bool} {c : Char} (hc : sep c) (cs ds : List Char) :
    pieces sep (cs ++ c :: ds) = pieces sep cs ++ pieces sep ds := by
  induction cs with
  | nil => simp [pieces_cons, hc]
  | cons a cs ih =>
    simp only [List.cons_append, pieces_cons, ih]
    split
    · rfl
    · exact consFirst_append a (pieces_ne_nil sep cs) _

theorem pieces_of_forall {sep : Char → Bool} {cs : List Char} (h : ∀ c ∈ cs, sep c = false) :
    pieces sep cs = [cs] := by
  induction cs with
  | nil => rfl
  | cons c cs ih =>
    have hc := h c List.mem_cons_self
    have hcs := ih fun d hd => h d (List.mem_cons_of_mem c hd)
    simp [pieces_cons, hc, hcs, consFirst]

end PCode.Text
