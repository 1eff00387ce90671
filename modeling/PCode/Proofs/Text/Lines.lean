import PCode.Text.Pieces

/-!
# Pieces and lines

How the pieces of a text depend on the text, and what that says of its lines.

* `pieces_eq_splitOnP`: cutting is `List.splitOnP` of the core library.
* `length_pieces`: there is one piece more than there are cuts.
* `append_cons_inj`: what stands before the first cut, the cut and what stands after it can be told
  from the text.
* `pieces_append_of_eq`: where two texts meet, the last piece of one and the first piece of the
  other become one.
* `pieces_map`: a change of characters that changes no cut changes each piece for itself.
* `lines_newline`, `lines_append_of_eq`: the lines of two texts, with a line end between or without.
-/

namespace PCode.Text

variable {sep : Char → Bool}

/-! ## Pieces -/

theorem consFirst_eq_modifyHead {ps : List (List Char)} (h : ps ≠ []) (c : Char) :
    consFirst c ps = ps.modifyHead (c :: ·) := by
  cases ps with
  | nil => exact absurd rfl h
  | cons p ps => rfl

theorem pieces_eq_splitOnP (sep : Char → Bool) (cs : List Char) :
    pieces sep cs = cs.splitOnP sep := by
  induction cs with
  | nil => simp
  | cons c cs ih =>
    rw [pieces_cons, List.splitOnP_cons_eq_if_modifyHead, ← ih,
      consFirst_eq_modifyHead (pieces_ne_nil sep cs)]

theorem length_consFirst {ps : List (List Char)} (h : ps ≠ []) (c : Char) :
    (consFirst c ps).length = ps.length := by
  rw [consFirst_eq_modifyHead h, List.length_modifyHead]

theorem length_pieces (sep : Char → Bool) (cs : List Char) :
    (pieces sep cs).length = cs.countP sep + 1 := by
  induction cs with
  | nil => rfl
  | cons c cs ih =>
    rw [pieces_cons, List.countP_cons]
    split
    · rw [List.length_cons, ih]
    · rw [length_consFirst (pieces_ne_nil sep cs), ih, Nat.add_zero]

theorem takeWhile_append_cons {cs : List Char} {c : Char} (hcs : ∀ a ∈ cs, sep a = false)
    (hc : sep c) (ds : List Char) : (cs ++ c :: ds).takeWhile (!sep ·) = cs := by
  have hall : ∀ a ∈ cs, (!sep a) = true := fun a ha => by rw [hcs a ha]; rfl
  rw [List.takeWhile_append_of_pos hall, List.takeWhile_cons_of_neg (by simp [hc]),
    List.append_nil]

/-- A text is cut in one way only at the first place where it can be cut. -/
theorem append_cons_inj {cs cs' ds ds' : List Char} {c c' : Char}
    (hcs : ∀ a ∈ cs, sep a = false) (hcs' : ∀ a ∈ cs', sep a = false) (hc : sep c) (hc' : sep c')
    (h : cs ++ c :: ds = cs' ++ c' :: ds') : cs = cs' ∧ c = c' ∧ ds = ds' := by
  have hfront : cs = cs' := by
    rw [← takeWhile_append_cons hcs hc ds, h, takeWhile_append_cons hcs' hc']
  subst hfront
  exact ⟨rfl, List.cons.inj (List.append_cancel_left h)⟩

/-- A change of characters that changes no cut changes each piece for itself. -/
theorem pieces_map {f : Char → Char} (hf : ∀ c, sep (f c) = sep c) (cs : List Char) :
    pieces sep (cs.map f) = (pieces sep cs).map (List.map f) := by
  induction cs with
  | nil => rfl
  | cons c cs ih =>
    rw [List.map_cons, pieces_cons, pieces_cons, hf, ih]
    split
    · rfl
    · cases pieces sep cs <;> rfl

/-- Where two texts meet, the last piece of one and the first piece of the other become one. -/
theorem pieces_append_of_eq {cs ds : List Char} {before after : List (List Char)}
    {last first : List Char} (hcs : pieces sep cs = before ++ [last])
    (hds : pieces sep ds = first :: after) :
    pieces sep (cs ++ ds) = before ++ (last ++ first) :: after := by
  induction cs generalizing before last with
  | nil =>
    obtain ⟨rfl, hlast⟩ := List.append_eq_singleton_iff.mp hcs.symm |>.resolve_right (by simp)
    obtain rfl := (List.cons.inj hlast).1
    exact hds
  | cons c cs ih =>
    rw [List.cons_append, pieces_cons]
    rw [pieces_cons] at hcs
    split at hcs
    next hc =>
      rw [if_pos hc]
      cases before with
      | nil => exact absurd (List.cons.inj hcs).2 (pieces_ne_nil sep cs)
      | cons p before =>
        obtain ⟨rfl, hrest⟩ := List.cons.inj hcs
        rw [ih hrest, List.cons_append]
    next hc =>
      rw [if_neg hc]
      obtain ⟨p, ps, hps⟩ := List.exists_cons_of_ne_nil (pieces_ne_nil sep cs)
      rw [hps] at hcs
      cases before with
      | nil =>
        obtain ⟨rfl, rfl⟩ := List.cons.inj hcs
        have hone : pieces sep cs = [] ++ [p] := hps
        rw [ih hone]
        rfl
      | cons q before =>
        obtain ⟨rfl, rfl⟩ := List.cons.inj hcs
        have hmore : pieces sep cs = (p :: before) ++ [last] := hps
        rw [ih hmore]
        rfl

/-! ## Lines -/

theorem length_lines (text : String) : (lines text).length = text.toList.count '\n' + 1 := by
  rw [lines, length_pieces, List.count_eq_countP]

theorem exists_lines_eq_append (text : String) : ∃ before last, lines text = before ++ [last] :=
  ⟨_, _, (List.dropLast_concat_getLast (pieces_ne_nil _ text.toList)).symm⟩

theorem lines_newline (s t : String) : lines (s ++ "\n" ++ t) = lines s ++ lines t := by
  have happend : (s ++ "\n" ++ t).toList = s.toList ++ '\n' :: t.toList := by simp
  rw [lines, happend, pieces_append (by decide)]
  rfl

theorem lines_append_of_eq {s t : String} {before after : List (List Char)}
    {last first : List Char} (hs : lines s = before ++ [last]) (ht : lines t = first :: after) :
    lines (s ++ t) = before ++ (last ++ first) :: after := by
  rw [lines, String.toList_append]
  exact pieces_append_of_eq hs ht

theorem lines_append_of_notMem {s t : String} {first : List Char} {after : List (List Char)}
    (hs : '\n' ∉ s.toList) (ht : lines t = first :: after) :
    lines (s ++ t) = (s.toList ++ first) :: after := by
  have hone : lines s = [] ++ [s.toList] :=
    pieces_of_forall fun c hc => beq_eq_false_iff_ne.mpr fun h => hs (h ▸ hc)
  exact lines_append_of_eq hone ht

end PCode.Text
