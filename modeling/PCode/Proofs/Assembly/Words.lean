import PCode.Assembly.Token
import PCode.Proofs.Text.Decimal

/-!
# Words of a line

A line that was written as words with single spaces between them, and any number of spaces in front,
is cut into these words again.

* `isWord_of_isUpper`, `isWord_toDigits`, `isWord_toString_int`: what may stand as a word.
* `words_append`, `words_gap`: words on both sides of a separator, and behind separators.
* `words_intercalate`: the words of such a line.
* `lineWords_intercalate`: those of them that have a meaning. The first word decides whether the
  line is a comment and whether it starts with an index.
-/

namespace PCode

namespace Assembly

open Text

/-! ## Plain characters -/

/-- The character neither separates words nor ends the content of a line. -/
def Plain (c : Char) : Prop := isSeparator c = false ∧ c ≠ ';'

instance : DecidablePred Plain := fun c =>
  inferInstanceAs (Decidable (isSeparator c = false ∧ c ≠ ';'))

/-- One or more plain characters. -/
def IsWord (cs : List Char) : Prop := cs ≠ [] ∧ ∀ c ∈ cs, Plain c

theorem IsWord.cons {c : Char} {cs : List Char} (hc : Plain c) (h : IsWord cs) : IsWord (c :: cs) :=
  ⟨List.cons_ne_nil c cs, List.forall_mem_cons.mpr ⟨hc, h.2⟩⟩

theorem isSeparator_space : isSeparator ' ' := by decide

theorem Plain.isBlank_eq_false {c : Char} (h : Plain c) : isBlank c = false := by
  have hsep := h.1
  rw [isSeparator, Bool.or_eq_false_iff] at hsep
  exact hsep.2

theorem Plain.ne_newline {c : Char} (h : Plain c) : c ≠ '\n' := by
  rintro rfl
  exact absurd h (by decide)

/-- From the minus sign to `Z` only the semicolon is not plain. -/
theorem plain_of_toNat {c : Char} (hlow : 45 ≤ c.toNat) (hhigh : c.toNat ≤ 90) (hne : c ≠ ';') :
    Plain c := by
  have hcomma : c ≠ ',' := by
    rintro rfl
    exact absurd hlow (by decide)
  refine ⟨?_, hne⟩
  simp [isSeparator, isBlank, blankRanges, hcomma]
  omega

theorem plain_of_isDigit {c : Char} (h : c.isDigit) : Plain c := by
  have hne : c ≠ ';' := by
    rintro rfl
    exact absurd h (by decide)
  rw [Char.isDigit, Bool.and_eq_true] at h
  have hlow : 48 ≤ c.toNat := of_decide_eq_true h.1
  have hhigh : c.toNat ≤ 57 := of_decide_eq_true h.2
  exact plain_of_toNat (by omega) (by omega) hne

theorem plain_of_isUpper {c : Char} (h : c.isUpper) : Plain c := by
  have hne : c ≠ ';' := by
    rintro rfl
    exact absurd h (by decide)
  have hrange : 'A'.val ≤ c.val ∧ c.val ≤ 'Z'.val := of_decide_eq_true h
  have hlow : 65 ≤ c.toNat := hrange.1
  have hhigh : c.toNat ≤ 90 := hrange.2
  exact plain_of_toNat (by omega) hhigh hne

theorem isWord_of_isUpper {cs : List Char} (hne : cs ≠ []) (h : cs.all Char.isUpper) : IsWord cs :=
  ⟨hne, fun c hc => plain_of_isUpper (List.all_eq_true.mp h c hc)⟩

theorem isWord_toDigits (n : Nat) : IsWord (Nat.toDigits 10 n) :=
  ⟨Nat.toDigits_ne_nil, fun _ hc => plain_of_isDigit (isDigit_of_mem_toDigits hc)⟩

theorem isWord_toString_int (n : Int) : IsWord (toString n).toList := by
  rw [toList_toString_int]
  split
  · exact isWord_toDigits _
  · exact (isWord_toDigits _).cons (by decide)

/-! ## Words -/

theorem words_append {c : Char} (hc : isSeparator c) (cs ds : List Char) :
    words (cs ++ c :: ds) = words cs ++ words ds := by
  rw [words, pieces_append hc, List.filter_append]
  rfl

theorem IsWord.words_eq {w : List Char} (h : IsWord w) : words w = [w] := by
  rw [words, pieces_of_forall fun c hc => (h.2 c hc).1]
  simpa using h.1

/-- Separators in front of the words make no difference. -/
theorem words_gap {gap : List Char} (h : ∀ c ∈ gap, isSeparator c) (cs : List Char) :
    words (gap ++ cs) = words cs := by
  induction gap with
  | nil => rfl
  | cons c gap ih =>
    obtain ⟨hc, hgap⟩ := List.forall_mem_cons.mp h
    show words ([] ++ c :: (gap ++ cs)) = words cs
    rw [words_append hc, ih hgap]
    rfl

theorem words_spaces (n : Nat) (cs : List Char) :
    words (List.replicate n ' ' ++ cs) = words cs := by
  apply words_gap
  intro c hc
  rw [List.eq_of_mem_replicate hc]
  exact isSeparator_space

/-- Words with a space between them are read as these words. -/
theorem words_intercalate {ws : List (List Char)} (h : ∀ w ∈ ws, IsWord w) :
    words ([' '].intercalate ws) = ws := by
  induction ws with
  | nil => rfl
  | cons w ws ih =>
    obtain ⟨hw, hws⟩ := List.forall_mem_cons.mp h
    cases ws with
    | nil => rw [List.intercalate_singleton, hw.words_eq]
    | cons v vs =>
      rw [List.intercalate_cons_cons, List.append_assoc, List.singleton_append,
        words_append isSeparator_space, hw.words_eq, ih hws, List.singleton_append]

/-- The characters of a line are those of its words and the spaces between them. -/
theorem plain_or_space_of_mem {ws : List (List Char)} (h : ∀ w ∈ ws, IsWord w) {c : Char}
    (hc : c ∈ [' '].intercalate ws) : c = ' ' ∨ Plain c := by
  induction ws with
  | nil => simp at hc
  | cons w ws ih =>
    obtain ⟨hw, hws⟩ := List.forall_mem_cons.mp h
    cases ws with
    | nil =>
      rw [List.intercalate_singleton] at hc
      exact .inr (hw.2 c hc)
    | cons v vs =>
      rw [List.intercalate_cons_cons, List.append_assoc, List.singleton_append] at hc
      rcases List.mem_append.mp hc with hc | hc
      · exact .inr (hw.2 c hc)
      · rcases List.mem_cons.mp hc with rfl | hc
        · exact .inl rfl
        · exact ih hws hc

/-! ## Content -/

theorem content_append {cs : List Char} (h : ∀ c ∈ cs, c ≠ ';') (rest : List Char) :
    content (cs ++ rest) = cs ++ content rest :=
  List.takeWhile_append_of_pos fun c hc => by simpa using h c hc

theorem content_of_forall_ne {line : List Char} (h : ∀ c ∈ line, c ≠ ';') :
    content line = line := by
  simpa [content] using content_append h []

theorem isComment_cons {c : Char} (hc : isBlank c = false) (cs : List Char) :
    isComment (c :: cs) = (c == '#') := by
  rw [isComment, List.dropWhile_cons_of_neg (by simp [hc])]
  rfl

theorem isComment_intercalate {w : List Char} (hw : IsWord w) (ws : List (List Char)) :
    isComment ([' '].intercalate (w :: ws)) = (w.head? == some '#') := by
  obtain ⟨c, cs, rfl⟩ := List.exists_cons_of_ne_nil hw.1
  have hblank := (hw.2 c List.mem_cons_self).isBlank_eq_false
  cases ws with
  | nil =>
    rw [List.intercalate_singleton, isComment_cons hblank, List.head?_cons, Option.some_beq_some]
  | cons v vs =>
    rw [List.intercalate_cons_cons, List.append_assoc, List.cons_append, isComment_cons hblank,
      List.head?_cons, Option.some_beq_some]

theorem isComment_spaces (n : Nat) (cs : List Char) :
    isComment (List.replicate n ' ' ++ cs) = isComment cs := by
  induction n with
  | zero => rfl
  | succ n ih => exact ih

theorem content_intercalate (n : Nat) {ws : List (List Char)} (h : ∀ w ∈ ws, IsWord w) :
    content (List.replicate n ' ' ++ [' '].intercalate ws) =
      List.replicate n ' ' ++ [' '].intercalate ws := by
  apply content_of_forall_ne
  intro c hc
  rcases List.mem_append.mp hc with hc | hc
  · rw [List.eq_of_mem_replicate hc]
    decide
  · rcases plain_or_space_of_mem h hc with rfl | hplain
    · decide
    · exact hplain.2

/-- The words of a line, and what its first word decides: whether the line is a comment, and whether
the word is an index. -/
theorem lineWords_intercalate (n : Nat) {w : List Char} {ws : List (List Char)}
    (h : ∀ v ∈ w :: ws, IsWord v) :
    lineWords (List.replicate n ' ' ++ [' '].intercalate (w :: ws)) =
      if w.head? = some '#' then [] else skipIndex (w :: ws) := by
  rw [lineWords, content_intercalate n h, isComment_spaces, words_spaces, words_intercalate h,
    isComment_intercalate (h w List.mem_cons_self)]
  simp

end Assembly

end PCode
