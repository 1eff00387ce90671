import PCode.Proofs.Assembly.Words
import PCode.Proofs.Text.Numerals

/-!
# The words of a line, by their characters

What the content of a line is, which words it has, and what a word stands for, each said as a
property of the characters and not by how it is found.

* `content_eq_iff`: the content is what stands before the first semicolon.
* `isComment_iff`: a comment is white space and then a number sign.
* `words_eq_iff`: words are the longest runs of characters that separate nothing.
* `skipIndex_eq_iff`: a first word of digits and a colon is left out.
* `ofWord_eq_number_iff`, `ofWord_eq_raw_iff`, `ofWord_eq_mnemonic_iff`: the words that stand for a
  number, for a raw code and for a mnemonic.
-/

namespace PCode

namespace Assembly

open Text

/-! ## Content and comments -/

/-- The characters are those of the line before its first semicolon. -/
def IsContent (line cs : List Char) : Prop :=
  ';' ∉ cs ∧ (line = cs ∨ ∃ comment, line = cs ++ ';' :: comment)

/-- The first character that is not white space is a number sign. -/
def CommentedOut (cs : List Char) : Prop :=
  ∃ blanks rest, cs = blanks ++ '#' :: rest ∧ ∀ c ∈ blanks, isBlank c

theorem isContent_content (line : List Char) : IsContent line (content line) := by
  have hmem : ∀ c ∈ content line, c ≠ ';' := by
    intro c hc
    simpa using List.all_eq_true.mp List.all_takeWhile c hc
  refine ⟨fun h => hmem _ h rfl, ?_⟩
  have hline : content line ++ line.dropWhile (· != ';') = line :=
    List.takeWhile_append_dropWhile
  cases hrest : line.dropWhile (· != ';') with
  | nil => exact .inl (by rw [hrest, List.append_nil] at hline; exact hline.symm)
  | cons c comment =>
    have hc := List.head?_dropWhile_not (· != ';') line
    rw [hrest] at hc hline
    obtain rfl : c = ';' := by simpa using hc
    exact .inr ⟨comment, hline.symm⟩

theorem content_eq_iff {line cs : List Char} : content line = cs ↔ IsContent line cs := by
  constructor
  · rintro rfl
    exact isContent_content line
  · rintro ⟨hnot, hline⟩
    have hne : ∀ c ∈ cs, c ≠ ';' := fun c hc heq => hnot (heq ▸ hc)
    rcases hline with rfl | ⟨comment, rfl⟩
    · exact content_of_forall_ne hne
    · rw [content_append hne]
      exact List.append_nil cs

theorem isComment_iff {cs : List Char} : isComment cs ↔ CommentedOut cs := by
  rw [isComment, beq_iff_eq]
  constructor
  · intro h
    obtain ⟨rest, hrest⟩ := List.head?_eq_some_iff.mp h
    refine ⟨cs.takeWhile isBlank, rest, ?_, List.all_eq_true.mp List.all_takeWhile⟩
    rw [← hrest, List.takeWhile_append_dropWhile]
  · rintro ⟨blanks, rest, rfl, hblanks⟩
    rw [List.dropWhile_append_of_pos hblanks, List.dropWhile_cons_of_neg (by decide)]
    rfl

/-! ## Words -/

/-- The words are the longest runs of characters that are no separators, in order. -/
inductive HasWords : List Char → List (List Char) → Prop
  | done {gap : List Char} : (∀ c ∈ gap, isSeparator c) → HasWords gap []
  | next {gap word rest : List Char} {ws : List (List Char)} :
    (∀ c ∈ gap, isSeparator c) → word ≠ [] → (∀ c ∈ word, isSeparator c = false) →
    (∀ c ∈ rest.head?, isSeparator c) → HasWords rest ws →
    HasWords (gap ++ word ++ rest) (word :: ws)

theorem words_run {word rest : List Char} (hne : word ≠ [])
    (hword : ∀ c ∈ word, isSeparator c = false) (hrest : ∀ c ∈ rest.head?, isSeparator c) :
    words (word ++ rest) = word :: words rest := by
  have hone : words word = [word] := by
    rw [words, pieces_of_forall hword]
    simpa using hne
  cases rest with
  | nil => rw [List.append_nil, hone]; rfl
  | cons c rest =>
    have hc : isSeparator c := hrest c rfl
    have hcons : words (c :: rest) = words rest := words_append hc [] rest
    rw [words_append hc, hone, hcons, List.singleton_append]

theorem HasWords.words_eq {cs : List Char} {ws : List (List Char)} (h : HasWords cs ws) :
    words cs = ws := by
  induction h with
  | @done gap hgap =>
    rw [← List.append_nil gap, words_gap hgap]
    rfl
  | next hgap hne hword hrest h ih =>
    rw [List.append_assoc, words_gap hgap, words_run hne hword hrest, ih]

/-- Text has words: its characters are put one by one in front of the rest. -/
theorem exists_hasWords (cs : List Char) : ∃ ws, HasWords cs ws := by
  induction cs with
  | nil => exact ⟨[], .done nofun⟩
  | cons c cs ih =>
    obtain ⟨ws, h⟩ := ih
    by_cases hc : isSeparator c
    · -- a separator makes the gap in front longer
      cases h with
      | done hgap => exact ⟨_, .done (List.forall_mem_cons.mpr ⟨hc, hgap⟩)⟩
      | next hgap hne hword hrest h =>
        exact ⟨_, .next (List.forall_mem_cons.mpr ⟨hc, hgap⟩) hne hword hrest h⟩
    · -- another character is a word of its own, unless the first word starts right behind it
      have hc : isSeparator c = false := Bool.eq_false_iff.mpr hc
      have hone : ∀ d ∈ [c], isSeparator d = false := by simpa using hc
      cases h with
      | done hgap =>
        have hhead : ∀ d ∈ cs.head?, isSeparator d := fun d hd => hgap d (List.mem_of_mem_head? hd)
        have hnext : HasWords ([] ++ [c] ++ cs) [[c]] :=
          .next nofun (List.cons_ne_nil c []) hone hhead (.done hgap)
        exact ⟨_, hnext⟩
      | @next gap word rest ws hgap hne hword hrest h =>
        cases gap with
        | nil =>
          have hnext : HasWords ([] ++ c :: word ++ rest) ((c :: word) :: ws) :=
            .next nofun (List.cons_ne_nil c word) (List.forall_mem_cons.mpr ⟨hc, hword⟩) hrest h
          exact ⟨_, hnext⟩
        | cons d gap =>
          have hd := (List.forall_mem_cons.mp hgap).1
          have hhead : ∀ e ∈ ((d :: gap) ++ word ++ rest).head?, isSeparator e := by simpa using hd
          have hnext : HasWords ([] ++ [c] ++ ((d :: gap) ++ word ++ rest)) ([c] :: word :: ws) :=
            .next nofun (List.cons_ne_nil c []) hone hhead (.next hgap hne hword hrest h)
          exact ⟨_, hnext⟩

theorem words_eq_iff {cs : List Char} {ws : List (List Char)} : words cs = ws ↔ HasWords cs ws := by
  constructor
  · rintro rfl
    obtain ⟨ws, h⟩ := exists_hasWords cs
    rwa [h.words_eq]
  · exact HasWords.words_eq

/-! ## The index in front -/

/-- The word is one or more digits and a colon. -/
def IsIndexWord (word : List Char) : Prop :=
  ∃ digits, digits ≠ [] ∧ (∀ c ∈ digits, c.isDigit) ∧ word = digits ++ [':']

/-- The second words are the first ones without an index in front. -/
inductive Unindexed : List (List Char) → List (List Char) → Prop
  | index {word : List Char} {ws : List (List Char)} : IsIndexWord word → Unindexed (word :: ws) ws
  | plain {ws : List (List Char)} : (∀ word ∈ ws.head?, ¬ IsIndexWord word) → Unindexed ws ws

theorem isIndex_iff {word : List Char} : isIndex word ↔ IsIndexWord word := by
  unfold isIndex IsIndexWord
  simp only [Bool.and_eq_true, beq_iff_eq, List.getLast?_eq_some_iff, List.all_eq_true]
  constructor
  · rintro ⟨⟨⟨digits, rfl⟩, hne⟩, hdigits⟩
    rw [List.dropLast_concat] at hne hdigits
    exact ⟨digits, by simpa using hne, hdigits, rfl⟩
  · rintro ⟨digits, hne, hdigits, rfl⟩
    rw [List.dropLast_concat]
    exact ⟨⟨⟨digits, rfl⟩, by simpa using hne⟩, hdigits⟩

theorem skipIndex_eq_iff {ws rest : List (List Char)} :
    skipIndex ws = rest ↔ Unindexed ws rest := by
  cases ws with
  | nil =>
    constructor
    · rintro rfl
      exact .plain nofun
    · rintro ⟨⟩
      rfl
  | cons word ws =>
    by_cases hindex : isIndex word
    · rw [skipIndex, if_pos hindex]
      constructor
      · rintro rfl
        exact .index (isIndex_iff.mp hindex)
      · rintro (_ | hplain)
        · rfl
        · exact absurd (isIndex_iff.mp hindex) (hplain word rfl)
    · rw [skipIndex, if_neg hindex]
      have hnot : ¬ IsIndexWord word := fun h => hindex (isIndex_iff.mpr h)
      constructor
      · rintro rfl
        exact .plain (by simpa using hnot)
      · rintro (h | _)
        · exact absurd h hnot
        · rfl

/-! ## Tokens -/

theorem map_elim_eq_ok_iff {α β ε : Type} {o : Option α} {g : α → β} {e : ε} {b : β} :
    (o.map g).elim (Except.error e) Except.ok = .ok b ↔ ∃ a, o = some a ∧ b = g a := by
  cases o with
  | none => exact ⟨nofun, nofun⟩
  | some a =>
    show Except.ok (g a) = Except.ok b ↔ _
    simp [eq_comm]

theorem map_elim_eq_error_iff {α β ε : Type} {o : Option α} {g : α → β} {e e' : ε} :
    (o.map g).elim (Except.error e) Except.ok = .error e' ↔ o = none ∧ e' = e := by
  cases o with
  | none =>
    show Except.error e = Except.error e' ↔ _
    simp [eq_comm]
  | some a => exact ⟨nofun, nofun⟩

/-- The three kinds of words. -/
theorem ofWord_eq_ok_iff {word : List Char} {token : Token} :
    Token.ofWord word = .ok token ↔
      (∃ digits code, word = '#' :: digits ∧ Token.rawCode? digits = some code ∧
        token = .raw code) ∨
      (word.head? ≠ some '#' ∧ startsNumeral word ∧ ∃ n, signed? word = some n ∧
        token = .number n) ∨
      (word.head? ≠ some '#' ∧ startsNumeral word = false ∧
        token = .name (String.ofList (upper word))) := by
  unfold Token.ofWord
  split
  next digits =>
    rw [map_elim_eq_ok_iff]
    simp
  next hsign =>
    have hhead : word.head? ≠ some '#' := by
      intro h
      obtain ⟨digits, rfl⟩ := List.head?_eq_some_iff.mp h
      exact hsign digits rfl
    have hnot : ∀ digits, word ≠ '#' :: digits := fun digits h => hsign digits h
    cases hstarts : startsNumeral word with
    | true =>
      rw [if_pos rfl, map_elim_eq_ok_iff]
      simp [hhead, hnot]
    | false =>
      rw [if_neg Bool.false_ne_true, Except.ok.injEq]
      simp [hhead, hnot, eq_comm]

theorem ofWord_eq_number_iff {word : List Char} {n : Int} :
    Token.ofWord word = .ok (.number n) ↔
      IsNumeral word n ∧ -0x8000000000000000 ≤ n ∧ n < 0x8000000000000000 := by
  rw [← signed?_eq_some_iff, ofWord_eq_ok_iff]
  constructor
  · rintro (⟨_, _, _, _, ⟨⟩⟩ | ⟨_, _, _, h, ⟨⟩⟩ | ⟨_, _, ⟨⟩⟩)
    exact h
  · intro h
    have hstarts := startsNumeral_of_isNumeral (signed?_eq_some_iff.mp h).1
    refine .inr (.inl ⟨fun hhead => ?_, hstarts, n, h, rfl⟩)
    obtain ⟨digits, rfl⟩ := List.head?_eq_some_iff.mp hhead
    exact absurd hstarts (by simp [startsNumeral, Char.isDigit])

theorem rawCode?_eq_some_iff {digits : List Char} {code : UInt8} :
    Token.rawCode? digits = some code ↔ IsUnsigned digits code.toNat := by
  rw [← unsigned?_eq_some_iff, Token.rawCode?]
  simp only [Option.map_eq_some_iff, Option.filter_eq_some_iff, decide_eq_true_eq]
  constructor
  · rintro ⟨n, ⟨hn, hlt⟩, rfl⟩
    rw [hn, UInt8.toNat_ofNat_of_lt' hlt]
  · intro h
    exact ⟨_, ⟨h, code.toNat_lt⟩, UInt8.ofNat_toNat⟩

theorem ofWord_eq_raw_iff {word : List Char} {code : UInt8} :
    Token.ofWord word = .ok (.raw code) ↔
      ∃ digits, word = '#' :: digits ∧ IsUnsigned digits code.toNat := by
  rw [ofWord_eq_ok_iff]
  constructor
  · rintro (⟨digits, _, hword, h, ⟨⟩⟩ | ⟨_, _, _, _, ⟨⟩⟩ | ⟨_, _, ⟨⟩⟩)
    exact ⟨digits, hword, rawCode?_eq_some_iff.mp h⟩
  · rintro ⟨digits, hword, h⟩
    exact .inl ⟨digits, code, hword, rawCode?_eq_some_iff.mpr h, rfl⟩

/-- The first character of a raw code or of a numeral is its own upper case, and no letter. -/
theorem upperChar_of_not_letter {c : Char} (h : c.isDigit ∨ c ∈ ['#', '+', '-']) :
    upperChar c = [c] ∧ c.isUpper = false := by
  rcases h with h | h
  · rw [Char.isDigit, Bool.and_eq_true] at h
    have hlow : 48 ≤ c.toNat := of_decide_eq_true h.1
    have hhigh : c.toNat ≤ 57 := of_decide_eq_true h.2
    obtain ⟨k, hk, hlt⟩ : ∃ k, c.toNat = 48 + k ∧ k < 10 := ⟨c.toNat - 48, by omega, by omega⟩
    have hall : ∀ k < 10, upperChar (Char.ofNat (48 + k)) = [Char.ofNat (48 + k)] ∧
        (Char.ofNat (48 + k)).isUpper = false := by decide
    have hc : c = Char.ofNat (48 + k) := by rw [← hk, Char.ofNat_toNat]
    rw [hc]
    exact hall k hlt
  · simp only [List.mem_cons, List.not_mem_nil, or_false] at h
    rcases h with rfl | rfl | rfl <;> decide

theorem ne_cons_of_upper {word : List Char} {name : String} (hname : name.toList.all Char.isUpper)
    (h : upper word = name.toList) {c : Char} {cs : List Char}
    (hc : c.isDigit ∨ c ∈ ['#', '+', '-']) : word ≠ c :: cs := by
  rintro rfl
  obtain ⟨hupper, hnot⟩ := upperChar_of_not_letter hc
  rw [upper_cons, hupper] at h
  have hmem : c ∈ name.toList := by rw [← h]; exact List.mem_cons_self
  rw [List.all_eq_true.mp hname c hmem] at hnot
  cases hnot

/-- A word stands for a mnemonic if its upper case is the mnemonic: no other kind of word has
letters at its start. -/
theorem ofWord_eq_mnemonic_iff {word : List Char} {name : String}
    (hname : name.toList.all Char.isUpper) :
    Token.ofWord word = .ok (.name name) ↔ upper word = name.toList := by
  rw [ofWord_eq_ok_iff]
  constructor
  · rintro (⟨_, _, _, _, ⟨⟩⟩ | ⟨_, _, _, _, ⟨⟩⟩ | ⟨_, _, ⟨⟩⟩)
    exact String.toList_ofList.symm
  · intro h
    have hne {c : Char} {cs : List Char} (hc : c.isDigit ∨ c ∈ ['#', '+', '-']) : word ≠ c :: cs :=
      ne_cons_of_upper hname h hc
    refine .inr (.inr ⟨fun hhead => ?_, ?_, ?_⟩)
    · obtain ⟨digits, hword⟩ := List.head?_eq_some_iff.mp hhead
      exact hne (.inr (by decide)) hword
    · unfold startsNumeral
      split
      · exact absurd rfl (hne (.inr (by decide)))
      · exact absurd rfl (hne (.inr (by decide)))
      · rw [Bool.eq_false_iff]
        exact fun hdigit => hne (.inl hdigit) rfl
      · rfl
    · rw [h, String.ofList_toList]

end Assembly

end PCode
