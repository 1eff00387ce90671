import PCode.Proofs.Assembly.Composition
import PCode.Proofs.Assembly.Grammar

/-!
# Malformed numbers

A word that starts like a numeral, or with a number sign, has to be a numeral that fits 64 bits, or
the code of an operation. The first word of a line that breaks this rule is the error of the line,
whatever else is wrong with it, because all words are read before any of them is given a meaning.

* `LooksNumeric`, `Malformed`, `FirstMalformed`: the rule, by the characters of the words.
* `ofWord_eq_error_iff`, `lineTokens_eq_error_iff`: reading the words of a line.
* `ofTokens_ne_invalidNumber`, `ofLine_eq_invalidNumber_iff`: words that could all be read are never
  reported as malformed, so such an error comes from reading only.
* `malformed_number_wins`: numerals, words, lines and texts together.
-/

namespace PCode

namespace Text

/-- The word starts with a digit, after one sign or none. -/
def LooksNumeric (word : List Char) : Prop :=
  ∃ sign c rest, (sign = [] ∨ sign = ['+'] ∨ sign = ['-']) ∧ c.isDigit ∧ word = sign ++ c :: rest

theorem startsNumeral_iff {word : List Char} : startsNumeral word ↔ LooksNumeric word := by
  constructor
  · intro h
    unfold startsNumeral at h
    split at h
    · exact ⟨['+'], _, _, .inr (.inl rfl), h, rfl⟩
    · exact ⟨['-'], _, _, .inr (.inr rfl), h, rfl⟩
    · exact ⟨[], _, _, .inl rfl, h, rfl⟩
    · cases h
  · rintro ⟨sign, c, rest, rfl | rfl | rfl, hc, rfl⟩
    · exact startsNumeral_of_isDigit hc
    · exact hc
    · exact hc

end Text

namespace Assembly

open Text

/-! ## Words -/

/-- The word is meant as a number or as the code of an operation, and is neither. -/
inductive Malformed : List Char → Prop
  | number {word : List Char} : LooksNumeric word →
    (¬ ∃ n, IsNumeral word n ∧ -0x8000000000000000 ≤ n ∧ n < 0x8000000000000000) → Malformed word
  | code {digits : List Char} : (¬ ∃ n ≤ 255, IsUnsigned digits n) → Malformed ('#' :: digits)

theorem signed?_eq_none_iff {word : List Char} :
    signed? word = none ↔
      ¬ ∃ n, IsNumeral word n ∧ -0x8000000000000000 ≤ n ∧ n < 0x8000000000000000 := by
  simp only [← signed?_eq_some_iff, ← Option.isSome_iff_exists, Option.not_isSome_iff_eq_none]

theorem rawCode?_eq_none_iff {digits : List Char} :
    Token.rawCode? digits = none ↔ ¬ ∃ n ≤ 255, IsUnsigned digits n := by
  have hsome : (∃ n ≤ 255, IsUnsigned digits n) ↔ ∃ code, Token.rawCode? digits = some code := by
    simp only [rawCode?_eq_some_iff]
    constructor
    · rintro ⟨n, hn, h⟩
      refine ⟨UInt8.ofNat n, ?_⟩
      rwa [UInt8.toNat_ofNat_of_lt' (Nat.lt_succ_of_le hn)]
    · rintro ⟨code, h⟩
      exact ⟨code.toNat, Nat.le_of_lt_succ code.toNat_lt, h⟩
  rw [hsome, ← Option.isSome_iff_exists, Option.not_isSome_iff_eq_none]

theorem not_looksNumeric_sign (digits : List Char) : ¬ LooksNumeric ('#' :: digits) := by
  rw [← startsNumeral_iff]
  simp [startsNumeral, Char.isDigit]

/-- **Words.** A word cannot be read if it is malformed, and is then quoted as it stands. -/
theorem ofWord_eq_error_iff {word : List Char} {e : LineError} :
    Token.ofWord word = .error e ↔ Malformed word ∧ e = .invalidNumber (String.ofList word) := by
  unfold Token.ofWord
  split
  next digits =>
    rw [map_elim_eq_error_iff, rawCode?_eq_none_iff]
    -- no numeral starts with a number sign, so the rule for numbers does not apply
    refine and_congr_left fun _ => ⟨.code, fun h => ?_⟩
    cases h with
    | number hlooks => exact absurd hlooks (not_looksNumeric_sign digits)
    | code h => exact h
  next hsign =>
    split
    next hstarts =>
      rw [map_elim_eq_error_iff, signed?_eq_none_iff]
      refine and_congr_left fun _ => ⟨.number (startsNumeral_iff.mp hstarts), fun h => ?_⟩
      cases h with
      | number _ h => exact h
      | code => exact absurd rfl (hsign _)
    next hstarts =>
      refine ⟨nofun, fun ⟨h, _⟩ => ?_⟩
      cases h with
      | number hlooks => exact absurd (startsNumeral_iff.mpr hlooks) hstarts
      | code => exact absurd rfl (hsign _)

theorem exists_ofWord_eq_ok_iff {word : List Char} :
    (∃ token, Token.ofWord word = .ok token) ↔ ¬ Malformed word := by
  cases hword : Token.ofWord word with
  | ok token =>
    have hnot : ¬ Malformed word := fun h => by
      rw [ofWord_eq_error_iff.mpr ⟨h, rfl⟩] at hword
      cases hword
    simpa using hnot
  | error e => simpa using (ofWord_eq_error_iff.mp hword).1

instance : DecidablePred Malformed := fun word =>
  decidable_of_iff (¬ (Token.ofWord word).isOk) (by
    rw [← Classical.not_not (a := Malformed word), ← exists_ofWord_eq_ok_iff]
    cases Token.ofWord word <;> simp [Except.isOk, Except.toBool])

/-! ## Lines -/

/-- The line is no comment, and these are its words, an index in front apart. -/
def HasLineWords (line : List Char) (ws : List (List Char)) : Prop :=
  ∃ cs all, IsContent line cs ∧ ¬ CommentedOut cs ∧ HasWords cs all ∧ Unindexed all ws

/-- The word is the first of the line that is malformed. -/
def FirstMalformed (line word : List Char) : Prop :=
  ∃ before after, HasLineWords line (before ++ word :: after) ∧
    (∀ earlier ∈ before, ¬ Malformed earlier) ∧ Malformed word

theorem hasLineWords_iff {line : List Char} {ws : List (List Char)} :
    HasLineWords line ws ↔ ¬ isComment (content line) ∧ skipIndex (words (content line)) = ws := by
  unfold HasLineWords
  simp only [← content_eq_iff, ← isComment_iff, ← words_eq_iff, ← skipIndex_eq_iff]
  simp

/-- A comment counts as a line without words, so what does not hold of no words can be said of the
words that are read. -/
theorem exists_hasLineWords_iff {line : List Char} {P : List (List Char) → Prop} (hnil : ¬ P []) :
    (∃ ws, HasLineWords line ws ∧ P ws) ↔ P (lineWords line) := by
  simp only [hasLineWords_iff]
  unfold lineWords
  by_cases hcomment : isComment (content line)
  · simp [hcomment, hnil]
  · simp [hcomment]

/-- **Lines.** The words of a line cannot be read if one of them is malformed, and the first of these
is quoted. -/
theorem lineTokens_eq_error_iff {line : List Char} {e : LineError} :
    lineTokens line = .error e ↔
      ∃ word, FirstMalformed line word ∧ e = .invalidNumber (String.ofList word) := by
  unfold lineTokens
  rw [← exists_hasLineWords_iff (P := fun ws => ws.mapM Token.ofWord = .error e) nofun]
  simp only [mapM_eq_error_iff, exists_ofWord_eq_ok_iff, ofWord_eq_error_iff]
  constructor
  · rintro ⟨_, hline, before, word, after, rfl, hbefore, hword, rfl⟩
    exact ⟨word, ⟨before, after, hline, hbefore, hword⟩, rfl⟩
  · rintro ⟨word, ⟨before, after, hline, hbefore, hword⟩, rfl⟩
    exact ⟨_, hline, before, word, after, rfl, hbefore, hword, rfl⟩

theorem exists_lineTokens_eq_error_iff {line : List Char} :
    (∃ e, lineTokens line = .error e) ↔
      ∃ ws, HasLineWords line ws ∧ ∃ word ∈ ws, Malformed word := by
  rw [exists_hasLineWords_iff (P := fun ws => ∃ word ∈ ws, Malformed word) (by simp)]
  unfold lineTokens
  simp only [exists_mapM_eq_error_iff, exists_ofWord_eq_ok_iff, Classical.not_not]

/-! ## Words that can be read -/

theorem narrow_ne_invalidNumber {α : Type} (width : Int → Option α) (op : Opcode) (field : Field)
    (token : Token) (quoted : String) :
    narrow width op field token ≠ .error (.invalidNumber quoted) := by
  cases token with
  | number n =>
    simp only [narrow]
    cases width n <;> simp
  | name | raw => simp [narrow]

theorem operationCode_ne_invalidNumber (token : Token) (quoted : String) :
    operationCode token ≠ .error (.invalidNumber quoted) := by
  cases token with
  | name name =>
    simp only [operationCode]
    cases Operation.ofMnemonic? name <;> simp
  | number | raw => simp [operationCode]

theorem bind_pure_ne_error {α β ε : Type} {x : Except ε α} {e : ε} (h : x ≠ .error e) (g : α → β) :
    (x >>= fun a => pure (g a)) ≠ .error e := by
  cases x with
  | error e' => exact fun heq => h (congrArg Except.error (Except.error.inj heq))
  | ok a => nofun

theorem withOperands_ne_invalidNumber (op : Opcode) (operands : List Token) (quoted : String) :
    withOperands op operands ≠ .error (.invalidNumber quoted) := by
  unfold withOperands
  split
  next =>
    rw [Ne, bind_eq_error_iff]
    rintro (h | ⟨level, -, h⟩)
    · exact narrow_ne_invalidNumber _ _ _ _ _ h
    · exact bind_pure_ne_error (narrow_ne_invalidNumber _ _ _ _ _) _ h
  next =>
    split
    · exact bind_pure_ne_error (narrow_ne_invalidNumber _ _ _ _ _) _
    · exact bind_pure_ne_error (narrow_ne_invalidNumber _ _ _ _ _) _
  next => exact bind_pure_ne_error (operationCode_ne_invalidNumber _ _) _
  next =>
    unfold countError
    split <;> nofun

/-- Words that can all be read are never reported as malformed. -/
theorem ofTokens_ne_invalidNumber (tokens : List Token) (quoted : String) :
    ofTokens tokens ≠ .error (.invalidNumber quoted) := by
  unfold ofTokens
  split
  next => nofun
  next =>
    split
    next => simp [map_eq_error_iff, withOperands_ne_invalidNumber]
    next => nofun
  next => nofun

theorem ofLine_eq_invalidNumber_iff {line : List Char} {quoted : String} :
    ofLine line = .error (.invalidNumber quoted) ↔
      ∃ word, FirstMalformed line word ∧ quoted = String.ofList word := by
  unfold ofLine
  simp only [bind_eq_error_iff, ofTokens_ne_invalidNumber, and_false, exists_false, or_false,
    lineTokens_eq_error_iff, LineError.invalidNumber.injEq]

theorem exists_ofLine_eq_ok_iff {line : List Char} :
    (∃ found, ofLine line = .ok found) ↔ BlankLine line ∨ ∃ i, LineDenotes line i := by
  simp only [Option.exists, ofLine_eq_none_iff, ofLine_eq_some_iff]

end Assembly

/-! ## Texts -/

namespace Program

open Assembly

/-- **Malformed numbers win.** A numeral is read as the number that its digits stand for, if this fits
64 bits, and nothing else is read as a number. The words of a line cannot be read if one of them is
malformed. The first malformed word is then the error of the line, whatever the line would stand for
without it, and the error of a text if every line before it is fine. -/
theorem malformed_number_wins :
    (∀ word n, Text.signed? word = some n ↔
      Text.IsNumeral word n ∧ -0x8000000000000000 ≤ n ∧ n < 0x8000000000000000) ∧
    (∀ line, (∃ e, lineTokens line = .error e) ↔
      ∃ ws, HasLineWords line ws ∧ ∃ word ∈ ws, Malformed word) ∧
    (∀ line e, lineTokens line = .error e ↔
      ∃ word, FirstMalformed line word ∧ e = .invalidNumber (String.ofList word)) ∧
    (∀ line quoted, ofLine line = .error (.invalidNumber quoted) ↔
      ∃ word, FirstMalformed line word ∧ quoted = String.ofList word) ∧
    ∀ text number quoted, assemble text = .error ⟨number, .invalidNumber quoted⟩ ↔
      ∃ before line after word, text.toList.splitOn '\n' = before ++ line :: after ∧
        (∀ earlier ∈ before, BlankLine earlier ∨ ∃ i, LineDenotes earlier i) ∧
        FirstMalformed line word ∧ number = before.length + 1 ∧ quoted = String.ofList word := by
  refine ⟨fun _ _ => Text.signed?_eq_some_iff, fun _ => exists_lineTokens_eq_error_iff,
    fun _ _ => lineTokens_eq_error_iff, fun _ _ => ofLine_eq_invalidNumber_iff,
    fun text number quoted => ?_⟩
  have hlines : Text.lines text = text.toList.splitOn '\n' := Text.pieces_eq_splitOnP _ _
  simp only [assemble_eq_error_iff, exists_ofLine_eq_ok_iff, ofLine_eq_invalidNumber_iff, hlines]
  constructor
  · rintro ⟨before, line, after, hsplit, hbefore, ⟨word, hword, hquoted⟩, hnumber⟩
    exact ⟨before, line, after, word, hsplit, hbefore, hword, hnumber, hquoted⟩
  · rintro ⟨before, line, after, word, hsplit, hbefore, hword, hnumber, hquoted⟩
    exact ⟨before, line, after, hsplit, hbefore, ⟨word, hword, hquoted⟩, hnumber⟩

/-- Words at the edge of the rule, and a text whose second line has an unknown mnemonic, a sign after
the mark of a hexadecimal and two more malformed words. -/
theorem malformed_number_wins_unknown_opcode :
    (∀ word ∈ ["0x", "-0x", "0x+5", "1-", "13:", "#", "#256", "9223372036854775808"],
      Malformed word.toList) ∧
    (∀ word ∈ ["+-5", "-", "0X00fF", "#+007", "-9223372036854775808"], ¬ Malformed word.toList) ∧
    FirstMalformed "7: frob 0x+5, 12ab #300".toList "0x+5".toList ∧
    assemble "LIT 1\n7: frob 0x+5, 12ab #300" = .error ⟨2, .invalidNumber "0x+5"⟩ := by
  have hline : ofLine "7: frob 0x+5, 12ab #300".toList = .error (.invalidNumber "0x+5") := by
    decide +kernel
  have hfirst : FirstMalformed "7: frob 0x+5, 12ab #300".toList "0x+5".toList := by
    obtain ⟨word, hword, hquoted⟩ := (malformed_number_wins.2.2.2.1 _ _).mp hline
    have hchars : "0x+5".toList = word :=
      (congrArg String.toList hquoted).trans String.toList_ofList
    rwa [hchars]
  have hbefore : LineDenotes "LIT 1".toList (.value 1 1) :=
    ofLine_eq_some_iff.mp (by decide +kernel)
  refine ⟨by decide +kernel, by decide +kernel, hfirst, ?_⟩
  refine (malformed_number_wins.2.2.2.2 _ _ _).mpr
    ⟨["LIT 1".toList], _, [], _, ?_, ?_, hfirst, rfl, String.ofList_toList.symm⟩
  · decide +kernel
  · simpa using .inr ⟨_, hbefore⟩

end Program

end PCode
