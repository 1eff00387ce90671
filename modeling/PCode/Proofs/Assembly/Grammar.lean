import Mathlib.Data.List.Forall2
import PCode.Proofs.Assembly.Lexical
import PCode.Proofs.Assembly.Reassembly
import PCode.Proofs.Text.Lines

/-!
# The grammar of assembly text

Which words denote which instruction, which lines are blank, and which program a text denotes. The
assembler computes this grammar: it accepts nothing else, and refuses nothing of it.

* `Denotes`, `BlankLine`, `LineDenotes`, `LinesDenote`: the grammar.
* `denotes_iff`: words and tokens agree on the instruction.
* `ofLine_eq_none_iff`, `ofLine_eq_some_iff`: a line.
* `assemble_iff_linesDenote`: a text.
-/

namespace PCode

namespace Assembly

open Text

/-! ## Instructions -/

/-- The word is the name, letter case apart. -/
def Spells (word : List Char) (name : String) : Prop := upper word = name.toList

/-- The words are a mnemonic and its operands, and denote the instruction. -/
inductive Denotes : List (List Char) → Instruction → Prop
  | address {op : Opcode} {name first second : List Char} {level offset : Int16} :
    op ∈ [.lod, .lda, .sto, .cal, .ret] → Spells name op.mnemonic →
    IsNumeral first level.toInt → IsNumeral second offset.toInt →
    Denotes [name, first, second] (.address op.code level offset)
  | literal {name word : List Char} {immediate : Int32} :
    Spells name Opcode.lit.mnemonic → IsNumeral word immediate.toInt →
    Denotes [name, word] (.value Opcode.lit.code immediate)
  | value {op : Opcode} {name word : List Char} {immediate : Int32} :
    op ∈ [.ict, .jmp, .jpc] → Spells name op.mnemonic → IsNumeral word immediate.toInt →
    -0x8000 ≤ immediate.toInt ∧ immediate.toInt < 0x8000 →
    Denotes [name, word] (.value op.code immediate)
  | operation {name word : List Char} {operation : Operation} :
    Spells name Opcode.opr.mnemonic → Spells word operation.mnemonic →
    Denotes [name, word] (.operation operation.code)
  | raw {name digits : List Char} {code : UInt8} :
    Spells name Opcode.opr.mnemonic → IsUnsigned digits code.toNat →
    Denotes [name, '#' :: digits] (.operation code)

theorem ofWord_iff_spells_opcode {word : List Char} {op : Opcode} :
    Token.ofWord word = .ok (.name op.mnemonic) ↔ Spells word op.mnemonic :=
  ofWord_eq_mnemonic_iff (by cases op <;> rfl)

theorem ofWord_iff_spells_operation {word : List Char} {op : Operation} :
    Token.ofWord word = .ok (.name op.mnemonic) ↔ Spells word op.mnemonic :=
  ofWord_eq_mnemonic_iff (by cases op <;> rfl)

/-- A numeral whose number fits 32 bits fits the 64 bits of a token. -/
theorem ofWord_eq_int32_iff {word : List Char} {w : Int32} :
    Token.ofWord word = .ok (.number w.toInt) ↔ IsNumeral word w.toInt := by
  have hlow := w.le_toInt
  have hhigh := w.toInt_lt
  rw [ofWord_eq_number_iff]
  exact ⟨fun h => h.1, fun h => ⟨h, by omega⟩⟩

theorem ofWord_eq_int16_iff {word : List Char} {w : Int16} :
    Token.ofWord word = .ok (.number w.toInt) ↔ IsNumeral word w.toInt := by
  rw [← Int16.toInt_toInt32, ofWord_eq_int32_iff]

/-! ## Words and tokens -/

theorem mapM_eq_ok_iff_forall₂ {α β ε : Type} {f : α → Except ε β} {items : List α} {bs : List β} :
    items.mapM f = .ok bs ↔ List.Forall₂ (fun a b => f a = .ok b) items bs := by
  induction items generalizing bs with
  | nil => simp [pure, Except.pure]
  | cons a items ih =>
    rw [mapM_cons_eq_ok_iff, List.forall₂_cons_left_iff]
    simp only [ih]

/-- Operands that an opcode accepts, in words, with the name of the opcode in front of them. -/
theorem denotes_of_withOperands {op : Opcode} {name : List Char} {ws : List (List Char)}
    {operands : List Token} {i : Instruction} (hname : Spells name op.mnemonic)
    (hws : List.Forall₂ (fun word token => Token.ofWord word = .ok token) ws operands)
    (h : withOperands op operands = .ok i) : Denotes (name :: ws) i := by
  cases hshape : op.shape with
  | address =>
    obtain ⟨level, offset, rfl, rfl⟩ := (withOperands_address_iff hshape).mp h
    have hop : op ∈ [.lod, .lda, .sto, .cal, .ret] := by
      cases op <;> first | decide | cases hshape
    cases hws with
    | cons hfirst hrest =>
      cases hrest with
      | cons hsecond hnil =>
        cases hnil
        exact .address hop hname (ofWord_eq_int16_iff.mp hfirst) (ofWord_eq_int16_iff.mp hsecond)
  | value =>
    obtain ⟨immediate, rfl, rfl, hfits⟩ := (withOperands_value_iff hshape).mp h
    cases hws with
    | cons hword hnil =>
      cases hnil
      rw [ofWord_eq_int32_iff] at hword
      by_cases hlit : op = .lit
      · subst hlit
        exact .literal hname hword
      · have hop : op ∈ [.ict, .jmp, .jpc] := by
          cases op <;> first | exact absurd rfl hlit | decide | cases hshape
        rw [Instruction.fits_value_iff hshape, int16?_isSome_iff] at hfits
        exact .value hop hname hword (hfits hlit)
  | operation =>
    obtain rfl := Opcode.eq_opr_of_operation hshape
    obtain ⟨token, code, rfl, hcode, rfl⟩ := withOperands_operation_iff.mp h
    cases hws with
    | cons hword hnil =>
      cases hnil
      rcases operationCode_eq_ok_iff.mp hcode with rfl | ⟨operation, rfl, rfl⟩
      · obtain ⟨digits, rfl, hdigits⟩ := ofWord_eq_raw_iff.mp hword
        exact .raw hname hdigits
      · exact .operation hname (ofWord_iff_spells_operation.mp hword)

/-- The words of an instruction are a name and operands that its opcode accepts. -/
theorem exists_operands_of_denotes {ws : List (List Char)} {i : Instruction} (h : Denotes ws i) :
    ∃ (op : Opcode) (operands : List Token),
      List.Forall₂ (fun word token => Token.ofWord word = .ok token) ws
        (.name op.mnemonic :: operands) ∧ withOperands op operands = .ok i := by
  cases h with
  | @address op name first second level offset hop hname hfirst hsecond =>
    have hshape : op.shape = .address := by
      revert hop
      cases op <;> decide
    refine ⟨op, _, .cons (ofWord_iff_spells_opcode.mpr hname)
      (.cons (ofWord_eq_int16_iff.mpr hfirst) (.cons (ofWord_eq_int16_iff.mpr hsecond) .nil)), ?_⟩
    exact (withOperands_address_iff hshape).mpr ⟨level, offset, rfl, rfl⟩
  | @literal name word immediate hname hword =>
    refine ⟨.lit, _, .cons (ofWord_iff_spells_opcode.mpr hname)
      (.cons (ofWord_eq_int32_iff.mpr hword) .nil), ?_⟩
    have hfits : (Instruction.value Opcode.lit.code immediate).Fits :=
      (Instruction.fits_value_iff rfl).mpr fun hlit => absurd rfl hlit
    exact (withOperands_value_iff rfl).mpr ⟨immediate, rfl, rfl, hfits⟩
  | @value op name word immediate hop hname hword hrange =>
    have hshape : op.shape = .value := by
      revert hop
      cases op <;> decide
    refine ⟨op, _, .cons (ofWord_iff_spells_opcode.mpr hname)
      (.cons (ofWord_eq_int32_iff.mpr hword) .nil), ?_⟩
    have hfits := (Instruction.fits_value_iff hshape).mpr fun _ => (int16?_isSome_iff _).mpr hrange
    exact (withOperands_value_iff hshape).mpr ⟨immediate, rfl, rfl, hfits⟩
  | @operation name word operation hname hword =>
    refine ⟨.opr, _, .cons (ofWord_iff_spells_opcode.mpr hname)
      (.cons (ofWord_iff_spells_operation.mpr hword) .nil), ?_⟩
    have hcode := operationCode_eq_ok_iff.mpr (.inr ⟨operation, rfl, rfl⟩)
    exact withOperands_operation_iff.mpr ⟨_, _, rfl, hcode, rfl⟩
  | @raw name digits code hname hdigits =>
    refine ⟨.opr, _, .cons (ofWord_iff_spells_opcode.mpr hname)
      (.cons (ofWord_eq_raw_iff.mpr ⟨digits, rfl, hdigits⟩) .nil), ?_⟩
    have hcode := operationCode_eq_ok_iff.mpr (.inl (Eq.refl (Token.raw code)))
    exact withOperands_operation_iff.mpr ⟨_, _, rfl, hcode, rfl⟩

/-- **Words and tokens.** Words denote an instruction if they stand for tokens that do. -/
theorem denotes_iff {ws : List (List Char)} {i : Instruction} :
    Denotes ws i ↔
      ∃ tokens, ws.mapM Token.ofWord = .ok tokens ∧ ofTokens tokens = .ok (some i) := by
  simp only [ofTokens_eq_some_iff, mapM_eq_ok_iff_forall₂]
  constructor
  · intro h
    obtain ⟨op, operands, hws, hi⟩ := exists_operands_of_denotes h
    exact ⟨_, hws, op, operands, rfl, hi⟩
  · rintro ⟨_, hws, op, operands, rfl, hi⟩
    cases hws with
    | cons hname hws => exact denotes_of_withOperands (ofWord_iff_spells_opcode.mp hname) hws hi

/-! ## Lines -/

/-- The line has no words but an index, or is a comment. -/
def BlankLine (line : List Char) : Prop :=
  ∃ cs, IsContent line cs ∧ (CommentedOut cs ∨ ∃ ws, HasWords cs ws ∧ Unindexed ws [])

/-- The line is no comment, and its words denote the instruction, an index in front apart. -/
def LineDenotes (line : List Char) (i : Instruction) : Prop :=
  ∃ cs ws rest, IsContent line cs ∧ ¬ CommentedOut cs ∧ HasWords cs ws ∧ Unindexed ws rest ∧
    Denotes rest i

theorem lineWords_eq_nil_iff {line : List Char} : lineWords line = [] ↔ BlankLine line := by
  unfold lineWords BlankLine
  simp only [← content_eq_iff, ← isComment_iff, ← words_eq_iff, ← skipIndex_eq_iff, exists_eq_left']
  by_cases hcomment : isComment (content line)
  · simp [hcomment]
  · simp [hcomment]

theorem ofLine_eq_ok_iff {line : List Char} {found : Option Instruction} :
    ofLine line = .ok found ↔
      ∃ tokens, (lineWords line).mapM Token.ofWord = .ok tokens ∧ ofTokens tokens = .ok found :=
  bind_eq_ok_iff

theorem ofLine_eq_none_iff {line : List Char} : ofLine line = .ok none ↔ BlankLine line := by
  rw [ofLine_eq_ok_iff, ← lineWords_eq_nil_iff]
  simp only [ofTokens_eq_none_iff, exists_eq_right, mapM_eq_ok_iff_forall₂,
    List.forall₂_nil_right_iff]

theorem not_denotes_nil (i : Instruction) : ¬ Denotes [] i := nofun

theorem ofLine_eq_some_iff {line : List Char} {i : Instruction} :
    ofLine line = .ok (some i) ↔ LineDenotes line i := by
  rw [ofLine_eq_ok_iff, ← denotes_iff]
  unfold lineWords LineDenotes
  simp only [← content_eq_iff, ← isComment_iff, ← words_eq_iff, ← skipIndex_eq_iff,
    exists_and_left, exists_eq_left']
  by_cases hcomment : isComment (content line)
  · simp [hcomment, not_denotes_nil]
  · simp [hcomment]

/-! ## Texts -/

/-- Every line is blank or denotes an instruction, and these are the instructions, in order. -/
inductive LinesDenote : List (List Char) → List Instruction → Prop
  | nil : LinesDenote [] []
  | blank {line : List Char} {lines : List (List Char)} {l : List Instruction} :
    BlankLine line → LinesDenote lines l → LinesDenote (line :: lines) l
  | instruction {line : List Char} {i : Instruction} {lines : List (List Char)}
      {l : List Instruction} :
    LineDenotes line i → LinesDenote lines l → LinesDenote (line :: lines) (i :: l)

theorem linesDenote_iff {lines : List (List Char)} {l : List Instruction} :
    LinesDenote lines l ↔ ∃ found, lines.mapM ofLine = .ok found ∧ l = found.reduceOption := by
  constructor
  · intro h
    induction h with
    | nil => exact ⟨[], rfl, rfl⟩
    | blank hline _ ih =>
      obtain ⟨found, hfound, rfl⟩ := ih
      exact ⟨none :: found,
        mapM_cons_eq_ok_iff.mpr ⟨_, _, ofLine_eq_none_iff.mpr hline, hfound, rfl⟩, rfl⟩
    | instruction hline _ ih =>
      obtain ⟨found, hfound, rfl⟩ := ih
      exact ⟨some _ :: found,
        mapM_cons_eq_ok_iff.mpr ⟨_, _, ofLine_eq_some_iff.mpr hline, hfound, rfl⟩, rfl⟩
  · rintro ⟨found, hfound, rfl⟩
    induction lines generalizing found with
    | nil =>
      obtain rfl := pure_eq_ok_iff.mp hfound
      exact .nil
    | cons line lines ih =>
      obtain ⟨first, rest, hfirst, hrest, rfl⟩ := mapM_cons_eq_ok_iff.mp hfound
      cases first with
      | none => exact .blank (ofLine_eq_none_iff.mp hfirst) (ih rest hrest)
      | some i => exact .instruction (ofLine_eq_some_iff.mp hfirst) (ih rest hrest)

end Assembly

namespace Program

open Assembly

/-- **The assembler accepts exactly its grammar.** A text is assembled to a program if and only if
each of its lines, cut at the line feeds, is blank or denotes an instruction, and the program is
made of these instructions in order. -/
theorem assemble_iff_linesDenote (text : String) (p : Program) :
    assemble text = .ok p ↔ LinesDenote (text.toList.splitOn '\n') p.toList := by
  have hlines : Text.lines text = text.toList.splitOn '\n' := Text.pieces_eq_splitOnP _ _
  rw [assemble_eq_gather, gather, map_eq_ok_iff, linesDenote_iff, ← hlines]
  simp only [numbered_eq_ok_iff]
  constructor
  · rintro ⟨found, hfound, rfl⟩
    exact ⟨found, hfound, rfl⟩
  · rintro ⟨found, hfound, hp⟩
    exact ⟨found, hfound, congrArg ofList hp⟩

end Program

end PCode
