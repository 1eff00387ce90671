import PCode.Listing
import PCode.Proofs.Assembly.Operands
import PCode.Proofs.Assembly.Words

/-!
# Reading the text of an instruction

The text of an instruction is a line of assembly text. Its words are the instruction's name and its
operands, and each of them is read as the token that it was written from.

* `ofLine_text`: a line with the text alone. A code without a name makes the line a comment.
* `ofLine_listingText`: a line of a listing. The position in front is skipped, and a code without a
  name is a token that no line may start with.
* `ofTokens_tokens_eq_ok_iff`: the tokens stand for the instruction itself if it is representable
  and for none otherwise.
-/

namespace PCode

namespace Assembly

open Text

/-! ## Tokens -/

theorem ofWord_toString_int {n : Int} (h : -0x8000000000000000 ≤ n ∧ n < 0x8000000000000000) :
    Token.ofWord (toString n).toList = .ok (.number n) := by
  have hstarts := startsNumeral_toString n
  have hsigned := signed?_toString h
  generalize (toString n).toList = word at hstarts hsigned
  unfold Token.ofWord
  split
  · exact absurd hstarts (by simp [startsNumeral, Char.isDigit])
  · rw [if_pos hstarts, hsigned]
    rfl

theorem ofWord_int16 (w : Int16) :
    Token.ofWord (toString w.toInt).toList = .ok (.number w.toInt) := by
  have hlow := w.le_toInt
  have hhigh := w.toInt_lt
  exact ofWord_toString_int (by omega)

theorem ofWord_int32 (w : Int32) :
    Token.ofWord (toString w.toInt).toList = .ok (.number w.toInt) := by
  have hlow := w.le_toInt
  have hhigh := w.toInt_lt
  exact ofWord_toString_int (by omega)

theorem toList_rawCode (code : UInt8) :
    (Instruction.rawCode code).toList = '#' :: Nat.toDigits 10 code.toNat := by
  rw [Instruction.rawCode, String.toList_append, toList_toString_nat]
  rfl

theorem ofWord_rawCode (code : UInt8) :
    Token.ofWord (Instruction.rawCode code).toList = .ok (.raw code) := by
  have hlt : code.toNat < 256 := code.toNat_lt
  have hcode : Token.rawCode? (Nat.toDigits 10 code.toNat) = some code := by
    rw [Token.rawCode?, unsigned?_toDigits, Option.filter_some, if_pos (decide_eq_true hlt),
      Option.map_some, UInt8.ofNat_toNat]
  rw [toList_rawCode, Token.ofWord, hcode]
  rfl

theorem ofWord_opcode (op : Opcode) :
    Token.ofWord op.mnemonic.toList = .ok (.name op.mnemonic) := by
  cases op <;> rfl

theorem ofWord_operation (op : Operation) :
    Token.ofWord op.mnemonic.toList = .ok (.name op.mnemonic) := by
  cases op <;> rfl

end Assembly

namespace Instruction

open Assembly

/-- The token of the instruction's name. -/
def nameToken (i : Instruction) : Token :=
  match i.opcode? with
  | some op => .name op.mnemonic
  | none => .raw i.code

/-- The token of the name of an operation. -/
def operationToken (op : UInt8) : Token :=
  match Operation.ofCode? op with
  | some named => .name named.mnemonic
  | none => .raw op

/-- The tokens of the instruction's operands. -/
def operandTokens : Instruction → List Token
  | address _ level offset => [.number level.toInt, .number offset.toInt]
  | value _ immediate => [.number immediate.toInt]
  | operation op => [operationToken op]

/-- The tokens that the instruction's text is written from. -/
def tokens (i : Instruction) : List Token := i.nameToken :: i.operandTokens

/-- The words of the instruction's text. -/
def words (i : Instruction) : List (List Char) := (i.name :: i.operandWords).map String.toList

theorem toList_text (i : Instruction) : i.text.toList = [' '].intercalate i.words := by
  rw [text, String.toList_intercalate]
  rfl

theorem name_of_none {i : Instruction} (h : i.opcode? = none) : i.name = rawCode i.code := by
  simp only [name, h]

theorem name_of_some {i : Instruction} {op : Opcode} (h : i.opcode? = some op) :
    i.name = op.mnemonic := by
  simp only [name, h]

theorem isWord_rawCode (code : UInt8) : IsWord (rawCode code).toList := by
  rw [toList_rawCode]
  exact (isWord_toDigits _).cons (by decide)

theorem isWord_name (i : Instruction) : IsWord i.name.toList := by
  cases hop : i.opcode? with
  | none =>
    rw [name_of_none hop]
    exact isWord_rawCode i.code
  | some op =>
    rw [name_of_some hop]
    exact isWord_of_isUpper (by cases op <;> nofun) (by cases op <;> rfl)

theorem isWord_operationName (op : UInt8) : IsWord (operationName op).toList := by
  unfold operationName
  split
  next named _ => exact isWord_of_isUpper (by cases named <;> nofun) (by cases named <;> rfl)
  next => exact isWord_rawCode op

theorem isWord_of_mem_words (i : Instruction) : ∀ w ∈ i.words, IsWord w := by
  cases i with
  | address | value | operation =>
    simp only [words, operandWords, List.map_cons, List.map_nil, List.forall_mem_cons,
      isWord_name, isWord_toString_int, isWord_operationName, true_and]
    nofun

theorem ofWord_name (i : Instruction) : Token.ofWord i.name.toList = .ok i.nameToken := by
  unfold name nameToken
  cases i.opcode? with
  | some op => exact ofWord_opcode op
  | none => exact ofWord_rawCode i.code

theorem ofWord_operationName (op : UInt8) :
    Token.ofWord (operationName op).toList = .ok (operationToken op) := by
  unfold operationName operationToken
  cases Operation.ofCode? op with
  | some named => exact ofWord_operation named
  | none => exact ofWord_rawCode op

theorem mapM_ofWord_words (i : Instruction) : i.words.mapM Token.ofWord = .ok i.tokens := by
  cases i with
  | address | value | operation =>
    simp only [words, operandWords, List.map_cons, List.map_nil, List.mapM_cons, List.mapM_nil,
      ofWord_name, ofWord_int16, ofWord_int32, ofWord_operationName]
    rfl

/-! ## Lines -/

theorem words_eq_cons (i : Instruction) :
    i.words = i.name.toList :: i.operandWords.map String.toList := rfl

/-- A code without a name makes the text start with a number sign; no mnemonic does. -/
theorem head?_name_eq_iff (i : Instruction) :
    i.name.toList.head? = some '#' ↔ i.opcode? = none := by
  cases hop : i.opcode? with
  | none =>
    rw [name_of_none hop, toList_rawCode]
    simp
  | some op =>
    have hhead : op.mnemonic.toList.head? ≠ some '#' := by cases op <;> decide
    rw [name_of_some hop]
    simp [hhead]

theorem isComment_text (i : Instruction) :
    isComment (content i.text.toList) ↔ i.opcode? = none := by
  have hcontent := content_intercalate 0 i.isWord_of_mem_words
  rw [List.replicate_zero, List.nil_append] at hcontent
  rw [toList_text, hcontent, words_eq_cons, isComment_intercalate i.isWord_name, beq_iff_eq,
    head?_name_eq_iff]

theorem lineWords_text (i : Instruction) :
    lineWords i.text.toList = if i.opcode?.isSome then i.words else [] := by
  have h := lineWords_intercalate 0 i.isWord_of_mem_words
  rw [List.replicate_zero, List.nil_append, ← words_eq_cons, ← toList_text] at h
  simp only [h, head?_name_eq_iff]
  cases hop : i.opcode? with
  | none => rfl
  | some op =>
    have hindex : isIndex i.name.toList = false := by
      rw [name_of_some hop]
      cases op <;> decide
    simp [words_eq_cons, skipIndex, hindex]

/-- A line of a listing without its end. -/
def listingText (width position : Nat) (i : Instruction) : String :=
  alignRight width (toString position) ++ ": " ++ i.text

theorem toList_listingText (width position : Nat) (i : Instruction) :
    ∃ n, (i.listingText width position).toList = List.replicate n ' ' ++
      [' '].intercalate ((Nat.toDigits 10 position ++ [':']) :: i.words) := by
  refine ⟨width - (toString position).length, ?_⟩
  rw [words_eq_cons, List.intercalate_cons_cons, ← words_eq_cons, ← toList_text]
  simp [listingText, alignRight]

theorem isWord_index (n : Nat) : IsWord (Nat.toDigits 10 n ++ [':']) := by
  refine ⟨by simp, fun c hc => ?_⟩
  rcases List.mem_append.mp hc with hc | hc
  · exact (isWord_toDigits n).2 c hc
  · rw [List.mem_singleton.mp hc]
    decide

theorem isIndex_toDigits (n : Nat) : isIndex (Nat.toDigits 10 n ++ [':']) := by
  have hdigits : (Nat.toDigits 10 n).all Char.isDigit :=
    List.all_eq_true.mpr fun _ => Text.isDigit_of_mem_toDigits
  simp [isIndex, hdigits, Nat.toDigits_ne_nil]

theorem lineWords_listingText (width position : Nat) (i : Instruction) :
    lineWords (i.listingText width position).toList = i.words := by
  obtain ⟨n, hn⟩ := i.toList_listingText width position
  obtain ⟨c, cs, hcs, hc⟩ := Text.toDigits_eq_cons position
  have hhead : (Nat.toDigits 10 position ++ [':']).head? ≠ some '#' := by
    rw [hcs, List.cons_append, List.head?_cons]
    rintro ⟨⟩
    exact absurd hc (by decide)
  rw [hn, lineWords_intercalate n
    (List.forall_mem_cons.mpr ⟨isWord_index position, i.isWord_of_mem_words⟩),
    if_neg hhead, skipIndex, if_pos (isIndex_toDigits position)]

/-- A line with the text of an instruction stands for the instruction's tokens; it is a comment if
the code has no name. -/
theorem ofLine_text (i : Instruction) :
    ofLine i.text.toList = if i.opcode?.isSome then ofTokens i.tokens else .ok none := by
  rw [ofLine, lineTokens, lineWords_text]
  split
  · rw [mapM_ofWord_words]
    rfl
  · rfl

/-- A line of a listing stands for the instruction's tokens. -/
theorem ofLine_listingText (width position : Nat) (i : Instruction) :
    ofLine (i.listingText width position).toList = ofTokens i.tokens := by
  rw [ofLine, lineTokens, lineWords_listingText, mapM_ofWord_words]
  rfl

/-! ## Meaning -/

theorem operationCode_operationToken (op : UInt8) : operationCode (operationToken op) = .ok op := by
  rw [operationCode_eq_ok_iff]
  unfold operationToken
  cases h : Operation.ofCode? op with
  | none => exact .inl rfl
  | some named => exact .inr ⟨named, rfl, Operation.ofCode?_eq_some_iff.mp h⟩

/-- An opcode accepts the operands of an instruction with its code if it has the shape of the
instruction, and if they fit. -/
theorem withOperands_eq_ok_iff {i j : Instruction} {op : Opcode} (hop : i.opcode? = some op) :
    withOperands op i.operandTokens = .ok j ↔ j = i ∧ i.Representable := by
  rw [representable_iff hop]
  have hcode : op.code = i.code := Opcode.ofCode?_eq_some_iff.mp hop
  -- operands of another shape differ from those of the opcode in their number or in their kind
  cases i with
  | address code level offset =>
    obtain rfl : op.code = code := hcode
    cases hshape : op.shape with
    | address =>
      simp [withOperands_address_iff hshape, operandTokens, shape, Fits, Int16.toInt_inj, and_assoc]
    | value => simp [withOperands_value_iff hshape, operandTokens, shape]
    | operation =>
      obtain rfl := Opcode.eq_opr_of_operation hshape
      simp [withOperands_operation_iff, operandTokens, shape]
  | value code immediate =>
    obtain rfl : op.code = code := hcode
    cases hshape : op.shape with
    | address => simp [withOperands_address_iff hshape, operandTokens, shape]
    | value => simp [withOperands_value_iff hshape, operandTokens, shape, Int32.toInt_inj]
    | operation =>
      obtain rfl := Opcode.eq_opr_of_operation hshape
      simp [withOperands_operation_iff, operandTokens, shape, operationCode_eq_ok_iff]
  | operation selected =>
    obtain rfl : op = .opr := (Option.some.inj hop).symm
    simp [withOperands_operation_iff, operandTokens, operationCode_operationToken, Opcode.shape,
      shape, Fits]

/-- **Tokens.** The tokens of an instruction stand for the instruction if it is representable, and
for no instruction otherwise. -/
theorem ofTokens_tokens_eq_ok_iff {i : Instruction} {found : Option Instruction} :
    ofTokens i.tokens = .ok found ↔ found = some i ∧ i.Representable := by
  unfold tokens nameToken
  cases hop : i.opcode? with
  | none =>
    have hnot : ¬ i.Representable := fun ⟨⟨op, h, _⟩, _⟩ => by simp [hop] at h
    simp [ofTokens, hnot]
  | some op =>
    simp only [ofTokens, Opcode.ofMnemonic?_mnemonic, map_eq_ok_iff, withOperands_eq_ok_iff hop]
    constructor
    · rintro ⟨j, ⟨rfl, hj⟩, rfl⟩
      exact ⟨rfl, hj⟩
    · rintro ⟨rfl, hi⟩
      exact ⟨i, ⟨rfl, hi⟩, rfl⟩

end Instruction

end PCode
