import PCode.Proofs.Assembly.Reassembly

/-!
# The text of a program identifies it

Every instruction has a text, also one that no bytes and no assembly text stand for. Its words can be
told from the text, its tokens from the words, and the instruction from the tokens: the first token
tells the code, and the number and the kind of the others tell the shape. Assembling cannot be used
for this, since it refuses such instructions or takes them for comments.

* `Instruction.tokens_injective`, `Instruction.words_injective`: one instruction.
* `map_words_lines_disassemble`, `map_lineWords_lines_listing`: the words of each line of the two
  texts.
* `text_identifies_program`: programs with the same text are the same.
-/

namespace PCode

open Assembly

theorem Opcode.mnemonic_injective : Function.Injective mnemonic := by
  intro op op' h
  apply Option.some.inj
  rw [← ofMnemonic?_mnemonic op, h, ofMnemonic?_mnemonic]

namespace Instruction

/-! ## Tokens -/

theorem nameToken_cases (i : Instruction) :
    i.nameToken = .raw i.code ∨
      ∃ op : Opcode, i.nameToken = .name op.mnemonic ∧ op.code = i.code := by
  unfold nameToken
  cases hop : i.opcode? with
  | none => exact .inl rfl
  | some op => exact .inr ⟨op, rfl, Opcode.ofCode?_eq_some_iff.mp hop⟩

/-- The first token tells the code, whatever the shape of the instruction. -/
theorem code_eq_of_nameToken_eq {i j : Instruction} (h : i.nameToken = j.nameToken) :
    i.code = j.code := by
  rcases i.nameToken_cases with hi | ⟨op, hi, hop⟩
  · rcases j.nameToken_cases with hj | ⟨op', hj, -⟩
    · rw [hi, hj] at h
      exact Token.raw.inj h
    · rw [hi, hj] at h
      cases h
  · rcases j.nameToken_cases with hj | ⟨op', hj, hop'⟩
    · rw [hi, hj] at h
      cases h
    · rw [hi, hj] at h
      rw [← hop, ← hop', Opcode.mnemonic_injective (Token.name.inj h)]

theorem operationToken_injective : Function.Injective operationToken := by
  intro op op' h
  have hcode := operationCode_operationToken op
  rw [h, operationCode_operationToken] at hcode
  exact (Except.ok.inj hcode).symm

theorem operationToken_ne_number (op : UInt8) (n : Int) : operationToken op ≠ .number n := by
  unfold operationToken
  split <;> nofun

/-- **Instructions.** The tokens of an instruction tell it from all others. An address has two
numbers after the code and a value has one; an operation has one token, and it is no number. -/
theorem tokens_injective : Function.Injective tokens := by
  intro i j h
  obtain ⟨hname, hoperands⟩ := List.cons.inj h
  have hcode := code_eq_of_nameToken_eq hname
  -- the codes agree also across shapes, so only the operands tell the shape
  cases i with
  | address code level offset =>
    cases j with
    | address code' level' offset' =>
      obtain rfl : code = code' := hcode
      simpa [operandTokens, Int16.toInt_inj] using hoperands
    | value | operation => simp [operandTokens] at hoperands
  | value code immediate =>
    cases j with
    | value code' immediate' =>
      obtain rfl : code = code' := hcode
      simpa [operandTokens, Int32.toInt_inj] using hoperands
    | address => simp [operandTokens] at hoperands
    | operation op => exact absurd (List.cons.inj hoperands).1.symm (operationToken_ne_number op _)
  | operation op =>
    cases j with
    | operation op' => rw [operationToken_injective (List.cons.inj hoperands).1]
    | address => simp [operandTokens] at hoperands
    | value => exact absurd (List.cons.inj hoperands).1 (operationToken_ne_number op _)

/-! ## Words -/

theorem words_injective : Function.Injective words := by
  intro i j h
  have htokens := mapM_ofWord_words i
  rw [h, mapM_ofWord_words] at htokens
  exact tokens_injective (Except.ok.inj htokens).symm

theorem words_toList_text (i : Instruction) : Assembly.words i.text.toList = i.words := by
  rw [toList_text, words_intercalate i.isWord_of_mem_words]

end Instruction

/-! ## Lines -/

theorem Text.map_lines_join {α β : Type} (read : List Char → β) {text : α → String}
    (h : ∀ a, '\n' ∉ (text a).toList) (items : List α) :
    (lines (String.join (items.map fun a => text a ++ "\n"))).map read =
      items.map (fun a => read (text a).toList) ++ [read []] := by
  have hlines := lines_join (items.map text) (List.forall_mem_map.mpr fun a _ => h a)
  rw [List.map_map, List.map_map] at hlines
  have hread := congrArg (List.map read) hlines
  rw [List.map_append, List.map_map] at hread
  exact hread

namespace Program

theorem map_words_lines_disassemble (p : Program) :
    (Text.lines p.disassemble).map Assembly.words = p.toList.map Instruction.words ++ [[]] := by
  rw [disassemble, Text.map_lines_join _ Instruction.newline_not_mem_text]
  simp only [Instruction.words_toList_text]
  rfl

/-- The position in front of an instruction is an index, and so left out of the words. -/
theorem map_lineWords_lines_listing (p : Program) :
    (Text.lines p.listing).map lineWords = p.toList.map Instruction.words ++ [[]] := by
  have hlines := Text.map_lines_join lineWords
    (fun a : Instruction × Nat => a.1.newline_not_mem_listingText p.positionWidth a.2)
    p.toList.zipIdx
  simp only [Instruction.lineWords_listingText] at hlines
  have hfst : (p.toList.zipIdx.map Prod.fst).map Instruction.words =
      p.toList.zipIdx.map fun a => a.1.words := List.map_map
  rw [← hfst, List.zipIdx_map_fst] at hlines
  exact hlines

/-! ## Programs -/

theorem eq_of_map_words_eq {p q : Program}
    (h : p.toList.map Instruction.words ++ [[]] = q.toList.map Instruction.words ++ [[]]) :
    p = q := by
  have hlist : p.toList = q.toList :=
    (List.map_inj_right fun _ _ hij => Instruction.words_injective hij).mp
      (List.append_cancel_right h)
  rw [← ofList_toList p, hlist, ofList_toList]

/-- **The text of a program identifies it.** Two programs with the same plain text are the same, and
so are two programs with the same listing, whatever codes and operands they hold. -/
theorem text_identifies_program :
    Function.Injective disassemble ∧ Function.Injective listing := by
  refine ⟨fun p q h => ?_, fun p q h => ?_⟩
  · apply eq_of_map_words_eq
    rw [← map_words_lines_disassemble, h, map_words_lines_disassemble]
  · apply eq_of_map_words_eq
    rw [← map_lineWords_lines_listing, h, map_lineWords_lines_listing]

/-- Four instructions with the code of `OPR` and a three in their operands, and an instruction whose
code has no name. -/
theorem text_identifies_program_opr :
    let programs := [Instruction.value 2 3, .operation 3, .operation 33, .address 2 3 0,
      .value 33 3].map fun i => ofList [i]
    programs.Pairwise fun p q => p.disassemble ≠ q.disassemble ∧ p.listing ≠ q.listing := by
  intro programs
  have hne : programs.Pairwise (· ≠ ·) := by decide
  exact hne.imp fun h =>
    ⟨fun htext => h (text_identifies_program.1 htext),
      fun htext => h (text_identifies_program.2 htext)⟩

end Program

end PCode
