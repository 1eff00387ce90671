import Mathlib.Data.List.ReduceOption
import PCode.Proofs.Assembly.Reassembly

/-!
# What the assembler accepts

Whatever the words of a line are, the instruction that they denote has a record: its opcode is one
of the ten, its operands are those of the opcode, and their widths are the ones of the record. So
the assembler makes just the programs that have an encoding.

* `Assembly.representable_of_ofTokens`: the instruction of a line is representable.
* `exists_assemble_iff`: a program comes from a text just if its instructions are representable.
-/

namespace PCode

open Assembly

/-! ## Lines -/

namespace Assembly

theorem representable_of_withOperands {op : Opcode} {operands : List Token} {i : Instruction}
    (h : withOperands op operands = .ok i) : i.Representable := by
  cases hshape : op.shape with
  | address =>
    obtain ⟨level, offset, -, rfl⟩ := (withOperands_address_iff hshape).mp h
    exact ⟨⟨op, Opcode.ofCode?_code op, hshape⟩, trivial⟩
  | value =>
    obtain ⟨immediate, -, rfl, hfits⟩ := (withOperands_value_iff hshape).mp h
    exact ⟨⟨op, Opcode.ofCode?_code op, hshape⟩, hfits⟩
  | operation =>
    obtain rfl := Opcode.eq_opr_of_operation hshape
    obtain ⟨token, code, -, -, rfl⟩ := withOperands_operation_iff.mp h
    exact ⟨⟨.opr, rfl, rfl⟩, trivial⟩

/-- **Lines.** The instruction that the tokens of a line stand for is representable. -/
theorem representable_of_ofTokens {tokens : List Token} {i : Instruction}
    (h : ofTokens tokens = .ok (some i)) : i.Representable := by
  obtain ⟨op, operands, -, hi⟩ := ofTokens_eq_some_iff.mp h
  exact representable_of_withOperands hi

theorem representable_of_ofLine {line : List Char} {i : Instruction}
    (h : ofLine line = .ok (some i)) : i.Representable := by
  obtain ⟨tokens, -, htokens⟩ := bind_eq_ok_iff.mp h
  exact representable_of_ofTokens htokens

end Assembly

/-! ## Texts -/

namespace Program

theorem forall_mem_of_gather {α : Type} {f : α → Except LineError (Option Instruction)}
    {items : List α} {P : Instruction → Prop} {p : Program} (hf : ∀ a i, f a = .ok (some i) → P i)
    (h : gather f items = .ok p) : ∀ i ∈ p.toList, P i := by
  obtain ⟨found, hfound, rfl⟩ := map_eq_ok_iff.mp h
  intro i hi
  have hmem : some i ∈ found := List.reduceOption_mem_iff.mp hi
  obtain ⟨a, -, ha⟩ := exists_of_mem_mapM (numbered_eq_ok_iff.mp hfound) hmem
  exact hf a i ha

theorem representable_of_assemble {text : String} {p : Program} (h : assemble text = .ok p) :
    ∀ i ∈ p.toList, i.Representable := by
  rw [assemble_eq_gather] at h
  exact forall_mem_of_gather (fun _ _ => representable_of_ofLine) h

theorem assemble_disassemble_of_representable {p : Program}
    (h : ∀ i ∈ p.toList, i.Representable) : assemble p.disassemble = .ok p := by
  rw [assemble_disassemble_eq, gather_eq_ok_iff fun _ _ => Instruction.reading_eq_ok_iff,
    List.filterMap_eq_filter]
  exact ⟨(known_eq_self h).symm, fun i hi _ => h i hi⟩

/-- **Texts.** The programs that the assembler makes are those of representable instructions. -/
theorem exists_assemble_iff {p : Program} :
    (∃ text, assemble text = .ok p) ↔ ∀ i ∈ p.toList, i.Representable := by
  constructor
  · rintro ⟨text, h⟩
    exact representable_of_assemble h
  · intro h
    exact ⟨p.disassemble, assemble_disassemble_of_representable h⟩

end Program

end PCode
