import PCode.Assembly.Source
import PCode.Proofs.Assembly.Line
import PCode.Proofs.Wire.Binary

/-!
# Reassembly

What assembling makes of the text of a program, plain or as a listing. Every line of the text comes
from one instruction, so assembling is a numbered traversal (`gather`) of the program itself.

* `assemble_disassemble_eq`, `assemble_listing_eq`: the traversal for each of the two texts.
* `assemble_disassemble_iff`: the plain text denotes the instructions with a known code.
* `assemble_listing_iff`: a listing is assembled just if the program can be written as bytes.
-/

namespace PCode

open Assembly

/-! ## Lines of a text -/

theorem Text.lines_join (ts : List String) (h : ∀ t ∈ ts, '\n' ∉ t.toList) :
    lines (String.join (ts.map (· ++ "\n"))) = ts.map String.toList ++ [[]] := by
  induction ts with
  | nil => rfl
  | cons t ts ih =>
    obtain ⟨ht, hts⟩ := List.forall_mem_cons.mp h
    have hline : pieces (· == '\n') t.toList = [t.toList] := by
      apply pieces_of_forall
      intro c hc
      have hne : c ≠ '\n' := fun heq => ht (heq ▸ hc)
      simpa using hne
    have hrest := ih hts
    unfold lines at hrest ⊢
    rw [List.map_cons, String.join_cons, String.toList_append, String.toList_append,
      List.append_assoc]
    show pieces (· == '\n') (t.toList ++ '\n' :: (String.join (ts.map (· ++ "\n"))).toList) = _
    rw [pieces_append (by decide), hline, hrest]
    rfl

theorem newline_not_mem_intercalate {ws : List (List Char)} (h : ∀ w ∈ ws, IsWord w) :
    '\n' ∉ [' '].intercalate ws := by
  intro hmem
  rcases plain_or_space_of_mem h hmem with heq | hplain
  · exact absurd heq (by decide)
  · exact hplain.ne_newline rfl

namespace Instruction

theorem newline_not_mem_text (i : Instruction) : '\n' ∉ i.text.toList := by
  rw [toList_text]
  exact newline_not_mem_intercalate i.isWord_of_mem_words

theorem newline_not_mem_listingText (width position : Nat) (i : Instruction) :
    '\n' ∉ (i.listingText width position).toList := by
  obtain ⟨n, hn⟩ := i.toList_listingText width position
  rw [hn, List.mem_append, not_or]
  refine ⟨fun hmem => absurd (List.eq_of_mem_replicate hmem) (by decide), ?_⟩
  exact newline_not_mem_intercalate
    (List.forall_mem_cons.mpr ⟨isWord_index position, i.isWord_of_mem_words⟩)

/-- What a line with the text of the instruction denotes. -/
def reading (i : Instruction) : Except LineError (Option Instruction) :=
  if i.opcode?.isSome then ofTokens i.tokens else .ok none

theorem reading_eq_ok_iff {i : Instruction} {found : Option Instruction} :
    i.reading = .ok found ↔
      found = Option.guard (·.opcode?.isSome) i ∧ (i.opcode?.isSome → i.Representable) := by
  unfold reading
  by_cases hknown : i.opcode?.isSome
  · simp [hknown, ofTokens_tokens_eq_ok_iff]
  · simp [hknown, Option.guard, eq_comm]

end Instruction

namespace Program

/-! ## Assembling as a traversal of the program -/

section Gather

variable {α : Type} {f : α → Except LineError (Option Instruction)} {items : List α}

/-- The program that numbered items denote, where some of them denote nothing. -/
def gather (f : α → Except LineError (Option Instruction)) (items : List α) :
    Except Assembly.Error Program :=
  (numbered 1 f Assembly.Error.mk items).map fun found => ofList found.reduceOption

theorem gather_map {γ : Type} (g : γ → α) (items : List γ) :
    gather f (items.map g) = gather (fun c => f (g c)) items := by
  rw [gather, numbered_map]
  rfl

/-- A last item that denotes nothing makes no difference. -/
theorem gather_append_singleton {a : α} (h : f a = .ok none) :
    gather f (items ++ [a]) = gather f items := by
  rw [gather, gather, numbered_append_singleton h]
  cases numbered 1 f Assembly.Error.mk items with
  | error e => rfl
  | ok found =>
    show Except.ok (ofList ((found ++ [none]).filterMap id)) = .ok (ofList (found.filterMap id))
    simp

theorem gather_eq_ok_iff {g : α → Option Instruction} {fine : α → Prop}
    (hf : ∀ a found, f a = .ok found ↔ found = g a ∧ fine a) {q : Program} :
    gather f items = .ok q ↔ q = ofList (items.filterMap g) ∧ ∀ a ∈ items, fine a := by
  have hreduce : (items.map g).reduceOption = items.filterMap g := by
    show (items.map g).filterMap id = items.filterMap g
    rw [List.filterMap_map, Function.id_comp]
  simp only [gather, map_eq_ok_iff, numbered_eq_ok_iff, mapM_eq_ok_iff_forall hf]
  constructor
  · rintro ⟨_, ⟨rfl, hitems⟩, rfl⟩
    rw [hreduce]
    exact ⟨rfl, hitems⟩
  · rintro ⟨rfl, hitems⟩
    refine ⟨_, ⟨rfl, hitems⟩, ?_⟩
    rw [hreduce]

theorem exists_gather_error_iff {g : α → Option Instruction} {fine : α → Prop}
    (hf : ∀ a found, f a = .ok found ↔ found = g a ∧ fine a) {line : Nat} :
    (∃ cause, gather f items = .error ⟨line, cause⟩) ↔
      ∃ n, FirstFailure fine items n ∧ line = n + 1 := by
  have hnumbered : (∃ cause, numbered 1 f Assembly.Error.mk items = .error ⟨line, cause⟩) ↔
      ∃ n, FirstFailure fine items n ∧ line = 1 + n :=
    exists_numbered_eq_error_iff (by simp [hf]) fun _ _ _ _ => congrArg Assembly.Error.line
  simp only [gather, map_eq_error_iff, hnumbered, Nat.add_comm 1]

end Gather

theorem assemble_eq_gather (text : String) : assemble text = gather ofLine (Text.lines text) := by
  show (numbered 1 ofLine Assembly.Error.mk (Text.lines text) >>= fun found =>
    pure (ofList found.reduceOption)) = _
  unfold gather
  cases numbered 1 ofLine Assembly.Error.mk (Text.lines text) <;> rfl

/-- A text of ended lines is assembled line by line: what follows the last line end is blank. -/
theorem assemble_join (ts : List String) (h : ∀ t ∈ ts, '\n' ∉ t.toList) :
    assemble (String.join (ts.map (· ++ "\n"))) = gather (fun t => ofLine t.toList) ts := by
  have hempty : ofLine [] = .ok none := rfl
  rw [assemble_eq_gather, Text.lines_join ts h, gather_append_singleton hempty, gather_map]

theorem assemble_disassemble_eq (p : Program) :
    assemble p.disassemble = gather Instruction.reading p.toList := by
  have hjoin := assemble_join (p.toList.map Instruction.text)
    (List.forall_mem_map.mpr fun i _ => i.newline_not_mem_text)
  rw [gather_map, List.map_map] at hjoin
  refine Eq.trans hjoin ?_
  congr 1
  exact funext Instruction.ofLine_text

theorem assemble_listing_eq (p : Program) :
    assemble p.listing = gather (fun i => ofTokens i.tokens) p.toList := by
  let text : Instruction × Nat → String := fun a => a.1.listingText p.positionWidth a.2
  have hjoin := assemble_join (p.toList.zipIdx.map text)
    (List.forall_mem_map.mpr fun a _ => a.1.newline_not_mem_listingText p.positionWidth a.2)
  rw [gather_map, List.map_map] at hjoin
  have hread : (fun a => ofLine (text a).toList) = fun a => ofTokens a.1.tokens :=
    funext fun a => a.1.ofLine_listingText p.positionWidth a.2
  -- the positions are in the text only, and reading skips them
  have hfst : gather (fun i => ofTokens i.tokens) (p.toList.zipIdx.map Prod.fst) =
      gather (fun a => ofTokens a.1.tokens) p.toList.zipIdx := gather_map Prod.fst _
  rw [List.zipIdx_map_fst] at hfst
  rw [hfst, ← hread]
  exact hjoin

/-! ## Round trips -/

/-- The instructions whose code stands for an opcode. -/
def known (p : Program) : Program := ofList (p.toList.filter (·.opcode?.isSome))

theorem forall_mem_known_iff (p : Program) :
    (∀ i ∈ p.known.toList, i.Representable) ↔
      ∀ i ∈ p.toList, i.opcode?.isSome → i.Representable := by
  simp [known]

theorem known_eq_self {p : Program} (h : ∀ i ∈ p.toList, i.Representable) : p.known = p := by
  have hfilter : p.toList.filter (·.opcode?.isSome) = p.toList := by
    apply List.filter_eq_self.mpr
    intro i hi
    obtain ⟨op, hop, -⟩ := (h i hi).wellShaped
    rw [hop]
    rfl
  rw [known, hfilter, ofList_toList]

/-- The first instruction with a known code that is not representable, found among all instructions
and among those with a known code. -/
theorem firstFailure_known_iff {p : Program} {n : Nat} :
    FirstFailure (fun i : Instruction => i.opcode?.isSome → i.Representable) p.toList n ↔
      ∃ before i after, p.toList = before ++ i :: after ∧ i.opcode?.isSome ∧
        FirstFailure Instruction.Representable p.known.toList
          (before.filter (·.opcode?.isSome)).length ∧ before.length = n := by
  constructor
  · rintro ⟨before, i, after, hsplit, hbefore, hi, rfl⟩
    obtain ⟨hknown, hnot⟩ := Classical.not_imp.mp hi
    refine ⟨before, i, after, hsplit, hknown, ?_, rfl⟩
    refine ⟨before.filter (·.opcode?.isSome), i, after.filter (·.opcode?.isSome), ?_, ?_, hnot, rfl⟩
    · simp [known, hsplit, hknown]
    · intro x hx
      obtain ⟨hmem, hx⟩ := List.mem_filter.mp hx
      exact hbefore x hmem hx
  · rintro ⟨before, i, after, hsplit, hknown, ⟨kept, j, rest, hkept, hfine, hnot, hlength⟩, rfl⟩
    have heq : kept ++ j :: rest =
        before.filter (·.opcode?.isSome) ++ i :: after.filter (·.opcode?.isSome) := by
      rw [← hkept]
      simp [known, hsplit, hknown]
    obtain ⟨rfl, htail⟩ := List.append_inj heq hlength
    obtain ⟨rfl, -⟩ := List.cons.inj htail
    refine ⟨before, j, after, hsplit, ?_, fun h => hnot (h hknown), rfl⟩
    intro x hx hx'
    exact hfine x (List.mem_filter.mpr ⟨hx, hx'⟩)

/-- **Assembling a disassembly.** The text of a program denotes its instructions with a known code,
if these have an encoding. If not, the error is on the line of the first of them that has no record.
So a program that has an encoding is read back whole. The line of an instruction without a known
code is a number sign and the code, and a comment. -/
theorem assemble_disassemble_iff (p : Program) :
    (∀ q, assemble p.disassemble = .ok q ↔ q = p.known ∧ ∃ bs, p.known.encode = .ok bs) ∧
    (∀ line, (∃ cause, assemble p.disassemble = .error ⟨line, cause⟩) ↔
      ∃ before i after, p.toList = before ++ i :: after ∧ i.opcode?.isSome ∧
        (∃ cause, p.known.encode =
          .error ⟨(before.filter (·.opcode?.isSome)).length, cause⟩) ∧
        line = before.length + 1) ∧
    (∀ bs, p.encode = .ok bs → assemble p.disassemble = .ok p) ∧
    ∀ i ∈ p.toList, i.opcode? = none →
      i.name = "#" ++ toString i.code.toNat ∧ isComment (content i.text.toList) := by
  have hok : ∀ q, assemble p.disassemble = .ok q ↔
      q = p.known ∧ ∃ bs, p.known.encode = .ok bs := by
    intro q
    rw [assemble_disassemble_eq, gather_eq_ok_iff fun _ _ => Instruction.reading_eq_ok_iff,
      exists_encode_iff, forall_mem_known_iff, List.filterMap_eq_filter]
    rfl
  refine ⟨hok, fun line => ?_, fun bs hbs => ?_, fun i _ hi => ?_⟩
  · rw [assemble_disassemble_eq,
      exists_gather_error_iff fun _ _ => Instruction.reading_eq_ok_iff]
    simp only [firstFailure_known_iff, ← exists_encode_error_iff]
    constructor
    · rintro ⟨n, ⟨before, i, after, hsplit, hknown, herror, rfl⟩, rfl⟩
      exact ⟨before, i, after, hsplit, hknown, herror, rfl⟩
    · rintro ⟨before, i, after, hsplit, hknown, herror, rfl⟩
      exact ⟨_, ⟨before, i, after, hsplit, hknown, herror, rfl⟩, rfl⟩
  · have hknown : p.known = p := known_eq_self (exists_encode_iff.mp ⟨bs, hbs⟩)
    rw [hok, hknown]
    exact ⟨rfl, bs, hbs⟩
  · exact ⟨Instruction.name_of_none hi, i.isComment_text.mpr hi⟩

/-- An unknown code on the first line is a comment, and the jump too far on the third is an error
although it is only the second instruction that is read. -/
theorem assemble_disassemble_iff_far_jump :
    let unknown := Instruction.value 99 0
    let push := Instruction.value Opcode.lit.code 7
    let jump := Instruction.value Opcode.jmp.code 40000
    (∃ cause, assemble (ofList [unknown, push, jump]).disassemble = .error ⟨3, cause⟩) ∧
      assemble (ofList [unknown, push]).disassemble = .ok (ofList [push]) ∧
      assemble (ofList [push]).disassemble = .ok (ofList [push]) ∧
      unknown.name = "#" ++ toString 99 ∧ isComment (content unknown.text.toList) := by
  intro unknown push jump
  refine ⟨?_, ?_, ?_, ?_⟩
  · exact ((assemble_disassemble_iff (ofList [unknown, push, jump])).2.1 3).mpr
      ⟨[unknown, push], jump, [], rfl, rfl, ⟨_, rfl⟩, rfl⟩
  · exact ((assemble_disassemble_iff (ofList [unknown, push])).1 _).mpr ⟨rfl, _, rfl⟩
  · exact (assemble_disassemble_iff (ofList [push])).2.2.1 _ rfl
  · exact (assemble_disassemble_iff (ofList [unknown])).2.2.2 unknown List.mem_cons_self rfl

/-- **Reassembling a listing agrees with encoding.** A listing is assembled if and only if the
program has an encoding, and then the result is the program. Otherwise the error is on the line of
the instruction that has no record. -/
theorem assemble_listing_iff (p : Program) :
    (∀ q, assemble p.listing = .ok q ↔ q = p ∧ ∃ bs, p.encode = .ok bs) ∧
    ∀ line, (∃ cause, assemble p.listing = .error ⟨line, cause⟩) ↔
      ∃ position cause, p.encode = .error ⟨position, cause⟩ ∧ line = position + 1 := by
  refine ⟨fun q => ?_, fun line => ?_⟩
  · rw [assemble_listing_eq, gather_eq_ok_iff fun _ _ => Instruction.ofTokens_tokens_eq_ok_iff,
      exists_encode_iff]
    simp
  · rw [assemble_listing_eq,
      exists_gather_error_iff fun _ _ => Instruction.ofTokens_tokens_eq_ok_iff]
    simp only [← exists_encode_error_iff, exists_and_right]

end Program

end PCode
