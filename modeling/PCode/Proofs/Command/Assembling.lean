import Mathlib.Control.Monad.Basic
import PCode.Command.Plan
import PCode.Proofs.Assembly.Acceptance

/-!
# Assembling to a file

The command that assembles a text writes the program as bytes, and has a message for a program
that has no encoding. No text makes it say so: whatever the assembler accepts can be written.

`Plan.Leads` says where a plan can lead, for any answers of the file system.

* `Command.leads_of_assemble`: the messages that assembling can end with.
* `Program.encode_of_assemble`: texts, bytes and encoding give the same programs.
-/

namespace PCode

open Files

/-! ## Where plans lead -/

namespace Plan

/-- The first plan can go on as the second, after some answers of the file system. -/
inductive Leads : Plan → Plan → Prop
  | refl (plan : Plan) : Leads plan plan
  | read {path : String} {next : Except SystemError Bytes → Plan} {plan : Plan}
      (answer : Except SystemError Bytes) : Leads (next answer) plan → Leads (.read path next) plan
  | write {path : String} {content : Bytes} {next : Except SystemError Unit → Plan} {plan : Plan}
      (answer : Except SystemError Unit) :
      Leads (next answer) plan → Leads (.write path content next) plan

variable {message message' path : String}

theorem eq_of_fail_leads (h : (fail message).Leads (fail message')) : message' = message := by
  generalize hplan : fail message = plan at h
  cases h with
  | refl =>
    obtain ⟨-, -, herror⟩ := Plan.done.inj hplan
    have hfront := (String.append_left_inj "\n").mp herror
    exact ((String.append_right_inj "error: ").mp hfront).symm
  | read | write => cases hplan

theorem leads_of_read {next : Except SystemError Bytes → Plan}
    (h : (read path next).Leads (fail message)) :
    ∃ answer, (next answer).Leads (fail message) := by
  cases h with
  | read answer h => exact ⟨answer, h⟩

theorem leads_of_write {content : Bytes} {next : Except SystemError Unit → Plan}
    (h : (write path content next).Leads (fail message)) :
    ∃ answer, (next answer).Leads (fail message) := by
  cases h with
  | write answer h => exact ⟨answer, h⟩

theorem not_leads_of_success {stdout stderr : String} :
    ¬(done .success stdout stderr).Leads (fail message) := nofun

theorem writeProgram_eq_write {p : Program} {bs : Bytes} (h : p.encode = .ok bs) :
    ∃ next, writeProgram path p = .write path bs next := by
  simp only [writeProgram, h]
  exact ⟨_, rfl⟩

theorem message_of_writeProgram {p : Program} {bs : Bytes} (hbs : p.encode = .ok bs)
    (h : (writeProgram path p).Leads (fail message)) :
    ∃ e : SystemError, message = s!"cannot write '{path}': {e.message}" := by
  simp only [writeProgram, hbs] at h
  obtain ⟨answer | answer, h⟩ := leads_of_write h
  · exact ⟨answer, eq_of_fail_leads h⟩
  · exact absurd h not_leads_of_success

end Plan

/-! ## Messages -/

/-- The messages that assembling a file can end with. -/
inductive AssemblingMessage (input output : String) : String → Prop
  /-- The file cannot be read. -/
  | unreadable (e : SystemError) :
    AssemblingMessage input output s!"cannot read '{input}': {e.message}"
  /-- The file is no text. -/
  | notText :
    AssemblingMessage input output s!"cannot read '{input}': stream did not contain valid UTF-8"
  /-- A line of the text is wrong. -/
  | wrongLine (e : Assembly.Error) : AssemblingMessage input output e.message
  /-- The bytes cannot be written. -/
  | unwritable (e : SystemError) :
    AssemblingMessage input output s!"cannot write '{output}': {e.message}"

theorem Command.leads_of_assemble {input output message : String}
    (h : (Command.assemble input output).plan.Leads (.fail message)) :
    AssemblingMessage input output message := by
  obtain ⟨answer | content, h⟩ := Plan.leads_of_read h
  · rw [Plan.eq_of_fail_leads h]
    exact .unreadable answer
  · dsimp only at h
    split at h
    next text _ =>
      split at h
      next p hp =>
        obtain ⟨bs, hbs⟩ := Program.exists_encode_iff.mpr (Program.representable_of_assemble hp)
        obtain ⟨e, rfl⟩ := Plan.message_of_writeProgram hbs h
        exact .unwritable e
      next e _ =>
        rw [Plan.eq_of_fail_leads h]
        exact .wrongLine e
    next =>
      rw [Plan.eq_of_fail_leads h]
      exact .notText

/-- The message starts with a letter. -/
def StartsWith (message : String) (letter : Char) : Prop := message.toList.head? = some letter

theorem StartsWith.append {front : String} {letter : Char} (h : StartsWith front letter)
    (rest : String) : StartsWith (front ++ rest) letter := by
  unfold StartsWith at h ⊢
  rw [String.toList_append, List.head?_append, h]
  rfl

theorem RecordError.startsWith_message (e : RecordError) :
    StartsWith e.message 'u' ∨ StartsWith e.message 'i' := by
  cases e with
  | unknownInstruction code =>
    have hfront : StartsWith "unknown instruction code: " 'u' := rfl
    exact .inl (hfront.append _)
  | shapeMismatch code =>
    have hfront : StartsWith "instruction code " 'i' := rfl
    exact .inr ((hfront.append _).append _)
  | immediateOutOfRange immediate =>
    have hfront : StartsWith "immediate " 'i' := rfl
    exact .inr ((hfront.append _).append _)

theorem AssemblingMessage.startsWith {input output message : String}
    (h : AssemblingMessage input output message) :
    StartsWith message 'c' ∨ StartsWith message 'l' := by
  have hread : StartsWith "cannot read '" 'c' := rfl
  have hwrite : StartsWith "cannot write '" 'c' := rfl
  have hline : StartsWith "line " 'l' := rfl
  cases h with
  | unreadable e => exact .inl (((hread.append _).append _).append _)
  | notText => exact .inl ((hread.append _).append _)
  | wrongLine e => exact .inr (((hline.append _).append _).append _)
  | unwritable e => exact .inl (((hwrite.append _).append _).append _)

/-- The messages of the encoder start with other letters than those of assembling a file. -/
theorem EncodeError.not_assemblingMessage (e : EncodeError) (input output : String) :
    ¬AssemblingMessage input output e.message := by
  intro h
  have hassemble := h.startsWith
  have hmessage {letter : Char} (hcause : StartsWith e.cause.message letter) :
      StartsWith e.message letter := (hcause.append _).append _
  unfold StartsWith at hassemble hmessage
  rcases e.cause.startsWith_message with hletter | hletter
  · simp [hmessage hletter] at hassemble
  · simp [hmessage hletter] at hassemble

/-! ## Programs -/

namespace Program

/-- **Whatever the assembler accepts, the binary format can carry.** A program that was assembled is
written as bytes, read back from them, and assembled again from its text, so the file that it is
assembled to is written. No answers of the file system make the command end with a message of the
encoder. The programs of texts, those of bytes and those that have an encoding are the same. -/
theorem encode_of_assemble :
    (∀ text p, assemble text = .ok p → ∃ bs, p.encode = .ok bs ∧ decode bs = .ok p ∧
      assemble p.disassemble = .ok p ∧
      ∀ path, ∃ next, Plan.writeProgram path p = .write path bs next) ∧
    (∀ input output (e : EncodeError),
      ¬(Command.assemble input output).plan.Leads (.fail e.message)) ∧
    ∀ p, ((∃ text, assemble text = .ok p) ↔ ∃ bs, decode bs = .ok p) ∧
      ((∃ bs, decode bs = .ok p) ↔ ∃ bs, p.encode = .ok bs) := by
  refine ⟨fun text p h => ?_, fun input output e h => ?_, fun p => ⟨?_, ?_⟩⟩
  · have hp := representable_of_assemble h
    obtain ⟨bs, hbs⟩ := exists_encode_iff.mpr hp
    refine ⟨bs, hbs, decode_of_encode hbs, ?_, fun path => ?_⟩
    · exact assemble_disassemble_of_representable hp
    · exact Plan.writeProgram_eq_write hbs
  · exact e.not_assemblingMessage input output (Command.leads_of_assemble h)
  · simp only [exists_assemble_iff, ← exists_encode_iff, encode_eq_ok_iff, decode_eq_ok_iff]
  · simp only [encode_eq_ok_iff, decode_eq_ok_iff]

/-- Numbers at the ends of their ranges, and a code without an operation. -/
theorem encode_of_assemble_extremes :
    let text := "LIT -2147483648\njmp -0x8000 ; back\n OPR #255\nlod 0x7FFF, -32768"
    let p := ofList [.value Opcode.lit.code (-2147483648), .value Opcode.jmp.code (-32768),
      .operation 255, .address Opcode.lod.code 32767 (-32768)]
    assemble text = .ok p ∧ ∃ bs, p.encode = .ok bs ∧ decode bs = .ok p ∧
      assemble p.disassemble = .ok p := by
  intro text p
  have htext : assemble text = .ok p := by decide +kernel
  obtain ⟨bs, hencode, hdecode, hassemble, -⟩ := encode_of_assemble.1 text p htext
  exact ⟨htext, bs, hencode, hdecode, hassemble⟩

end Program

end PCode
