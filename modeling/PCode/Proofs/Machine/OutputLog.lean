import PCode.Proofs.Assembly.Words
import PCode.Proofs.Machine.Footprint
import PCode.Proofs.Machine.Lockstep
import PCode.Proofs.Text.Lines

/-!
# The output as a log

A program writes numbers and line ends and nothing else. Each number has a space behind it, and no
space or line end inside, so what was written can be told from the output.

* `Item`: a number or a line end. `items p m n` are those that the first `n` steps have written.
* `output_after`: if the output sink never fails it has been sent the texts of the items, and
  nothing else.
* `Item.eq_of_join_eq`: two lists of items with the same text are the same list.
* `output_is_unambiguous_log`: the whole.
-/

namespace PCode

/-! ## Items -/

/-- One of the things that a program writes. -/
inductive Item where
  /-- A number. -/
  | number (word : Int64)
  /-- A line end. -/
  | newline
deriving DecidableEq, Repr

namespace Item

/-- The item in the output. -/
def text : Item → String
  | number word => toString word.toInt ++ " "
  | newline => "\n"

/-- The text of the item without its last character. -/
def body : Item → List Char
  | number word => (toString word.toInt).toList
  | newline => []

/-- The last character of the text of the item. -/
def ending : Item → Char
  | number _ => ' '
  | newline => '\n'

theorem toList_text (item : Item) : item.text.toList = item.body ++ [item.ending] := by
  cases item with
  | number word => exact String.toList_append
  | newline => rfl

theorem isBlank_of_mem_body {item : Item} {c : Char} (h : c ∈ item.body) :
    Text.isBlank c = false := by
  cases item with
  | number word => exact ((Assembly.isWord_toString_int word.toInt).2 c h).isBlank_eq_false
  | newline => cases h

theorem isBlank_ending (item : Item) : Text.isBlank item.ending := by
  cases item <;> rfl

/-- The last character tells a number from a line end, and the digits tell the number. -/
theorem eq_of_parts {item item' : Item} (hbody : item.body = item'.body)
    (hending : item.ending = item'.ending) : item = item' := by
  have hne : ' ' ≠ '\n' := by decide
  cases item with
  | number word =>
    cases item' with
    | number word' =>
      have hvalue : some word.toInt = some word'.toInt := by
        rw [← Text.integer?_toString, ← Text.integer?_toString word'.toInt]
        exact congrArg Text.integer? hbody
      rw [Int64.toInt_inj.mp (Option.some.inj hvalue)]
    | newline => exact absurd hending hne
  | newline =>
    cases item' with
    | number word' => exact absurd hending hne.symm
    | newline => rfl

theorem toList_join_cons (item : Item) (rest : List Item) :
    (String.join ((item :: rest).map text)).toList =
      item.body ++ item.ending :: (String.join (rest.map text)).toList := by
  rw [List.map_cons, String.join_cons, String.toList_append, toList_text, List.append_assoc]
  rfl

/-- **Lists of items.** Two lists with the same text are the same. -/
theorem eq_of_join_eq {items items' : List Item}
    (h : String.join (items.map text) = String.join (items'.map text)) : items = items' := by
  induction items generalizing items' with
  | nil =>
    cases items' with
    | nil => rfl
    | cons item rest =>
      have htext := congrArg String.toList h
      rw [toList_join_cons] at htext
      exact absurd htext.symm (by simp)
  | cons item rest ih =>
    have htext := congrArg String.toList h
    rw [toList_join_cons] at htext
    cases items' with
    | nil => exact absurd htext (by simp)
    | cons item' rest' =>
      rw [toList_join_cons] at htext
      obtain ⟨hbody, hending, hrest⟩ := Text.append_cons_inj (fun _ => isBlank_of_mem_body)
        (fun _ => isBlank_of_mem_body) (isBlank_ending item) (isBlank_ending item') htext
      rw [eq_of_parts hbody hending, ih (String.toList_inj.mp hrest)]

end Item

/-! ## What is written -/

/-- What the operation writes. -/
def Operation.item? (s : State) : Operation → Option Item
  | wrt => some (.number (s.word (s.top - 1)))
  | wrl => some .newline
  | _ => none

/-- What the instruction writes. -/
def Instruction.item? (i : Instruction) (s : State) : Option Item :=
  match i with
  | operation code => (Operation.ofCode? code).bind (Operation.item? s)
  | _ => none

theorem Operation.written_eq (op : Operation) (s : State) :
    op.written s = (op.item? s).map Item.text := by
  cases op <;> rfl

theorem Instruction.written_eq (i : Instruction) (s : State) :
    i.written s = (i.item? s).map Item.text := by
  cases i with
  | operation code =>
    show (Operation.ofCode? code).bind (Operation.written s) =
      ((Operation.ofCode? code).bind (Operation.item? s)).map Item.text
    cases Operation.ofCode? code with
    | none => rfl
    | some op => exact op.written_eq s
  | _ => rfl

/-! ## Sinks that never fail -/

namespace Sink

variable {σ : Type} [Sink σ]

/-- The sink never fails and holds nothing yet, and `contents` tells what it holds as more is
written. -/
structure Collects (contents : σ → String) (sink : σ) : Prop where
  reliable : Reliable sink
  empty : contents sink = ""
  append {text : String} {sink sink' : σ} :
    write text sink = (.ok (), sink') → contents sink' = contents sink ++ text

theorem Reliable.write {sink : σ} (h : Reliable sink) (text : String) :
    Sink.write text sink = (.ok (), (Sink.write text sink).2) :=
  Prod.ext (h [] (.write text)) rfl

theorem Collects.contents_serveAll {contents : σ → String} {sink : σ} (h : Collects contents sink)
    (texts : List String) :
    contents (serveAll (texts.map .write) sink) = String.join texts := by
  have hjoin (texts : List String) {sink : σ} (hsink : Reliable sink) :
      contents (serveAll (texts.map .write) sink) = contents sink ++ String.join texts := by
    induction texts generalizing sink with
    | nil => simp [serveAll]
    | cons text rest ih =>
      have hnext : Reliable (Sink.write text sink).2 := hsink.serveAll [.write text]
      have happend := h.append (hsink.write text)
      show contents (serveAll (rest.map .write) (Sink.write text sink).2) = _
      rw [ih hnext, happend, String.join_cons, String.append_assoc]
  rw [hjoin texts h.reliable, h.empty, String.empty_append]

end Sink

theorem Buffer.collects_empty : Sink.Collects Buffer.text Buffer.empty where
  reliable := reliable rfl rfl
  empty := rfl
  append := text_of_write

/-! ## Runs -/

namespace Machine

variable {ω τ : Type} [Sink ω] [Sink τ] {p : Program} {m : Machine ω τ} {contents : ω → String}

/-- What the next call of `step` writes. -/
def item? (p : Program) (m : Machine ω τ) : Option Item :=
  (executed? p m).bind (·.item? m.state)

/-- What the first calls of `step` have written. -/
def items (p : Program) (m : Machine ω τ) : Nat → List Item
  | 0 => []
  | n + 1 => items p m n ++ (item? p (after p m n)).toList

/-- A step that does not succeed writes nothing, unless its write fails. -/
theorem output_of_not_executed? (hsink : Sink.Reliable m.output) (h : executed? p m = none) :
    (step p m).2.output = m.output := by
  have hcase := stepCase p m
  generalize hstep : step p m = result at hcase
  cases hcase with
  | stopped | failed => rfl
  | silent hrun hc | written hrun hc =>
    obtain ⟨hi, -⟩ := cycle_ok_iff.mp hc
    rw [executed?_of_finish hrun hstep, hi] at h
    cases h
  | refused hrun hc hw =>
    cases hw.symm.trans (hsink.write _)

/-- **One step.** It sends the output sink the text of the item that it writes, if any. -/
theorem output_of_item? (hsink : Sink.Reliable m.output) :
    (step p m).2.output =
      Sink.serveAll (((item? p m).toList.map Item.text).map .write) m.output := by
  unfold item?
  cases hx : executed? p m with
  | none => exact output_of_not_executed? hsink hx
  | some i =>
    show _ = Sink.serveAll (((i.item? m.state).toList.map Item.text).map .write) m.output
    rcases output_of_executed? hx with ⟨hnone, hout⟩ | ⟨text, htext, hw⟩
    · rw [Instruction.written_eq, Option.map_eq_none_iff] at hnone
      rw [hnone]
      exact hout
    · rw [Instruction.written_eq] at htext
      obtain ⟨item, hitem, rfl⟩ := Option.map_eq_some_iff.mp htext
      rw [hitem]
      exact (congrArg Prod.snd hw).symm

/-- **Runs.** The output sink has been sent the texts of the items, one after another. -/
theorem output_after (hsink : Sink.Reliable m.output) (n : Nat) :
    (after p m n).output = Sink.serveAll (((items p m n).map Item.text).map .write) m.output := by
  induction n with
  | zero => rfl
  | succ n ih =>
    have hreliable : Sink.Reliable (after p m n).output := by
      rw [ih]
      exact hsink.serveAll _
    show (step p (after p m n)).2.output = _
    rw [output_of_item? hreliable, ih, items]
    simp only [Sink.serveAll, List.map_append, List.foldl_append]

theorem reliable_after (hsink : Sink.Reliable m.output) (n : Nat) :
    Sink.Reliable (after p m n).output := by
  rw [output_after hsink]
  exact hsink.serveAll _

theorem contents_after (h : Sink.Collects contents m.output) (n : Nat) :
    contents (after p m n).output = String.join ((items p m n).map Item.text) := by
  rw [output_after h.reliable, h.contents_serveAll]

/-- **The output as a log.** Take any machine with an output sink that never fails and holds nothing
yet. After any number of steps the sink holds the texts of the items that were written, in order. So
the next step appends to it, also if it ends with a fault. And if another machine, with another
program, comes to hold the same output, it has written the same items. -/
theorem output_is_unambiguous_log (p : Program) (m : Machine ω τ) (contents : ω → String)
    (h : Sink.Collects contents m.output) :
    (∀ n, contents (after p m n).output = String.join ((items p m n).map Item.text)) ∧
    (∀ n, (contents (after p m n).output).toList <+:
      (contents (after p m (n + 1)).output).toList) ∧
    ∀ {ω' τ' : Type} [Sink ω'] [Sink τ'] (p' : Program) (m' : Machine ω' τ')
      (contents' : ω' → String), Sink.Collects contents' m'.output → ∀ n n',
      contents (after p m n).output = contents' (after p' m' n').output →
      items p m n = items p' m' n' := by
  refine ⟨contents_after h, fun n => ?_, fun p' m' contents' h' n n' heq => ?_⟩
  · rw [contents_after h, contents_after h, items, List.map_append, String.join_append,
      String.toList_append]
    exact List.prefix_append _ _
  · rw [contents_after h, contents_after h'] at heq
    exact Item.eq_of_join_eq heq

/-- Writes the least number of 64 bits and ends the line, and then has nothing left to write. -/
def least : Program :=
  .ofList [.value Opcode.lit.code (-0x80000000), .value Opcode.lit.code (-0x80000000),
    .operation Operation.mul.code, .value Opcode.lit.code 2, .operation Operation.mul.code,
    .operation Operation.wrt.code, .operation Operation.wrl.code, .operation Operation.wrt.code]

/-- The program `least`, with a jump to the next position in front. -/
def leastLater : Program := .ofList (.value Opcode.jmp.code 1 :: least.toList)

/-- The run of `least` up to its fault, and that of `leastLater` up to the step before. -/
theorem output_is_unambiguous_log_least :
    let m : Machine Buffer Buffer := new { stackSize := 4 } Buffer.empty
    Sink.Collects Buffer.text m.output ∧
      items least m 8 = [.number Int64.minValue, .newline] ∧
      (after least m 8).output.text = "-9223372036854775808 \n" ∧
      (after least m 7).state.status = .running ∧ (after least m 8).state.status = .faulted ∧
      (after least m 7).output.text.toList <+: (after least m 8).output.text.toList ∧
      items least m 8 = items leastLater m 8 := by
  intro m
  have hsink : Sink.Collects Buffer.text m.output := Buffer.collects_empty
  obtain ⟨hlog, hgrows, hsame⟩ := output_is_unambiguous_log least m Buffer.text hsink
  have hitems : items least m 8 = [.number Int64.minValue, .newline] := by decide +kernel
  have htext : String.join ([.number Int64.minValue, .newline].map Item.text) =
      "-9223372036854775808 \n" := by decide +kernel
  have hlater : (after least m 8).output.text = (after leastLater m 8).output.text := by
    decide +kernel
  refine ⟨hsink, hitems, ?_, by decide +kernel, by decide +kernel, hgrows 7,
    hsame leastLater m Buffer.text hsink 8 8 hlater⟩
  rw [hlog 8, hitems, htext]

end Machine

end PCode
