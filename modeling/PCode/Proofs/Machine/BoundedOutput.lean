import PCode.Proofs.Machine.Completion
import PCode.Proofs.Machine.Lockstep
import PCode.Proofs.Text.Decimal
import PCode.Text.Utf8

/-!
# Output with a limit

A machine whose output sink takes only so many bytes does what it does with a sink that takes all,
up to the first write that does not fit. That write leaves in the sink what there was room for, and
its step ends with a fault. The cut can be anywhere: between two digits, before the space, or just
after a whole number, in which case it shows only when something more is written.

Sinks count characters. All that a program can write is ASCII, so these are bytes.

* `Held limit refusal free held`: two machines that have done the same so far, and all output of the
  first fits the sink of the second.
* `Held.step`: one step on both, with output that still fits or not.
* `bounded_output_is_front`: the output of the second machine is the front of that of the first.
-/

namespace PCode

/-! ## ASCII text -/

namespace Text

/-- All characters are ASCII. -/
def IsAscii (text : String) : Prop := ∀ c ∈ text.toList, c.toNat < 128

instance : DecidablePred IsAscii :=
  fun text => List.decidableBAll (fun c : Char => c.toNat < 128) text.toList

variable {text more : String}

theorem IsAscii.append (h : IsAscii text) (h' : IsAscii more) : IsAscii (text ++ more) := by
  intro c hc
  rw [String.toList_append, List.mem_append] at hc
  exact hc.elim (h c) (h' c)

theorem isAscii_toString_int (n : Int) : IsAscii (toString n) := by
  have hdigits {c : Char} {n : Nat} (hc : c ∈ Nat.toDigits 10 n) : c.toNat < 128 := by
    have hdigit := isDigit_of_mem_toDigits hc
    rw [Char.isDigit, Bool.and_eq_true] at hdigit
    have hle : c.toNat ≤ 57 := of_decide_eq_true hdigit.2
    omega
  intro c hc
  rw [toList_toString_int] at hc
  split at hc
  · exact hdigits hc
  · rcases List.mem_cons.mp hc with rfl | hc
    · decide
    · exact hdigits hc

theorem utf8_append (text more : String) : utf8 (text ++ more) = utf8 text ++ utf8 more := by
  simp [utf8]

theorem utf8_ofList_of_ascii {cs : List Char} (h : ∀ c ∈ cs, c.toNat < 128) :
    utf8 (String.ofList cs) = cs.map fun c => c.val.toUInt8 := by
  have hencode : utf8 (String.ofList cs) = cs.flatMap String.utf8EncodeChar := by
    show (String.ofList cs).toByteArray.data.toList = _
    rw [String.toByteArray_ofList, List.utf8Encode, List.data_toByteArray]
  rw [hencode]
  clear hencode
  induction cs with
  | nil => rfl
  | cons c cs ih =>
    obtain ⟨hc, hcs⟩ := List.forall_mem_cons.mp h
    have hsize : c.utf8Size = 1 := by
      rw [Char.utf8Size_eq_one_iff, UInt32.le_iff_toNat_le]
      exact Nat.le_of_lt_succ hc
    rw [List.flatMap_cons, String.utf8EncodeChar_eq_singleton hsize, ih hcs]
    rfl

theorem length_utf8_of_ascii (h : IsAscii text) : (utf8 text).length = text.length := by
  rw [← String.ofList_toList (s := text), utf8_ofList_of_ascii h, List.length_map,
    String.ofList_toList, String.length_toList]

theorem utf8_take_of_ascii (h : IsAscii text) (n : Nat) :
    utf8 (String.ofList (text.toList.take n)) = (utf8 text).take n := by
  rw [utf8_ofList_of_ascii fun c hc => h c (List.mem_of_mem_take hc), List.map_take,
    ← utf8_ofList_of_ascii h, String.ofList_toList]

end Text

/-- Only `WRT` and `WRL` write, and what they write is ASCII. -/
theorem Instruction.Effect.of_written {i : Instruction} {s s' : State} {text : String}
    (h : i.Effect s (some text) s') :
    Text.IsAscii text ∧
      ∃ op : Operation, (op = .wrt ∨ op = .wrl) ∧ i = .operation op.code := by
  cases h with
  | opr h =>
    cases h with
    | wrt live =>
      have hspace : Text.IsAscii " " := by decide
      exact ⟨(Text.isAscii_toString_int _).append hspace, .wrt, .inl rfl, rfl⟩
    | wrl =>
      have hnewline : Text.IsAscii "\n" := by decide
      exact ⟨hnewline, .wrl, .inr rfl, rfl⟩

/-! ## Buffers -/

namespace Buffer

variable {limit : Nat} {refusal : Refusal} {text more : String}

/-- A buffer that takes a number of characters in its life, and holds a text. -/
def holding (limit : Nat) (refusal : Refusal) (text : String) : Buffer where
  text := text
  room := some (limit - text.length)
  refusal := refusal

theorem write_holding_of_le (h : (text ++ more).length ≤ limit) :
    (holding limit refusal text).write more = (.ok (), holding limit refusal (text ++ more)) := by
  rw [String.length_append] at h
  have hroom : more.length ≤ limit - text.length := by omega
  have hleft : limit - text.length - more.length = limit - (text ++ more).length := by
    rw [String.length_append]
    omega
  simp only [write, holding, if_pos hroom, hleft]

theorem write_holding_of_lt (hfits : text.length ≤ limit) (h : limit < (text ++ more).length) :
    (holding limit refusal text).write more = (.error refusal.message,
      holding limit refusal (String.ofList ((text ++ more).toList.take limit))) := by
  have hroom : ¬more.length ≤ limit - text.length := by
    rw [String.length_append] at h
    omega
  have hkept : text.toList.take limit = text.toList :=
    List.take_of_length_le (by rw [String.length_toList]; exact hfits)
  have hfront : text ++ String.ofList (more.toList.take (limit - text.length)) =
      String.ofList ((text ++ more).toList.take limit) := by
    rw [String.toList_append, List.take_append, hkept, String.ofList_append,
      String.ofList_toList, String.length_toList]
  have hfull : limit - (String.ofList ((text ++ more).toList.take limit)).length = 0 := by
    rw [String.length_ofList, List.length_take, String.length_toList]
    omega
  simp only [write, holding, if_neg hroom, hfront, hfull]

end Buffer

/-! ## Two machines -/

namespace Machine

variable {τ : Type} [Sink τ] {p : Program} {limit : Nat} {refusal : Refusal}

/-- Without a limit the output only grows, and by ASCII text. -/
theorem output_step {m : Machine Buffer τ} (h : m.output.room = none) :
    ∃ more, Text.IsAscii more ∧
      (step p m).2.output = { m.output with text := m.output.text ++ more } := by
  obtain ⟨s, output, trace⟩ := m
  rcases quiet_or_writes p s with ⟨result, s', hquiet⟩ | ⟨i, text, s', hrun, hc⟩
  · obtain ⟨trace', hstep⟩ := hquiet output trace
    rw [hstep]
    exact ⟨"", by decide, by simp⟩
  · have hw : Sink.write text output = (.ok (), { output with text := output.text ++ text }) :=
      Buffer.write_unbounded text h
    rw [step_of_written hrun hc hw]
    exact ⟨text, (cycle_ok_iff.mp hc).2.of_written.1, rfl⟩

theorem room_after {m : Machine Buffer τ} (h : m.output.room = none) (n : Nat) :
    (after p m n).output.room = none := by
  induction n with
  | zero => exact h
  | succ n ih =>
    obtain ⟨more, -, hmore⟩ := output_step (p := p) ih
    show (step p (after p m n)).2.output.room = none
    rw [hmore]
    exact ih

theorem isAscii_after {m : Machine Buffer τ} (h : m.output.room = none)
    (hascii : Text.IsAscii m.output.text) (n : Nat) :
    Text.IsAscii (after p m n).output.text := by
  induction n with
  | zero => exact hascii
  | succ n ih =>
    obtain ⟨more, hmore, heq⟩ := output_step (p := p) (room_after (p := p) h n)
    show Text.IsAscii (step p (after p m n)).2.output.text
    rw [heq]
    exact ih.append hmore

/-- The machines have done the same so far, with all output. The second has a sink for a limited
number of characters, which all fit. -/
structure Held (limit : Nat) (refusal : Refusal) (free held : Machine Buffer τ) : Prop where
  state_eq : held.state = free.state
  room_eq : free.output.room = none
  fits : free.output.text.length ≤ limit
  output_eq : held.output = .holding limit refusal free.output.text

/-- The next step of the first machine writes more than the sink of the second takes, so that the
second ends its step with a fault, and its sink holds the front of what the first has written. -/
structure Overflows (p : Program) (limit : Nat) (refusal : Refusal) (free held : Machine Buffer τ) :
    Prop where
  writes : ∃ op : Operation, (op = .wrt ∨ op = .wrl) ∧
    p.get? free.state.pc = some (.operation op.code)
  too_long : limit < (step p free).2.output.text.length
  result_eq : (step p held).1 = .error ⟨free.state.pc, .output refusal.message⟩
  text_eq : (step p held).2.output.text =
    String.ofList ((step p free).2.output.text.toList.take limit)

namespace Held

variable {free held : Machine Buffer τ}

/-- **One step.** Both machines do the same, or the output of the first outgrows the sink of the
second. -/
theorem step (p : Program) (h : Held limit refusal free held) :
    ((Machine.step p held).1 = (Machine.step p free).1 ∧
        Held limit refusal (Machine.step p free).2 (Machine.step p held).2) ∨
      Overflows p limit refusal free held := by
  obtain ⟨s, output, trace⟩ := free
  obtain ⟨s', output', trace'⟩ := held
  obtain ⟨hstate, hroom, hfits, hout⟩ := h
  dsimp only at hstate hroom hfits hout
  subst hstate hout
  rcases quiet_or_writes p s' with ⟨result, s₁, hquiet⟩ | ⟨i, text, s₁, hrun, hc⟩
  · obtain ⟨trace₁, hstep⟩ := hquiet output trace
    obtain ⟨trace₁', hstep'⟩ := hquiet (Buffer.holding limit refusal output.text) trace'
    rw [hstep, hstep']
    exact .inl ⟨rfl, rfl, hroom, hfits, rfl⟩
  · have hw : Sink.write text output = (.ok (), { output with text := output.text ++ text }) :=
      Buffer.write_unbounded text hroom
    have hfree : Machine.step p ⟨s', output, trace⟩ =
        finish i ⟨s₁, { output with text := output.text ++ text }, trace⟩ :=
      step_of_written hrun hc hw
    by_cases hmore : (output.text ++ text).length ≤ limit
    · have hw' : Sink.write text (Buffer.holding limit refusal output.text) =
          (.ok (), .holding limit refusal (output.text ++ text)) :=
        Buffer.write_holding_of_le hmore
      rw [hfree, step_of_written hrun hc hw']
      exact .inl ⟨rfl, rfl, hroom, hmore, rfl⟩
    · have hw' : Sink.write text (Buffer.holding limit refusal output.text) =
          (.error refusal.message,
            .holding limit refusal (String.ofList ((output.text ++ text).toList.take limit))) :=
        Buffer.write_holding_of_lt hfits (Nat.not_le.mp hmore)
      have hheld : Machine.step p ⟨s', Buffer.holding limit refusal output.text, trace'⟩ =
          fail (.output refusal.message) ⟨s₁, Buffer.holding limit refusal
            (String.ofList ((output.text ++ text).toList.take limit)), trace'⟩ :=
        step_of_refused hrun hc hw'
      have hposition : s₁.position = s'.pc := position_of_fault (congrArg Prod.fst hheld)
      obtain ⟨hi, he⟩ := cycle_ok_iff.mp hc
      obtain ⟨-, op, hop, rfl⟩ := he.of_written
      refine .inr ⟨⟨op, hop, hi⟩, ?_, ?_, ?_⟩
      · rw [hfree]
        exact Nat.not_le.mp hmore
      · rw [hheld, ← hposition]
        rfl
      · rw [hfree, hheld]
        rfl

/-- As long as the output fits, both machines have done the same. -/
theorem after (h : Held limit refusal free held) {n : Nat}
    (hfits : (Machine.after p free n).output.text.length ≤ limit) :
    Held limit refusal (Machine.after p free n) (Machine.after p held n) ∧
      ∀ k < n, (Machine.step p (Machine.after p held k)).1 =
        (Machine.step p (Machine.after p free k)).1 := by
  induction n with
  | zero => exact ⟨h, fun k hk => absurd hk (Nat.not_lt_zero k)⟩
  | succ n ih =>
    obtain ⟨more, -, hmore⟩ := output_step (p := p) (room_after (p := p) h.room_eq n)
    have hbefore : (Machine.after p free n).output.text.length ≤ limit := by
      have hnow : (Machine.step p (Machine.after p free n)).2.output.text.length ≤ limit := hfits
      rw [hmore, String.length_append] at hnow
      omega
    obtain ⟨hn, hresults⟩ := ih hbefore
    rcases hn.step p with ⟨hresult, hnext⟩ | hoverflow
    · refine ⟨hnext, fun k hk => ?_⟩
      rcases Nat.lt_succ_iff_lt_or_eq.mp hk with hlt | rfl
      · exact hresults k hlt
      · exact hresult
    · exact absurd hfits (Nat.not_le.mpr hoverflow.too_long)

end Held

/-- **Output with a limit.** Take two machines at the start, of which the second has an output sink
for `limit` bytes, and let `o n` be the output of the first after `n` steps. As long as this has at
most `limit` bytes, all is the same on the second machine, the results of the steps included. If `k`
is the first number of steps after which it has more, then the last of them writes, and on the
second machine it ends with a fault, with the sink's message and the position of the instruction.
The second machine is faulted from then on and its sink holds the first `limit` bytes of `o k`. -/
theorem bounded_output_is_front (p : Program) (limits : Limits) (limit : Nat) (refusal : Refusal)
    (trace trace' : Option τ) :
    let free : Machine Buffer τ := ⟨State.entry limits, Buffer.empty, trace⟩
    let held : Machine Buffer τ :=
      ⟨State.entry limits, { room := some limit, refusal := refusal }, trace'⟩
    let o : Nat → Bytes := fun n => Text.utf8 (after p free n).output.text
    (∀ n, (o n).length ≤ limit →
      (∀ k < n, (step p (after p held k)).1 = (step p (after p free k)).1) ∧
        (after p held n).state = (after p free n).state ∧
        Text.utf8 (after p held n).output.text = o n) ∧
    ∀ k, limit < (o k).length → (∀ n < k, (o n).length ≤ limit) →
      ∃ last, ∃ op : Operation, k = last + 1 ∧ (op = .wrt ∨ op = .wrl) ∧
        p.get? (after p held last).state.pc = some (.operation op.code) ∧
        (step p (after p held last)).1 =
          .error ⟨(after p held last).state.pc, .output refusal.message⟩ ∧
        ∀ n ≥ k, (after p held n).state.status = .faulted ∧
          Text.utf8 (after p held n).output.text = (o k).take limit := by
  intro free held o
  have hstart : Held limit refusal free held := ⟨rfl, rfl, Nat.zero_le limit, rfl⟩
  have hempty : Text.IsAscii "" := by decide
  have hascii (n : Nat) : Text.IsAscii (after p free n).output.text := isAscii_after rfl hempty n
  have hlength (n : Nat) : (o n).length = (after p free n).output.text.length :=
    Text.length_utf8_of_ascii (hascii n)
  constructor
  · intro n hn
    obtain ⟨hheld, hresults⟩ := hstart.after (hlength n ▸ hn)
    refine ⟨hresults, hheld.state_eq, ?_⟩
    rw [hheld.output_eq]
    rfl
  · intro k hk hbefore
    cases k with
    | zero => exact absurd hk (Nat.not_lt_zero limit)
    | succ last =>
      have hfits := hbefore last (Nat.lt_succ_self last)
      obtain ⟨hheld, -⟩ := hstart.after (hlength last ▸ hfits)
      rcases hheld.step p with ⟨-, hnext⟩ | hoverflow
      · exact absurd hnext.fits (Nat.not_le.mpr (hlength (last + 1) ▸ hk))
      · obtain ⟨op, hop, hi⟩ := hoverflow.writes
        have hresult := hoverflow.result_eq
        have hfaulted : (after p held (last + 1)).state.status = .faulted :=
          faulted_of_error hresult
        have hstop : (after p held (last + 1)).state.status ≠ .running :=
          stopped_of_error hresult
        rw [← hheld.state_eq] at hi hresult
        refine ⟨last, op, rfl, hop, hi, hresult, fun n hn => ?_⟩
        rw [after_of_stopped hstop hn]
        refine ⟨hfaulted, ?_⟩
        show Text.utf8 (step p (after p held last)).2.output.text = _
        rw [hoverflow.text_eq]
        exact Text.utf8_take_of_ascii (hascii (last + 1)) limit

/-- Writes two numbers and ends the line. -/
def numbers : Program :=
  .ofList [.value Opcode.lit.code 5, .operation Operation.wrt.code,
    .value Opcode.lit.code (-123), .operation Operation.wrt.code, .operation Operation.wrl.code]

/-- The output of `numbers` cut after five bytes, between two digits of the second number. -/
theorem bounded_output_is_front_numbers :
    let free : Machine Buffer Buffer := ⟨State.entry { stackSize := 4 }, Buffer.empty, none⟩
    let held : Machine Buffer Buffer :=
      ⟨State.entry { stackSize := 4 }, { room := some 5, refusal := .error "sink full" }, none⟩
    let o : Nat → Bytes := fun n => Text.utf8 (after numbers free n).output.text
    ((o 3).length ≤ 5 ∧ (after numbers held 3).state = (after numbers free 3).state) ∧
      5 < (o 4).length ∧ (∀ n < 4, (o n).length ≤ 5) ∧
      (step numbers (after numbers held 3)).1 = .error ⟨3, .output "sink full"⟩ ∧
      (after numbers held 9).state.status = .faulted ∧
      Text.utf8 (after numbers held 9).output.text = Text.utf8 "5 -12" := by
  intro free held o
  obtain ⟨hsame, hcut⟩ := bounded_output_is_front (τ := Buffer) numbers { stackSize := 4 } 5
    (.error "sink full") none none
  have hfits : ∀ n < 4, (o n).length ≤ 5 := by decide +kernel
  have hlong : 5 < (o 4).length := by decide +kernel
  obtain ⟨last, op, hlast, -, -, hresult, hafter⟩ := hcut 4 hlong hfits
  obtain rfl : last = 3 := by omega
  obtain ⟨hfaulted, htext⟩ := hafter 9 (by decide)
  have hposition : (after numbers held 3).state.pc = 3 := by decide +kernel
  have hfront : (o 4).take 5 = Text.utf8 "5 -12" := by decide +kernel
  exact ⟨⟨hfits 3 (by decide), (hsame 3 (hfits 3 (by decide))).2.1⟩, hlong, hfits,
    hposition ▸ hresult, hfaulted, htext.trans hfront⟩

end Machine

end PCode
