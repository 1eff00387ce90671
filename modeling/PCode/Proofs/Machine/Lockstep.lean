import PCode.Proofs.Machine.Session

/-!
# Machines in lockstep

A program does not see the sinks of its machine. All that it can learn is whether its output sink
has met a request, and the trace sink is not even asked for that. So two machines in the same state
do the same for as long as their output sinks answer alike.

* `Sink.Alike`: two sinks that give the same answers, whatever they are asked. Sinks that never fail
  are alike (`Sink.Reliable.alike`).
* `quiet_or_writes`: a step either leaves the output sink alone, and is then the same with any
  sinks, or comes to a text that it asks the sink to take.
* `Lockstep a b m m'`: the machines are in the same state, and their output sinks, which were `a`
  and `b`, have been asked for the same since.
* `Lockstep.step`, `Lockstep.run`, `Lockstep.session`: what is called on both returns the same, and
  keeps them in lockstep.
-/

namespace PCode

/-! ## Requests -/

/-- What a sink is asked for. -/
inductive Request where
  /-- Take a text. -/
  | write (text : String)
  /-- Hand on what is held back. -/
  | flush

namespace Sink

variable {σ σ' : Type} [Sink σ] [Sink σ']

/-- The answer to a request, and the sink afterwards. -/
def serve : Request → σ → Except String Unit × σ
  | .write text, sink => write text sink
  | .flush, sink => Sink.flush sink

/-- The sink after a list of requests, whatever the answers were. -/
def serveAll (requests : List Request) (sink : σ) : σ :=
  requests.foldl (fun sink request => (serve request sink).2) sink

theorem serveAll_concat (requests : List Request) (request : Request) (sink : σ) :
    serveAll (requests ++ [request]) sink = (serve request (serveAll requests sink)).2 := by
  simp only [serveAll, List.foldl_append, List.foldl_cons, List.foldl_nil]

/-- The two sinks give the same answers, whatever they are asked. -/
def Alike (a : σ) (b : σ') : Prop :=
  ∀ requests request,
    (serve request (serveAll requests b)).1 = (serve request (serveAll requests a)).1

/-- The sink meets every request, whatever it has been asked before. -/
def Reliable (sink : σ) : Prop :=
  ∀ requests request, (serve request (serveAll requests sink)).1 = .ok ()

theorem Alike.refl (sink : σ) : Alike sink sink := fun _ _ => rfl

theorem Reliable.serveAll {sink : σ} (h : Reliable sink) (requests : List Request) :
    Reliable (Sink.serveAll requests sink) := by
  intro more request
  have hall : Sink.serveAll more (Sink.serveAll requests sink) =
      Sink.serveAll (requests ++ more) sink := by
    simp only [Sink.serveAll, List.foldl_append]
  rw [hall]
  exact h (requests ++ more) request

theorem Reliable.alike {a : σ} {b : σ'} (ha : Reliable a) (hb : Reliable b) : Alike a b :=
  fun requests request => (hb requests request).trans (ha requests request).symm

end Sink

namespace Buffer

theorem serve_write (text : String) {b : Buffer} (h : b.room = none) :
    Sink.serve (.write text) b = (.ok (), { b with text := b.text ++ text }) :=
  write_unbounded text h

theorem serve_unbounded (request : Request) {b : Buffer} (h : b.room = none) :
    (Sink.serve request b).2.room = none ∧
      (Sink.serve request b).2.flushFailure = b.flushFailure := by
  cases request with
  | write text =>
    rw [serve_write text h]
    exact ⟨h, rfl⟩
  | flush => exact ⟨h, rfl⟩

theorem serveAll_unbounded (requests : List Request) {b : Buffer} (h : b.room = none) :
    (Sink.serveAll requests b).room = none ∧
      (Sink.serveAll requests b).flushFailure = b.flushFailure := by
  induction requests generalizing b with
  | nil => exact ⟨h, rfl⟩
  | cons request rest ih =>
    obtain ⟨hroom, hflush⟩ := serve_unbounded request h
    obtain ⟨hroom', hflush'⟩ := ih hroom
    exact ⟨hroom', hflush'.trans hflush⟩

/-- A buffer without a limit whose flushes succeed never fails. -/
theorem reliable {b : Buffer} (hroom : b.room = none) (hflush : b.flushFailure = none) :
    Sink.Reliable b := by
  intro requests request
  obtain ⟨hroom', hflush'⟩ := serveAll_unbounded requests hroom
  cases request with
  | write text => rw [serve_write text hroom']
  | flush =>
    show (Sink.serveAll requests b).flushFailure.elim (Except.ok ()) Except.error = Except.ok ()
    rw [hflush', hflush]
    rfl

theorem serveAll_write {b : Buffer} (h : b.room = none) (texts : List String) :
    Sink.serveAll (texts.map .write) b = { b with text := b.text ++ String.join texts } := by
  induction texts generalizing b with
  | nil => simp [Sink.serveAll]
  | cons text rest ih =>
    show Sink.serveAll (rest.map .write) (Sink.serve (.write text) b).2 = _
    rw [serve_write text h, ih (b := { b with text := b.text ++ text }) h, String.join_cons,
      String.append_assoc]

end Buffer

namespace Machine

/-! ## Steps that write nothing -/

/-- A step from the state asks nothing of the output sink. Whatever the sinks are, it has the same
result and leaves the same state. -/
def Quiet (p : Program) (s : State) (result : Except Fault Status) (s' : State) : Prop :=
  ∀ {ω τ : Type} [Sink ω] [Sink τ] (output : ω) (trace : Option τ),
    ∃ trace', step p ⟨s, output, trace⟩ = (result, ⟨s', output, trace'⟩)

theorem quiet_or_writes (p : Program) (s : State) :
    (∃ result s', Quiet p s result s') ∨
      ∃ i text s', s.status = .running ∧ cycle p s = .ok (i, some text) s' := by
  by_cases hrun : s.status = .running
  · cases hc : cycle p s with
    | error cause s' =>
      exact .inl ⟨.error ⟨s'.position, cause⟩, { s' with status := .faulted },
        fun output trace => ⟨trace, step_of_error hrun hc⟩⟩
    | ok r s' =>
      obtain ⟨i, _ | text⟩ := r
      · exact .inl ⟨.ok s'.settled.status, s'.settled,
          fun output trace => ⟨note i s'.pc trace, step_of_silent hrun hc⟩⟩
      · exact .inr ⟨i, text, s', hrun, rfl⟩
  · exact .inl ⟨.ok s.status, s, fun output trace => ⟨trace, step_of_stopped hrun⟩⟩

/-! ## Lockstep -/

variable {ω ω' τ τ' : Type} [Sink ω] [Sink ω']

/-- The machines are in the same state, and their output sinks have been asked for the same since
they were `a` and `b`. -/
structure Lockstep (a : ω) (b : ω') (m : Machine ω τ) (m' : Machine ω' τ') : Prop where
  state_eq : m'.state = m.state
  asked : ∃ requests, m.output = Sink.serveAll requests a ∧ m'.output = Sink.serveAll requests b

namespace Lockstep

variable {a : ω} {b : ω'} {m : Machine ω τ} {m' : Machine ω' τ'}

theorem start (h : m'.state = m.state) (hm : m.output = a) (hm' : m'.output = b) :
    Lockstep a b m m' :=
  ⟨h, [], hm, hm'⟩

/-- The output sinks answer the next request alike, and have then been asked for the same again. -/
theorem ask (hab : Sink.Alike a b) (h : Lockstep a b m m') (request : Request) :
    (Sink.serve request m'.output).1 = (Sink.serve request m.output).1 ∧
      ∃ requests, (Sink.serve request m.output).2 = Sink.serveAll requests a ∧
        (Sink.serve request m'.output).2 = Sink.serveAll requests b := by
  obtain ⟨requests, hm, hm'⟩ := h.asked
  rw [hm, hm']
  exact ⟨hab requests request, requests ++ [request],
    (Sink.serveAll_concat requests request a).symm, (Sink.serveAll_concat requests request b).symm⟩

theorem reset (h : Lockstep a b m m') : Lockstep a b m.reset m'.reset :=
  ⟨congrArg State.reset h.state_eq, h.asked⟩

theorem conclude (hab : Sink.Alike a b) (h : Lockstep a b m m') (result : Except Fault Status) :
    (Machine.conclude result m').1 = (Machine.conclude result m).1 ∧
      Lockstep a b (Machine.conclude result m).2 (Machine.conclude result m').2 := by
  obtain ⟨hanswer, hasked⟩ := h.ask hab .flush
  refine ⟨?_, h.state_eq, hasked⟩
  have hflush : (Sink.flush m'.output).1 = (Sink.flush m.output).1 := hanswer
  simp only [Machine.conclude, hflush, h.state_eq]

variable [Sink τ] [Sink τ'] {p : Program}

/-- **One step.** -/
theorem step (hab : Sink.Alike a b) (h : Lockstep a b m m') :
    (Machine.step p m').1 = (Machine.step p m).1 ∧
      Lockstep a b (Machine.step p m).2 (Machine.step p m').2 := by
  obtain ⟨s, output, trace⟩ := m
  obtain ⟨s', output', trace'⟩ := m'
  obtain rfl : s' = s := h.state_eq
  rcases quiet_or_writes p s' with ⟨result, s₁, hquiet⟩ | ⟨i, text, s₁, hrun, hc⟩
  · obtain ⟨trace₁, hstep⟩ := hquiet output trace
    obtain ⟨trace₁', hstep'⟩ := hquiet output' trace'
    rw [hstep, hstep']
    exact ⟨rfl, rfl, h.asked⟩
  · obtain ⟨hanswer, hasked⟩ := h.ask hab (.write text)
    rcases hw : Sink.write text output with ⟨answer, output₁⟩
    rcases hw' : Sink.write text output' with ⟨answer', output₁'⟩
    simp only [Sink.serve, hw, hw'] at hanswer hasked
    subst hanswer
    cases answer' with
    | error message =>
      rw [step_of_refused hrun hc hw, step_of_refused hrun hc hw']
      exact ⟨rfl, rfl, hasked⟩
    | ok u =>
      rw [step_of_written hrun hc hw, step_of_written hrun hc hw']
      exact ⟨rfl, rfl, hasked⟩

theorem advance (hab : Sink.Alike a b) (h : Lockstep a b m m') (n : Nat) :
    (Machine.advance p n m').1 = (Machine.advance p n m).1 ∧
      Lockstep a b (Machine.advance p n m).2 (Machine.advance p n m').2 := by
  induction n generalizing m m' with
  | zero =>
    have hstatus : m'.state.status = m.state.status := congrArg State.status h.state_eq
    exact ⟨congrArg Except.ok hstatus, h⟩
  | succ n ih =>
    obtain ⟨hresult, hnext⟩ := h.step (p := p) hab
    unfold Machine.advance
    rcases hstep : Machine.step p m with ⟨r, m₁⟩
    rcases hstep' : Machine.step p m' with ⟨r', m₁'⟩
    rw [hstep, hstep'] at hresult hnext
    obtain rfl : r' = r := hresult
    cases r' with
    | error fault => exact ⟨rfl, hnext⟩
    | ok status =>
      cases status with
      | running => exact ih hnext
      | halted | faulted => exact ⟨rfl, hnext⟩

/-- **Runs to the end.** Both machines come to the end or none, with the same result. -/
theorem run (hab : Sink.Alike a b) (h : Lockstep a b m m') (fuel : Nat) :
    Option.Rel (fun r r' => r'.1 = r.1 ∧ Lockstep a b r.2 r'.2) (Machine.run p fuel m)
      (Machine.run p fuel m') := by
  obtain ⟨hresult, hend⟩ := h.reset.advance (p := p) hab fuel
  simp only [Machine.run, hresult, hend.state_eq]
  split
  · exact .none
  · exact .some (hend.conclude hab _)

theorem call {m : Machine ω τ} {m' : Machine ω' τ} (hab : Sink.Alike a b) (h : Lockstep a b m m')
    (call : Call τ) :
    Option.Rel (fun r r' => r'.1 = r.1 ∧ Lockstep a b r.2 r'.2) (Machine.call p m call)
      (Machine.call p m' call) := by
  cases call with
  | step =>
    obtain ⟨hresult, hnext⟩ := h.step (p := p) hab
    exact .some ⟨congrArg Reply.stepped hresult, hnext⟩
  | run fuel =>
    have hrun := h.run (p := p) hab fuel
    show Option.Rel _ ((Machine.run p fuel m).map _) ((Machine.run p fuel m').map _)
    generalize Machine.run p fuel m = r, Machine.run p fuel m' = r' at hrun
    cases hrun with
    | none => exact .none
    | some hr => exact .some ⟨congrArg Reply.ran hr.1, hr.2⟩
  | reset => exact .some ⟨rfl, h.reset⟩
  | trace sink => exact .some ⟨rfl, h.state_eq, h.asked⟩

/-- **Sessions.** The same calls return the same on both machines. -/
theorem session {m : Machine ω τ} {m' : Machine ω' τ} (hab : Sink.Alike a b)
    (h : Lockstep a b m m') (calls : List (Call τ)) :
    Option.Rel (fun r r' => r'.1 = r.1 ∧ Lockstep a b r.2 r'.2) (Machine.session p m calls)
      (Machine.session p m' calls) := by
  induction calls generalizing m m' with
  | nil => exact .some ⟨rfl, h⟩
  | cons first rest ih =>
    have hfirst := h.call (p := p) hab first
    unfold Machine.session
    generalize Machine.call p m first = r, Machine.call p m' first = r' at hfirst
    cases hfirst with
    | none => exact .none
    | @some r r' hr =>
      obtain ⟨reply, m₁⟩ := r
      obtain ⟨reply', m₁'⟩ := r'
      obtain ⟨hreply, hnext⟩ : reply' = reply ∧ Lockstep a b m₁ m₁' := hr
      have hrest := ih hnext
      simp only [Option.bind_eq_bind, Option.bind_some]
      generalize Machine.session p m₁ rest = q, Machine.session p m₁' rest = q' at hrest
      cases hrest with
      | none => exact .none
      | some hq => exact .some ⟨by rw [hreply, hq.1], hq.2⟩

end Lockstep

end Machine

end PCode
