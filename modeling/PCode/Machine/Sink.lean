/-!
# Sinks

A sink takes text. It may take only the front of a text and then fail, with a message; what it took
stays taken. A sink may hold text back until it is flushed, and flushing may fail too.

`Buffer` is the sink that keeps its text. It may have a limit on the text that it takes in its life,
and it may fail at every flush.

* `Buffer.write_unbounded`: without a limit every write succeeds and appends the whole text.
* `Buffer.text_of_write`, `Buffer.text_of_write_error`: what a write appends that succeeds, and one
  that fails.
-/

namespace PCode

/-- A type of places that text can be written to. -/
class Sink (σ : Type) where
  /-- Writes a text: the message of the failure, if any, and the sink afterwards. -/
  write (text : String) (sink : σ) : Except String Unit × σ
  /-- Hands on what is held back: the message of the failure, if any, and the sink afterwards. -/
  flush (sink : σ) : Except String Unit × σ

/-- How a buffer fails when it is full. -/
inductive Refusal where
  /-- It reports an error. -/
  | error (message : String)
  /-- It takes no text and reports no error. -/
  | stall
deriving DecidableEq, Repr

namespace Refusal

/-- What the writer is told. -/
def message : Refusal → String
  | error message => message
  | stall => "failed to write whole buffer"

end Refusal

/-- A sink that keeps the text written to it. -/
structure Buffer where
  /-- The text so far. -/
  text : String := ""
  /-- How many more characters the buffer takes; no limit if absent. -/
  room : Option Nat := none
  /-- How it fails when it is full. -/
  refusal : Refusal := .stall
  /-- The message with which every flush fails; flushing succeeds if absent. -/
  flushFailure : Option String := none
deriving DecidableEq, Repr

namespace Buffer

/-- An empty buffer without a limit. -/
def empty : Buffer := {}

/-- Writes as much of the text as there is room for. -/
def write (text : String) (b : Buffer) : Except String Unit × Buffer :=
  match b.room with
  | none => (.ok (), { b with text := b.text ++ text })
  | some room =>
    if text.length ≤ room then
      (.ok (), { b with text := b.text ++ text, room := some (room - text.length) })
    else
      let front := String.ofList (text.toList.take room)
      (.error b.refusal.message, { b with text := b.text ++ front, room := some 0 })

/-- Succeeds unless the buffer fails at every flush. -/
def flush (b : Buffer) : Except String Unit × Buffer :=
  (b.flushFailure.elim (.ok ()) .error, b)

instance : Sink Buffer where
  write := write
  flush := flush

theorem write_unbounded (text : String) {b : Buffer} (h : b.room = none) :
    b.write text = (.ok (), { b with text := b.text ++ text }) := by
  simp [write, h]

theorem text_of_write {text : String} {b b' : Buffer} (h : b.write text = (.ok (), b')) :
    b'.text = b.text ++ text := by
  unfold write at h
  split at h
  · cases h
    rfl
  · split at h <;> cases h
    rfl

theorem text_of_write_error {text message : String} {b b' : Buffer}
    (h : b.write text = (.error message, b')) :
    ∃ room, b.room = some room ∧ room < text.length ∧
      b'.text = b.text ++ String.ofList (text.toList.take room) := by
  unfold write at h
  split at h
  · cases h
  next room hroom =>
    split at h
    · cases h
    next hlong =>
      cases h
      exact ⟨room, hroom, Nat.not_le.mp hlong, rfl⟩

end Buffer

end PCode
