import Mathlib

/-! # Messages on a stream

A writer puts messages on a stream of bytes one after another, or refuses them and writes nothing.
A reader takes the first message off the stream as often as it can. The stream is faithful to a
list of messages if the reader gets exactly those that were written, in order and with no bytes
left. If every message can either be read back whatever follows it, or never, then a stream is
faithful exactly to the lists of messages that can be read back (`Foundation.Wire.faithful_iff`).
-/

namespace Foundation

variable {M : Type*}

/-- The writer and the reader of one stream. -/
structure Wire (M : Type*) where
  /-- The bytes of a message; `none` if the writer refuses it. -/
  write : M → Option (List UInt8)
  /-- The first message of a stream and the bytes after it; `none` if more bytes have to arrive,
  or if the reader gives the stream up. -/
  read : List UInt8 → Option (M × List UInt8)

/-- A reader takes messages off a stream until it cannot, and leaves some bytes. -/
inductive ReadsAll (read : List UInt8 → Option (M × List UInt8)) :
    List UInt8 → List M → List UInt8 → Prop
  | stop {stream : List UInt8} (stuck : read stream = none) : ReadsAll read stream [] stream
  | next {stream rest left : List UInt8} {message : M} {messages : List M}
      (first : read stream = some (message, rest)) (later : ReadsAll read rest messages left) :
      ReadsAll read stream (message :: messages) left

namespace Wire

variable (wire : Wire M)

def written (messages : List M) : List UInt8 :=
  messages.flatMap fun message => (wire.write message).getD []

def accepted (messages : List M) : List M :=
  messages.filter fun message => (wire.write message).isSome

/-- **Faithful.** What was written is what is read. -/
def Faithful (messages : List M) : Prop :=
  ReadsAll wire.read (wire.written messages) (wire.accepted messages) []

/-- The message is refused or read back, whatever follows it. -/
def Readable (message : M) : Prop :=
  ∀ bytes, wire.write message = some bytes →
    ∀ rest, wire.read (bytes ++ rest) = some (message, rest)

/-- The message is written and never read back. -/
def Lost (message : M) : Prop :=
  ∃ bytes, wire.write message = some bytes ∧
    ∀ rest left, wire.read (bytes ++ rest) ≠ some (message, left)

variable {wire}

theorem faithful_nil (quiet : wire.read [] = none) : wire.Faithful [] := .stop quiet

theorem faithful_cons_of_readable {message : M} {messages : List M}
    (readable : wire.Readable message) :
    wire.Faithful (message :: messages) ↔ wire.Faithful messages := by
  rw [Faithful, Faithful, written, written, accepted, accepted, List.flatMap_cons, List.filter_cons]
  cases outcome : wire.write message with
  | none => rfl
  | some bytes =>
    have first := readable bytes outcome (wire.written messages)
    refine ⟨fun reads => ?_, fun reads => .next first reads⟩
    cases reads with
    | next taken later =>
      obtain rfl := (Prod.mk.inj (Option.some.inj (taken.symm.trans first))).2
      exact later

theorem not_faithful_cons_of_lost {message : M} {messages : List M} (lost : wire.Lost message) :
    ¬ wire.Faithful (message :: messages) := by
  obtain ⟨bytes, outcome, never⟩ := lost
  intro reads
  rw [Faithful, written, accepted, List.flatMap_cons, List.filter_cons, outcome] at reads
  cases reads with
  | next taken later => exact never _ _ taken

/-- **Faithful streams.** If a message that fits is read back and one that does not is lost, a
stream is faithful exactly to the messages that fit. -/
theorem faithful_iff {fits : M → Prop} (quiet : wire.read [] = none)
    (readable : ∀ message, fits message → wire.Readable message)
    (lost : ∀ message, ¬ fits message → wire.Lost message) (messages : List M) :
    wire.Faithful messages ↔ ∀ message ∈ messages, fits message := by
  induction messages with
  | nil => exact iff_of_true (faithful_nil quiet) fun _ member => absurd member List.not_mem_nil
  | cons message messages ih =>
    rw [List.forall_mem_cons]
    by_cases fit : fits message
    · rw [faithful_cons_of_readable (readable message fit), ih, and_iff_right fit]
    · exact iff_of_false (not_faithful_cons_of_lost (lost message fit)) fun both => fit both.1

end Wire

end Foundation
