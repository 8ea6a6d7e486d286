import Mathlib
import KwaaiNet.Foundation.Bytes
import KwaaiNet.Foundation.Wire
import KwaaiNet.Inference.MuxFrame

/-! # Frames of any size

`write_frame` takes payloads of any size and writes the lowest 32 bits of their length.
`read_frame` refuses a length of more than 64 MiB, and the loops that call it then give the stream
up for all requests on it. `KwaaiNet.muxWire_faithful_iff` says that payloads are read as they were
written exactly if none of them is longer than the reader's limit.
-/

namespace KwaaiNet

open Foundation

/-- `write_frame` on a stream that takes all bytes: it refuses nothing. -/
def writeFrame (payload : List UInt8) : Option (List UInt8) := some (frame payload)

/-- `read_frame`. An end of the stream within a frame and a length over the limit are errors. -/
def readMuxFrame (stream : List UInt8) : Option (List UInt8 × List UInt8) :=
  match readFrame maxFrameLength stream with
  | .read payload rest => some (payload, rest)
  | .incomplete | .tooLarge => none

/-- The stream between the client and the server, in one direction. -/
def muxWire : Wire (List UInt8) := ⟨writeFrame, readMuxFrame⟩

theorem length_le_of_readMuxFrame {stream payload rest : List UInt8}
    (taken : readMuxFrame stream = some (payload, rest)) : payload.length ≤ maxFrameLength := by
  rw [readMuxFrame] at taken
  cases found : readFrame maxFrameLength stream with
  | read body remaining =>
    rw [found] at taken
    cases taken
    exact length_le_of_readFrame found
  | incomplete | tooLarge =>
    rw [found] at taken
    cases taken

theorem muxWire_readable {payload : List UInt8} (fits : payload.length ≤ maxFrameLength) :
    muxWire.Readable payload := by
  rintro bytes ⟨⟩ rest
  have small : payload.length < 256 ^ 4 := fits.trans_lt (by decide)
  change readMuxFrame (frame payload ++ rest) = some (payload, rest)
  rw [readMuxFrame, readFrame_frame small fits]

theorem muxWire_lost {payload : List UInt8} (large : ¬ payload.length ≤ maxFrameLength) :
    muxWire.Lost payload :=
  ⟨frame payload, rfl, fun _ _ taken => large (length_le_of_readMuxFrame taken)⟩

/-- **Framing.** The payloads written to a stream are read back one after another exactly if none
of them is longer than 64 MiB. -/
theorem muxWire_faithful_iff (payloads : List (List UInt8)) :
    muxWire.Faithful payloads ↔ ∀ payload ∈ payloads, payload.length ≤ 64 * 1024 * 1024 :=
  Wire.faithful_iff rfl (fun _ => muxWire_readable) (fun _ => muxWire_lost) payloads

/-- A payload of one byte over the limit is written, and the one after it is never read; a payload
of `2 ^ 32` bytes is written with the length 0. -/
theorem oversizedFrame_not_faithful :
    ¬ muxWire.Faithful [List.replicate (64 * 1024 * 1024 + 1) 0, [7]] ∧
      ¬ muxWire.Faithful [List.replicate (2 ^ 32) 0, [7]] := by
  constructor <;> apply Wire.not_faithful_cons_of_lost <;> apply muxWire_lost <;>
    rw [List.length_replicate] <;> decide

end KwaaiNet
