import Mathlib
import KwaaiNet.Foundation.Bytes
import KwaaiNet.Foundation.MessagePack
import KwaaiNet.Foundation.Slices

/-! # The Hivemind wrapper

A message or an error travels as its length in eight bytes, a marker byte and its payload; the
length counts the marker. The decoder adds the eight bytes of the length to whatever length it is
given and cuts the payload out at the sum. `KwaaiNet.Hivemind.decodeMessage_spec` says that what
was encoded is found again whatever follows it, and that decoding panics exactly on the lengths
for which the payload would end before it starts.
-/

namespace KwaaiNet.Hivemind

open Foundation List

/-- A `Vec<u8>`: an allocation has at most `isize::MAX` bytes. -/
abbrev ByteVec := { bytes : List UInt8 // bytes.length < 2 ^ 63 }

/-- A `str` by its text. -/
abbrev Str := { text : String // (MessagePack.utf8Bytes text).length < 2 ^ 63 }

/-- `MARKER_MESSAGE`. -/
def markerMessage : UInt8 := 0x00

/-- `MARKER_ERROR`. -/
def markerError : UInt8 := 0x01

def encodeMarked (marker : UInt8) (payload : List UInt8) : List UInt8 :=
  toBE 8 (payload.length + 1) ++ marker :: payload

/-- `encode_message`, of a message that has been encoded to its payload. -/
def encodeMessage (payload : ByteVec) : List UInt8 := encodeMarked markerMessage payload.1

/-- `encode_error`. -/
def encodeError (errorMsg : Str) : List UInt8 :=
  encodeMarked markerError (MessagePack.utf8Bytes errorMsg.1)

/-- `decode_length`. -/
def decodeLength (data : List UInt8) : Option Nat :=
  if data.length < 8 then none else some (ofBE (data.take 8))

/-- Whether arithmetic is checked. -/
inductive Build where
  | debug
  | release
  deriving DecidableEq

/-- How decoding panics. -/
inductive DecodePanic where
  | addOverflow
  | slice (panic : Panic)
  deriving DecidableEq

/-- Addition of `usize` numbers of 64 bits. -/
def addUsize (build : Build) (first second : Nat) : Except DecodePanic Nat :=
  if first + second < 2 ^ 64 then .ok (first + second)
  else match build with
    | .debug => .error .addOverflow
    | .release => .ok ((first + second) % 2 ^ 64)

/-- `decode_message`: whether the message is an error, and its payload. -/
def decodeMessage (build : Build) (data : List UInt8) :
    Except DecodePanic (Option (Bool × List UInt8)) :=
  if data.length < 9 then .ok none
  else match decodeLength data with
    | none => .ok none
    | some len => do
        let stop ← addUsize build 8 len
        if data.length < stop then .ok none
        else
          let marker := data.getD 8 0
          let payload ← (slice 9 stop data).mapError .slice
          .ok (some (decide (marker = markerError), payload))

/-- The length leaves no room for the marker, or the eight bytes before it do not fit into `usize`
with it. -/
def ReservedLength (len : Nat) : Prop := len = 0 ∨ 2 ^ 64 - 8 ≤ len

theorem decodeMessage_of_le (build : Build) {data : List UInt8} (long : 9 ≤ data.length) :
    decodeMessage build data = (addUsize build 8 (ofBE (data.take 8))).bind fun stop =>
      if data.length < stop then .ok none
      else ((slice 9 stop data).mapError .slice).bind fun payload =>
        .ok (some (decide (data.getD 8 0 = markerError), payload)) := by
  rw [decodeMessage, if_neg (by omega), decodeLength, if_neg (by omega)]
  rfl

/-- A payload is cut out where its frame says. -/
theorem decodeMessage_of_not_reserved (build : Build) {data : List UInt8}
    (long : 9 ≤ data.length) (fits : ¬ ReservedLength (ofBE (data.take 8))) :
    decodeMessage build data = .ok
      (if data.length < 8 + ofBE (data.take 8) then none
      else some (decide (data.getD 8 0 = markerError),
        (data.take (8 + ofBE (data.take 8))).drop 9)) := by
  rw [ReservedLength, not_or, not_le] at fits
  have added : addUsize build 8 (ofBE (data.take 8)) = .ok (8 + ofBE (data.take 8)) :=
    if_pos (by omega)
  rw [decodeMessage_of_le build long, added, Except.bind]
  split_ifs with short
  · rfl
  · have within : 9 ≤ 8 + ofBE (data.take 8) ∧ 8 + ofBE (data.take 8) ≤ data.length := by omega
    rw [slice_eq_ok_iff.mpr ⟨within, rfl⟩]
    rfl

theorem decodeMessage_of_reserved (build : Build) {data : List UInt8} (long : 9 ≤ data.length)
    (reserved : ReservedLength (ofBE (data.take 8))) :
    ∃ panic, decodeMessage build data = .error panic := by
  have reversed {stop : Nat} (early : stop < 9)
      (added : addUsize build 8 (ofBE (data.take 8)) = .ok stop) :
      decodeMessage build data = .error (.slice (.sliceIndexOrder 9 stop)) := by
    rw [decodeMessage_of_le build long, added, Except.bind, if_neg (by omega), slice, checkRange,
      if_pos early]
    rfl
  rcases reserved with zero | large
  · exact ⟨_, reversed (by decide : 8 < 9) (by rw [zero]; rfl)⟩
  · have overflows : ¬ 8 + ofBE (data.take 8) < 2 ^ 64 := by omega
    cases build with
    | debug =>
      refine ⟨.addOverflow, ?_⟩
      rw [decodeMessage_of_le _ long, addUsize, if_neg overflows]
      rfl
    | release =>
      have small : ofBE (data.take 8) < 2 ^ 64 := by
        have bound := ofBE_lt (data.take 8)
        rwa [length_take, min_eq_left (by omega)] at bound
      exact ⟨_, reversed (by omega) (if_neg overflows)⟩

/-- What was encoded is decoded, whatever follows it. -/
theorem decodeMessage_encodeMarked (build : Build) (marker : UInt8) {payload : List UInt8}
    (bound : payload.length < 2 ^ 63) (extra : List UInt8) :
    decodeMessage build (encodeMarked marker payload ++ extra) =
      .ok (some (decide (marker = markerError), payload)) := by
  have shape : encodeMarked marker payload ++ extra =
      toBE 8 (payload.length + 1) ++ marker :: (payload ++ extra) := by
    rw [encodeMarked, append_assoc, cons_append]
  have header : (toBE 8 (payload.length + 1)).length = 8 := length_toBE 8 _
  have lead : (encodeMarked marker payload ++ extra).take 8 = toBE 8 (payload.length + 1) := by
    rw [shape, take_left' header]
  have length : (encodeMarked marker payload ++ extra).length =
      9 + payload.length + extra.length := by
    simp only [shape, length_append, length_cons, header]
    omega
  have len : ofBE ((encodeMarked marker payload ++ extra).take 8) = payload.length + 1 := by
    rw [lead, ofBE_toBE, Nat.mod_eq_of_lt (by omega)]
  have marked : (encodeMarked marker payload ++ extra).getD 8 0 = marker := by
    rw [shape, getD_append_right _ _ _ _ header.le, header]
    rfl
  rw [decodeMessage_of_not_reserved build (by omega) (by rw [len, ReservedLength]; omega), len,
    if_neg (by omega), marked, shape]
  have cut : (toBE 8 (payload.length + 1) ++ marker :: (payload ++ extra)).take
      (8 + (payload.length + 1)) = toBE 8 (payload.length + 1) ++ marker :: payload := by
    rw [← cons_append, ← append_assoc, take_left']
    rw [length_append, length_cons, header]
  have front : (toBE 8 (payload.length + 1) ++ [marker]).length = 9 := by
    rw [length_append, header]
    rfl
  rw [cut, append_cons, drop_left' front]

/-- **The wrapper.** Decoding returns unless the length is reserved, and it returns what was
encoded, whatever follows it. -/
theorem decodeMessage_spec (build : Build) :
    (∀ data, (∃ result, decodeMessage build data = .ok result) ↔
      (9 ≤ data.length → ¬ ReservedLength (ofBE (data.take 8)))) ∧
    (∀ payload extra, decodeMessage build (encodeMessage payload ++ extra) =
      .ok (some (false, payload.1))) ∧
    ∀ errorMsg extra, decodeMessage build (encodeError errorMsg ++ extra) =
      .ok (some (true, MessagePack.utf8Bytes errorMsg.1)) := by
  refine ⟨fun data => ?_, fun payload extra => ?_, fun errorMsg extra => ?_⟩
  · constructor
    · rintro ⟨result, returned⟩ long reserved
      obtain ⟨panic, panicked⟩ := decodeMessage_of_reserved build long reserved
      cases returned.symm.trans panicked
    · intro fits
      by_cases long : 9 ≤ data.length
      · exact ⟨_, decodeMessage_of_not_reserved build long (fits long)⟩
      · exact ⟨none, if_pos (not_le.mp long)⟩
  · exact decodeMessage_encodeMarked build markerMessage payload.2 extra
  · exact decodeMessage_encodeMarked build markerError errorMsg.2 extra

/-- A length of zero, and one that is too close to `2 ^ 64`. -/
theorem decodeMessage_reserved_panics :
    decodeMessage .release (List.replicate 9 0) = .error (.slice (.sliceIndexOrder 9 8)) ∧
      decodeMessage .debug (List.replicate 9 0) = .error (.slice (.sliceIndexOrder 9 8)) ∧
      decodeMessage .release (List.replicate 9 255) = .error (.slice (.sliceIndexOrder 9 7)) ∧
      decodeMessage .debug (List.replicate 9 255) = .error .addOverflow := by
  decide +kernel

end KwaaiNet.Hivemind
