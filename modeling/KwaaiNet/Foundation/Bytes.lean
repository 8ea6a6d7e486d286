import Mathlib

/-! # Numbers as bytes and frames

A number is written in a fixed number of bytes, and what does not fit is dropped
(`Foundation.ofLE_toLE`). A frame is a payload after its length in four bytes. A reader of a
stream of frames gets the payloads back, one after another and also when the stream is cut, as
long as the lengths fit (`Foundation.FramedStream.read`).
-/

namespace Foundation

open List

def toLE : Nat → Nat → List UInt8
  | 0, _ => []
  | width + 1, n => UInt8.ofNat n :: toLE width (n / 256)

/-- The number with the given bytes, the least significant one first. -/
def ofLE : List UInt8 → Nat
  | [] => 0
  | byte :: bytes => byte.toNat + 256 * ofLE bytes

theorem length_toLE (width n : Nat) : (toLE width n).length = width := by
  induction width generalizing n with
  | zero => rfl
  | succ width ih => rw [toLE, length_cons, ih]

/-- Reading a number back drops the bytes that were not written. -/
theorem ofLE_toLE (width n : Nat) : ofLE (toLE width n) = n % 256 ^ width := by
  induction width generalizing n with
  | zero => exact (Nat.mod_one n).symm
  | succ width ih =>
    have digits : n % 256 ^ (width + 1) = n % 256 + 256 * (n / 256 % 256 ^ width) := by
      rw [Nat.pow_succ', Nat.mod_mul]
    rw [toLE, ofLE, ih, UInt8.toNat_ofNat', digits]

theorem toLE_ofLE (bytes : List UInt8) : toLE bytes.length (ofLE bytes) = bytes := by
  induction bytes with
  | nil => rfl
  | cons byte bytes ih =>
    have low : byte.toNat < 256 := UInt8.toNat_lt byte
    have rest : (byte.toNat + 256 * ofLE bytes) / 256 = ofLE bytes := by omega
    have first : UInt8.ofNat (byte.toNat + 256 * ofLE bytes) = byte := by
      apply UInt8.toNat_inj.mp
      rw [UInt8.toNat_ofNat']
      omega
    rw [length_cons, toLE, ofLE, rest, ih, first]

/-- The lowest bytes of a number, the most significant one first. -/
def toBE (width n : Nat) : List UInt8 := (toLE width n).reverse

/-- The number with the given bytes, the most significant one first. -/
def ofBE (bytes : List UInt8) : Nat := ofLE bytes.reverse

theorem length_toBE (width n : Nat) : (toBE width n).length = width := by
  rw [toBE, length_reverse, length_toLE]

theorem ofBE_toBE (width n : Nat) : ofBE (toBE width n) = n % 256 ^ width := by
  rw [ofBE, toBE, reverse_reverse, ofLE_toLE]

theorem toBE_ofBE (bytes : List UInt8) : toBE bytes.length (ofBE bytes) = bytes := by
  rw [toBE, ofBE, ← length_reverse, toLE_ofLE, reverse_reverse]

theorem ofBE_lt (bytes : List UInt8) : ofBE bytes < 256 ^ bytes.length := by
  calc ofBE bytes = ofBE (toBE bytes.length (ofBE bytes)) := by rw [toBE_ofBE]
    _ = ofBE bytes % 256 ^ bytes.length := ofBE_toBE _ _
    _ < 256 ^ bytes.length := Nat.mod_lt _ (Nat.pow_pos (by decide))

def takeBytes (count : Nat) (bytes : List UInt8) : Option (List UInt8 × List UInt8) :=
  if count ≤ bytes.length then some (bytes.take count, bytes.drop count) else none

theorem takeBytes_append {count : Nat} {first : List UInt8} (length : first.length = count)
    (rest : List UInt8) : takeBytes count (first ++ rest) = some (first, rest) := by
  subst length
  rw [takeBytes, if_pos (by rw [length_append]; exact Nat.le_add_right _ _),
    take_left, drop_left]

theorem takeBytes_eq_some {count : Nat} {bytes first rest : List UInt8}
    (taken : takeBytes count bytes = some (first, rest)) :
    first.length = count ∧ bytes = first ++ rest := by
  rw [takeBytes] at taken
  split_ifs at taken with enough
  cases taken
  exact ⟨length_take_of_le enough, (take_append_drop count bytes).symm⟩

def frame (payload : List UInt8) : List UInt8 := toLE 4 payload.length ++ payload

/-- What a reader finds at the start of a stream. -/
inductive FrameRead where
  /-- More bytes have to arrive. -/
  | incomplete
  /-- The announced length is over the limit. -/
  | tooLarge
  | read (payload rest : List UInt8)

def readFrame (limit : Nat) (stream : List UInt8) : FrameRead :=
  match takeBytes 4 stream with
  | none => .incomplete
  | some (length, bytes) =>
    if limit < ofLE length then .tooLarge
    else
      match takeBytes (ofLE length) bytes with
      | none => .incomplete
      | some (payload, rest) => .read payload rest

theorem readFrame_frame {limit : Nat} {payload : List UInt8} (small : payload.length < 256 ^ 4)
    (within : payload.length ≤ limit) (rest : List UInt8) :
    readFrame limit (frame payload ++ rest) = .read payload rest := by
  have length : ofLE (toLE 4 payload.length) = payload.length := by
    rw [ofLE_toLE, Nat.mod_eq_of_lt small]
  rw [readFrame, frame, append_assoc, takeBytes_append (length_toLE _ _)]
  dsimp only
  rw [length, if_neg (Nat.not_lt.mpr within), takeBytes_append rfl]

theorem length_le_of_readFrame {limit : Nat} {stream payload rest : List UInt8}
    (taken : readFrame limit stream = .read payload rest) : payload.length ≤ limit := by
  rw [readFrame] at taken
  cases first : takeBytes 4 stream with
  | none =>
    rw [first] at taken
    cases taken
  | some pair =>
    obtain ⟨length, bytes⟩ := pair
    rw [first] at taken
    dsimp only at taken
    split_ifs at taken with within
    cases second : takeBytes (ofLE length) bytes with
    | none =>
      rw [second] at taken
      cases taken
    | some pair =>
      obtain ⟨body, remaining⟩ := pair
      rw [second] at taken
      cases taken
      rw [(takeBytes_eq_some second).1]
      exact Nat.le_of_not_lt within

theorem readFrame_of_isPrefix {limit : Nat} {stream payload more found rest : List UInt8}
    (small : payload.length < 256 ^ 4) (cut : stream <+: frame payload ++ more)
    (taken : readFrame limit stream = .read found rest) :
    found = payload ∧ stream = frame payload ++ rest := by
  obtain ⟨missing, whole⟩ := cut
  rw [readFrame] at taken
  cases first : takeBytes 4 stream with
  | none =>
    rw [first] at taken
    cases taken
  | some pair =>
    obtain ⟨length, bytes⟩ := pair
    rw [first] at taken
    dsimp only at taken
    obtain ⟨four, rfl⟩ := takeBytes_eq_some first
    rw [frame, append_assoc, append_assoc] at whole
    obtain ⟨rfl, body⟩ := append_inj whole (four.trans (length_toLE _ _).symm)
    rw [ofLE_toLE, Nat.mod_eq_of_lt small] at taken
    split_ifs at taken
    cases second : takeBytes payload.length bytes with
    | none =>
      rw [second] at taken
      cases taken
    | some pair =>
      obtain ⟨start, remaining⟩ := pair
      rw [second] at taken
      cases taken
      obtain ⟨same, rfl⟩ := takeBytes_eq_some second
      rw [append_assoc] at body
      obtain ⟨rfl, _⟩ := append_inj body same
      exact ⟨rfl, (append_assoc _ _ _).symm⟩

/-- The bytes in transit on a stream are the frames of the given payloads. A stream on which a
write has failed may have lost its end. -/
structure FramedStream (payloads : List (List UInt8)) (intact : Prop) (stream : List UInt8) :
    Prop where
  short : ∀ payload ∈ payloads, payload.length < 256 ^ 4
  cut : stream <+: payloads.flatMap frame
  whole : intact → stream = payloads.flatMap frame

namespace FramedStream

variable {payloads : List (List UInt8)} {intact : Prop} {stream : List UInt8}

theorem nil : FramedStream [] intact [] := ⟨nofun, nil_prefix, fun _ => rfl⟩

theorem broken {after : Prop} (framed : FramedStream payloads intact stream) (lost : ¬ after) :
    FramedStream payloads after stream :=
  ⟨framed.short, framed.cut, fun holds => absurd holds lost⟩

theorem write {after : Prop} {payload start : List UInt8}
    (framed : FramedStream payloads intact stream) (holds : intact)
    (short : payload.length < 256 ^ 4) (part : start <+: frame payload)
    (all : after → start = frame payload) :
    FramedStream (payloads ++ [payload]) after (stream ++ start) := by
  have frames : (payloads ++ [payload]).flatMap frame = stream ++ frame payload := by
    rw [flatMap_append, ← framed.whole holds, flatMap_singleton]
  refine ⟨?_, ?_, ?_⟩
  · intro other member
    rcases mem_append.mp member with earlier | last
    · exact framed.short other earlier
    · rwa [mem_singleton.mp last]
  · rw [frames]
    exact (List.prefix_append_right_inj stream).mpr part
  · intro kept
    rw [frames, all kept]

/-- **Frames are read in order.** A frame that is read is the first one in transit. -/
theorem read {limit : Nat} {found rest : List UInt8}
    (framed : FramedStream payloads intact stream)
    (taken : readFrame limit stream = .read found rest) :
    ∃ others, payloads = found :: others ∧ FramedStream others intact rest := by
  cases payloads with
  | nil =>
    rw [List.prefix_nil.mp framed.cut] at taken
    cases taken
  | cons payload others =>
    have small : payload.length < 256 ^ 4 := framed.short payload mem_cons_self
    have cut := framed.cut
    rw [flatMap_cons] at cut
    obtain ⟨rfl, rfl⟩ := readFrame_of_isPrefix small cut taken
    refine ⟨others, rfl, fun other member => framed.short other (.tail _ member), ?_, ?_⟩
    · exact (List.prefix_append_right_inj _).mp cut
    · intro holds
      exact append_cancel_left (framed.whole holds)

end FramedStream

end Foundation
