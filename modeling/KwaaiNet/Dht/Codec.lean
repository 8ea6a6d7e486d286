import Mathlib
import KwaaiNet.Foundation.Bytes
import KwaaiNet.Foundation.Wire

/-! # The codec of the DHT protocol

A message travels as its length in eight bytes, a marker byte and its protobuf encoding; the length
counts the marker. The reader refuses a length of more than 10 MiB, the writer refuses nothing.
`KwaaiNet.Dht.hivemindCodec_faithful_iff` says that requests and responses are read as they were
written exactly if none of them is longer than the reader's limit, and that the buffer the reader
allocates for a message is never larger.
-/

namespace KwaaiNet.Dht

open Foundation

/-- `MAX_MESSAGE_SIZE`. -/
def maxMessageSize : Nat := 10 * 1024 * 1024

inductive ProtocolMarker where
  | ping
  | store
  | find
  deriving DecidableEq

namespace ProtocolMarker

def toU8 : ProtocolMarker → UInt8
  | .ping => 0x01
  | .store => 0x02
  | .find => 0x03

/-- `ProtocolMarker::from_u8`. -/
def fromU8 (byte : UInt8) : Option ProtocolMarker :=
  if byte = 0x01 then some .ping
  else if byte = 0x02 then some .store
  else if byte = 0x03 then some .find
  else none

theorem fromU8_toU8 (marker : ProtocolMarker) : fromU8 marker.toU8 = some marker := by
  cases marker <;> rfl

end ProtocolMarker

/-- The protobuf codec of a type of messages: decoding gives back what was encoded. A `Vec<u8>` has
fewer than `2 ^ 63` bytes. -/
structure Protobuf (M : Type*) where
  encodeToVec : M → List UInt8
  decode : List UInt8 → Except String M
  decode_encodeToVec : ∀ message, decode (encodeToVec message) = .ok message
  length_encodeToVec : ∀ message, (encodeToVec message).length < 2 ^ 63

/-- A `DHTRequest` or a `DHTResponse`: a message of one of the three kinds. -/
inductive Message (P S F : Type*) where
  | ping (message : P)
  | store (message : S)
  | find (message : F)

/-- The protobuf codecs of the three kinds. -/
structure Protobufs (P S F : Type*) where
  ping : Protobuf P
  store : Protobuf S
  find : Protobuf F

/-- The errors of reading a message: the stream ends too early, or its data is invalid. -/
inductive ReadError where
  | unexpectedEof
  | invalidData (text : String)

section Codec

variable {P S F : Type*} (protobufs : Protobufs P S F)

namespace Message

def marker : Message P S F → ProtocolMarker
  | .ping _ => .ping
  | .store _ => .store
  | .find _ => .find

def protoBytes : Message P S F → List UInt8
  | .ping message => protobufs.ping.encodeToVec message
  | .store message => protobufs.store.encodeToVec message
  | .find message => protobufs.find.encodeToVec message

/-- Encoding of a message: length, marker, protobuf. -/
def encode (message : Message P S F) : List UInt8 :=
  let totalLen := 1 + (message.protoBytes protobufs).length
  toBE 8 totalLen ++ message.marker.toU8 :: message.protoBytes protobufs

def decode (bytes : List UInt8) : Except String (Message P S F) :=
  match bytes with
  | [] => .error "Empty message"
  | byte :: protoBytes =>
    match ProtocolMarker.fromU8 byte with
    | none => .error "Invalid protocol marker"
    | some .ping => (protobufs.ping.decode protoBytes).map .ping
    | some .store => (protobufs.store.decode protoBytes).map .store
    | some .find => (protobufs.find.decode protoBytes).map .find

def size (message : Message P S F) : Nat := 1 + (message.protoBytes protobufs).length

theorem decode_marker_protoBytes (message : Message P S F) :
    decode protobufs (message.marker.toU8 :: message.protoBytes protobufs) = .ok message := by
  rw [decode, ProtocolMarker.fromU8_toU8]
  cases message with
  | ping message => exact congrArg (Except.map _) (protobufs.ping.decode_encodeToVec message)
  | store message => exact congrArg (Except.map _) (protobufs.store.decode_encodeToVec message)
  | find message => exact congrArg (Except.map _) (protobufs.find.decode_encodeToVec message)

theorem size_lt (message : Message P S F) : message.size protobufs < 256 ^ 8 := by
  have bound : (message.protoBytes protobufs).length < 2 ^ 63 := by
    cases message with
    | ping message => exact protobufs.ping.length_encodeToVec message
    | store message => exact protobufs.store.length_encodeToVec message
    | find message => exact protobufs.find.length_encodeToVec message
  rw [size]
  omega

end Message

def readMessage (io : List UInt8) :
    Except ReadError (Message P S F × List UInt8) × Nat :=
  match takeBytes 8 io with
  | none => (.error .unexpectedEof, 0)
  | some (lenBuf, rest) =>
    let len := ofBE lenBuf
    if maxMessageSize < len then
      (.error (.invalidData s!"Message too large: {len} bytes"), 0)
    else
      match takeBytes len rest with
      | none => (.error .unexpectedEof, len)
      | some (msgBuf, left) =>
        match Message.decode protobufs msgBuf with
        | .error text => (.error (.invalidData text), len)
        | .ok message => (.ok (message, left), len)

/-- Writing a message to a stream that takes all bytes: it refuses nothing. -/
def writeMessage (message : Message P S F) : Option (List UInt8) := some (message.encode protobufs)

/-- The stream between two peers, in one direction. -/
def messageWire : Wire (Message P S F) where
  write := writeMessage protobufs
  read := fun stream => (readMessage protobufs stream).1.toOption

/-- The buffer for a message is within the limit, whatever comes from the peer. -/
theorem readMessage_allocates_le (io : List UInt8) :
    (readMessage protobufs io).2 ≤ maxMessageSize := by
  rw [readMessage]
  cases takeBytes 8 io with
  | none => exact Nat.zero_le _
  | some pair =>
    obtain ⟨lenBuf, rest⟩ := pair
    dsimp only
    split_ifs with large
    · exact Nat.zero_le _
    · cases takeBytes (ofBE lenBuf) rest with
      | none => exact Nat.le_of_not_lt large
      | some pair =>
        obtain ⟨msgBuf, left⟩ := pair
        dsimp only
        cases Message.decode protobufs msgBuf with
        | error text => exact Nat.le_of_not_lt large
        | ok message => exact Nat.le_of_not_lt large

theorem toOption_readMessage_encode (message : Message P S F) (rest : List UInt8) :
    (readMessage protobufs (message.encode protobufs ++ rest)).1.toOption =
      if maxMessageSize < message.size protobufs then none else some (message, rest) := by
  have length : ofBE (toBE 8 (message.size protobufs)) = message.size protobufs := by
    rw [ofBE_toBE, Nat.mod_eq_of_lt (message.size_lt protobufs)]
  have body : takeBytes (message.size protobufs)
      (message.marker.toU8 :: message.protoBytes protobufs ++ rest) =
        some (message.marker.toU8 :: message.protoBytes protobufs, rest) :=
    takeBytes_append (Nat.add_comm _ 1) rest
  have encoded : message.encode protobufs ++ rest = toBE 8 (message.size protobufs) ++
      (message.marker.toU8 :: message.protoBytes protobufs ++ rest) := List.append_assoc _ _ _
  rw [encoded, readMessage, takeBytes_append (length_toBE _ _)]
  dsimp only
  rw [length]
  split_ifs with large
  · rfl
  · rw [body]
    dsimp only
    rw [Message.decode_marker_protoBytes]
    rfl

theorem messageWire_read (message : Message P S F) (rest : List UInt8) :
    (messageWire protobufs).read (message.encode protobufs ++ rest) =
      if maxMessageSize < message.size protobufs then none else some (message, rest) := by
  have unfolded : ∀ stream, (messageWire protobufs).read stream =
      (readMessage protobufs stream).1.toOption := fun _ => rfl
  rw [unfolded, toOption_readMessage_encode]

/-- A message within the limit is read back, whatever follows it. -/
theorem messageWire_readable {message : Message P S F}
    (fits : message.size protobufs ≤ maxMessageSize) :
    (messageWire protobufs).Readable message := by
  intro bytes written rest
  obtain rfl : message.encode protobufs = bytes := Option.some.inj written
  rw [messageWire_read, if_neg (Nat.not_lt.mpr fits)]

theorem messageWire_lost {message : Message P S F}
    (large : ¬ message.size protobufs ≤ maxMessageSize) : (messageWire protobufs).Lost message := by
  refine ⟨message.encode protobufs, rfl, fun rest left taken => ?_⟩
  rw [messageWire_read, if_pos (Nat.lt_of_not_le large)] at taken
  cases taken

theorem messageWire_faithful_iff (messages : List (Message P S F)) :
    (messageWire protobufs).Faithful messages ↔
      ∀ message ∈ messages, message.size protobufs ≤ maxMessageSize :=
  Wire.faithful_iff rfl (fun _ => messageWire_readable protobufs)
    (fun _ => messageWire_lost protobufs) messages

end Codec

section HivemindCodec

variable {PingRequest StoreRequest FindRequest PingResponse StoreResponse FindResponse : Type*}
  (requests : Protobufs PingRequest StoreRequest FindRequest)
  (responses : Protobufs PingResponse StoreResponse FindResponse)

/-- `HivemindCodec::read_request`. -/
abbrev readRequest := readMessage requests

/-- `HivemindCodec::read_response`. -/
abbrev readResponse := readMessage responses

/-- `HivemindCodec::write_request`. -/
abbrev writeRequest := writeMessage requests

/-- `HivemindCodec::write_response`. -/
abbrev writeResponse := writeMessage responses

/-- The stream of requests, written by `writeRequest` and read by `readRequest`. -/
abbrev requestWire := messageWire requests

/-- The stream of responses, written by `writeResponse` and read by `readResponse`. -/
abbrev responseWire := messageWire responses

/-- **The codec.** The messages written one after another are read back exactly if none of them has
more than 10 MiB, and no bytes a peer can send make the reader allocate more than that. -/
theorem hivemindCodec_faithful_iff :
    (∀ messages, (requestWire requests).Faithful messages ↔
      ∀ message ∈ messages, message.size requests ≤ maxMessageSize) ∧
    (∀ messages, (responseWire responses).Faithful messages ↔
      ∀ message ∈ messages, message.size responses ≤ maxMessageSize) ∧
    (∀ io, (readRequest requests io).2 ≤ maxMessageSize) ∧
      ∀ io, (readResponse responses io).2 ≤ maxMessageSize :=
  ⟨messageWire_faithful_iff requests, messageWire_faithful_iff responses,
    readMessage_allocates_le requests, readMessage_allocates_le responses⟩

end HivemindCodec

/-- Messages that are their own encoding. -/
def rawProtobuf : Protobuf { bytes : List UInt8 // bytes.length < 2 ^ 63 } where
  encodeToVec := Subtype.val
  decode := fun bytes => if short : bytes.length < 2 ^ 63 then .ok ⟨bytes, short⟩ else .error ""
  decode_encodeToVec := fun message => dif_pos message.2
  length_encodeToVec := Subtype.property

theorem rawRequest_lost {bytes : List UInt8} (short : bytes.length < 2 ^ 63)
    (large : maxMessageSize ≤ bytes.length) :
    (requestWire ⟨rawProtobuf, rawProtobuf, rawProtobuf⟩).Lost (.find ⟨bytes, short⟩) := by
  apply messageWire_lost
  change ¬ 1 + bytes.length ≤ maxMessageSize
  omega

/-- A request of 10 MiB, and one byte more for the marker, is written and not read, and neither is
what follows it. -/
theorem oversizedRequest_not_faithful :
    ¬ (requestWire ⟨rawProtobuf, rawProtobuf, rawProtobuf⟩).Faithful
      [.find ⟨List.replicate (10 * 1024 * 1024) 0, by rw [List.length_replicate]; decide⟩,
        .ping ⟨[], by decide⟩] := by
  apply Wire.not_faithful_cons_of_lost
  apply rawRequest_lost
  rw [List.length_replicate]
  decide

end KwaaiNet.Dht
