import KwaaiNet.Foundation.MessagePack

/-! # The wire format of the inference multiplexer

Requests and responses travel as MessagePack records in frames. A message whose encoding is
shorter than four gibibytes is read back as it was written
(`KwaaiNet.MuxRequest.fromSlice_toVecNamed`, `KwaaiNet.MuxResponse.fromSlice_toVecNamed`).
-/

namespace KwaaiNet

open Foundation Foundation.MessagePack

/-- How deep the decoder follows arrays and maps. -/
def maxDepth : Nat := 1023

/-- The longest payload that `read_frame` accepts. -/
def maxFrameLength : Nat := 64 * 1024 * 1024

structure MuxRequest where
  requestId : UInt64
  method : String
  path : String
  body : List UInt8
  deriving DecidableEq

structure MuxResponse where
  requestId : UInt64
  status : UInt16
  body : List UInt8
  deriving DecidableEq

/-- The encoding of a message is shorter than four gibibytes, and the length in its frame is its
length. -/
def Short (payload : List UInt8) : Prop := payload.length < 256 ^ 4

instance (payload : List UInt8) : Decidable (Short payload) :=
  inferInstanceAs (Decidable (payload.length < 256 ^ 4))

namespace MuxRequest

def fieldNames : List (List UInt8) := ["request_id", "method", "path", "body"].map utf8Bytes

/-- `rmp_serde::to_vec_named`. -/
def toVecNamed (request : MuxRequest) : List UInt8 :=
  packRecord
    [("request_id", packUint request.requestId.toNat), ("method", packStr request.method),
      ("path", packStr request.path), ("body", packBytes request.body)]

def ofFields : List Value → Option MuxRequest
  | [requestId, method, path, body] => do
      let requestId ← requestId.toNat? (2 ^ 64)
      let method ← method.toString?
      let path ← path.toString?
      let body ← body.toBytes?
      return ⟨UInt64.ofNat requestId, method, path, body⟩
  | _ => none

/-- `rmp_serde::from_slice`, which ignores what follows the record. -/
def fromSlice (payload : List UInt8) : Option MuxRequest :=
  (readValue maxDepth payload).bind fun read => (readFields fieldNames read.1).bind ofFields

end MuxRequest

namespace MuxResponse

def fieldNames : List (List UInt8) := ["request_id", "status", "body"].map utf8Bytes

/-- `rmp_serde::to_vec_named`. -/
def toVecNamed (response : MuxResponse) : List UInt8 :=
  packRecord
    [("request_id", packUint response.requestId.toNat),
      ("status", packUint response.status.toNat), ("body", packBytes response.body)]

def ofFields : List Value → Option MuxResponse
  | [requestId, status, body] => do
      let requestId ← requestId.toNat? (2 ^ 64)
      let status ← status.toNat? (2 ^ 16)
      let body ← body.toBytes?
      return ⟨UInt64.ofNat requestId, UInt16.ofNat status, body⟩
  | _ => none

/-- `rmp_serde::from_slice`. -/
def fromSlice (payload : List UInt8) : Option MuxResponse :=
  (readValue maxDepth payload).bind fun read => (readFields fieldNames read.1).bind ofFields

end MuxResponse

/-! ## What is written is read back -/

theorem Short.field {fields : List (String × List UInt8)} (short : Short (packRecord fields))
    {field : String × List UInt8} (member : field ∈ fields) : field.2.length < 256 ^ 4 :=
  Nat.lt_of_le_of_lt (length_le_packRecord member) short

namespace MuxRequest

variable (request : MuxRequest)

theorem ofFields_values :
    ofFields [.uint request.requestId.toNat, .str (utf8Bytes request.method),
      .str (utf8Bytes request.path), .array (request.body.map fun byte => .uint byte.toNat)] =
      some request := by
  simp only [ofFields, toString?_str, toBytes?_array, Value.toNat?,
    if_pos request.requestId.toNat_lt, UInt64.ofNat_toNat, Option.pure_def, Option.bind_eq_bind,
    Option.bind_some]

def packed (short : Short request.toVecNamed) : Packed maxDepth :=
  have method : (packStr request.method).length < 256 ^ 4 :=
    short.field (.tail _ (.head _))
  have path : (packStr request.path).length < 256 ^ 4 :=
    short.field (.tail _ (.tail _ (.head _)))
  have body : (packBytes request.body).length < 256 ^ 4 :=
    short.field (.tail _ (.tail _ (.tail _ (.head _))))
  .map
    [(.str "request_id" (by decide), .uint request.requestId.toNat request.requestId.toNat_lt),
      (.str "method" (by decide),
        .str request.method (Nat.lt_of_le_of_lt (length_utf8Bytes_le _) method)),
      (.str "path" (by decide),
        .str request.path (Nat.lt_of_le_of_lt (length_utf8Bytes_le _) path)),
      (.str "body" (by decide),
        .byteArray request.body (Nat.lt_of_le_of_lt (length_le_packBytes _) body))]
    (show 4 < 256 ^ 4 by decide)

/-- **Round trip of requests.** -/
theorem fromSlice_toVecNamed (short : Short request.toVecNamed) :
    fromSlice request.toVecNamed = some request := by
  have reads := (request.packed short).reads []
  rw [List.append_nil] at reads
  change readValue maxDepth request.toVecNamed = _ at reads
  rw [fromSlice, reads]
  exact request.ofFields_values

end MuxRequest

namespace MuxResponse

variable (response : MuxResponse)

theorem ofFields_values :
    ofFields [.uint response.requestId.toNat, .uint response.status.toNat,
      .array (response.body.map fun byte => .uint byte.toNat)] = some response := by
  simp only [ofFields, toBytes?_array, Value.toNat?, if_pos response.requestId.toNat_lt,
    if_pos response.status.toNat_lt, UInt64.ofNat_toNat, UInt16.ofNat_toNat, Option.pure_def,
    Option.bind_eq_bind, Option.bind_some]

def packed (short : Short response.toVecNamed) : Packed maxDepth :=
  have body : (packBytes response.body).length < 256 ^ 4 :=
    short.field (.tail _ (.tail _ (.head _)))
  .map
    [(.str "request_id" (by decide), .uint response.requestId.toNat response.requestId.toNat_lt),
      (.str "status" (by decide),
        .uint response.status.toNat (Nat.lt_trans response.status.toNat_lt (by decide))),
      (.str "body" (by decide),
        .byteArray response.body (Nat.lt_of_le_of_lt (length_le_packBytes _) body))]
    (show 3 < 256 ^ 4 by decide)

/-- **Round trip of responses.** -/
theorem fromSlice_toVecNamed (short : Short response.toVecNamed) :
    fromSlice response.toVecNamed = some response := by
  have reads := (response.packed short).reads []
  rw [List.append_nil] at reads
  change readValue maxDepth response.toVecNamed = _ at reads
  rw [fromSlice, reads]
  exact response.ofFields_values

end MuxResponse

end KwaaiNet
