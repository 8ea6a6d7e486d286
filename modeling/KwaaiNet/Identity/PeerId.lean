import KwaaiNet.Foundation.Base58

/-! # Peer identities

A libp2p `PeerId` is a multihash: either the identity hash of a short encoded
public key, or a SHA2-256 digest. The structure carries the two acceptance
conditions of `PeerId::from_multihash`, so a peer identity that the library would
refuse cannot be built. The text form is base 58, and reading it back gives the
identity (`KwaaiNet.PeerId.parse_toBase58`).
-/

namespace KwaaiNet

open List

abbrev KeyBytes := { bytes : List UInt8 // bytes.length = 32 }

/-- A multihash that libp2p accepts as a peer identity. Both codes and all
accepted sizes fit in one varint byte. -/
structure PeerId where
  code : UInt8
  digest : List UInt8
  accepted : code = 0x12 ∧ digest.length ≤ 64 ∨ code = 0x00 ∧ digest.length ≤ 42
  deriving DecidableEq

namespace PeerId

theorem digest_length_le (peer : PeerId) : peer.digest.length ≤ 64 := by
  rcases peer.accepted with ⟨_, bound⟩ | ⟨_, bound⟩ <;> omega

theorem accepted_singleton (byte : UInt8) :
    (0x00 : UInt8) = 0x12 ∧ [byte].length ≤ 64 ∨ (0x00 : UInt8) = 0x00 ∧ [byte].length ≤ 42 :=
  .inr ⟨rfl, Nat.le_add_left 1 41⟩

/-- A small identity. -/
def ofByte (byte : UInt8) : PeerId := ⟨0x00, [byte], accepted_singleton byte⟩

/-- `PeerId::to_bytes`: hash code, digest size, digest. -/
def toBytes (peer : PeerId) : List UInt8 :=
  peer.code :: UInt8.ofNat peer.digest.length :: peer.digest

/-- `PeerId::from_bytes`: a multihash with no trailing bytes. -/
def fromBytes : List UInt8 → Option PeerId
  | code :: size :: digest =>
    if accepted : code = 0x12 ∧ digest.length ≤ 64 ∨ code = 0x00 ∧ digest.length ≤ 42 then
      if size.toNat = digest.length then some ⟨code, digest, accepted⟩ else none
    else none
  | _ => none

theorem fromBytes_toBytes (peer : PeerId) : fromBytes peer.toBytes = some peer := by
  have size : (UInt8.ofNat peer.digest.length).toNat = peer.digest.length := by
    have bound := peer.digest_length_le
    exact UInt8.toNat_ofNat_of_lt (by simp only [UInt8.size]; omega)
  rw [toBytes, fromBytes, dif_pos peer.accepted, if_pos size]

theorem toBytes_of_fromBytes {bytes : List UInt8} {peer : PeerId}
    (read : fromBytes bytes = some peer) : peer.toBytes = bytes := by
  rw [fromBytes.eq_def] at read
  split at read
  case h_1 code size digest =>
    split_ifs at read with accepted sized
    obtain rfl := Option.some.inj read
    rw [toBytes, ← sized, UInt8.ofNat_toNat]
  case h_2 => cases read

/-- `PeerId::to_base58`. -/
def toBase58 (peer : PeerId) : String := Foundation.Base58.encode peer.toBytes

/-- `str::parse::<PeerId>`. -/
def parse (text : String) : Option PeerId := (Foundation.Base58.decode text).bind fromBytes

theorem parse_toBase58 (peer : PeerId) : parse peer.toBase58 = some peer := by
  rw [parse, toBase58, Foundation.Base58.decode_encode, Option.bind_some, fromBytes_toBytes]

theorem toBase58_of_parse {text : String} {peer : PeerId} (parsed : parse text = some peer) :
    peer.toBase58 = text := by
  obtain ⟨bytes, decoded, read⟩ := Option.bind_eq_some_iff.mp parsed
  rw [toBase58, toBytes_of_fromBytes read, Foundation.Base58.encode_of_decode decoded]

def keyHeader : List UInt8 := [0x08, 0x01, 0x12, 0x20]

/-- The identity of an Ed25519 public key: the identity hash of its protobuf encoding. -/
def ofKey (key : KeyBytes) : PeerId where
  code := 0x00
  digest := keyHeader ++ key.1
  accepted := by
    right
    refine ⟨rfl, ?_⟩
    rw [length_append, key.2]
    decide

/-- `extract_ed25519_bytes`: the 32 bytes after the first key header found at an
index that leaves room for a key. -/
def extractEd25519Bytes (peer : PeerId) : Option KeyBytes :=
  let bytes := peer.toBytes
  ((List.range (bytes.length - 35)).find? fun index =>
      (bytes.drop index).take 4 = keyHeader).bind fun index =>
    let slice := (bytes.drop (index + 4)).take 32
    if size : slice.length = 32 then some ⟨slice, size⟩ else none

theorem extractEd25519Bytes_ofKey (key : KeyBytes) :
    extractEd25519Bytes (ofKey key) = some key := by
  obtain ⟨bytes, size⟩ := key
  have whole : (ofKey ⟨bytes, size⟩).toBytes = [0x00, 0x24, 0x08, 0x01, 0x12, 0x20] ++ bytes := by
    simp [toBytes, ofKey, keyHeader, size]
  have count : ((ofKey ⟨bytes, size⟩).toBytes).length - 35 = 3 := by
    rw [whole, length_append, size]
    rfl
  have found : (List.range 3).find? (fun index =>
      (([0x00, 0x24, 0x08, 0x01, 0x12, 0x20] ++ bytes).drop index).take 4 = keyHeader) =
        some 2 := by
    simp [range_succ, keyHeader]
  have slice : (([0x00, 0x24, 0x08, 0x01, 0x12, 0x20] ++ bytes : List UInt8).drop (2 + 4)).take 32 =
      bytes := by
    simp [take_of_length_le size.le]
  simp only [extractEd25519Bytes, count]
  rw [whole, found, Option.bind_some]
  simp only [slice, size, ↓reduceDIte]

theorem ofDigits_ofKey_div {bytes : List Nat} (size : bytes.length = 32)
    (bounded : ∀ byte ∈ bytes, byte < 256) :
    Nat.ofDigits 256 ([0x00, 0x24, 0x08, 0x01, 0x12, 0x20] ++ bytes).reverse / 58 ^ 44 =
      45971276209 := by
  have key : Nat.ofDigits 256 bytes.reverse < 256 ^ 32 := by
    have small := Nat.ofDigits_lt_base_pow_length (b := 256) (l := bytes.reverse) (by decide)
      fun byte member => bounded byte (mem_reverse.mp member)
    rwa [length_reverse, size] at small
  rw [reverse_append, Nat.ofDigits_append, length_reverse, size]
  have header : Nat.ofDigits 256 [0x00, 0x24, 0x08, 0x01, 0x12, 0x20].reverse = 0x2408011220 := by
    decide
  rw [header]
  generalize Nat.ofDigits 256 bytes.reverse = number at key
  omega

/-- The text of every Ed25519 identity starts with the same eight characters. -/
theorem take_toBase58_ofKey (key : KeyBytes) :
    (ofKey key).toBase58.toList.take 8 = "12D3KooW".toList := by
  obtain ⟨bytes, size⟩ := key
  have whole : (ofKey ⟨bytes, size⟩).toBytes.map UInt8.toNat =
      [0x00, 0x24, 0x08, 0x01, 0x12, 0x20] ++ bytes.map UInt8.toNat := by
    simp [toBytes, ofKey, keyHeader, size]
  have number : Nat.ofDigits 256 ([0x00, 0x24, 0x08, 0x01, 0x12, 0x20] ++
      bytes.map UInt8.toNat).reverse / 58 ^ 44 = 45971276209 := by
    refine ofDigits_ofKey_div (by rw [length_map, size]) fun byte member => ?_
    obtain ⟨byte, -, rfl⟩ := mem_map.mp member
    exact byte.toNat_lt
  have zeros : Foundation.Radix.leadingZeros
      ([0x00, 0x24, 0x08, 0x01, 0x12, 0x20] ++ bytes.map UInt8.toNat) = 1 := rfl
  rw [toBase58, Foundation.Base58.encode, String.toList_ofList, whole, Foundation.Radix.transcode,
    zeros]
  generalize Nat.ofDigits 256 ([0x00, 0x24, 0x08, 0x01, 0x12, 0x20] ++
    bytes.map UInt8.toNat).reverse = value at number
  have high : (Nat.digits 58 value).drop 44 = [29, 46, 46, 18, 2, 12, 1] := by
    rw [← Foundation.Radix.digits_div_pow (by decide), number]
    norm_num
  have digits : (Nat.digits 58 value).reverse =
      [1, 12, 2, 18, 46, 46, 29] ++ ((Nat.digits 58 value).take 44).reverse := by
    conv_lhs => rw [← take_append_drop 44 (Nat.digits 58 value), high, reverse_append]
    rfl
  rw [digits]
  rfl

end PeerId

end KwaaiNet
