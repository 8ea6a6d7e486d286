import KwaaiNet.Foundation.Text
import KwaaiNet.Identity.PeerId

/-! # Decentralized identifiers

The DID forms of the trust layer: `did:peer:` names a peer identity, and
`did:key:` names the P-256 public key of a passkey. The P-256 form is computed
from the last 65 bytes of a SubjectPublicKeyInfo record; it keeps the x coordinate
and the parity of y and nothing else (`KwaaiNet.p256SpkiToDid_eq_ok_iff`).
-/

namespace KwaaiNet

open Foundation List

/-- `peer_id_to_did`. -/
def peerIdToDid (peer : PeerId) : String := "did:peer:" ++ peer.toBase58

/-- `did_to_peer_id`. -/
def didToPeerId (did : String) : Option PeerId :=
  (Text.stripPrefix? "did:peer:" did).bind PeerId.parse

/-- `did_matches_peer`. -/
def didMatchesPeer (did : String) (peer : PeerId) : Bool :=
  ((didToPeerId did).map fun named => decide (named = peer)).getD false

/-- `verification_method`: the URI of a peer's signing key. -/
def verificationMethod (peer : PeerId) : String := peerIdToDid peer ++ "#key-1"

theorem didToPeerId_peerIdToDid (peer : PeerId) : didToPeerId (peerIdToDid peer) = some peer := by
  rw [didToPeerId, peerIdToDid, Text.stripPrefix?_append, Option.bind_some, PeerId.parse_toBase58]

theorem peerIdToDid_of_didToPeerId {did : String} {peer : PeerId}
    (read : didToPeerId did = some peer) : peerIdToDid peer = did := by
  obtain ⟨text, stripped, parsed⟩ := Option.bind_eq_some_iff.mp read
  rw [peerIdToDid, PeerId.toBase58_of_parse parsed, Text.append_of_stripPrefix? stripped]

theorem didMatchesPeer_peerIdToDid (peer : PeerId) :
    didMatchesPeer (peerIdToDid peer) peer = true := by
  simp [didMatchesPeer, didToPeerId_peerIdToDid]

theorem peerIdToDid_ne_empty (peer : PeerId) : peerIdToDid peer ≠ "" := by
  intro empty
  have characters := congrArg String.toList empty
  rw [peerIdToDid, String.toList_append] at characters
  exact append_ne_nil_of_left_ne_nil (by decide) _ characters

theorem hash_notMem_peerIdToDid (peer : PeerId) : '#' ∉ (peerIdToDid peer).toList := by
  rw [peerIdToDid, String.toList_append, mem_append]
  rintro (scheme | written)
  · exact (by decide : '#' ∉ "did:peer:".toList) scheme
  · exact (by decide : '#' ∉ Base58.alphabet) (Base58.mem_alphabet_of_mem_encode written)

theorem before_hash_verificationMethod (peer : PeerId) :
    Text.before '#' (verificationMethod peer) = peerIdToDid peer :=
  Text.before_append "key-1".toList (hash_notMem_peerIdToDid peer)

/-! ## Passkey keys -/

def p256Multicodec : List UInt8 := [0x80, 0x24]

/-- A P-256 point by its big-endian coordinates. -/
structure P256Point where
  x : KeyBytes
  y : KeyBytes
  deriving DecidableEq

def compressionPrefix (yLsb : UInt8) : UInt8 := if yLsb &&& 1 = 0 then 0x02 else 0x03

/-- The `did:key:` text of a compressed P-256 point. -/
def compressedDid (lead : UInt8) (x : List UInt8) : String :=
  "did:key:z" ++ Base58.encode (p256Multicodec ++ lead :: x)

def P256Point.did (point : P256Point) : String :=
  compressedDid (compressionPrefix (point.y.1.getLast?.getD 0)) point.x.1

/-- A byte as two lower-case hexadecimal digits. -/
def hexByte (byte : UInt8) : String :=
  String.ofList [Nat.digitChar (byte.toNat / 16), Nat.digitChar (byte.toNat % 16)]

/-- `p256_spki_to_did`. -/
def p256SpkiToDid (spki : List UInt8) : Except String String :=
  if spki.length < 65 then
    .error s!"SPKI too short: expected ≥65 bytes, got {spki.length}"
  else
    let uncompressed := spki.drop (spki.length - 65)
    let lead := uncompressed.getD 0 0
    if lead ≠ 0x04 then
      .error s!"Expected uncompressed point prefix 0x04, got 0x{hexByte lead}"
    else
      let x := (uncompressed.drop 1).take 32
      let yLsb := uncompressed.getD 64 0
      .ok (compressedDid (compressionPrefix yLsb) x)

/-- The bytes end in an uncompressed point with the same x and a y of the same parity. -/
def EndsInPoint (spki : List UInt8) (point : P256Point) : Prop :=
  ∃ header y : List UInt8, y.length = 32 ∧ spki = header ++ 0x04 :: (point.x.1 ++ y) ∧
    compressionPrefix (y.getLast?.getD 0) = compressionPrefix (point.y.1.getLast?.getD 0)

theorem compressedDid_inj {lead otherLead : UInt8} {x otherX : List UInt8} :
    compressedDid lead x = compressedDid otherLead otherX ↔ lead = otherLead ∧ x = otherX := by
  constructor
  · intro same
    unfold compressedDid at same
    have encoded := Base58.encode_injective ((String.append_right_inj "did:key:z").mp same)
    exact List.cons.inj (append_cancel_left encoded)
  · rintro ⟨rfl, rfl⟩
    rfl

theorem p256SpkiToDid_append (header : List UInt8) {x y : List UInt8} (xSize : x.length = 32)
    (ySize : y.length = 32) :
    p256SpkiToDid (header ++ 0x04 :: (x ++ y)) =
      .ok (compressedDid (compressionPrefix (y.getLast?.getD 0)) x) := by
  have size : (header ++ 0x04 :: (x ++ y)).length = header.length + 65 := by
    simp only [length_append, length_cons, xSize, ySize]
  have tail : (header ++ 0x04 :: (x ++ y)).drop (header.length + 65 - 65) = 0x04 :: (x ++ y) :=
    drop_left
  have coordinate : (x ++ y).take 32 = x := take_left' xSize
  have last : (0x04 :: (x ++ y)).getD 64 0 = y.getLast?.getD 0 := by
    rw [getD_cons_succ, getD_eq_getElem?_getD, List.getElem?_append_right (by omega),
      xSize, List.getLast?_eq_getElem?, ySize]
  rw [p256SpkiToDid, size, if_neg (by omega), tail]
  simp only [getD_cons_zero, ne_eq, not_true_eq_false, ↓reduceIte, drop_succ_cons,
    drop_zero, coordinate, last]

theorem exists_append_of_p256SpkiToDid {spki : List UInt8} {did : String}
    (computed : p256SpkiToDid spki = .ok did) :
    ∃ header x y : List UInt8, x.length = 32 ∧ y.length = 32 ∧
      spki = header ++ 0x04 :: (x ++ y) := by
  unfold p256SpkiToDid at computed
  split at computed
  case isTrue => cases computed
  dsimp only at computed
  split at computed
  case isTrue => cases computed
  rename_i short lead
  have size : (spki.drop (spki.length - 65)).length = 65 := by
    rw [length_drop]
    omega
  obtain ⟨first, rest, shape⟩ := exists_cons_of_length_eq_add_one size
  rw [shape] at size lead
  obtain rfl : first = 0x04 := not_not.mp lead
  have restSize : rest.length = 64 := by simpa using size
  refine ⟨spki.take (spki.length - 65), rest.take 32, rest.drop 32, ?_, ?_, ?_⟩
  · rw [length_take]
    omega
  · rw [length_drop]
    omega
  · rw [take_append_drop, ← shape, take_append_drop]

/-- **The DID of a key record is that of a point exactly if the record ends in the point**, up
to the parity of y. -/
theorem p256SpkiToDid_eq_ok_iff (spki : List UInt8) (point : P256Point) :
    p256SpkiToDid spki = .ok point.did ↔ EndsInPoint spki point := by
  constructor
  · intro computed
    obtain ⟨header, x, y, xSize, ySize, rfl⟩ := exists_append_of_p256SpkiToDid computed
    rw [p256SpkiToDid_append header xSize ySize] at computed
    obtain ⟨parity, rfl⟩ := compressedDid_inj.mp (Except.ok.inj computed)
    exact ⟨header, y, ySize, rfl, parity⟩
  · rintro ⟨header, y, size, rfl, parity⟩
    rw [p256SpkiToDid_append header point.x.2 size, parity, P256Point.did]

end KwaaiNet
