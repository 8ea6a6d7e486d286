import Mathlib
import KwaaiNet.Trust.Verify

/-! # The keys of identities

`extract_ed25519_bytes` looks for the header of an encoded key anywhere in the bytes of an identity.
It finds the key of an identity that was made from one; it also finds a key in an identity that has
the header and 32 more bytes at any other place. `KwaaiNet.extractEd25519Bytes_exact_iff` says that
these are the only identities with a key that is not theirs, and that two DIDs share a key only if
one of them belongs to such an identity.
-/

namespace KwaaiNet

open List

namespace PeerId

variable {peer : PeerId}

def ContainsKey (peer : PeerId) : Prop :=
  ∃ (before : List UInt8) (key : KeyBytes) (after : List UInt8),
    peer.toBytes = before ++ (keyHeader ++ (key.1 ++ after))

def MerelyContainsKey (peer : PeerId) : Prop :=
  peer.ContainsKey ∧ ∀ key, peer ≠ ofKey key

theorem containsKey_of_extract {key : KeyBytes} (found : peer.extractEd25519Bytes = some key) :
    peer.ContainsKey := by
  obtain ⟨index, first, cut⟩ := Option.bind_eq_some_iff.mp found
  obtain ⟨header, _, _⟩ := List.find?_range_eq_some.mp first
  dsimp only at cut
  split_ifs at cut with size
  refine ⟨peer.toBytes.take index, ⟨_, size⟩, peer.toBytes.drop (index + 4 + 32), ?_⟩
  have tail : (peer.toBytes.drop (index + 4)).take 32 ++ peer.toBytes.drop (index + 4 + 32) =
      peer.toBytes.drop (index + 4) := by
    rw [← drop_drop (i := 32), take_append_drop]
  rw [tail, ← of_decide_eq_true header, ← drop_drop, take_append_drop,
    take_append_drop]

theorem exists_extract_of_containsKey (contains : peer.ContainsKey) :
    ∃ key, peer.extractEd25519Bytes = some key := by
  obtain ⟨before, key, after, bytes⟩ := contains
  have room : before.length < peer.toBytes.length - 35 := by
    simp only [bytes, length_append, key.2, keyHeader, length_cons, length_nil]
    omega
  have header : (peer.toBytes.drop before.length).take 4 = keyHeader := by
    rw [bytes, drop_left]
    exact take_left' rfl
  cases first : (List.range (peer.toBytes.length - 35)).find? fun index =>
      (peer.toBytes.drop index).take 4 = keyHeader with
  | none =>
    have absent := List.find?_eq_none.mp first before.length (mem_range.mpr room)
    exact absurd (decide_eq_true header) absent
  | some index =>
    obtain ⟨_, within, _⟩ := List.find?_range_eq_some.mp first
    have size : ((peer.toBytes.drop (index + 4)).take 32).length = 32 := by
      have below := mem_range.mp within
      rw [length_take, length_drop]
      omega
    refine ⟨⟨_, size⟩, ?_⟩
    simp only [extractEd25519Bytes, first, Option.bind_some, size, ↓reduceDIte]

theorem extract_eq_some_iff_ofKey (canonical : ¬ peer.MerelyContainsKey) (key : KeyBytes) :
    peer.extractEd25519Bytes = some key ↔ peer = ofKey key := by
  constructor
  · intro found
    have made : ∃ own, peer = ofKey own := by
      by_contra other
      exact canonical ⟨containsKey_of_extract found, not_exists.mp other⟩
    obtain ⟨own, rfl⟩ := made
    rw [extractEd25519Bytes_ofKey] at found
    rw [Option.some.inj found]
  · rintro rfl
    exact extractEd25519Bytes_ofKey key

end PeerId

theorem exists_peer_of_didKey {did : String} {key : KeyBytes} (found : didKey did = some key) :
    ∃ peer, didToPeerId did = some peer ∧ peerIdToDid peer = did ∧
      peer.extractEd25519Bytes = some key := by
  obtain ⟨peer, read, extracted⟩ := Option.bind_eq_some_iff.mp found
  exact ⟨peer, read, peerIdToDid_of_didToPeerId read, extracted⟩

/-- **Identities and keys.** `extract_ed25519_bytes` gives the key of an identity and no other
exactly unless the identity merely contains one, and two DIDs that give the same key are the same
unless one of them belongs to such an identity. -/
theorem extractEd25519Bytes_exact_iff (peer : PeerId) (did other : String) (shared : KeyBytes) :
    ((∀ key, peer.extractEd25519Bytes = some key ↔ peer = .ofKey key) ↔
      ¬ peer.MerelyContainsKey) ∧
    (didKey did = some shared → didKey other = some shared → did ≠ other →
      ∃ named, (didToPeerId did = some named ∨ didToPeerId other = some named) ∧
        named.MerelyContainsKey) := by
  refine ⟨⟨fun faithful merely => ?_, PeerId.extract_eq_some_iff_ofKey⟩, ?_⟩
  · obtain ⟨key, found⟩ := PeerId.exists_extract_of_containsKey merely.1
    exact merely.2 key ((faithful key).mp found)
  · intro found alsoFound different
    obtain ⟨first, read, written, extracted⟩ := exists_peer_of_didKey found
    obtain ⟨second, alsoRead, alsoWritten, alsoExtracted⟩ := exists_peer_of_didKey alsoFound
    by_contra neither
    have canonical {named : PeerId}
        (reads : didToPeerId did = some named ∨ didToPeerId other = some named) :
        ¬ named.MerelyContainsKey := fun merely => neither ⟨named, reads, merely⟩
    have own := (PeerId.extract_eq_some_iff_ofKey (canonical (.inl read)) shared).mp extracted
    have same :=
      (PeerId.extract_eq_some_iff_ofKey (canonical (.inr alsoRead)) shared).mp alsoExtracted
    exact different (written.symm.trans ((own.trans same.symm) ▸ alsoWritten))

def plainKey : KeyBytes := ⟨List.replicate 32 7, length_replicate⟩

theorem accepted_shifted :
    (0x00 : UInt8) = 0x12 ∧ (0xff :: (PeerId.keyHeader ++ plainKey.1)).length ≤ 64 ∨
      (0x00 : UInt8) = 0x00 ∧ (0xff :: (PeerId.keyHeader ++ plainKey.1)).length ≤ 42 := by
  decide

/-- An identity with one more byte before the encoded key. -/
def shiftedIdentity : PeerId := ⟨0x00, 0xff :: (PeerId.keyHeader ++ plainKey.1), accepted_shifted⟩

/-- **A second identity of a key.** It is the identity of no key, and its DID gives the key of
another identity. -/
theorem shiftedIdentity_sharesKey :
    (∀ key, shiftedIdentity ≠ .ofKey key) ∧
      shiftedIdentity.extractEd25519Bytes = some plainKey ∧
      peerIdToDid shiftedIdentity ≠ peerIdToDid (.ofKey plainKey) ∧
      didKey (peerIdToDid shiftedIdentity) = some plainKey ∧
      didKey (peerIdToDid (.ofKey plainKey)) = some plainKey := by
  have extracted : shiftedIdentity.extractEd25519Bytes = some plainKey := by decide +kernel
  have other (key : KeyBytes) : shiftedIdentity ≠ .ofKey key := by
    intro same
    have digests := congrArg PeerId.digest same
    cases (List.cons.inj digests).1
  refine ⟨other, extracted, fun same => ?_, ?_, ?_⟩
  · have read := congrArg didToPeerId same
    rw [didToPeerId_peerIdToDid, didToPeerId_peerIdToDid] at read
    exact other plainKey (Option.some.inj read)
  · rw [didKey, didToPeerId_peerIdToDid, Option.bind_some, extracted]
  · rw [didKey, didToPeerId_peerIdToDid, Option.bind_some, PeerId.extractEd25519Bytes_ofKey]

end KwaaiNet
