import KwaaiNet.Foundation.Base64
import KwaaiNet.Identity.Did
import KwaaiNet.Trust.Credential

/-! # Signing and verifying credentials

The verifier takes the key from the DID in the proof's verification method; the credential's
issuer is compared with nothing. Whatever signature scheme is used, a credential that verifies
was signed under its issuer's key exactly if the verification method names that key, or an
earlier check refuses the credential (`KwaaiNet.issuerAuthentic_iff`).
-/

namespace KwaaiNet

open Foundation

abbrev SignatureBytes := { bytes : List UInt8 // bytes.length = 64 }

/-- An Ed25519 implementation: a key made from a secret is a valid key, and what the secret
signs verifies under it. -/
structure Ed25519 where
  publicKey : KeyBytes → KeyBytes
  sign : KeyBytes → ByteArray → SignatureBytes
  validKey : KeyBytes → Bool
  verify : KeyBytes → ByteArray → SignatureBytes → Bool
  validKey_publicKey : ∀ secret, validKey (publicKey secret) = true
  verify_sign : ∀ secret message, verify (publicKey secret) message (sign secret message) = true

structure VerificationResult where
  structureValid : Bool
  signatureValid : Option Bool
  message : String

/-- `is_valid`. -/
def VerificationResult.isValid (result : VerificationResult) : Bool :=
  result.structureValid && decide (result.signatureValid = some true)

section

variable (ed : Ed25519) (chrono : Chrono) (now : DateTime)

/-- `invalid_structure`. -/
def invalidStructure (message : String) : VerificationResult := ⟨false, none, message⟩

/-- `verify_ed25519_proof`. -/
def verifyEd25519Proof (vc : VerifiableCredential) : Except String Bool :=
  match vc.proof with
  | none => .error "no proof"
  | some proof =>
    match Base64.decode proof.proofValue with
    | none => .error "decoding proofValue base64url"
    | some bytes =>
      if size : bytes.length = 64 then
        let did := Text.before '#' proof.verificationMethod
        match didToPeerId did with
        | none => .error s!"could not parse DID as PeerId: {did}"
        | some peer =>
          match peer.extractEd25519Bytes with
          | none => .error s!"could not extract Ed25519 key from PeerId: {peer.toBase58}"
          | some key =>
            if ed.validKey key then
              .ok (ed.verify key (vc.toSigningBytes chrono) ⟨bytes, size⟩)
            else .error "invalid Ed25519 public key"
      else .error s!"Expected 64-byte Ed25519 signature, got {bytes.length}"

/-- `verify`. -/
def verify (vc : VerifiableCredential) : VerificationResult :=
  if vc.credentialType = [] then invalidStructure "Missing credential type"
  else if vc.issuer = "" then invalidStructure "Missing issuer DID"
  else if vc.subject.id = "" then invalidStructure "Missing subject DID"
  else if vc.isExpired now then invalidStructure "Credential has expired"
  else
    match vc.proof with
    | none => ⟨true, none, "Credential has no proof (unverified)"⟩
    | some proof =>
      if proof.proofType ≠ "Ed25519Signature2020" then
        ⟨true, none, s!"Unsupported proof type: {proof.proofType}"⟩
      else
        match verifyEd25519Proof ed chrono vc with
        | .ok true => ⟨true, some true, "Signature verified ✓"⟩
        | .ok false => ⟨true, some false, "Signature verification failed"⟩
        | .error reason => ⟨true, some false, s!"Verification error: {reason}"⟩

def ed25519Proof (method : String) (signature : SignatureBytes) : CredentialProof where
  proofType := "Ed25519Signature2020"
  created := now
  verificationMethod := method
  proofPurpose := "assertionMethod"
  proofValue := Base64.encode signature.1

/-- `sign_credential_bytes`. -/
def signCredentialBytes (secret : KeyBytes) (issuer : PeerId) (vc : VerifiableCredential) :
    VerifiableCredential :=
  let signature := ed.sign secret (vc.toSigningBytes chrono)
  { vc with proof := some (ed25519Proof now (verificationMethod issuer) signature) }

/-- `sign_vc`, the summit server's signer. -/
def signVc (secret : KeyBytes) (issuerDid : String) (vc : VerifiableCredential) :
    VerifiableCredential :=
  let signature := ed.sign secret (vc.toSigningBytes chrono)
  { vc with proof := some (ed25519Proof now (issuerDid ++ "#key-1") signature) }

end

/-! ## What the verifier accepts -/

/-- The public key that a `did:peer:` DID carries. -/
def didKey (did : String) : Option KeyBytes := (didToPeerId did).bind PeerId.extractEd25519Bytes

/-- The structure checks of `verify` pass. -/
structure WellFormed (now : DateTime) (vc : VerifiableCredential) : Prop where
  type : vc.credentialType ≠ []
  issuer : vc.issuer ≠ ""
  subject : vc.subject.id ≠ ""
  fresh : vc.isExpired now = false

/-- Every check before the signature passes, and the signature is compared under a key. -/
structure ChecksUnder (now : DateTime) (vc : VerifiableCredential) (key : KeyBytes)
    (signature : SignatureBytes) : Prop where
  wellFormed : WellFormed now vc
  proof : ∃ proof, vc.proof = some proof ∧ proof.proofType = "Ed25519Signature2020" ∧
    Base64.decode proof.proofValue = some signature.1 ∧
      didKey (Text.before '#' proof.verificationMethod) = some key

section

variable {ed : Ed25519} {chrono : Chrono} {now : DateTime} {vc : VerifiableCredential}

theorem verifyEd25519Proof_eq_ok_true_iff {proof : CredentialProof}
    (attached : vc.proof = some proof) :
    verifyEd25519Proof ed chrono vc = .ok true ↔
      ∃ key signature, Base64.decode proof.proofValue = some signature.1 ∧
        didKey (Text.before '#' proof.verificationMethod) = some key ∧
          ed.validKey key = true ∧ ed.verify key (vc.toSigningBytes chrono) signature = true := by
  rw [verifyEd25519Proof, attached]
  constructor
  · intro accepted
    dsimp only at accepted
    split at accepted
    case h_1 => cases accepted
    case h_2 bytes decoded =>
      split at accepted
      case isFalse => cases accepted
      case isTrue size =>
        split at accepted
        case h_1 => cases accepted
        case h_2 peer parsed =>
          split at accepted
          case h_1 => cases accepted
          case h_2 key extracted =>
            split at accepted
            case isFalse => cases accepted
            case isTrue valid =>
              refine ⟨key, ⟨bytes, size⟩, decoded, ?_, valid, Except.ok.inj accepted⟩
              rw [didKey, parsed, Option.bind_some, extracted]
  · rintro ⟨key, ⟨bytes, size⟩, decoded, named, valid, verified⟩
    obtain ⟨peer, parsed, extracted⟩ := Option.bind_eq_some_iff.mp named
    simp only [decoded, parsed, extracted, size, valid, verified, ↓reduceDIte, ↓reduceIte]

theorem signatureValid_eq_some_true_iff :
    (verify ed chrono now vc).signatureValid = some true ↔
      ∃ key signature, ChecksUnder now vc key signature ∧ ed.validKey key = true ∧
        ed.verify key (vc.toSigningBytes chrono) signature = true := by
  constructor
  · intro accepted
    unfold verify at accepted
    split_ifs at accepted with type issuer subject expired
    · cases accepted
    · cases accepted
    · cases accepted
    · cases accepted
    split at accepted
    case h_1 => cases accepted
    case h_2 proof attached =>
      split at accepted
      case isTrue => cases accepted
      case isFalse other =>
        split at accepted
        case h_1 verified =>
          obtain ⟨key, signature, decoded, named, valid, verified⟩ :=
            (verifyEd25519Proof_eq_ok_true_iff attached).mp verified
          have wellFormed : WellFormed now vc :=
            ⟨type, issuer, subject, eq_false_of_ne_true expired⟩
          exact ⟨key, signature, ⟨wellFormed, proof, attached, not_not.mp other, decoded, named⟩,
            valid, verified⟩
        case h_2 => cases accepted
        case h_3 => cases accepted
  · rintro ⟨key, signature, ⟨wellFormed, proof, attached, kind, decoded, named⟩, valid, verified⟩
    have accepted : verifyEd25519Proof ed chrono vc = .ok true :=
      (verifyEd25519Proof_eq_ok_true_iff attached).mpr
        ⟨key, signature, decoded, named, valid, verified⟩
    rw [verify, if_neg wellFormed.type, if_neg wellFormed.issuer, if_neg wellFormed.subject,
      if_neg (by rw [wellFormed.fresh]; decide), attached]
    simp only [kind, ne_eq, not_true_eq_false, ↓reduceIte, accepted]

theorem structureValid_iff :
    (verify ed chrono now vc).structureValid = true ↔ WellFormed now vc := by
  unfold verify
  split_ifs with type issuer subject expired
  · exact ⟨nofun, fun wellFormed => absurd type wellFormed.type⟩
  · exact ⟨nofun, fun wellFormed => absurd issuer wellFormed.issuer⟩
  · exact ⟨nofun, fun wellFormed => absurd subject wellFormed.subject⟩
  · exact ⟨nofun, fun wellFormed => absurd (wellFormed.fresh.symm.trans expired) (by decide)⟩
  · refine ⟨fun _ => ⟨type, issuer, subject, eq_false_of_ne_true expired⟩, fun _ => ?_⟩
    split
    case h_1 => rfl
    case h_2 =>
      split
      case isTrue => rfl
      case isFalse => split <;> rfl

theorem isValid_iff :
    (verify ed chrono now vc).isValid = true ↔
      ∃ key signature, ChecksUnder now vc key signature ∧ ed.validKey key = true ∧
        ed.verify key (vc.toSigningBytes chrono) signature = true := by
  rw [← signatureValid_eq_some_true_iff, VerificationResult.isValid, Bool.and_eq_true,
    decide_eq_true_iff]
  refine ⟨fun both => both.2, fun accepted => ⟨?_, accepted⟩⟩
  obtain ⟨_, _, checks, _⟩ := signatureValid_eq_some_true_iff.mp accepted
  exact structureValid_iff.mpr checks.wellFormed

theorem ChecksUnder.unique {key other : KeyBytes} {signature otherSignature : SignatureBytes}
    (checks : ChecksUnder now vc key signature)
    (otherChecks : ChecksUnder now vc other otherSignature) :
    key = other ∧ signature = otherSignature := by
  obtain ⟨proof, attached, _, decoded, named⟩ := checks.proof
  obtain ⟨otherProof, otherAttached, _, otherDecoded, otherNamed⟩ := otherChecks.proof
  obtain rfl : proof = otherProof := Option.some.inj (attached.symm.trans otherAttached)
  refine ⟨Option.some.inj (named.symm.trans otherNamed), ?_⟩
  exact Subtype.ext (Option.some.inj (decoded.symm.trans otherDecoded))

end

/-! ## What the signers make -/

theorem didKey_peerIdToDid_ofKey (key : KeyBytes) :
    didKey (peerIdToDid (PeerId.ofKey key)) = some key := by
  rw [didKey, didToPeerId_peerIdToDid, Option.bind_some, PeerId.extractEd25519Bytes_ofKey]

theorem didKey_before_verificationMethod (key : KeyBytes) :
    didKey (Text.before '#' (verificationMethod (PeerId.ofKey key))) = some key := by
  rw [before_hash_verificationMethod, didKey_peerIdToDid_ofKey]

theorem WellFormed.checksUnder_ed25519Proof {now : DateTime} {vc : VerifiableCredential}
    (wellFormed : WellFormed now vc) (created : DateTime) {method : String} {key : KeyBytes}
    (named : didKey (Text.before '#' method) = some key) (signature : SignatureBytes) :
    ChecksUnder now { vc with proof := some (ed25519Proof created method signature) } key
      signature :=
  ⟨⟨wellFormed.type, wellFormed.issuer, wellFormed.subject, wellFormed.fresh⟩,
    _, rfl, rfl, Base64.decode_encode _, named⟩

/-! ## Issuers -/

/-- If the credential verifies, its issuer is a `did:peer:` DID, and the proof value is a
signature of the credential under the key in that DID. -/
def IssuerAuthentic (ed : Ed25519) (chrono : Chrono) (now : DateTime) (vc : VerifiableCredential) :
    Prop :=
  (verify ed chrono now vc).isValid = true →
    ∃ peer key proof signature, didToPeerId vc.issuer = some peer ∧
      peer.extractEd25519Bytes = some key ∧ vc.proof = some proof ∧
        Base64.decode proof.proofValue = some signature.1 ∧
          ed.verify key (vc.toSigningBytes chrono) signature = true

/-- A scheme in which one key verifies everything and the others nothing. -/
def onlyKey (key : KeyBytes) : Ed25519 where
  publicKey _ := key
  sign _ _ := ⟨List.replicate 64 0, rfl⟩
  validKey _ := true
  verify named _ _ := decide (named = key)
  validKey_publicKey _ := rfl
  verify_sign _ _ := decide_eq_true rfl

/-- **Verified credentials are their issuer's, under every signature scheme, exactly if the
verification method of a credential that reaches the signature check names its issuer's key.** -/
theorem issuerAuthentic_iff (chrono : Chrono) (now : DateTime) (vc : VerifiableCredential) :
    (∀ ed, IssuerAuthentic ed chrono now vc) ↔
      ∀ key signature, ChecksUnder now vc key signature → didKey vc.issuer = some key := by
  constructor
  · intro authentic key signature checks
    have accepted : (verify (onlyKey key) chrono now vc).isValid = true :=
      isValid_iff.mpr ⟨key, signature, checks, rfl, decide_eq_true rfl⟩
    obtain ⟨peer, named, _, _, parsed, extracted, _, _, verified⟩ := authentic _ accepted
    have same : named = key := of_decide_eq_true verified
    rw [didKey, parsed, Option.bind_some, extracted, same]
  · intro named ed accepted
    obtain ⟨key, signature, checks, _, verified⟩ := isValid_iff.mp accepted
    obtain ⟨proof, attached, _, decoded, _⟩ := checks.proof
    obtain ⟨peer, parsed, extracted⟩ := Option.bind_eq_some_iff.mp (named key signature checks)
    exact ⟨peer, key, proof, signature, parsed, extracted, attached, decoded, verified⟩

/-! ## A forged issuer -/

/-- A stroke a nanosecond. -/
def strokes (instant : DateTime) : String :=
  String.ofList (List.replicate instant.toNat '+' ++ List.replicate (-instant).toNat '-')

theorem strokes_ne {text : String} (instant : DateTime) (digit : '1' ∈ text.toList) :
    strokes instant ≠ text := by
  rintro rfl
  simp [strokes] at digit

/-- Date texts: two instants as RFC 3339 has them, and strokes for all others. -/
def sampleChrono : Chrono where
  write instant :=
    if instant = 0 then "1970-01-01T00:00:00Z"
    else if instant = days 730 then "1972-01-01T00:00:00Z"
    else strokes instant
  read text :=
    if text = "1970-01-01T00:00:00Z" then some 0
    else if text = "1972-01-01T00:00:00Z" then some (days 730)
    else some (text.toList.count '+' - text.toList.count '-')
  read_write instant := by
    by_cases epoch : instant = 0
    · rw [if_pos epoch, if_pos rfl, epoch]
    by_cases later : instant = days 730
    · rw [if_neg epoch, if_pos later, if_neg (by decide), if_pos rfl, later]
    rw [if_neg epoch, if_neg later, if_neg (strokes_ne instant (by decide)),
      if_neg (strokes_ne instant (by decide)), strokes, String.toList_ofList]
    simp [List.count_replicate]

def markingScheme (marked : ByteArray) : Ed25519 where
  publicKey secret := secret
  sign secret message :=
    ⟨secret.1 ++ List.replicate 32 (if message = marked then 1 else 0), by
      rw [List.length_append, secret.2, List.length_replicate]⟩
  validKey _ := true
  verify key message signature :=
    decide (signature.1 = key.1 ++ List.replicate 32 (if message = marked then 1 else 0))
  validKey_publicKey _ := rfl
  verify_sign _ _ := decide_eq_true rfl

def repeatedKey (byte : UInt8) : KeyBytes := ⟨List.replicate 32 byte, List.length_replicate⟩

/-- A credential in the name of the holder of key 1, not yet signed. -/
def victimCredential : VerifiableCredential :=
  VerifiableCredential.new 0 (peerIdToDid (PeerId.ofKey (repeatedKey 1)))
    (CredentialSubject.new "did:peer:node") ["VerifiableCredential", "VerifiedNodeVC"]

theorem victimCredential_wellFormed : WellFormed 0 victimCredential :=
  ⟨by decide, peerIdToDid_ne_empty _, by decide, rfl⟩

/-- The holder of key 2 signs it. -/
def forgedCredential : VerifiableCredential :=
  signCredentialBytes (markingScheme .empty) sampleChrono 0 (repeatedKey 2)
    (PeerId.ofKey (repeatedKey 2)) victimCredential

/-- The forged credential verifies, and its proof is no signature of the issuer it names. -/
theorem forgedCredential_not_authentic :
    ¬ IssuerAuthentic (markingScheme .empty) sampleChrono 0 forgedCredential := by
  intro authentic
  have checks : ChecksUnder 0 forgedCredential (repeatedKey 2) _ :=
    victimCredential_wellFormed.checksUnder_ed25519Proof 0
      (didKey_before_verificationMethod (repeatedKey 2)) _
  have accepted : (verify (markingScheme .empty) sampleChrono 0 forgedCredential).isValid = true :=
    isValid_iff.mpr ⟨_, _, checks, rfl, (markingScheme .empty).verify_sign (repeatedKey 2) _⟩
  obtain ⟨peer, key, proof, signature, parsed, extracted, attached, decoded, verified⟩ :=
    authentic accepted
  have issuerKey : some key = some (repeatedKey 1) := by
    have named := didKey_peerIdToDid_ofKey (repeatedKey 1)
    rwa [didKey, show didToPeerId (peerIdToDid (PeerId.ofKey (repeatedKey 1))) = some peer from
      parsed, Option.bind_some, extracted] at named
  obtain rfl := Option.some.inj issuerKey
  obtain rfl := Option.some.inj attached
  have signed := Option.some.inj ((Base64.decode_encode _).symm.trans decoded)
  have bytes : signature.1 = (repeatedKey 1).1 ++ _ := of_decide_eq_true verified
  rw [← signed] at bytes
  exact absurd (List.cons.inj bytes).1 (by decide)

end KwaaiNet
