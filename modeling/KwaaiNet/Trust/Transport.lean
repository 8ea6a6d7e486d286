import KwaaiNet.Trust.Verify

/-! # Credentials in transport

A credential is signed, written, read back and verified. Reading makes a new hash map of the
claims, which may list them in any order, and the signed bytes follow that order. So the
signature survives exactly on credentials with at most one claim, not named `id`, that pass the
verifier's structure checks (`KwaaiNet.survivesTransport_iff`).
-/

namespace KwaaiNet

open Foundation

theorem eq_of_perm_of_length_le_one {α : Type} {entries other : List α}
    (short : entries.length ≤ 1) (order : entries.Perm other) : other = entries := by
  match entries, short with
  | [], _ => exact order.symm.eq_nil
  | [entry], _ => exact order.symm.eq_singleton

/-- Signed by either signer, written in either layout and read back, the credential's signature
is valid whatever order the new map of claims has. -/
def SurvivesTransport (chrono : Chrono) (signedAt verifiedAt : DateTime) (key : KeyBytes)
    (vc : VerifiableCredential) : Prop :=
  ∀ (ed : Ed25519) (secret : KeyBytes), ed.publicKey secret = key →
    ∀ signed ∈ [signCredentialBytes ed chrono signedAt secret (PeerId.ofKey key) vc,
      signVc ed chrono signedAt secret vc.issuer vc],
    ∀ layout ∈ [Json.compact, Json.pretty],
      ∃ received, VerifiableCredential.fromJson chrono (signed.text chrono layout) = some received ∧
        ∀ (claims : List (String × ClaimValue)) (order : received.subject.claims.Perm claims),
          (verify ed chrono verifiedAt (received.reorder order)).signatureValid = some true

/-- The credential passes the structure checks and has at most one claim, not named `id`. -/
structure Transportable (now : DateTime) (vc : VerifiableCredential) : Prop where
  wellFormed : WellFormed now vc
  single : vc.subject.claims.length ≤ 1
  free : "id" ∉ vc.subject.claims.map Prod.fst

section

variable {chrono : Chrono} {signedAt verifiedAt : DateTime} {key : KeyBytes}
variable {vc : VerifiableCredential}

/-- The summit server's signer attaches the proof that the library's signer attaches. -/
theorem signVc_peerIdToDid (ed : Ed25519) (secret : KeyBytes) (peer : PeerId) :
    signVc ed chrono signedAt secret (peerIdToDid peer) vc =
      signCredentialBytes ed chrono signedAt secret peer vc := rfl

theorem WellFormed.reorder {now : DateTime} (wellFormed : WellFormed now vc)
    {claims : List (String × ClaimValue)} (order : vc.subject.claims.Perm claims) :
    WellFormed now (vc.reorder order) :=
  ⟨wellFormed.type, wellFormed.issuer, wellFormed.subject, wellFormed.fresh⟩

theorem signatureValid_reorder_iff (ed : Ed25519) {secret : KeyBytes}
    (pair : ed.publicKey secret = key) (wellFormed : WellFormed verifiedAt vc)
    {claims : List (String × ClaimValue)} (order : vc.subject.claims.Perm claims) :
    (verify ed chrono verifiedAt
      ((signCredentialBytes ed chrono signedAt secret (PeerId.ofKey key) vc).reorder
        order)).signatureValid = some true ↔
      ed.verify key ((vc.reorder order).toSigningBytes chrono)
        (ed.sign secret (vc.toSigningBytes chrono)) = true := by
  have checks : ChecksUnder verifiedAt
      ((signCredentialBytes ed chrono signedAt secret (PeerId.ofKey key) vc).reorder order) key
        (ed.sign secret (vc.toSigningBytes chrono)) :=
    (wellFormed.reorder order).checksUnder_ed25519Proof signedAt
      (didKey_before_verificationMethod key) _
  rw [signatureValid_eq_some_true_iff]
  constructor
  · rintro ⟨named, signature, named_checks, _, verified⟩
    obtain ⟨rfl, rfl⟩ := checks.unique named_checks
    exact verified
  · intro verified
    exact ⟨key, _, checks, pair ▸ ed.validKey_publicKey secret, verified⟩

/-- What the reader needs of a credential that survives: no claim is named `id`. -/
theorem SurvivesTransport.free (survives : SurvivesTransport chrono signedAt verifiedAt key vc) :
    "id" ∉ vc.subject.claims.map Prod.fst := by
  intro taken
  obtain ⟨received, read, _⟩ := survives (markingScheme .empty) key rfl _ List.mem_cons_self _
    List.mem_cons_self
  cases read.symm.trans (VerifiableCredential.fromJson_text_eq_none chrono Json.compact taken)

theorem SurvivesTransport.signatureValid
    (survives : SurvivesTransport chrono signedAt verifiedAt key vc) (ed : Ed25519)
    {secret : KeyBytes} (pair : ed.publicKey secret = key)
    {claims : List (String × ClaimValue)} (order : vc.subject.claims.Perm claims) :
    (verify ed chrono verifiedAt
      ((signCredentialBytes ed chrono signedAt secret (PeerId.ofKey key) vc).reorder
        order)).signatureValid = some true := by
  obtain ⟨received, read, valid⟩ := survives ed secret pair _ List.mem_cons_self _
    List.mem_cons_self
  obtain rfl := Option.some.inj
    (read.symm.trans (VerifiableCredential.fromJson_text chrono Json.compact survives.free))
  exact valid claims order

theorem SurvivesTransport.wellFormed
    (survives : SurvivesTransport chrono signedAt verifiedAt key vc) :
    WellFormed verifiedAt vc := by
  have valid := survives.signatureValid (markingScheme .empty) rfl (List.Perm.refl _)
  obtain ⟨_, _, checks, _, _⟩ := signatureValid_eq_some_true_iff.mp valid
  exact ⟨checks.wellFormed.type, checks.wellFormed.issuer, checks.wellFormed.subject,
    checks.wellFormed.fresh⟩

theorem SurvivesTransport.claims_eq
    (survives : SurvivesTransport chrono signedAt verifiedAt key vc)
    {claims : List (String × ClaimValue)} (order : vc.subject.claims.Perm claims) :
    claims = vc.subject.claims := by
  have verified := (signatureValid_reorder_iff _ rfl survives.wellFormed order).mp
    (survives.signatureValid (markingScheme (vc.toSigningBytes chrono)) rfl order)
  have marks := List.append_cancel_left (of_decide_eq_true verified)
  rw [if_pos rfl, List.replicate_inj] at marks
  rw [← vc.toSigningBytes_reorder_iff chrono order]
  by_contra other
  rw [if_neg other] at marks
  exact absurd marks.2 (by decide)

theorem SurvivesTransport.single
    (survives : SurvivesTransport chrono signedAt verifiedAt key vc) :
    vc.subject.claims.length ≤ 1 := by
  by_contra! several
  obtain ⟨first, second, rest, shape⟩ : ∃ first second rest,
      vc.subject.claims = first :: second :: rest := by
    match shape : vc.subject.claims with
    | [] => rw [shape] at several; cases several
    | [_] => rw [shape] at several; simp at several
    | first :: second :: rest => exact ⟨first, second, rest, rfl⟩
  have swapped : vc.subject.claims.Perm (second :: first :: rest) :=
    shape ▸ List.Perm.swap second first rest
  have same := survives.claims_eq swapped
  have distinct := vc.subject.distinct
  rw [shape] at same distinct
  rw [(List.cons.inj same).1] at distinct
  simp at distinct

end

/-- **Signatures survive transport exactly on well-formed credentials with at most one claim,
not named `id`.** -/
theorem survivesTransport_iff {chrono : Chrono} {signedAt verifiedAt : DateTime} {key : KeyBytes}
    {vc : VerifiableCredential} (issued : vc.issuer = peerIdToDid (PeerId.ofKey key)) :
    SurvivesTransport chrono signedAt verifiedAt key vc ↔ Transportable verifiedAt vc := by
  constructor
  · intro survives
    exact ⟨survives.wellFormed, survives.single, survives.free⟩
  · intro transportable ed secret pair signed signer layout _
    have signedEq : signed =
        signCredentialBytes ed chrono signedAt secret (PeerId.ofKey key) vc := by
      rw [issued, signVc_peerIdToDid, List.mem_pair, or_self] at signer
      exact signer
    subst signedEq
    refine ⟨_, VerifiableCredential.fromJson_text chrono layout transportable.free, ?_⟩
    intro claims order
    have same := eq_of_perm_of_length_le_one transportable.single order
    rw [signatureValid_reorder_iff ed pair transportable.wellFormed order,
      (vc.toSigningBytes_reorder_iff chrono order).mpr same, ← pair]
    exact ed.verify_sign secret _

def pledgeCredential : VerifiableCredential :=
  VerifiableCredential.new 0 (peerIdToDid (PeerId.ofKey (repeatedKey 1)))
    ((CredentialSubject.new "did:peer:node").withClaim "pledgeHash" (.text "0f"))
    ["VerifiableCredential", "FiduciaryPledgeVC"]

theorem pledgeCredential_survives :
    SurvivesTransport sampleChrono 0 0 (repeatedKey 1) pledgeCredential :=
  (survivesTransport_iff rfl).mpr
    ⟨⟨by decide, peerIdToDid_ne_empty _, by decide, rfl⟩, by decide, by decide⟩

/-- The credential the summit server issues has two claims, and its signature is lost when the
new map lists them the other way round. -/
theorem summitAttendeeVc_not_survivesTransport :
    ¬ SurvivesTransport sampleChrono 0 0 (repeatedKey 1)
      (summitAttendeeVc 0 (peerIdToDid (PeerId.ofKey (repeatedKey 1))) "did:key:zAttendee"
        "Kwaai Personal AI Summit 2026" "2026-03-15") :=
  fun survives => absurd survives.single (by decide)

end KwaaiNet
