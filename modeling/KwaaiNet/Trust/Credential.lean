import KwaaiNet.Foundation.JsonRecord

/-! # Verifiable credentials

The credential record of the trust layer, its JSON form and the bytes that are signed. The
claims about a subject are a hash map that is flattened into the subject's object; the list
that stands for it here is the order in which the map lists its entries. Two credentials with
the same content can therefore differ in that order (`KwaaiNet.VerifiableCredential.reorder`).

A written credential is read back as it was, unless a claim is named `id`
(`KwaaiNet.VerifiableCredential.fromJson_text`).
-/

namespace KwaaiNet

open Foundation List

/-- An instant, in nanoseconds since the epoch. -/
abbrev DateTime := Int

/-- The RFC 3339 texts of instants: what is written is read back. -/
structure Chrono where
  write : DateTime → String
  read : String → Option DateTime
  read_write : ∀ instant, read (write instant) = some instant

inductive KwaaiCredentialType where
  | summitAttendeeVC
  | fiduciaryPledgeVC
  | verifiedNodeVC
  | uptimeVC
  | throughputVC
  | peerEndorsementVC
  | bindingVC
  deriving DecidableEq

namespace KwaaiCredentialType

def asStr : KwaaiCredentialType → String
  | summitAttendeeVC => "SummitAttendeeVC"
  | fiduciaryPledgeVC => "FiduciaryPledgeVC"
  | verifiedNodeVC => "VerifiedNodeVC"
  | uptimeVC => "UptimeVC"
  | throughputVC => "ThroughputVC"
  | peerEndorsementVC => "PeerEndorsementVC"
  | bindingVC => "BindingVC"

def fromTypeStr (text : String) : Option KwaaiCredentialType :=
  match text with
  | "SummitAttendeeVC" => some summitAttendeeVC
  | "FiduciaryPledgeVC" => some fiduciaryPledgeVC
  | "VerifiedNodeVC" => some verifiedNodeVC
  | "UptimeVC" => some uptimeVC
  | "ThroughputVC" => some throughputVC
  | "PeerEndorsementVC" => some peerEndorsementVC
  | "BindingVC" => some bindingVC
  | _ => none

end KwaaiCredentialType

/-- `serde_json::Value`: the objects in it are sorted maps. -/
abbrev ClaimValue := { tree : Json // tree.Sorted }

def ClaimValue.text (value : String) : ClaimValue := ⟨.string value, trivial⟩

/-- The subject of a credential. The claims are in the order in which the map lists them. -/
@[ext]
structure CredentialSubject where
  id : String
  claims : List (String × ClaimValue)
  distinct : (claims.map Prod.fst).Nodup

structure CredentialProof where
  proofType : String
  created : DateTime
  verificationMethod : String
  proofPurpose : String
  proofValue : String

structure VerifiableCredential where
  context : List String
  id : Option String
  credentialType : List String
  issuer : String
  issuanceDate : DateTime
  expirationDate : Option DateTime
  subject : CredentialSubject
  proof : Option CredentialProof

/-! ## Building credentials -/

namespace CredentialSubject

def new (id : String) : CredentialSubject := ⟨id, [], nodup_nil⟩

/-- `with_claim`: a claim of the same name is replaced. -/
def withClaim (subject : CredentialSubject) (key : String) (value : ClaimValue) :
    CredentialSubject where
  id := subject.id
  claims := subject.claims.filter (fun claim => claim.1 ≠ key) ++ [(key, value)]
  distinct := by
    rw [map_append, nodup_append]
    refine ⟨subject.distinct.sublist (filter_sublist.map _), nodup_singleton _, ?_⟩
    intro other member last lastMember
    obtain ⟨claim, kept, rfl⟩ := mem_map.mp member
    rw [map_singleton, mem_singleton] at lastMember
    rw [lastMember]
    exact of_decide_eq_true (mem_filter.mp kept).2

theorem withClaim_claims_of_notMem {subject : CredentialSubject} {key : String}
    (value : ClaimValue) (fresh : key ∉ subject.claims.map Prod.fst) :
    (subject.withClaim key value).claims = subject.claims ++ [(key, value)] := by
  have kept : subject.claims.filter (fun claim => claim.1 ≠ key) = subject.claims := by
    apply filter_eq_self.mpr
    intro claim member
    exact decide_eq_true fun same => fresh (same ▸ mem_map_of_mem member)
  exact congrArg (· ++ [(key, value)]) kept

def reorder (subject : CredentialSubject) {claims : List (String × ClaimValue)}
    (order : subject.claims.Perm claims) : CredentialSubject :=
  ⟨subject.id, claims, (order.map Prod.fst).nodup_iff.mp subject.distinct⟩

end CredentialSubject

namespace VerifiableCredential

def vcContextV1 : String := "https://www.w3.org/2018/credentials/v1"

def kwaaiContextV1 : String := "https://kwaai.ai/credentials/v1"

def new (now : DateTime) (issuer : String) (subject : CredentialSubject)
    (credentialTypes : List String) : VerifiableCredential where
  context := [vcContextV1, kwaaiContextV1]
  id := none
  credentialType := credentialTypes
  issuer := issuer
  issuanceDate := now
  expirationDate := none
  subject := subject
  proof := none

end VerifiableCredential

def days (count : Int) : Int := count * 86400000000000

/-- `summit_attendee_vc`: valid for two years. -/
def summitAttendeeVc (now : DateTime) (issuerDid subjectDid eventName eventDate : String) :
    VerifiableCredential :=
  { VerifiableCredential.new now issuerDid
      (((CredentialSubject.new subjectDid).withClaim "eventName" (.text eventName)).withClaim
        "eventDate" (.text eventDate))
      ["VerifiableCredential", "SummitAttendeeVC"] with
    expirationDate := some (now + days 730) }

/-- `binding_vc`. -/
def bindingVc (now : DateTime) (issuerDid nodeDid passkeyDid : String) : VerifiableCredential :=
  VerifiableCredential.new now issuerDid
    (((CredentialSubject.new nodeDid).withClaim "linkedIdentity" (.text passkeyDid)).withClaim
      "linkType" (.text "PasskeyBinding"))
    ["VerifiableCredential", "BindingVC"]

namespace VerifiableCredential

/-- `kwaai_type`: the first recognised type. -/
def kwaaiType (vc : VerifiableCredential) : Option KwaaiCredentialType :=
  vc.credentialType.findSome? KwaaiCredentialType.fromTypeStr

def isExpired (now : DateTime) (vc : VerifiableCredential) : Bool :=
  (vc.expirationDate.map fun expiry => decide (expiry < now)).getD false

def reorder (vc : VerifiableCredential) {claims : List (String × ClaimValue)}
    (order : vc.subject.claims.Perm claims) : VerifiableCredential :=
  { vc with subject := vc.subject.reorder order }

end VerifiableCredential

/-! ## JSON form -/

section

variable (chrono : Chrono)

def claimEntries (claims : List (String × ClaimValue)) : List (String × Json) :=
  claims.map fun claim => (claim.1, claim.2.1)

/-- The subject's object: its DID, then the claims. -/
def CredentialSubject.toJson (subject : CredentialSubject) : Json :=
  .object (("id", .string subject.id) :: claimEntries subject.claims)

def CredentialProof.toJson (proof : CredentialProof) : Json :=
  .object [("type", .string proof.proofType), ("created", .string (chrono.write proof.created)),
    ("verificationMethod", .string proof.verificationMethod),
    ("proofPurpose", .string proof.proofPurpose), ("proofValue", .string proof.proofValue)]

/-- A missing identifier, expiry or proof is not written. -/
def VerifiableCredential.toJson (vc : VerifiableCredential) : Json :=
  .object (("@context", Json.texts vc.context) ::
    (Json.optionalEntry "id" (vc.id.map .string) ++
    (("type", Json.texts vc.credentialType) :: ("issuer", .string vc.issuer) ::
      ("issuanceDate", .string (chrono.write vc.issuanceDate)) ::
    (Json.optionalEntry "expirationDate"
        (vc.expirationDate.map fun expiry => .string (chrono.write expiry)) ++
    (("credentialSubject", vc.subject.toJson) ::
    Json.optionalEntry "proof" (vc.proof.map fun proof => proof.toJson chrono))))))

def readDateTime (tree : Json) : Option DateTime := (Json.readText tree).bind chrono.read

def CredentialSubject.ofEntries (subject : CredentialSubject) :
    List (String × Json) → CredentialSubject
  | [] => subject
  | (key, value) :: entries =>
    (subject.withClaim key ⟨value.normalize, Json.sorted_normalize value⟩).ofEntries entries

/-- The entry named `id` is the subject's DID; all others are claims. -/
def CredentialSubject.ofJson : Json → Option CredentialSubject
  | .object entries => do
      let id ← Json.required Json.readText entries "id"
      return (CredentialSubject.new id).ofEntries (entries.filter fun entry => entry.1 ≠ "id")
  | _ => none

def CredentialProof.ofJson : Json → Option CredentialProof
  | .object entries => do
      let proofType ← Json.required Json.readText entries "type"
      let created ← Json.required (readDateTime chrono) entries "created"
      let verificationMethod ← Json.required Json.readText entries "verificationMethod"
      let proofPurpose ← Json.required Json.readText entries "proofPurpose"
      let proofValue ← Json.required Json.readText entries "proofValue"
      return { proofType, created, verificationMethod, proofPurpose, proofValue }
  | _ => none

def VerifiableCredential.ofJson : Json → Option VerifiableCredential
  | .object entries => do
      let context ← Json.required Json.readTexts entries "@context"
      let id ← Json.optional Json.readText entries "id"
      let credentialType ← Json.required Json.readTexts entries "type"
      let issuer ← Json.required Json.readText entries "issuer"
      let issuanceDate ← Json.required (readDateTime chrono) entries "issuanceDate"
      let expirationDate ← Json.optional (readDateTime chrono) entries "expirationDate"
      let subject ← Json.required CredentialSubject.ofJson entries "credentialSubject"
      let proof ← Json.optional (CredentialProof.ofJson chrono) entries "proof"
      return { context, id, credentialType, issuer, issuanceDate, expirationDate, subject, proof }
  | _ => none

/-- `to_compact_json`, and `to_string_pretty` with the other layout. -/
def VerifiableCredential.text (layout : Json.Layout) (vc : VerifiableCredential) : String :=
  Json.text layout (vc.toJson chrono)

/-- `from_json`. -/
def VerifiableCredential.fromJson (text : String) : Option VerifiableCredential :=
  (Json.read text).bind (VerifiableCredential.ofJson chrono)

/-- `to_signing_bytes`: the compact text without the proof. -/
def VerifiableCredential.toSigningBytes (vc : VerifiableCredential) : ByteArray :=
  ({ vc with proof := none }.text chrono Json.compact).toByteArray

/-! ## Reading back -/

theorem CredentialProof.readNullable_toJson (proof : CredentialProof) :
    Json.readNullable (CredentialProof.ofJson chrono) (proof.toJson chrono) =
      some (some proof) := by
  simp [toJson, Json.readNullable, ofJson, Json.required, Json.field, Json.readText, readDateTime,
    chrono.read_write]

theorem VerifiableCredential.ofJson_toJson (vc : VerifiableCredential) :
    VerifiableCredential.ofJson chrono (vc.toJson chrono) =
      (CredentialSubject.ofJson vc.subject.toJson).map fun subject => { vc with subject } := by
  obtain ⟨context, id, type, issuer, issued, expiry, subject, proof⟩ := vc
  rw [Option.map_eq_bind]
  -- which of the three optional entries are written decides where the others stand
  cases id <;> cases expiry <;> cases proof <;>
    simp [toJson, ofJson, Json.required, Json.optional, Json.field, Json.optionalEntry,
      Json.readTexts_texts, Json.readText, readDateTime, chrono.read_write,
      CredentialProof.readNullable_toJson]

theorem CredentialSubject.ofEntries_claims (subject : CredentialSubject)
    (claims : List (String × ClaimValue))
    (distinct : ((subject.claims ++ claims).map Prod.fst).Nodup) :
    subject.ofEntries (claimEntries claims) =
      ⟨subject.id, subject.claims ++ claims, distinct⟩ := by
  induction claims generalizing subject with
  | nil =>
    ext1
    · rfl
    · exact (append_nil _).symm
  | cons claim claims ih =>
    obtain ⟨key, tree, sorted⟩ := claim
    have fresh : key ∉ subject.claims.map Prod.fst := by
      rw [map_append] at distinct
      intro member
      exact (nodup_append.mp distinct).2.2 key member key mem_cons_self rfl
    have value : (⟨tree.normalize, Json.sorted_normalize tree⟩ : ClaimValue) = ⟨tree, sorted⟩ :=
      Subtype.ext (Json.normalize_of_sorted tree sorted)
    have added := withClaim_claims_of_notMem (⟨tree, sorted⟩ : ClaimValue) fresh
    have split : (subject.withClaim key ⟨tree, sorted⟩).claims ++ claims =
        subject.claims ++ (key, ⟨tree, sorted⟩) :: claims := by
      rw [added, append_assoc, singleton_append]
    rw [claimEntries, map_cons, ofEntries, value, ← claimEntries,
      ih _ (by rw [split]; exact distinct)]
    ext1
    · rfl
    · exact split

theorem fst_claimEntries (claims : List (String × ClaimValue)) :
    (claimEntries claims).map Prod.fst = claims.map Prod.fst := by
  rw [claimEntries, map_map]
  rfl

/-- A subject is read back when no claim is named `id`. -/
theorem CredentialSubject.ofJson_toJson {subject : CredentialSubject}
    (free : "id" ∉ subject.claims.map Prod.fst) :
    CredentialSubject.ofJson subject.toJson = some subject := by
  rw [← fst_claimEntries] at free
  have claims : (("id", Json.string subject.id) :: claimEntries subject.claims).filter
      (fun entry => entry.1 ≠ "id") = claimEntries subject.claims := by
    rw [filter_cons_of_neg (by simp)]
    apply filter_eq_self.mpr
    intro entry member
    exact decide_eq_true fun named => free (named ▸ mem_map_of_mem member)
  have read := (CredentialSubject.new subject.id).ofEntries_claims subject.claims subject.distinct
  rw [toJson, ofJson, Json.required, Json.field_cons_of_notMem _ free, claims]
  exact congrArg some read

/-- A claim named `id` is a second entry of that name, which is refused. -/
theorem CredentialSubject.ofJson_toJson_eq_none {subject : CredentialSubject}
    (taken : "id" ∈ subject.claims.map Prod.fst) :
    CredentialSubject.ofJson subject.toJson = none := by
  rw [← fst_claimEntries] at taken
  rw [toJson, ofJson, Json.required, Json.field_cons_of_mem _ taken]
  rfl

/-- **A written credential is read back**, in every layout, when no claim is named `id`. -/
theorem VerifiableCredential.fromJson_text (layout : Json.Layout) {vc : VerifiableCredential}
    (free : "id" ∉ vc.subject.claims.map Prod.fst) :
    VerifiableCredential.fromJson chrono (vc.text chrono layout) = some vc := by
  rw [fromJson, text, Json.read_text, Option.bind_some, ofJson_toJson,
    CredentialSubject.ofJson_toJson free, Option.map_some]

theorem VerifiableCredential.fromJson_text_eq_none (layout : Json.Layout)
    {vc : VerifiableCredential} (taken : "id" ∈ vc.subject.claims.map Prod.fst) :
    VerifiableCredential.fromJson chrono (vc.text chrono layout) = none := by
  rw [fromJson, text, Json.read_text, Option.bind_some, ofJson_toJson,
    CredentialSubject.ofJson_toJson_eq_none taken, Option.map_none]

theorem CredentialSubject.notMem_ofEntries {subject : CredentialSubject} {name : String}
    {entries : List (String × Json)} (free : name ∉ subject.claims.map Prod.fst)
    (absent : name ∉ entries.map Prod.fst) :
    name ∉ (subject.ofEntries entries).claims.map Prod.fst := by
  induction entries generalizing subject with
  | nil => exact free
  | cons entry entries ih =>
    rw [map_cons, mem_cons, not_or] at absent
    refine ih ?_ absent.2
    rw [withClaim, map_append, mem_append, not_or]
    exact ⟨fun member => free ((filter_sublist.map Prod.fst).subset member),
      fun last => absent.1 (mem_singleton.mp last)⟩

/-- No claim of a credential that was read is named `id`. -/
theorem VerifiableCredential.id_notMem_of_fromJson {text : String} {vc : VerifiableCredential}
    (read : VerifiableCredential.fromJson chrono text = some vc) :
    "id" ∉ vc.subject.claims.map Prod.fst := by
  have named {tree : Json} {subject : CredentialSubject}
      (read : CredentialSubject.ofJson tree = some subject) :
      "id" ∉ subject.claims.map Prod.fst := by
    cases tree with
    | object entries =>
      obtain ⟨id, -, same⟩ := Option.bind_eq_some_iff.mp read
      obtain rfl := Option.some.inj same
      refine CredentialSubject.notMem_ofEntries not_mem_nil fun member => ?_
      obtain ⟨entry, kept, same⟩ := mem_map.mp member
      exact of_decide_eq_true (mem_filter.mp kept).2 same
    | _ => cases read
  obtain ⟨tree, -, read⟩ := Option.bind_eq_some_iff.mp read
  cases tree with
  | object entries =>
    simp only [ofJson, Option.bind_eq_bind, Option.bind_eq_some_iff] at read
    obtain ⟨_, -, _, -, _, -, _, -, _, -, _, -, subject, found, _, -, same⟩ := read
    obtain rfl := Option.some.inj same
    obtain ⟨value, read⟩ := Json.exists_of_required found
    exact named read
  | _ => cases read

/-! ## Signed bytes -/

theorem claimEntries_injective : Function.Injective claimEntries := by
  apply map_injective_iff.mpr
  rintro ⟨key, value⟩ ⟨otherKey, otherValue⟩ same
  obtain ⟨keys, values⟩ := Prod.mk.inj same
  exact Prod.ext keys (Subtype.ext values)

/-- **The signed bytes keep the order in which the map of claims is listed.** -/
theorem VerifiableCredential.toSigningBytes_reorder_iff (vc : VerifiableCredential)
    {claims : List (String × ClaimValue)} (order : vc.subject.claims.Perm claims) :
    (vc.reorder order).toSigningBytes chrono = vc.toSigningBytes chrono ↔
      claims = vc.subject.claims := by
  constructor
  · intro same
    have trees := Json.text_injective _ (String.toByteArray_inj.mp same)
    simp only [toJson, reorder, CredentialSubject.toJson, CredentialSubject.reorder,
      Json.object.injEq, List.cons.injEq, append_cancel_left_eq, Prod.mk.injEq, true_and,
      and_true] at trees
    exact claimEntries_injective trees
  · rintro rfl
    rfl

end

end KwaaiNet
