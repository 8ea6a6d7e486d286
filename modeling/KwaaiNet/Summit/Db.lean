import KwaaiNet.Identity.Did
import KwaaiNet.Trust.Credential

/-! # The summit server's database

The tables of the summit server with their unique columns, and the statements the handlers run
on them. A statement is executed at once; between two statements of a handler others may run.
`KwaaiNet.Db.Drops` is the frame of the statements that leave passkeys alone.
-/

namespace KwaaiNet

open List

abbrev Uuid := Nat

/-- The WebAuthn library. A started authentication remembers the passkeys it was started with,
and it accepts the assertions that one of them signed. The key of a passkey is a P-256 point, or
of another kind. -/
structure Webauthn where
  Passkey : Type
  RegistrationState : Type
  RegisterCredential : Type
  AuthenticationState : Type
  Assertion : Type
  CreationChallenge : Type
  RequestChallenge : Type
  credId : Passkey → List UInt8
  publicKey : Passkey → Option P256Point
  startRegistration : Uuid → String → Nat → Except String (CreationChallenge × RegistrationState)
  finishRegistration : RegisterCredential → RegistrationState → Except String Passkey
  startAuthentication : List Passkey → Nat →
    Except String (RequestChallenge × AuthenticationState)
  passkeys : AuthenticationState → List Passkey
  signedBy : Assertion → AuthenticationState → Passkey → Bool
  finishAuthentication : Assertion → AuthenticationState → Except String Unit
  passkeys_of_start : ∀ {keys challenge options state},
    startAuthentication keys challenge = .ok (options, state) → passkeys state = keys
  finishAuthentication_ok_iff : ∀ {assertion state},
    finishAuthentication assertion state = .ok () ↔
      ∃ passkey ∈ passkeys state, signedBy assertion state passkey = true

variable (W : Webauthn)

/-- Credential ids are compared byte by byte. -/
local instance lawfulCredentialId : LawfulBEq (List UInt8) := inferInstance

structure PasskeyRow where
  userId : Uuid
  credentialId : List UInt8
  didKey : String
  displayName : String
  passkey : W.Passkey

structure PendingRegistration where
  challengeId : Uuid
  userId : Uuid
  displayName : String
  state : W.RegistrationState
  expiresAt : DateTime

structure PendingAuthentication where
  challengeId : Uuid
  state : W.AuthenticationState
  expiresAt : DateTime

structure IssuedVc where
  subjectDid : String
  vcType : String
  vcJson : String
  issuedAt : DateTime

structure NodeBinding where
  passkeyDid : String
  nodeDid : String
  bindingVcJson : String

structure SessionRow where
  token : Uuid
  userId : Uuid
  passkeyDid : String
  expiresAt : DateTime

/-- The tables, newest rows first. Credential identifiers and DIDs of passkeys are unique. -/
structure Db where
  passkeyCredentials : List (PasskeyRow W)
  pendingRegistrations : List (PendingRegistration W)
  pendingAuthentications : List (PendingAuthentication W)
  issuedVcs : List IssuedVc
  nodeBindings : List NodeBinding
  sessions : List SessionRow
  credentialId_unique : (passkeyCredentials.map PasskeyRow.credentialId).Nodup
  didKey_unique : (passkeyCredentials.map PasskeyRow.didKey).Nodup

def minutes (count : Int) : Int := count * 60000000000

namespace Db

variable {W} (db : Db W)

def empty : Db W where
  passkeyCredentials := []
  pendingRegistrations := []
  pendingAuthentications := []
  issuedVcs := []
  nodeBindings := []
  sessions := []
  credentialId_unique := nodup_nil
  didKey_unique := nodup_nil

theorem credentialIds_nodup_cons (row : PasskeyRow W)
    (fresh : row.credentialId ∉ db.passkeyCredentials.map PasskeyRow.credentialId) :
    ((row :: db.passkeyCredentials).map PasskeyRow.credentialId).Nodup :=
  nodup_cons.mpr ⟨fresh, db.credentialId_unique⟩

theorem didKeys_nodup_cons (row : PasskeyRow W)
    (fresh : row.didKey ∉ db.passkeyCredentials.map PasskeyRow.didKey) :
    ((row :: db.passkeyCredentials).map PasskeyRow.didKey).Nodup :=
  nodup_cons.mpr ⟨fresh, db.didKey_unique⟩

/-- `insert_passkey_credential`: a known credential identifier changes nothing; a known DID is
an error. -/
def insertPasskeyCredential (row : PasskeyRow W) : Except String (Db W) :=
  if known : row.credentialId ∈ db.passkeyCredentials.map PasskeyRow.credentialId then .ok db
  else if taken : row.didKey ∈ db.passkeyCredentials.map PasskeyRow.didKey then
    .error "insert_passkey_credential"
  else
    .ok { db with
      passkeyCredentials := row :: db.passkeyCredentials
      credentialId_unique := db.credentialIds_nodup_cons row known
      didKey_unique := db.didKeys_nodup_cons row taken }

/-- `get_passkeys_for_did`. -/
def getPasskeysForDid (didKey : String) : List (Uuid × W.Passkey) :=
  (db.passkeyCredentials.filter fun row => row.didKey = didKey).map fun row =>
    (row.userId, row.passkey)

/-- `insert_pending_registration`: the row expires after five minutes. -/
def insertPendingRegistration (now : DateTime) (challengeId userId : Uuid) (displayName : String)
    (state : W.RegistrationState) : Except String (Db W) :=
  if db.pendingRegistrations.any fun row => row.challengeId = challengeId then .error "db error"
  else
    .ok { db with
      pendingRegistrations :=
        ⟨challengeId, userId, displayName, state, now + minutes 5⟩ :: db.pendingRegistrations }

/-- `take_pending_registration`: an unexpired row is deleted and returned. -/
def takePendingRegistration (now : DateTime) (challengeId : Uuid) :
    Db W × Option (PendingRegistration W) :=
  match db.pendingRegistrations.find? fun row =>
      decide (row.challengeId = challengeId) && decide (now < row.expiresAt) with
  | none => (db, none)
  | some row =>
    ({ db with
      pendingRegistrations := db.pendingRegistrations.filter fun row =>
        !(decide (row.challengeId = challengeId) && decide (now < row.expiresAt)) }, some row)

/-- `insert_pending_authentication`. -/
def insertPendingAuthentication (now : DateTime) (challengeId : Uuid)
    (state : W.AuthenticationState) : Except String (Db W) :=
  if db.pendingAuthentications.any fun row => row.challengeId = challengeId then .error "db error"
  else
    .ok { db with
      pendingAuthentications := ⟨challengeId, state, now + minutes 5⟩ :: db.pendingAuthentications }

/-- `take_pending_authentication`. -/
def takePendingAuthentication (now : DateTime) (challengeId : Uuid) :
    Db W × Option (PendingAuthentication W) :=
  match db.pendingAuthentications.find? fun row =>
      decide (row.challengeId = challengeId) && decide (now < row.expiresAt) with
  | none => (db, none)
  | some row =>
    ({ db with
      pendingAuthentications := db.pendingAuthentications.filter fun row =>
        !(decide (row.challengeId = challengeId) && decide (now < row.expiresAt)) }, some row)

/-- `insert_vc`. -/
def insertVc (now : DateTime) (subjectDid vcType vcJson : String) : Db W :=
  { db with issuedVcs := ⟨subjectDid, vcType, vcJson, now⟩ :: db.issuedVcs }

/-- `get_vcs_for_subject`: the latest first. -/
def getVcsForSubject (subjectDid : String) : List String :=
  ((db.issuedVcs.filter fun vc => vc.subjectDid = subjectDid).mergeSort
    fun first second => second.issuedAt ≤ first.issuedAt).map IssuedVc.vcJson

/-- `insert_node_binding`: a known binding changes nothing. -/
def insertNodeBinding (passkeyDid nodeDid bindingVcJson : String) : Db W :=
  if db.nodeBindings.any fun row => row.passkeyDid = passkeyDid && row.nodeDid = nodeDid then db
  else { db with nodeBindings := ⟨passkeyDid, nodeDid, bindingVcJson⟩ :: db.nodeBindings }

/-- `insert_session`: the session expires after thirty days. -/
def insertSession (now : DateTime) (token userId : Uuid) (passkeyDid : String) :
    Except String (Db W) :=
  if db.sessions.any fun row => row.token = token then .error "db error"
  else .ok { db with sessions := ⟨token, userId, passkeyDid, now + days 30⟩ :: db.sessions }

/-- `get_session`. -/
def getSession (now : DateTime) (token : Uuid) : Option (Uuid × String) :=
  (db.sessions.find? fun row => decide (row.token = token) && decide (now < row.expiresAt)).map
    fun row => (row.userId, row.passkeyDid)

/-! ## Frames -/

/-- The passkeys are the same, and no pending authentication is new. -/
structure Drops (db after : Db W) : Prop where
  passkeys : after.passkeyCredentials = db.passkeyCredentials
  authentications : after.pendingAuthentications ⊆ db.pendingAuthentications

theorem Drops.refl : db.Drops db := ⟨rfl, List.Subset.refl _⟩

theorem drops_insertVc (now : DateTime) (subjectDid vcType vcJson : String) :
    db.Drops (db.insertVc now subjectDid vcType vcJson) := ⟨rfl, List.Subset.refl _⟩

theorem drops_insertNodeBinding (passkeyDid nodeDid bindingVcJson : String) :
    db.Drops (db.insertNodeBinding passkeyDid nodeDid bindingVcJson) := by
  unfold insertNodeBinding
  split
  · exact .refl db
  · exact ⟨rfl, List.Subset.refl _⟩

variable {db}

theorem Drops.passkeys_subset {after : Db W} (drops : db.Drops after) :
    db.passkeyCredentials ⊆ after.passkeyCredentials := by
  rw [drops.passkeys]
  exact List.Subset.refl _

theorem drops_takePendingRegistration {now : DateTime} {challengeId : Uuid} {after : Db W}
    {row : Option (PendingRegistration W)}
    (taken : db.takePendingRegistration now challengeId = (after, row)) : db.Drops after := by
  unfold takePendingRegistration at taken
  split at taken
  · obtain rfl := (Prod.mk.inj taken).1
    exact .refl _
  · obtain rfl := (Prod.mk.inj taken).1
    exact ⟨rfl, List.Subset.refl _⟩

theorem drops_takePendingAuthentication {now : DateTime} {challengeId : Uuid} {after : Db W}
    {row : Option (PendingAuthentication W)}
    (taken : db.takePendingAuthentication now challengeId = (after, row)) : db.Drops after := by
  unfold takePendingAuthentication at taken
  split at taken
  · obtain rfl := (Prod.mk.inj taken).1
    exact .refl _
  · obtain rfl := (Prod.mk.inj taken).1
    exact ⟨rfl, filter_subset_self _⟩

theorem drops_insertPendingRegistration {now : DateTime} {challengeId userId : Uuid}
    {displayName : String} {state : W.RegistrationState} {after : Db W}
    (inserted : db.insertPendingRegistration now challengeId userId displayName state =
      .ok after) : db.Drops after := by
  unfold insertPendingRegistration at inserted
  split at inserted
  · cases inserted
  · obtain rfl := Except.ok.inj inserted
    exact ⟨rfl, List.Subset.refl _⟩

theorem drops_insertSession {now : DateTime} {token userId : Uuid} {passkeyDid : String}
    {after : Db W} (inserted : db.insertSession now token userId passkeyDid = .ok after) :
    db.Drops after := by
  unfold insertSession at inserted
  split at inserted
  · cases inserted
  · obtain rfl := Except.ok.inj inserted
    exact ⟨rfl, List.Subset.refl _⟩

theorem mem_of_takePendingAuthentication {now : DateTime} {challengeId : Uuid} {after : Db W}
    {row : PendingAuthentication W}
    (taken : db.takePendingAuthentication now challengeId = (after, some row)) :
    row ∈ db.pendingAuthentications ∧ row.challengeId = challengeId := by
  unfold takePendingAuthentication at taken
  split at taken
  · cases taken
  · rename_i found same
    obtain rfl := Option.some.inj (Prod.mk.inj taken).2
    refine ⟨mem_of_find?_eq_some same, ?_⟩
    have chosen := List.find?_some same
    exact of_decide_eq_true ((Bool.and_eq_true _ _).mp chosen).1

theorem insertPendingAuthentication_eq_ok {now : DateTime} {challengeId : Uuid}
    {state : W.AuthenticationState} {after : Db W}
    (inserted : db.insertPendingAuthentication now challengeId state = .ok after) :
    after.passkeyCredentials = db.passkeyCredentials ∧
      after.pendingAuthentications =
        ⟨challengeId, state, now + minutes 5⟩ :: db.pendingAuthentications := by
  unfold insertPendingAuthentication at inserted
  split at inserted
  · cases inserted
  · obtain rfl := Except.ok.inj inserted
    exact ⟨rfl, rfl⟩

theorem insertPasskeyCredential_eq_ok {row : PasskeyRow W} {after : Db W}
    (inserted : db.insertPasskeyCredential row = .ok after) :
    after.pendingAuthentications = db.pendingAuthentications ∧
      (after.passkeyCredentials = db.passkeyCredentials ∨
        after.passkeyCredentials = row :: db.passkeyCredentials) := by
  unfold insertPasskeyCredential at inserted
  split_ifs at inserted
  · obtain rfl := Except.ok.inj inserted
    exact ⟨rfl, .inl rfl⟩
  · obtain rfl := Except.ok.inj inserted
    exact ⟨rfl, .inr rfl⟩

theorem mem_getPasskeysForDid {didKey : String} {entry : Uuid × W.Passkey}
    (member : entry ∈ db.getPasskeysForDid didKey) :
    ∃ row ∈ db.passkeyCredentials, row.didKey = didKey ∧ row.passkey = entry.2 := by
  obtain ⟨row, kept, rfl⟩ := mem_map.mp member
  rw [mem_filter, decide_eq_true_iff] at kept
  exact ⟨row, kept.1, kept.2, rfl⟩

end Db

end KwaaiNet
