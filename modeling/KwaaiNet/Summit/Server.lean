import KwaaiNet.Foundation.Execution
import KwaaiNet.Summit.Db
import KwaaiNet.Trust.TrustScore

/-! # The summit server

The request handlers of the summit server, cut at their database statements: a running handler
is the statement it will execute next, with the local variables it still needs. Requests arrive
at any time, any running handler may be the next to execute its statement, and a handler may be
dropped before it is done. The state keeps a history of what the handlers did; no handler
reads it.
-/

namespace KwaaiNet

open Foundation List

/-- `AppState`, with the libraries it uses. -/
structure Summit where
  webauthn : Webauthn
  ed : Ed25519
  chrono : Chrono
  decay : DateTime → DateTime → ℚ
  signingKey : KeyBytes

variable (W : Webauthn)

structure RegisterCompleteRequest where
  challengeId : Uuid
  credential : W.RegisterCredential
  publicKeySpkiB64 : String

structure AuthCompleteRequest where
  challengeId : Uuid
  did : String
  credential : W.Assertion

/-- A running handler, by its next statement. -/
inductive Task where
  | registerBegin (displayName : String)
  | registerComplete (req : RegisterCompleteRequest W)
  | insertPasskey (userId : Uuid) (displayName : String) (passkey : W.Passkey) (did : String)
  | insertVc (userId : Uuid) (passkey : W.Passkey) (did : String) (vc : VerifiableCredential)
  | openSession (userId : Uuid) (passkey : W.Passkey) (did : String) (vc : VerifiableCredential)
  | authBegin (did : String)
  | insertAuthentication (did : String) (options : W.RequestChallenge)
      (state : W.AuthenticationState)
  | authComplete (req : AuthCompleteRequest W)
  | checkAssertion (req : AuthCompleteRequest W) (state : W.AuthenticationState)
  | openLogin (req : AuthCompleteRequest W) (state : W.AuthenticationState) (userId : Uuid)
  | loadVcs (did : String) (token : Uuid)
  | getCredentials (token : Uuid)
  | loadCredentials (did : String)
  | bindNode (token : Uuid) (nodeDid : String)
  | insertBinding (passkeyDid nodeDid : String) (vc : VerifiableCredential)
  | insertBindingVc (nodeDid : String) (vc : VerifiableCredential)

inductive Response where
  | registerBegin (challengeId : Uuid) (options : W.CreationChallenge)
  | registerComplete (did : String) (token : Uuid) (vc : Json) (tier : String)
  | authBegin (challengeId : Uuid) (options : W.RequestChallenge)
  | authComplete (did : String) (token : Uuid) (vcs : List Json) (tier : String)
  | credentials (did : String) (vcs : List Json) (tier : String)
  | bindNode (bindingVc : Json)

/-- What becomes of a handler after a statement. -/
inductive Outcome where
  | goOn (task : Task W)
  | respond (response : Response W)
  | fail (message : String)

/-- What the handlers did: an authentication begun, a session opened by it, and the row, the
credential and the session of a registration. -/
inductive Record where
  | began (challengeId : Uuid) (did : String) (state : W.AuthenticationState)
  | loggedIn (challengeId : Uuid) (did : String) (assertion : W.Assertion)
      (state : W.AuthenticationState)
  | stored (passkey : W.Passkey) (did : String)
  | issued (passkey : W.Passkey) (did : String)
  | opened (passkey : W.Passkey) (did : String)

/-- The effect of a statement. -/
structure Effect where
  db : Db W
  records : List (Record W)
  outcome : Outcome W

/-- Random values drawn by a handler. -/
structure Fresh where
  uuid : Uuid
  userId : Uuid
  challenge : Nat

namespace Summit

variable (summit : Summit)

/-- The issuer's `did:key:` DID. -/
def issuerDid : String :=
  "did:key:z" ++ Base58.encode (0xed :: 0x01 :: (summit.ed.publicKey summit.signingKey).1)

/-- `issue_summit_attendee_vc`. -/
def issueSummitAttendeeVc (now : DateTime) (subjectDid : String) : VerifiableCredential :=
  signVc summit.ed summit.chrono now summit.signingKey summit.issuerDid
    (summitAttendeeVc now summit.issuerDid subjectDid "Kwaai Personal AI Summit 2026" "2026-03-15")

/-- `issue_binding_vc`. -/
def issueBindingVc (now : DateTime) (nodeDid passkeyDid : String) : VerifiableCredential :=
  signVc summit.ed summit.chrono now summit.signingKey summit.issuerDid
    (bindingVc now summit.issuerDid nodeDid passkeyDid)

/-- `compute_tier`. -/
def computeTier (now : DateTime) (vcStrings : List String) : String :=
  (TrustScore.fromCredentials (summit.decay now) now
    (vcStrings.filterMap (VerifiableCredential.fromJson summit.chrono))).tierLabel

def vcValues (vcStrings : List String) : List Json :=
  vcStrings.filterMap fun text => (Json.read text).map Json.normalize

def vcText (vc : VerifiableCredential) : String := vc.text summit.chrono Json.compact

variable {summit}

abbrev Statement (summit : Summit) := Effect summit.webauthn

variable (now : DateTime) (fresh : Fresh) (db : Db summit.webauthn)

/-- The handler ends with an error. -/
def failed (message : String) : Statement summit := ⟨db, [], .fail message⟩

/-- `register_begin`. -/
def registerBegin (displayName : String) : Statement summit :=
  let displayName := if displayName = "" then "Summit Attendee" else displayName
  match summit.webauthn.startRegistration fresh.userId displayName fresh.challenge with
  | .error reason => failed db s!"WebAuthn registration start failed: {reason}"
  | .ok (options, state) =>
    match db.insertPendingRegistration now fresh.uuid fresh.userId displayName state with
    | .error reason => failed db reason
    | .ok db => ⟨db, [], .respond (.registerBegin fresh.uuid options)⟩

/-- `register_complete`, up to the row to store: the DID is computed from the bytes in the
request. -/
def registerComplete (req : RegisterCompleteRequest summit.webauthn) : Statement summit :=
  match db.takePendingRegistration now req.challengeId with
  | (db, none) => failed db "Unknown or expired challenge_id"
  | (db, some row) =>
    match summit.webauthn.finishRegistration req.credential row.state with
    | .error reason => failed db s!"WebAuthn registration finish failed: {reason}"
    | .ok passkey =>
      match Base64.decode req.publicKeySpkiB64 with
      | none => failed db "Invalid public_key_spki_b64"
      | some spki =>
        match p256SpkiToDid spki with
        | .error reason => failed db reason
        | .ok did => ⟨db, [], .goOn (.insertPasskey row.userId row.displayName passkey did)⟩

def insertPasskey (userId : Uuid) (displayName : String) (passkey : summit.webauthn.Passkey)
    (did : String) : Statement summit :=
  match db.insertPasskeyCredential
      ⟨userId, summit.webauthn.credId passkey, did, displayName, passkey⟩ with
  | .error reason => failed db reason
  | .ok db =>
    ⟨db, [.stored passkey did],
      .goOn (.insertVc userId passkey did (summit.issueSummitAttendeeVc now did))⟩

def insertVc (userId : Uuid) (passkey : summit.webauthn.Passkey) (did : String)
    (vc : VerifiableCredential) : Statement summit :=
  ⟨db.insertVc now did "SummitAttendeeVC" (summit.vcText vc), [.issued passkey did],
    .goOn (.openSession userId passkey did vc)⟩

def openSession (userId : Uuid) (passkey : summit.webauthn.Passkey) (did : String)
    (vc : VerifiableCredential) : Statement summit :=
  match db.insertSession now fresh.uuid userId did with
  | .error reason => failed db reason
  | .ok db =>
    ⟨db, [.opened passkey did],
      .respond (.registerComplete did fresh.uuid (vc.toJson summit.chrono).normalize "Known")⟩

/-- `auth_begin`, up to the state to store. -/
def authBegin (did : String) : Statement summit :=
  match db.getPasskeysForDid did with
  | [] => failed db "No passkeys found for this identity"
  | rows =>
    match summit.webauthn.startAuthentication (rows.map Prod.snd) fresh.challenge with
    | .error reason => failed db s!"WebAuthn auth start failed: {reason}"
    | .ok (options, state) => ⟨db, [], .goOn (.insertAuthentication did options state)⟩

def insertAuthentication (did : String) (options : summit.webauthn.RequestChallenge)
    (state : summit.webauthn.AuthenticationState) : Statement summit :=
  match db.insertPendingAuthentication now fresh.uuid state with
  | .error reason => failed db reason
  | .ok db => ⟨db, [.began fresh.uuid did state], .respond (.authBegin fresh.uuid options)⟩

/-- `auth_complete`, up to the passkeys to look up. -/
def authComplete (req : AuthCompleteRequest summit.webauthn) : Statement summit :=
  match db.takePendingAuthentication now req.challengeId with
  | (db, none) => failed db "Unknown or expired challenge_id"
  | (db, some row) => ⟨db, [], .goOn (.checkAssertion req row.state)⟩

def checkAssertion (req : AuthCompleteRequest summit.webauthn)
    (state : summit.webauthn.AuthenticationState) : Statement summit :=
  match db.getPasskeysForDid req.did with
  | [] => failed db "No passkeys found for this identity"
  | (userId, _) :: _ =>
    match summit.webauthn.finishAuthentication req.credential state with
    | .error reason => failed db s!"WebAuthn auth finish failed: {reason}"
    | .ok () => ⟨db, [], .goOn (.openLogin req state userId)⟩

def openLogin (req : AuthCompleteRequest summit.webauthn)
    (state : summit.webauthn.AuthenticationState) (userId : Uuid) : Statement summit :=
  match db.insertSession now fresh.uuid userId req.did with
  | .error reason => failed db reason
  | .ok db =>
    ⟨db, [.loggedIn req.challengeId req.did req.credential state],
      .goOn (.loadVcs req.did fresh.uuid)⟩

def loadVcs (did : String) (token : Uuid) : Statement summit :=
  let vcStrings := db.getVcsForSubject did
  ⟨db, [], .respond (.authComplete did token (vcValues vcStrings)
    (summit.computeTier now vcStrings))⟩

/-- `get_credentials`. -/
def getCredentials (token : Uuid) : Statement summit :=
  match db.getSession now token with
  | none => failed db "Invalid or expired session"
  | some (_, passkeyDid) => ⟨db, [], .goOn (.loadCredentials passkeyDid)⟩

def loadCredentials (did : String) : Statement summit :=
  let vcStrings := db.getVcsForSubject did
  ⟨db, [], .respond (.credentials did (vcValues vcStrings) (summit.computeTier now vcStrings))⟩

/-- `bind_node`. -/
def bindNode (token : Uuid) (nodeDid : String) : Statement summit :=
  match db.getSession now token with
  | none => failed db "Invalid or expired session"
  | some (_, passkeyDid) =>
    if (Text.stripPrefix? "did:peer:" nodeDid).isSome then
      ⟨db, [], .goOn (.insertBinding passkeyDid nodeDid
        (summit.issueBindingVc now nodeDid passkeyDid))⟩
    else failed db "node_did must be a did:peer: identifier"

def insertBinding (passkeyDid nodeDid : String) (vc : VerifiableCredential) : Statement summit :=
  ⟨db.insertNodeBinding passkeyDid nodeDid (summit.vcText vc), [],
    .goOn (.insertBindingVc nodeDid vc)⟩

def insertBindingVc (nodeDid : String) (vc : VerifiableCredential) : Statement summit :=
  ⟨db.insertVc now nodeDid "BindingVC" (summit.vcText vc), [],
    .respond (.bindNode (vc.toJson summit.chrono).normalize)⟩

def exec : Task summit.webauthn → Statement summit
  | .registerBegin displayName => registerBegin now fresh db displayName
  | .registerComplete req => registerComplete now db req
  | .insertPasskey userId displayName passkey did =>
    insertPasskey now db userId displayName passkey did
  | .insertVc userId passkey did vc => insertVc now db userId passkey did vc
  | .openSession userId passkey did vc => openSession now fresh db userId passkey did vc
  | .authBegin did => authBegin fresh db did
  | .insertAuthentication did options state => insertAuthentication now fresh db did options state
  | .authComplete req => authComplete now db req
  | .checkAssertion req state => checkAssertion db req state
  | .openLogin req state userId => openLogin now fresh db req state userId
  | .loadVcs did token => loadVcs now db did token
  | .getCredentials token => getCredentials now db token
  | .loadCredentials did => loadCredentials now db did
  | .bindNode token nodeDid => bindNode now db token nodeDid
  | .insertBinding passkeyDid nodeDid vc => insertBinding db passkeyDid nodeDid vc
  | .insertBindingVc nodeDid vc => insertBindingVc now db nodeDid vc

end Summit

/-! ## Runs -/

/-- The requests a client can send. -/
inductive Request where
  | registerBegin (displayName : String)
  | registerComplete (req : RegisterCompleteRequest W)
  | authBegin (did : String)
  | authComplete (req : AuthCompleteRequest W)
  | getCredentials (token : Uuid)
  | bindNode (token : Uuid) (nodeDid : String)

variable {W} in
def Request.task : Request W → Task W
  | .registerBegin displayName => .registerBegin displayName
  | .registerComplete req => .registerComplete req
  | .authBegin did => .authBegin did
  | .authComplete req => .authComplete req
  | .getCredentials token => .getCredentials token
  | .bindNode token nodeDid => .bindNode token nodeDid

/-- A request arrives, a running handler executes its next statement, or it is dropped. -/
inductive SummitEvent where
  | arrive (request : Request W)
  | advance (index : Nat) (now : DateTime) (fresh : Fresh)
  | drop (index : Nat)

structure SummitState where
  db : Db W
  tasks : List (Task W)
  log : List (Record W)

namespace Summit

variable {summit : Summit}

/-- The handlers after one of them executed a statement. -/
def resume (tasks : List (Task W)) (index : Nat) : Outcome W → List (Task W)
  | .goOn task => tasks.set index task
  | .respond _ => tasks.eraseIdx index
  | .fail _ => tasks.eraseIdx index

def step (state : SummitState summit.webauthn) :
    SummitEvent summit.webauthn → SummitState summit.webauthn
  | .arrive request => { state with tasks := state.tasks ++ [request.task] }
  | .advance index now fresh =>
    match state.tasks[index]? with
    | none => state
    | some task =>
      let effect := exec now fresh state.db task
      ⟨effect.db, resume _ state.tasks index effect.outcome, state.log ++ effect.records⟩
  | .drop index => { state with tasks := state.tasks.eraseIdx index }

def start : SummitState summit.webauthn := ⟨.empty, [], []⟩

end Summit

/-! ## What a statement can do -/

variable {W} in
/-- The handlers that read a session or answer with credentials: nothing depends on what they
hold. -/
def Task.Plain : Task W → Prop
  | .loadVcs .. | .getCredentials .. | .loadCredentials .. | .bindNode .. | .insertBinding ..
  | .insertBindingVc .. => True
  | _ => False

namespace Summit

variable {summit : Summit} {now : DateTime} {fresh : Fresh} {db : Db summit.webauthn}

/-- The statements, case by case. The last case covers those that neither touch passkeys and
pending authentications nor leave a record. -/
inductive Executes (now : DateTime) (fresh : Fresh) (db : Db summit.webauthn) :
    Task summit.webauthn → Effect summit.webauthn → Prop
  | attested {req after row passkey spki did} :
      db.takePendingRegistration now req.challengeId = (after, some row) →
      summit.webauthn.finishRegistration req.credential row.state = .ok passkey →
      Base64.decode req.publicKeySpkiB64 = some spki → p256SpkiToDid spki = .ok did →
      Executes now fresh db (.registerComplete req)
        ⟨after, [], .goOn (.insertPasskey row.userId row.displayName passkey did)⟩
  | stored {userId displayName passkey did after vc} :
      db.insertPasskeyCredential
        ⟨userId, summit.webauthn.credId passkey, did, displayName, passkey⟩ = .ok after →
      Executes now fresh db (.insertPasskey userId displayName passkey did)
        ⟨after, [.stored passkey did], .goOn (.insertVc userId passkey did vc)⟩
  | issued {userId passkey did vc after} : db.Drops after →
      Executes now fresh db (.insertVc userId passkey did vc)
        ⟨after, [.issued passkey did], .goOn (.openSession userId passkey did vc)⟩
  | opened {userId passkey did vc after response} : db.Drops after →
      Executes now fresh db (.openSession userId passkey did vc)
        ⟨after, [.opened passkey did], .respond response⟩
  | started {did options state} :
      summit.webauthn.startAuthentication ((db.getPasskeysForDid did).map Prod.snd)
        fresh.challenge = .ok (options, state) →
      Executes now fresh db (.authBegin did)
        ⟨db, [], .goOn (.insertAuthentication did options state)⟩
  | began {did options state after} :
      db.insertPendingAuthentication now fresh.uuid state = .ok after →
      Executes now fresh db (.insertAuthentication did options state)
        ⟨after, [.began fresh.uuid did state], .respond (.authBegin fresh.uuid options)⟩
  | taken {req after row} :
      db.takePendingAuthentication now req.challengeId = (after, some row) →
      Executes now fresh db (.authComplete req) ⟨after, [], .goOn (.checkAssertion req row.state)⟩
  | accepted {req state userId} :
      summit.webauthn.finishAuthentication req.credential state = .ok () →
      Executes now fresh db (.checkAssertion req state)
        ⟨db, [], .goOn (.openLogin req state userId)⟩
  | loggedIn {req state userId after token} : db.Drops after →
      Executes now fresh db (.openLogin req state userId)
        ⟨after, [.loggedIn req.challengeId req.did req.credential state],
          .goOn (.loadVcs req.did token)⟩
  | quiet {task after outcome} : db.Drops after →
      (∀ next, outcome = .goOn next → next.Plain) →
      Executes now fresh db task ⟨after, [], outcome⟩

theorem executes_failed {after : Db summit.webauthn} (drops : db.Drops after)
    (task : Task summit.webauthn) (message : String) :
    Executes now fresh db task (failed after message) := by
  apply Executes.quiet drops
  intro next same
  simp at same

/-- A handler answers without a record. -/
theorem executes_respond {after : Db summit.webauthn} (drops : db.Drops after)
    (task : Task summit.webauthn) (response : Response summit.webauthn) :
    Executes now fresh db task ⟨after, [], .respond response⟩ := by
  apply Executes.quiet drops
  intro next same
  simp at same

theorem executes_registerBegin (displayName : String) :
    Executes now fresh db (.registerBegin displayName)
      (registerBegin now fresh db displayName) := by
  unfold registerBegin
  dsimp only
  split
  case h_1 => exact executes_failed (.refl db) _ _
  case h_2 options state _ =>
    split
    case h_1 => exact executes_failed (.refl db) _ _
    case h_2 after inserted =>
      exact executes_respond (Db.drops_insertPendingRegistration inserted) _ _

theorem executes_registerComplete (req : RegisterCompleteRequest summit.webauthn) :
    Executes now fresh db (.registerComplete req) (registerComplete now db req) := by
  unfold registerComplete
  split
  case h_1 after taken => exact executes_failed (Db.drops_takePendingRegistration taken) _ _
  case h_2 after row taken =>
    have drops := Db.drops_takePendingRegistration taken
    split
    case h_1 => exact executes_failed drops _ _
    case h_2 passkey finished =>
      split
      case h_1 => exact executes_failed drops _ _
      case h_2 spki decoded =>
        split
        case h_1 => exact executes_failed drops _ _
        case h_2 did computed => exact .attested taken finished decoded computed

theorem executes_authBegin (did : String) :
    Executes now fresh db (.authBegin did) (authBegin fresh db did) := by
  unfold authBegin
  split
  case h_1 => exact executes_failed (.refl db) _ _
  case h_2 rows _ =>
    split
    case h_1 => exact executes_failed (.refl db) _ _
    case h_2 options state begun => exact .started begun

theorem executes_checkAssertion (req : AuthCompleteRequest summit.webauthn)
    (state : summit.webauthn.AuthenticationState) :
    Executes now fresh db (.checkAssertion req state) (checkAssertion db req state) := by
  unfold checkAssertion
  split
  case h_1 => exact executes_failed (.refl db) _ _
  case h_2 userId _ _ _ =>
    split
    case h_1 => exact executes_failed (.refl db) _ _
    case h_2 finished => exact .accepted finished

/-- **Every statement is one of the cases.** -/
theorem exec_executes (task : Task summit.webauthn) :
    Executes now fresh db task (exec now fresh db task) := by
  cases task with
  | registerBegin displayName => exact executes_registerBegin displayName
  | registerComplete req => exact executes_registerComplete req
  | insertPasskey userId displayName passkey did =>
    simp only [exec, insertPasskey]
    split
    case h_1 => exact executes_failed (.refl db) _ _
    case h_2 after inserted => exact .stored inserted
  | insertVc userId passkey did vc =>
    rw [exec, insertVc]
    exact .issued (db.drops_insertVc _ _ _ _)
  | openSession userId passkey did vc =>
    simp only [exec, openSession]
    split
    case h_1 => exact executes_failed (.refl db) _ _
    case h_2 after inserted => exact .opened (Db.drops_insertSession inserted)
  | authBegin did => exact executes_authBegin did
  | insertAuthentication did options state =>
    simp only [exec, insertAuthentication]
    split
    case h_1 => exact executes_failed (.refl db) _ _
    case h_2 after inserted => exact .began inserted
  | authComplete req =>
    simp only [exec, authComplete]
    split
    case h_1 after taken => exact executes_failed (Db.drops_takePendingAuthentication taken) _ _
    case h_2 after row taken => exact .taken taken
  | checkAssertion req state => exact executes_checkAssertion req state
  | openLogin req state userId =>
    simp only [exec, openLogin]
    split
    case h_1 => exact executes_failed (.refl db) _ _
    case h_2 after inserted => exact .loggedIn (Db.drops_insertSession inserted)
  | loadVcs did token =>
    rw [exec, loadVcs]
    exact executes_respond (.refl db) _ _
  | getCredentials token =>
    simp only [exec, getCredentials]
    split
    case h_1 => exact executes_failed (.refl db) _ _
    case h_2 => exact .quiet (.refl db) fun next same => Outcome.goOn.inj same ▸ trivial
  | loadCredentials did =>
    rw [exec, loadCredentials]
    exact executes_respond (.refl db) _ _
  | bindNode token nodeDid =>
    simp only [exec, bindNode]
    split
    case h_1 => exact executes_failed (.refl db) _ _
    case h_2 =>
      split
      case isTrue => exact .quiet (.refl db) fun next same => Outcome.goOn.inj same ▸ trivial
      case isFalse => exact executes_failed (.refl db) _ _
  | insertBinding passkeyDid nodeDid vc =>
    rw [exec, insertBinding]
    exact .quiet (db.drops_insertNodeBinding _ _ _) fun next same =>
      Outcome.goOn.inj same ▸ trivial
  | insertBindingVc nodeDid vc =>
    rw [exec, insertBindingVc]
    exact executes_respond (db.drops_insertVc _ _ _ _) _ _

theorem Executes.passkeys_subset {task : Task summit.webauthn} {effect : Effect summit.webauthn}
    (executes : Executes now fresh db task effect) :
    db.passkeyCredentials ⊆ effect.db.passkeyCredentials := by
  cases executes with
  | attested taken => exact (Db.drops_takePendingRegistration taken).passkeys_subset
  | stored inserted =>
    rcases (Db.insertPasskeyCredential_eq_ok inserted).2 with same | added
    · exact same ▸ List.Subset.refl _
    · exact added ▸ subset_cons_self _ _
  | issued drops => exact drops.passkeys_subset
  | opened drops => exact drops.passkeys_subset
  | started _ => exact List.Subset.refl _
  | began inserted =>
    exact (Db.insertPendingAuthentication_eq_ok inserted).1 ▸ List.Subset.refl _
  | taken taken => exact (Db.drops_takePendingAuthentication taken).passkeys_subset
  | accepted _ => exact List.Subset.refl _
  | loggedIn drops => exact drops.passkeys_subset
  | quiet drops _ => exact drops.passkeys_subset

/-! ## Invariants -/

/-- What holds of the tables and the history, and of every running handler. What holds of a
handler is not lost when passkeys and history grow. -/
structure Invariant (summit : Summit) where
  good : Db summit.webauthn → List (Record summit.webauthn) → Prop
  fit : Db summit.webauthn → List (Record summit.webauthn) → Task summit.webauthn → Prop
  stable : ∀ {db after log later task}, db.passkeyCredentials ⊆ after.passkeyCredentials →
    log ⊆ later → fit db log task → fit after later task

def Invariant.Holds (invariant : Invariant summit) (state : SummitState summit.webauthn) : Prop :=
  invariant.good state.db state.log ∧
    ∀ task ∈ state.tasks, invariant.fit state.db state.log task

/-- The statement about to be executed meets a condition. -/
def Guarded (guard : DateTime → Db summit.webauthn → Task summit.webauthn → Prop)
    (state : SummitState summit.webauthn) : SummitEvent summit.webauthn → Prop
  | .advance index now _ => ∀ task ∈ state.tasks[index]?, guard now state.db task
  | _ => True

instance (guard : DateTime → Db summit.webauthn → Task summit.webauthn → Prop)
    [∀ now db task, Decidable (guard now db task)] (state : SummitState summit.webauthn)
    (event : SummitEvent summit.webauthn) : Decidable (Guarded guard state event) :=
  match event with
  | .arrive _ => .isTrue trivial
  | .advance index now _ =>
    inferInstanceAs (Decidable (∀ task ∈ state.tasks[index]?, guard now state.db task))
  | .drop _ => .isTrue trivial

/-- A step whose statement meets a condition. -/
def GuardedStep (guard : DateTime → Db summit.webauthn → Task summit.webauthn → Prop)
    (state : SummitState summit.webauthn) (event : SummitEvent summit.webauthn)
    (next : SummitState summit.webauthn) : Prop :=
  Guarded guard state event ∧ step state event = next

/-- Statements that meet a condition keep an invariant. -/
structure Invariant.Kept (invariant : Invariant summit)
    (guard : DateTime → Db summit.webauthn → Task summit.webauthn → Prop) : Prop where
  first : invariant.good .empty []
  arrive : ∀ db log request, invariant.fit db log (Request.task request)
  good : ∀ {now fresh db log task effect}, invariant.good db log → invariant.fit db log task →
    guard now db task → Executes now fresh db task effect →
      invariant.good effect.db (log ++ effect.records)
  fit : ∀ {now fresh db log task effect next}, invariant.good db log → invariant.fit db log task →
    guard now db task → Executes now fresh db task effect → effect.outcome = .goOn next →
      invariant.fit effect.db (log ++ effect.records) next

theorem mem_resume {tasks : List (Task summit.webauthn)} {index : Nat}
    {outcome : Outcome summit.webauthn} {task : Task summit.webauthn}
    (member : task ∈ resume _ tasks index outcome) : task ∈ tasks ∨ outcome = .goOn task := by
  cases outcome with
  | goOn next =>
    rcases mem_or_eq_of_mem_set member with old | rfl
    · exact .inl old
    · exact .inr rfl
  | respond _ => exact .inl (mem_of_mem_eraseIdx member)
  | fail _ => exact .inl (mem_of_mem_eraseIdx member)

theorem Invariant.Kept.step {invariant : Invariant summit}
    {guard : DateTime → Db summit.webauthn → Task summit.webauthn → Prop}
    (kept : invariant.Kept guard) {state next : SummitState summit.webauthn}
    {event : SummitEvent summit.webauthn} (holds : invariant.Holds state)
    (taken : GuardedStep guard state event next) : invariant.Holds next := by
  obtain ⟨guarded, rfl⟩ := taken
  obtain ⟨good, fit⟩ := holds
  cases event with
  | arrive request =>
    refine ⟨good, ?_⟩
    intro task member
    rcases mem_append.mp member with old | new
    · exact fit task old
    · rw [mem_singleton.mp new]
      exact kept.arrive _ _ request
  | drop index => exact ⟨good, fun task member => fit task (mem_of_mem_eraseIdx member)⟩
  | advance index now fresh =>
    dsimp only [Summit.step]
    cases running : state.tasks[index]? with
    | none => exact ⟨good, fit⟩
    | some task =>
      have taskFit := fit task (mem_of_getElem? running)
      have meets := guarded task running
      have executes : Executes now fresh state.db task _ := exec_executes task
      refine ⟨kept.good good taskFit meets executes, ?_⟩
      intro other member
      rcases mem_resume member with old | new
      · exact invariant.stable executes.passkeys_subset (subset_append_left _ _)
          (fit other old)
      · exact kept.fit good taskFit meets executes new

/-- **Runs whose statements all meet the condition keep the invariant.** -/
theorem Invariant.Kept.run {invariant : Invariant summit}
    {guard : DateTime → Db summit.webauthn → Task summit.webauthn → Prop}
    (kept : invariant.Kept guard) {events : List (SummitEvent summit.webauthn)}
    {last : SummitState summit.webauthn} (run : Run (GuardedStep guard) start events last) :
    invariant.Holds last :=
  run.invariant (fun _ _ _ holds taken => kept.step holds taken)
    ⟨kept.first, fun _ member => absurd member not_mem_nil⟩

end Summit

/-! ## A small server -/

/-- Authenticators with one key each. An attestation and an assertion name the authenticator and
the challenge. -/
def sampleWebauthn : Webauthn where
  Passkey := UInt8
  RegistrationState := Nat
  RegisterCredential := UInt8 × Nat
  AuthenticationState := List UInt8 × Nat
  Assertion := UInt8 × Nat
  CreationChallenge := Nat
  RequestChallenge := Nat
  credId passkey := [passkey]
  publicKey passkey := some ⟨repeatedKey passkey, repeatedKey passkey⟩
  startRegistration _ _ challenge := .ok (challenge, challenge)
  finishRegistration credential state :=
    if credential.2 = state then .ok credential.1 else .error "challenge mismatch"
  startAuthentication keys challenge := .ok (challenge, keys, challenge)
  passkeys state := state.1
  signedBy assertion state passkey := decide (assertion = (passkey, state.2))
  finishAuthentication assertion state :=
    if assertion.1 ∈ state.1 ∧ assertion.2 = state.2 then .ok () else .error "not accepted"
  passkeys_of_start := by
    intro keys challenge options state started
    rw [← (Prod.mk.inj (Except.ok.inj started)).2]
  finishAuthentication_ok_iff := by
    rintro ⟨signer, challenge⟩ ⟨keys, expected⟩
    simp only [decide_eq_true_eq, Prod.mk.injEq]
    split_ifs with accepted
    · simpa using accepted
    · simpa using accepted

def sampleSummit : Summit where
  webauthn := sampleWebauthn
  ed := markingScheme .empty
  chrono := sampleChrono
  decay _ _ := 1
  signingKey := repeatedKey 9

def samplePasskey (authenticator : UInt8) : sampleSummit.webauthn.Passkey := authenticator

instance : DecidableEq sampleSummit.webauthn.Passkey := inferInstanceAs (DecidableEq UInt8)

def sampleDid (passkey : UInt8) : String :=
  P256Point.did ⟨repeatedKey passkey, repeatedKey passkey⟩

/-- The key record of an authenticator's key, as sent in a request. -/
def sampleSpki (passkey : UInt8) : String :=
  Base64.encode (0x04 :: ((repeatedKey passkey).1 ++ (repeatedKey passkey).1))

/-- One client registers a passkey, with its own key record or another. All statements of a
handler are executed in turn. -/
def sampleRegistration (passkey recorded : UInt8) (uuid : Uuid) :
    List (SummitEvent sampleSummit.webauthn) :=
  let tick : SummitEvent sampleSummit.webauthn := .advance 0 0 ⟨uuid, uuid, uuid⟩
  [.arrive (.registerBegin ""), tick,
    .arrive (.registerComplete ⟨uuid, (passkey, uuid), sampleSpki recorded⟩),
    tick, tick, tick, tick]

end KwaaiNet
