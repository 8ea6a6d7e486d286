import KwaaiNet.Summit.Server

/-! # Registrations and the keys they are for

A registration request carries an attested passkey and, beside it, a key record. The DID that
gets the row, the credential and the session is computed from the record; nothing compares it
with the attested key. Where the record of every completed registration of a run ends in the
attested key, all DIDs are those of the passkeys they were granted to
(`KwaaiNet.Summit.registrationsOwn_of_guarded_run`).
-/

namespace KwaaiNet

open Foundation

def RecordsKey (W : Webauthn) (passkey : W.Passkey) (spki : List UInt8) : Prop :=
  ∃ point ∈ W.publicKey passkey, EndsInPoint spki point

def KeyDid (W : Webauthn) (passkey : W.Passkey) (did : String) : Prop :=
  ∃ point, W.publicKey passkey = some point ∧ did = point.did

def SameKey (W : Webauthn) (passkey other : W.Passkey) : Prop :=
  ∃ point otherPoint, W.publicKey passkey = some point ∧ W.publicKey other = some otherPoint ∧
    point.x = otherPoint.x ∧
      compressionPrefix (point.y.1.getLast?.getD 0) =
        compressionPrefix (otherPoint.y.1.getLast?.getD 0)

theorem KeyDid.sameKey {W : Webauthn} {passkey other : W.Passkey} {did : String}
    (named : KeyDid W passkey did) (otherNamed : KeyDid W other did) :
    SameKey W passkey other := by
  obtain ⟨point, key, rfl⟩ := named
  obtain ⟨otherPoint, otherKey, same⟩ := otherNamed
  obtain ⟨parity, coordinate⟩ := compressedDid_inj.mp same
  exact ⟨point, otherPoint, key, otherKey, Subtype.ext coordinate, parity⟩

theorem RecordsKey.keyDid {W : Webauthn} {passkey : W.Passkey} {spki : List UInt8} {did : String}
    (records : RecordsKey W passkey spki) (computed : p256SpkiToDid spki = .ok did) :
    KeyDid W passkey did := by
  obtain ⟨point, key, ends⟩ := records
  have same := computed.symm.trans ((p256SpkiToDid_eq_ok_iff spki point).mpr ends)
  exact ⟨point, key, Except.ok.inj same⟩

def Record.registration? {W : Webauthn} : Record W → Option (W.Passkey × String)
  | .stored passkey did | .issued passkey did | .opened passkey did => some (passkey, did)
  | _ => none

namespace Summit

variable {summit : Summit}

/-- Every stored row, and every row, credential and session of a registration, is for the DID of
its passkey. -/
structure RegistrationTables (db : Db summit.webauthn) (log : List (Record summit.webauthn)) :
    Prop where
  rows : ∀ row ∈ db.passkeyCredentials,
    row.credentialId = summit.webauthn.credId row.passkey ∧
      KeyDid summit.webauthn row.passkey row.didKey
  records : ∀ record ∈ log, ∀ passkey did, record.registration? = some (passkey, did) →
    KeyDid summit.webauthn passkey did

/-- And whoever was registered under the DID of a stored row has the key of that row. -/
structure RegistrationsOwn (db : Db summit.webauthn) (log : List (Record summit.webauthn)) : Prop
    extends RegistrationTables db log where
  nobodyElse : ∀ row ∈ db.passkeyCredentials, ∀ record ∈ log, ∀ passkey,
    record.registration? = some (passkey, row.didKey) → SameKey summit.webauthn passkey row.passkey

def attestation? (now : DateTime) (db : Db summit.webauthn)
    (req : RegisterCompleteRequest summit.webauthn) :
    Option (summit.webauthn.Passkey × List UInt8) := do
  let row ← (db.takePendingRegistration now req.challengeId).2
  let passkey ← (summit.webauthn.finishRegistration req.credential row.state).toOption
  let spki ← Base64.decode req.publicKeySpkiB64
  return (passkey, spki)

def OwnKeyRecord (now : DateTime) (db : Db summit.webauthn) : Task summit.webauthn → Prop
  | .registerComplete req => ∀ attested ∈ attestation? now db req,
      RecordsKey summit.webauthn attested.1 attested.2
  | _ => True

/-! ## The invariant -/

def RegistrationTask : Task summit.webauthn → Prop
  | .insertPasskey _ _ passkey did => KeyDid summit.webauthn passkey did
  | .insertVc _ passkey did _ => KeyDid summit.webauthn passkey did
  | .openSession _ passkey did _ => KeyDid summit.webauthn passkey did
  | _ => True

theorem RegistrationTables.registrationsOwn {db : Db summit.webauthn}
    {log : List (Record summit.webauthn)} (tables : RegistrationTables db log) :
    RegistrationsOwn db log := by
  refine ⟨tables, ?_⟩
  intro row stored record member passkey registered
  exact (tables.records record member passkey row.didKey registered).sameKey
    (tables.rows row stored).2

section

variable {now : DateTime} {fresh : Fresh} {db after : Db summit.webauthn}
variable {log : List (Record summit.webauthn)} {task next : Task summit.webauthn}
variable {effect : Effect summit.webauthn}

theorem RegistrationTables.extend (tables : RegistrationTables db log)
    (rows : after.passkeyCredentials = db.passkeyCredentials)
    {records : List (Record summit.webauthn)}
    (right : ∀ record ∈ records, ∀ passkey did, record.registration? = some (passkey, did) →
      KeyDid summit.webauthn passkey did) : RegistrationTables after (log ++ records) := by
  refine ⟨rows ▸ tables.rows, ?_⟩
  intro record member
  rcases List.mem_append.mp member with old | new
  · exact tables.records record old
  · exact right record new

theorem RegistrationTables.executes (tables : RegistrationTables db log)
    (fit : RegistrationTask task) (executes : Executes now fresh db task effect) :
    RegistrationTables effect.db (log ++ effect.records) := by
  cases executes with
  | attested taken => exact tables.extend (Db.drops_takePendingRegistration taken).passkeys nofun
  | @stored userId displayName passkey did after vc inserted =>
    have right : ∀ record ∈ [Record.stored passkey did], ∀ named namedDid,
        record.registration? = some (named, namedDid) →
          KeyDid summit.webauthn named namedDid := by
      intro record member named namedDid registered
      rw [List.mem_singleton.mp member] at registered
      cases registered
      exact fit
    rcases (Db.insertPasskeyCredential_eq_ok inserted).2 with same | added
    · exact tables.extend same right
    · refine ⟨?_, (tables.extend rfl right).records⟩
      rw [added, List.forall_mem_cons]
      exact ⟨⟨rfl, fit⟩, tables.rows⟩
  | issued drops | opened drops =>
    apply tables.extend drops.passkeys
    intro record member named namedDid registered
    rw [List.mem_singleton.mp member] at registered
    cases registered
    exact fit
  | started _ => exact tables.extend rfl nofun
  | began inserted =>
    apply tables.extend (Db.insertPendingAuthentication_eq_ok inserted).1
    simp [Record.registration?]
  | taken taken => exact tables.extend (Db.drops_takePendingAuthentication taken).passkeys nofun
  | accepted _ => exact tables.extend rfl nofun
  | loggedIn drops =>
    apply tables.extend drops.passkeys
    simp [Record.registration?]
  | quiet drops _ => exact tables.extend drops.passkeys nofun

theorem RegistrationTask.executes (fit : RegistrationTask task) (own : OwnKeyRecord now db task)
    (executes : Executes now fresh db task effect) (outcome : effect.outcome = .goOn next) :
    RegistrationTask next := by
  cases executes with
  | @attested req after row passkey spki did taken finished decoded computed =>
    cases outcome
    have attested : attestation? now db req = some (passkey, spki) := by
      simp [attestation?, taken, finished, decoded, Except.toOption]
    exact (own (passkey, spki) attested).keyDid computed
  | stored | issued =>
    cases outcome
    exact fit
  | opened | began => cases outcome
  | started | taken | accepted | loggedIn =>
    cases outcome
    trivial
  | quiet _ plain =>
    have idle := plain next outcome
    cases next <;> trivial

end

def registrationInvariant (summit : Summit) : Invariant summit where
  good := RegistrationTables
  fit _ _ := RegistrationTask
  stable _ _ fit := fit

theorem registrationInvariant_kept : (registrationInvariant summit).Kept OwnKeyRecord where
  first := ⟨nofun, nofun⟩
  arrive := by
    intro db log request
    cases request <;> trivial
  good tables fit _ executes := RegistrationTables.executes tables fit executes
  fit _ fit own executes outcome := RegistrationTask.executes fit own executes outcome

/-- **In every run in which each completed registration sends the key record of the passkey it
attests, all rows, credentials and sessions of registrations are for the DID of the attested
passkey, and all stored rows for the DID of theirs.** -/
theorem registrationsOwn_of_guarded_run {events : List (SummitEvent summit.webauthn)}
    {last : SummitState summit.webauthn}
    (run : Run (GuardedStep OwnKeyRecord) start events last) : RegistrationsOwn last.db last.log :=
  (registrationInvariant_kept.run run).1.registrationsOwn

/-! ## Two records -/

instance (spki : List UInt8) (point : P256Point) : Decidable (EndsInPoint spki point) :=
  decidable_of_iff ((p256SpkiToDid spki).toOption = some point.did) <| by
    rw [← p256SpkiToDid_eq_ok_iff]
    cases p256SpkiToDid spki <;> simp [Except.toOption]

instance (passkey : summit.webauthn.Passkey) (spki : List UInt8) :
    Decidable (RecordsKey summit.webauthn passkey spki) :=
  inferInstanceAs (Decidable (∃ point ∈ summit.webauthn.publicKey passkey, EndsInPoint spki point))

instance (now : DateTime) (db : Db summit.webauthn) :
    ∀ task : Task summit.webauthn, Decidable (OwnKeyRecord now db task)
  | .registerComplete req =>
    inferInstanceAs (Decidable (∀ attested ∈ attestation? now db req,
      RecordsKey summit.webauthn attested.1 attested.2))
  | .registerBegin .. | .insertPasskey .. | .insertVc .. | .openSession .. | .authBegin ..
  | .insertAuthentication .. | .authComplete .. | .checkAssertion .. | .openLogin ..
  | .loadVcs .. | .getCredentials .. | .loadCredentials .. | .bindNode .. | .insertBinding ..
  | .insertBindingVc .. => .isTrue trivial

end Summit

/-- A passkey registered with its own key record. -/
theorem sampleRegistration_own :
    ∃ last, Run (Summit.GuardedStep Summit.OwnKeyRecord) Summit.start
        (sampleRegistration 1 1 5) last ∧
      last.log.filterMap Record.registration? = List.replicate 3 (samplePasskey 1, sampleDid 1) ∧
        Summit.RegistrationsOwn last.db last.log := by
  have meets : Meets Summit.step (Summit.Guarded Summit.OwnKeyRecord) Summit.start
      (sampleRegistration 1 1 5) := by decide +kernel
  exact ⟨_, run_of_meets meets, by decide +kernel,
    Summit.registrationsOwn_of_guarded_run (run_of_meets meets)⟩

/-- Registered with the key record of the second passkey, the first passkey gets a session for
the DID of the second. -/
theorem foreignRecord_not_own :
    ∃ last, Run (fun state event next => Summit.step state event = next) Summit.start
        (sampleRegistration 1 2 5) last ∧ ¬ Summit.RegistrationsOwn last.db last.log := by
  refine ⟨_, run_foldl _ _ _, ?_⟩
  intro own
  have registered : ((sampleRegistration 1 2 5).foldl Summit.step Summit.start).log.filterMap
      Record.registration? = List.replicate 3 (samplePasskey 1, sampleDid 2) := by
    decide +kernel
  obtain ⟨record, member, named⟩ :=
    List.mem_filterMap.mp (registered ▸ List.mem_replicate.mpr ⟨by decide, rfl⟩)
  obtain ⟨point, key, same⟩ := own.records record member _ _ named
  obtain rfl := Option.some.inj key
  exact absurd same (by decide +kernel)

end KwaaiNet
