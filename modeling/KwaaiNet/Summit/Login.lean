import KwaaiNet.Summit.Server

/-! # Logins and the passkeys that signed them

A login request names a DID and a challenge. The challenge leads to the passkeys the ceremony
was started with; the session is opened for the DID. The server looks up the passkeys of that
DID and compares them with nothing. Where they are the passkeys of the ceremony, in every login
of a run, each session belongs to the passkey that signed
(`KwaaiNet.Summit.loginsBound_of_guarded_run`).
-/

namespace KwaaiNet

open Foundation List

namespace Summit

variable {summit : Summit}

def Bound (db : Db summit.webauthn) (log : List (Record summit.webauthn)) (challengeId : Uuid)
    (did : String) (assertion : summit.webauthn.Assertion)
    (state : summit.webauthn.AuthenticationState) : Prop :=
  .began challengeId did state ∈ log ∧
    ∃ row ∈ db.passkeyCredentials, row.didKey = did ∧
      summit.webauthn.signedBy assertion state row.passkey = true

def LoginsBound (db : Db summit.webauthn) (log : List (Record summit.webauthn)) : Prop :=
  ∀ challengeId did assertion state, .loggedIn challengeId did assertion state ∈ log →
    Bound db log challengeId did assertion state

def OwnCeremony (_now : DateTime) (db : Db summit.webauthn) : Task summit.webauthn → Prop
  | .checkAssertion req state => ∀ passkey ∈ summit.webauthn.passkeys state,
      passkey ∈ (db.getPasskeysForDid req.did).map Prod.snd
  | _ => True

/-! ## The invariant -/

def Covered (db : Db summit.webauthn) (did : String)
    (state : summit.webauthn.AuthenticationState) : Prop :=
  ∀ passkey ∈ summit.webauthn.passkeys state,
    ∃ row ∈ db.passkeyCredentials, row.didKey = did ∧ row.passkey = passkey

/-- A ceremony that was begun for some DID, with its passkeys. -/
def Begun (db : Db summit.webauthn) (log : List (Record summit.webauthn)) (challengeId : Uuid)
    (state : summit.webauthn.AuthenticationState) : Prop :=
  ∃ did, .began challengeId did state ∈ log ∧ Covered db did state

structure LoginTables (db : Db summit.webauthn) (log : List (Record summit.webauthn)) : Prop where
  named : ∀ row ∈ db.passkeyCredentials, row.credentialId = summit.webauthn.credId row.passkey
  pending : ∀ row ∈ db.pendingAuthentications, Begun db log row.challengeId row.state
  bound : LoginsBound db log

def LoginTask (db : Db summit.webauthn) (log : List (Record summit.webauthn)) :
    Task summit.webauthn → Prop
  | .insertAuthentication did _ state => Covered db did state
  | .checkAssertion req state => Begun db log req.challengeId state
  | .openLogin req state _ => Bound db log req.challengeId req.did req.credential state
  | _ => True

section

variable {db after : Db summit.webauthn} {log later : List (Record summit.webauthn)}
variable {challengeId : Uuid} {did : String} {state : summit.webauthn.AuthenticationState}

theorem Covered.mono (rows : db.passkeyCredentials ⊆ after.passkeyCredentials)
    (covered : Covered db did state) : Covered after did state := by
  intro passkey member
  obtain ⟨row, stored, named, same⟩ := covered passkey member
  exact ⟨row, rows stored, named, same⟩

theorem Begun.mono (rows : db.passkeyCredentials ⊆ after.passkeyCredentials) (grows : log ⊆ later)
    (begun : Begun db log challengeId state) : Begun after later challengeId state := by
  obtain ⟨did, began, covered⟩ := begun
  exact ⟨did, grows began, covered.mono rows⟩

theorem Bound.mono {assertion : summit.webauthn.Assertion}
    (rows : db.passkeyCredentials ⊆ after.passkeyCredentials) (grows : log ⊆ later)
    (bound : Bound db log challengeId did assertion state) :
    Bound after later challengeId did assertion state := by
  obtain ⟨began, row, stored, named, signed⟩ := bound
  exact ⟨grows began, row, rows stored, named, signed⟩

theorem LoginTask.mono {task : Task summit.webauthn}
    (rows : db.passkeyCredentials ⊆ after.passkeyCredentials) (grows : log ⊆ later)
    (fit : LoginTask db log task) : LoginTask after later task := by
  cases task with
  | insertAuthentication did options state => exact Covered.mono rows fit
  | checkAssertion req state => exact Begun.mono rows grows fit
  | openLogin req state userId => exact Bound.mono rows grows fit
  | _ => trivial

theorem covered_of_start {challenge : Nat} {options : summit.webauthn.RequestChallenge}
    (started : summit.webauthn.startAuthentication ((db.getPasskeysForDid did).map Prod.snd)
      challenge = .ok (options, state)) : Covered db did state := by
  intro passkey member
  rw [summit.webauthn.passkeys_of_start started] at member
  obtain ⟨entry, found, rfl⟩ := mem_map.mp member
  exact Db.mem_getPasskeysForDid found

theorem LoginTables.row_unique (tables : LoginTables db log)
    {row other : PasskeyRow summit.webauthn} (stored : row ∈ db.passkeyCredentials)
    (otherStored : other ∈ db.passkeyCredentials)
    (same : row.passkey = other.passkey) : row = other := by
  apply inj_on_of_nodup_map db.credentialId_unique stored otherStored
  rw [tables.named row stored, tables.named other otherStored, same]

theorem LoginTables.bound_of_accepted (tables : LoginTables db log)
    {req : AuthCompleteRequest summit.webauthn} (begun : Begun db log req.challengeId state)
    (own : ∀ passkey ∈ summit.webauthn.passkeys state,
      passkey ∈ (db.getPasskeysForDid req.did).map Prod.snd)
    (accepted : summit.webauthn.finishAuthentication req.credential state = .ok ()) :
    Bound db log req.challengeId req.did req.credential state := by
  obtain ⟨passkey, member, signed⟩ := summit.webauthn.finishAuthentication_ok_iff.mp accepted
  obtain ⟨did, began, covered⟩ := begun
  obtain ⟨row, stored, named, same⟩ := covered passkey member
  obtain ⟨entry, found, entryPasskey⟩ := mem_map.mp (own passkey member)
  obtain ⟨other, otherStored, otherNamed, otherSame⟩ := Db.mem_getPasskeysForDid found
  obtain rfl : row = other :=
    tables.row_unique stored otherStored (by rw [same, otherSame, entryPasskey])
  obtain rfl : did = req.did := named.symm.trans otherNamed
  exact ⟨began, row, stored, otherNamed, by rw [same]; exact signed⟩

theorem LoginTables.extend (tables : LoginTables db log) {records : List (Record summit.webauthn)}
    (kept : db.passkeyCredentials ⊆ after.passkeyCredentials)
    (named : ∀ row ∈ after.passkeyCredentials, row ∈ db.passkeyCredentials ∨
      row.credentialId = summit.webauthn.credId row.passkey)
    (pending : ∀ row ∈ after.pendingAuthentications, row ∈ db.pendingAuthentications ∨
      Begun after (log ++ records) row.challengeId row.state)
    (bound : ∀ challengeId did assertion state,
      .loggedIn challengeId did assertion state ∈ records →
        Bound after (log ++ records) challengeId did assertion state) :
    LoginTables after (log ++ records) := by
  have grows : log ⊆ log ++ records := subset_append_left _ _
  refine ⟨?_, ?_, ?_⟩
  · intro row stored
    rcases named row stored with old | new
    · exact tables.named row old
    · exact new
  · intro row waiting
    rcases pending row waiting with old | new
    · exact (tables.pending row old).mono kept grows
    · exact new
  · intro challengeId did assertion state member
    rcases mem_append.mp member with old | new
    · exact (tables.bound _ _ _ _ old).mono kept grows
    · exact bound _ _ _ _ new

theorem LoginTables.of_drops (tables : LoginTables db log) (drops : db.Drops after)
    {records : List (Record summit.webauthn)}
    (bound : ∀ challengeId did assertion state,
      .loggedIn challengeId did assertion state ∈ records →
        Bound after (log ++ records) challengeId did assertion state) :
    LoginTables after (log ++ records) :=
  tables.extend drops.passkeys_subset
    (fun _ stored => .inl (drops.passkeys ▸ stored))
    (fun _ waiting => .inl (drops.authentications waiting)) bound

end

def loginInvariant (summit : Summit) : Invariant summit where
  good := LoginTables
  fit := LoginTask
  stable := LoginTask.mono

theorem LoginTables.executes {now : DateTime} {fresh : Fresh} {db : Db summit.webauthn}
    {log : List (Record summit.webauthn)} {task : Task summit.webauthn}
    {effect : Effect summit.webauthn} (tables : LoginTables db log) (fit : LoginTask db log task)
    (executes : Executes now fresh db task effect) :
    LoginTables effect.db (log ++ effect.records) := by
  have kept := executes.passkeys_subset
  cases executes with
  | attested taken => exact tables.of_drops (Db.drops_takePendingRegistration taken) nofun
  | stored inserted =>
    obtain ⟨waiting, rows⟩ := Db.insertPasskeyCredential_eq_ok inserted
    apply tables.extend kept
    · intro row stored
      rcases rows with same | added
      · exact .inl (same ▸ stored)
      · rw [added, mem_cons] at stored
        rcases stored with rfl | old
        · exact .inr rfl
        · exact .inl old
    · exact fun row member => .inl (waiting ▸ member)
    · simp
  | issued drops => exact tables.of_drops drops (by simp)
  | opened drops => exact tables.of_drops drops (by simp)
  | started _ => exact tables.of_drops (.refl db) nofun
  | @began did options state after inserted =>
    obtain ⟨rows, waiting⟩ := Db.insertPendingAuthentication_eq_ok inserted
    apply tables.extend kept
    · exact fun row stored => .inl (rows ▸ stored)
    · intro row member
      rw [waiting, mem_cons] at member
      rcases member with rfl | old
      · exact .inr ⟨did, by simp, Covered.mono kept fit⟩
      · exact .inl old
    · simp
  | taken taken => exact tables.of_drops (Db.drops_takePendingAuthentication taken) nofun
  | accepted _ => exact tables.of_drops (.refl db) nofun
  | @loggedIn req state userId after token drops =>
    apply tables.of_drops drops
    intro challengeId did assertion other member
    cases mem_singleton.mp member
    exact Bound.mono kept (subset_append_left _ _) fit
  | quiet drops _ => exact tables.of_drops drops nofun

theorem LoginTask.executes {now : DateTime} {fresh : Fresh} {db : Db summit.webauthn}
    {log : List (Record summit.webauthn)} {task next : Task summit.webauthn}
    {effect : Effect summit.webauthn} (tables : LoginTables db log) (fit : LoginTask db log task)
    (own : OwnCeremony now db task) (executes : Executes now fresh db task effect)
    (outcome : effect.outcome = .goOn next) :
    LoginTask effect.db (log ++ effect.records) next := by
  have kept := executes.passkeys_subset
  cases executes with
  | attested | stored | issued | loggedIn =>
    cases outcome
    trivial
  | opened | began => cases outcome
  | started started =>
    cases outcome
    exact covered_of_start started
  | taken taken =>
    cases outcome
    obtain ⟨waiting, named⟩ := Db.mem_of_takePendingAuthentication taken
    have begun := tables.pending _ waiting
    rw [named] at begun
    exact begun.mono kept (subset_append_left _ _)
  | accepted accepted =>
    cases outcome
    exact (tables.bound_of_accepted fit own accepted).mono kept (subset_append_left _ _)
  | quiet _ plain =>
    have idle := plain next outcome
    cases next <;> trivial

theorem loginInvariant_kept : (loginInvariant summit).Kept OwnCeremony where
  first := ⟨nofun, nofun, nofun⟩
  arrive := by
    intro db log request
    cases request <;> trivial
  good tables fit _ executes := LoginTables.executes tables fit executes
  fit tables fit own executes outcome := LoginTask.executes tables fit own executes outcome

/-- **In every run in which each login is completed with the passkeys of its own ceremony, every
session that a login opened belongs to the DID the ceremony was begun for, and a passkey stored
with that DID signed.** -/
theorem loginsBound_of_guarded_run {events : List (SummitEvent summit.webauthn)}
    {last : SummitState summit.webauthn}
    (run : Run (GuardedStep OwnCeremony) start events last) : LoginsBound last.db last.log :=
  (loginInvariant_kept.run run).1.bound

/-! ## Two clients -/

instance [DecidableEq summit.webauthn.Passkey] (now : DateTime) (db : Db summit.webauthn)
    (task : Task summit.webauthn) : Decidable (OwnCeremony now db task) := by
  cases task <;> unfold OwnCeremony <;> infer_instance

end Summit

def Record.ceremony? {W : Webauthn} : Record W → Option (Uuid × String)
  | .began challengeId did _ => some (challengeId, did)
  | _ => none

def Record.login? {W : Webauthn} : Record W → Option (Uuid × String)
  | .loggedIn challengeId did _ _ => some (challengeId, did)
  | _ => none

def sampleLogin (did : String) : List (SummitEvent sampleSummit.webauthn) :=
  let tick : SummitEvent sampleSummit.webauthn := .advance 0 0 ⟨7, 7, 7⟩
  sampleRegistration 1 1 5 ++ sampleRegistration 2 2 6 ++
    [.arrive (.authBegin (sampleDid 1)), tick, tick,
      .arrive (.authComplete ⟨(7 : Nat), did, ((1, 7) : UInt8 × Nat)⟩), tick, tick, tick, tick]

/-- Completed with its own DID, the login is bound to the passkey. -/
theorem sampleLogin_bound :
    ∃ last, Run (Summit.GuardedStep Summit.OwnCeremony) Summit.start
        (sampleLogin (sampleDid 1)) last ∧
      last.log.filterMap Record.login? = [(7, sampleDid 1)] ∧
        Summit.LoginsBound last.db last.log := by
  have meets : Meets Summit.step (Summit.Guarded Summit.OwnCeremony) Summit.start
      (sampleLogin (sampleDid 1)) := by decide +kernel
  exact ⟨_, run_of_meets meets, by decide +kernel,
    Summit.loginsBound_of_guarded_run (run_of_meets meets)⟩

/-- Completed with the other passkey's DID, the login opens a session for that DID, although the
ceremony was begun for the first. -/
theorem stolenLogin_not_bound :
    ∃ last, Run (fun state event next => Summit.step state event = next) Summit.start
        (sampleLogin (sampleDid 2)) last ∧ ¬ Summit.LoginsBound last.db last.log := by
  refine ⟨_, run_foldl _ _ _, ?_⟩
  intro bound
  obtain ⟨logins, ceremonies⟩ :
      ((sampleLogin (sampleDid 2)).foldl Summit.step Summit.start).log.filterMap Record.login? =
        [(7, sampleDid 2)] ∧
      ((sampleLogin (sampleDid 2)).foldl Summit.step Summit.start).log.filterMap Record.ceremony? =
        [(7, sampleDid 1)] := by
    decide +kernel
  obtain ⟨record, logged, login⟩ := mem_filterMap.mp (logins ▸ mem_singleton_self _)
  cases record with
  | loggedIn challengeId did assertion state =>
    obtain ⟨rfl, rfl⟩ := Prod.mk.inj (Option.some.inj login)
    have begun : (7, sampleDid 2) ∈ [(7, sampleDid 1)] :=
      ceremonies ▸ mem_filterMap.mpr ⟨_, (bound _ _ _ _ logged).1, rfl⟩
    exact absurd begun (by decide +kernel)
  | _ => cases login

end KwaaiNet
