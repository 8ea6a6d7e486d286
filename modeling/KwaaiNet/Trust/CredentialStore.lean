import KwaaiNet.Foundation.Calendar
import KwaaiNet.Foundation.Table
import KwaaiNet.Trust.TrustScore

/-! # The credential store

Credentials are files of a directory, one for each. The name of a file has the type of the
credential, the second of its issuance and eight characters of its issuer, and a file that has that
name already is overwritten. Nothing is lost exactly if credentials that agree in these have the
same contents, and no claim is named `id` (`KwaaiNet.neverLoses_iff`).

The eight characters do not tell one peer from another: they are the same for all Ed25519
identities (`KwaaiNet.issuerPrefix_ofKey`).
-/

namespace KwaaiNet

open Foundation List

/-! ## File names -/

def typeWord (vc : VerifiableCredential) : List Char :=
  (vc.kwaaiType.map fun type => type.asStr.toList.map Char.toLower).getD "credential".toList

/-- The last word of a file name. -/
def issuerPrefix (vc : VerifiableCredential) : List Char :=
  ((Text.stripPrefix? "did:peer:" vc.issuer).map fun peer => peer.toList.take 8).getD
    "unknown".toList

def DateTime.second (instant : DateTime) : Int := instant / 1000000000

/-- `vc_filename`. -/
def vcFilename (vc : VerifiableCredential) : List Char :=
  typeWord vc ++ '-' :: stamp vc.issuanceDate.second ++ '-' :: issuerPrefix vc ++ ".json".toList

theorem typeWord_inj {first second : VerifiableCredential}
    (same : typeWord first = typeWord second) : first.kwaaiType = second.kwaaiType := by
  revert same
  rw [typeWord, typeWord]
  generalize first.kwaaiType = type
  generalize second.kwaaiType = other
  revert type other
  decide

theorem hyphen_notMem_typeWord (vc : VerifiableCredential) : '-' ∉ typeWord vc := by
  rw [typeWord]
  generalize vc.kwaaiType = type
  revert type
  decide

/-- **File names.** Two credentials have the same file name exactly if they agree in type, second of
issuance and the first characters of the issuer. -/
theorem vcFilename_eq_iff (first second : VerifiableCredential) :
    vcFilename first = vcFilename second ↔
      first.kwaaiType = second.kwaaiType ∧
        first.issuanceDate.second = second.issuanceDate.second ∧
        issuerPrefix first = issuerPrefix second := by
  constructor
  · intro same
    simp only [vcFilename, append_assoc, cons_append] at same
    have split := congrArg (Text.splitOnce '-') same
    rw [Text.splitOnce_append (hyphen_notMem_typeWord first),
      Text.splitOnce_append (hyphen_notMem_typeWord second)] at split
    obtain ⟨words, behind⟩ := Prod.mk.inj (Option.some.inj split)
    obtain ⟨seconds, rest⟩ := stamp_append_inj behind
    exact ⟨typeWord_inj words, seconds, append_cancel_right (List.cons.inj rest).2⟩
  · intro agree
    obtain ⟨type, seconds, issuer⟩ := agree
    rw [vcFilename, vcFilename, typeWord, typeWord, type, seconds, issuer]

/-- **All Ed25519 issuers have the same last word.** -/
theorem issuerPrefix_ofKey {vc : VerifiableCredential} {key : KeyBytes}
    (issuer : vc.issuer = peerIdToDid (PeerId.ofKey key)) :
    issuerPrefix vc = "12D3KooW".toList := by
  rw [issuerPrefix, issuer, peerIdToDid, Text.stripPrefix?_append, Option.map_some,
    Option.getD_some, PeerId.take_toBase58_ofKey]

/-! ## Contents -/

/-- The credentials are not distinct: at most the order in which the map of claims is listed, the
identifiers and the contexts differ. -/
structure SameContents (first second : VerifiableCredential) : Prop where
  type : first.credentialType = second.credentialType
  issuer : first.issuer = second.issuer
  subject : first.subject.id = second.subject.id
  claims : first.subject.claims.Perm second.subject.claims
  issuanceDate : first.issuanceDate = second.issuanceDate
  expirationDate : first.expirationDate = second.expirationDate
  proof : first.proof = second.proof

namespace SameContents

variable {first second third : VerifiableCredential}

theorem refl (vc : VerifiableCredential) : SameContents vc vc :=
  ⟨rfl, rfl, rfl, .refl _, rfl, rfl, rfl⟩

theorem symm (same : SameContents first second) : SameContents second first :=
  ⟨same.type.symm, same.issuer.symm, same.subject.symm, same.claims.symm, same.issuanceDate.symm,
    same.expirationDate.symm, same.proof.symm⟩

theorem trans (left : SameContents first second) (right : SameContents second third) :
    SameContents first third :=
  ⟨left.type.trans right.type, left.issuer.trans right.issuer, left.subject.trans right.subject,
    left.claims.trans right.claims, left.issuanceDate.trans right.issuanceDate,
    left.expirationDate.trans right.expirationDate, left.proof.trans right.proof⟩

theorem vcFilename_eq (same : SameContents first second) :
    vcFilename first = vcFilename second := by
  rw [vcFilename_eq_iff, VerifiableCredential.kwaaiType, VerifiableCredential.kwaaiType,
    issuerPrefix, issuerPrefix, same.type, same.issuer, same.issuanceDate]
  exact ⟨rfl, rfl, rfl⟩

end SameContents

/-! ## The store -/

/-- The files of the store, by name. It has no directories in it. -/
abbrev Directory := Table (List Char) String

def isFileName (name : List Char) : Bool := !name.contains '/' && !name.contains (Char.ofNat 0)

section

variable (chrono : Chrono)

/-- `save`: the file is written as a whole, or the call fails. -/
def save (written : Bool) (dir : Directory) (vc : VerifiableCredential) : Option Directory :=
  if written && isFileName (vcFilename vc) then
    some (dir.put (vcFilename vc, some (vc.text chrono Json.pretty)))
  else none

/-- `import_file`, given the text of the file if it can be read. -/
def importFile (written : Bool) (dir : Directory) (file : Option String) :
    Option (Directory × VerifiableCredential) := do
  let json ← file
  let vc ← VerifiableCredential.fromJson chrono json
  let dir ← save chrono written dir vc
  return (dir, vc)

/-- `load_all`, of the files in the order in which the directory lists them. -/
def loadAll (files : List (Sigma fun _ : List Char => String)) : List VerifiableCredential :=
  (files.filter fun file => Text.hasExtension "json".toList file.1).filterMap fun file =>
    VerifiableCredential.fromJson chrono file.2

/-- A call, and whether the write it makes is carried out. -/
inductive StoreCall where
  | save (written : Bool) (vc : VerifiableCredential)
  | importFile (written : Bool) (file : Option String)

def StoreCall.run (dir : Directory) : StoreCall → Option (Directory × VerifiableCredential)
  | .save written vc => (KwaaiNet.save chrono written dir vc).map fun dir => (dir, vc)
  | .importFile written file => KwaaiNet.importFile chrono written dir file

/-- The directory, and what successful calls have saved. -/
structure StoreRun where
  dir : Directory
  saved : List VerifiableCredential

def StoreRun.step (run : StoreRun) (call : StoreCall) : StoreRun :=
  match call.run chrono run.dir with
  | some (dir, vc) => ⟨dir, run.saved ++ [vc]⟩
  | none => run

def runCalls (dir : Directory) (calls : List StoreCall) : StoreRun :=
  calls.foldl (StoreRun.step chrono) ⟨dir, []⟩

/-- Whatever the directory held and in whatever order it is listed: what was saved is loaded. -/
def NeverLoses (calls : List StoreCall) : Prop :=
  ∀ dir files, files.Perm (runCalls chrono dir calls).dir.entries →
    ∀ vc ∈ (runCalls chrono dir calls).saved,
      ∃ loaded ∈ loadAll chrono files, SameContents loaded vc

def StoreCall.credential : StoreCall → Option VerifiableCredential
  | .save written vc => if written && isFileName (vcFilename vc) then some vc else none
  | .importFile written file =>
    (file.bind (VerifiableCredential.fromJson chrono)).bind fun vc =>
      if written && isFileName (vcFilename vc) then some vc else none

/-- What the successful ones of some calls save. -/
def savedBy (calls : List StoreCall) : List VerifiableCredential :=
  calls.filterMap (StoreCall.credential chrono)

def fileChange (vc : VerifiableCredential) : List Char × Option String :=
  (vcFilename vc, some (vc.text chrono Json.pretty))

/-! ## Runs -/

theorem StoreCall.run_eq (dir : Directory) (call : StoreCall) :
    call.run chrono dir =
      (call.credential chrono).map fun vc => (dir.put (fileChange chrono vc), vc) := by
  have saves (written : Bool) (vc : VerifiableCredential) :
      (KwaaiNet.save chrono written dir vc).map (fun dir => (dir, vc)) =
        (if written && isFileName (vcFilename vc) then some vc else none).map fun vc =>
          (dir.put (fileChange chrono vc), vc) := by
    rw [KwaaiNet.save]
    split_ifs <;> rfl
  cases call with
  | save written vc => exact saves written vc
  | importFile written file =>
    rw [run, KwaaiNet.importFile, credential]
    cases file with
    | none => rfl
    | some json =>
      rw [Option.bind_some]
      change (VerifiableCredential.fromJson chrono json).bind _ = _
      cases VerifiableCredential.fromJson chrono json with
      | none => rfl
      | some vc =>
        refine Eq.trans ?_ (saves written vc)
        rw [Option.bind_some, Option.map_eq_bind]
        rfl

/-- **Runs.** The files of successful calls are put into the directory, one after another. -/
theorem runCalls_eq (dir : Directory) (calls : List StoreCall) :
    runCalls chrono dir calls =
      ⟨dir.putAll ((savedBy chrono calls).map (fileChange chrono)), savedBy chrono calls⟩ := by
  induction calls using List.reverseRecOn with
  | nil => rfl
  | append_singleton calls call ih =>
    have more : savedBy chrono (calls ++ [call]) =
        savedBy chrono calls ++ savedBy chrono [call] := filterMap_append
    rw [runCalls, foldl_append, ← runCalls, ih, more, foldl_cons, foldl_nil,
      StoreRun.step, StoreCall.run_eq]
    cases saved : call.credential chrono with
    | none =>
      have none : savedBy chrono [call] = [] := filterMap_cons_none saved
      rw [none, append_nil]
      rfl
    | some vc =>
      have one : savedBy chrono [call] = [vc] := filterMap_cons_some saved
      rw [one, map_append, Table.putAll_append]
      rfl

variable {chrono}

theorem mem_loadAll_runCalls_empty {calls : List StoreCall} {loaded : VerifiableCredential}
    (member : loaded ∈ loadAll chrono (runCalls chrono ∅ calls).dir.entries) :
    "id" ∉ loaded.subject.claims.map Prod.fst ∧
      (runCalls chrono ∅ calls).dir.lookup (vcFilename loaded) =
        some (loaded.text chrono Json.pretty) := by
  obtain ⟨file, listed, read⟩ := mem_filterMap.mp member
  have held := AList.mem_lookup_iff.mpr (mem_filter.mp listed).1
  have known := held
  rw [runCalls_eq, Option.mem_def, congrFun (Table.lookup_putAll _ _) file.1] at known
  rcases overlay_eq_some known with put | before
  · obtain ⟨vc, -, change⟩ := mem_map.mp put
    obtain ⟨name, text⟩ := Prod.mk.inj change
    rw [← Option.some.inj text] at read
    by_cases taken : "id" ∈ vc.subject.claims.map Prod.fst
    · rw [VerifiableCredential.fromJson_text_eq_none chrono _ taken] at read
      cases read
    · rw [VerifiableCredential.fromJson_text chrono _ taken] at read
      obtain rfl := Option.some.inj read
      rw [name, text]
      exact ⟨taken, held⟩
  · rw [AList.lookup_empty] at before
    cases before

/-- A credential without a claim named `id` is loaded from its file. -/
theorem mem_loadAll {files : List (Sigma fun _ : List Char => String)} {vc : VerifiableCredential}
    (free : "id" ∉ vc.subject.claims.map Prod.fst)
    (listed : ⟨vcFilename vc, vc.text chrono Json.pretty⟩ ∈ files) : vc ∈ loadAll chrono files := by
  refine mem_filterMap.mpr ⟨_, mem_filter.mpr ⟨listed, ?_⟩,
    VerifiableCredential.fromJson_text chrono _ free⟩
  exact Text.hasExtension_append _ (append_ne_nil_of_right_ne_nil _ (cons_ne_nil _ _))

theorem NeverLoses.sameContents {calls : List StoreCall} (kept : NeverLoses chrono calls)
    {first second : VerifiableCredential} (one : first ∈ savedBy chrono calls)
    (other : second ∈ savedBy chrono calls) (name : vcFilename first = vcFilename second) :
    SameContents first second := by
  have saved : (runCalls chrono ∅ calls).saved = savedBy chrono calls := by rw [runCalls_eq]
  rw [← saved] at one other
  obtain ⟨loaded, member, same⟩ := kept ∅ _ (.refl _) first one
  obtain ⟨loaded', member', same'⟩ := kept ∅ _ (.refl _) second other
  obtain ⟨free, held⟩ := mem_loadAll_runCalls_empty member
  obtain ⟨free', held'⟩ := mem_loadAll_runCalls_empty member'
  rw [same.vcFilename_eq, name, ← same'.vcFilename_eq, held', Option.some.injEq] at held
  have equal := congrArg (VerifiableCredential.fromJson chrono) held
  rw [VerifiableCredential.fromJson_text chrono _ free,
    VerifiableCredential.fromJson_text chrono _ free', Option.some.injEq] at equal
  rw [equal] at same'
  exact same.symm.trans same'

/-- **The store loses nothing exactly if no saved credential has a claim named `id`, and those that
agree in type, second of issuance and the first characters of the issuer have the same
contents.** -/
theorem neverLoses_iff (chrono : Chrono) (calls : List StoreCall) :
    NeverLoses chrono calls ↔
      (∀ vc ∈ savedBy chrono calls, "id" ∉ vc.subject.claims.map Prod.fst) ∧
        ∀ first ∈ savedBy chrono calls, ∀ second ∈ savedBy chrono calls,
          first.kwaaiType = second.kwaaiType →
          first.issuanceDate.second = second.issuanceDate.second →
          issuerPrefix first = issuerPrefix second → SameContents first second := by
  constructor
  · intro kept
    refine ⟨fun vc member => ?_, fun first one second other type seconds issuer => ?_⟩
    · have saved : (runCalls chrono ∅ calls).saved = savedBy chrono calls := by rw [runCalls_eq]
      obtain ⟨loaded, found, same⟩ := kept ∅ _ (.refl _) vc (saved ▸ member)
      rw [← (same.claims.map Prod.fst).mem_iff]
      exact (mem_loadAll_runCalls_empty found).1
    · exact kept.sameContents one other
        ((vcFilename_eq_iff first second).mpr ⟨type, seconds, issuer⟩)
  · intro conditions dir files listing vc member
    obtain ⟨free, agree⟩ := conditions
    rw [runCalls_eq] at listing member
    have touched : vcFilename vc ∈
        ((savedBy chrono calls).map (fileChange chrono)).map Prod.fst := by
      rw [map_map]
      exact mem_map_of_mem (f := Prod.fst ∘ fileChange chrono) member
    -- The file holds what was saved last under the name of the credential.
    obtain ⟨change, put, name, held⟩ := exists_change_of_mem touched fun name => dir.lookup name
    obtain ⟨last, saved, rfl⟩ := mem_map.mp put
    rw [← congrFun (Table.lookup_putAll _ _)] at held
    have name : vcFilename last = vcFilename vc := name
    rw [← name] at held
    have found := listing.mem_iff.mpr (AList.mem_lookup_iff.mp held)
    obtain ⟨type, seconds, issuer⟩ := (vcFilename_eq_iff last vc).mp name
    exact ⟨last, mem_loadAll (free last saved) found,
      agree last saved vc member type seconds issuer⟩

end

/-- `peer_endorsement_vc`: valid for 90 days. -/
def peerEndorsementVc (now : DateTime) (issuerDid subjectDid : String) (interactionCount : Nat) :
    VerifiableCredential :=
  { VerifiableCredential.new now issuerDid
      ((CredentialSubject.new subjectDid).withClaim "interactionCount"
        ⟨Json.count interactionCount, trivial⟩)
      ["VerifiableCredential", "PeerEndorsementVC"] with
    expirationDate := some (now + days 90) }

theorem kwaaiType_peerEndorsementVc (now : DateTime) (issuerDid subjectDid : String) (count : Nat) :
    (peerEndorsementVc now issuerDid subjectDid count).kwaaiType = some .peerEndorsementVC := rfl

theorem issuanceDate_peerEndorsementVc (now : DateTime) (issuerDid subjectDid : String)
    (count : Nat) : (peerEndorsementVc now issuerDid subjectDid count).issuanceDate = now := rfl

theorem isFileName_peerEndorsementVc (now : DateTime) (key : KeyBytes) (subjectDid : String)
    (count : Nat) :
    isFileName (vcFilename
      (peerEndorsementVc now (peerIdToDid (PeerId.ofKey key)) subjectDid count)) = true := by
  have clean {character : Char} (digit : character.isDigit = false) (plus : character ≠ '+')
      (minus : character ≠ '-') (word : character ∉ "peerendorsementvc".toList)
      (rest : character ∉ "12D3KooW.json".toList) :
      character ∉ vcFilename
        (peerEndorsementVc now (peerIdToDid (PeerId.ofKey key)) subjectDid count) := by
    have name : vcFilename (peerEndorsementVc now (peerIdToDid (PeerId.ofKey key)) subjectDid count) =
        "peerendorsementvc".toList ++ '-' :: stamp now.second ++ '-' :: "12D3KooW.json".toList := by
      rw [vcFilename, issuerPrefix_ofKey rfl, append_assoc]
      rfl
    rw [name]
    simp only [mem_append, mem_cons, word, minus, notMem_stamp digit plus minus, rest,
      or_self, not_false_eq_true]
  rw [isFileName, Bool.and_eq_true, Bool.not_eq_true', Bool.not_eq_true', contains_eq_mem,
    contains_eq_mem, decide_eq_false_iff_not, decide_eq_false_iff_not]
  exact ⟨clean rfl (by decide) (by decide) (by decide) (by decide),
    clean rfl (by decide) (by decide) (by decide) (by decide)⟩

theorem not_neverLoses_endorsements (chrono : Chrono) (now : DateTime) {first second : KeyBytes}
    (different : first ≠ second) (subjectDid : String) (count other : Nat) :
    ¬ NeverLoses chrono
      [.save true (peerEndorsementVc now (peerIdToDid (PeerId.ofKey first)) subjectDid count),
        .save true (peerEndorsementVc now (peerIdToDid (PeerId.ofKey second)) subjectDid other)] := by
  intro kept
  have saved (key : KeyBytes) (count : Nat) : StoreCall.credential chrono
      (.save true (peerEndorsementVc now (peerIdToDid (PeerId.ofKey key)) subjectDid count)) =
        some (peerEndorsementVc now (peerIdToDid (PeerId.ofKey key)) subjectDid count) := by
    rw [StoreCall.credential, isFileName_peerEndorsementVc]
    rfl
  have name : vcFilename
        (peerEndorsementVc now (peerIdToDid (PeerId.ofKey first)) subjectDid count) =
      vcFilename (peerEndorsementVc now (peerIdToDid (PeerId.ofKey second)) subjectDid other) := by
    rw [vcFilename_eq_iff, issuerPrefix_ofKey rfl, issuerPrefix_ofKey rfl,
      kwaaiType_peerEndorsementVc, kwaaiType_peerEndorsementVc, issuanceDate_peerEndorsementVc,
      issuanceDate_peerEndorsementVc]
    exact ⟨rfl, rfl, rfl⟩
  have same := kept.sameContents
    (mem_filterMap.mpr ⟨_, mem_cons_self, saved first count⟩)
    (mem_filterMap.mpr ⟨_, mem_cons_of_mem _ mem_cons_self, saved second other⟩) name
  have peers := congrArg didToPeerId same.issuer
  change didToPeerId (peerIdToDid (PeerId.ofKey first)) =
    didToPeerId (peerIdToDid (PeerId.ofKey second)) at peers
  rw [didToPeerId_peerIdToDid, didToPeerId_peerIdToDid] at peers
  have keys := congrArg PeerId.extractEd25519Bytes (Option.some.inj peers)
  rw [PeerId.extractEd25519Bytes_ofKey, PeerId.extractEd25519Bytes_ofKey] at keys
  exact different (Option.some.inj keys)

/-- Two peers endorse a node, and the second endorsement overwrites the first. -/
theorem twoEndorsements_loses :
    ¬ NeverLoses sampleChrono
      [.save true
          (peerEndorsementVc 0 (peerIdToDid (PeerId.ofKey (repeatedKey 1))) "did:peer:node" 10),
        .save true
          (peerEndorsementVc 0 (peerIdToDid (PeerId.ofKey (repeatedKey 2))) "did:peer:node" 3)] :=
  not_neverLoses_endorsements sampleChrono 0 (by decide) "did:peer:node" 10 3

end KwaaiNet
