import KwaaiNet.Foundation.Fallible
import KwaaiNet.Foundation.Utf8
import KwaaiNet.Trust.CredentialStore

/-! # Credentials on the screen

What `kwaainet identity show`, `kwaainet identity list-vcs` and the start of a node print of the
credentials in the store. Issuers are cut at a number of bytes, which panics inside a character:
`KwaaiNet.harmlessFile_iff` says for which files that cannot happen. Importing a file does not look
at the issuer.

The frames around the lines, which do not depend on the credentials, are left out.
-/

namespace KwaaiNet

open Foundation List

/-- `{:<width}`. -/
def padRight (width : Nat) (text : List Char) : List Char :=
  text ++ List.replicate (width - text.length) ' '

def typeLabel (vc : VerifiableCredential) : List Char :=
  ((vc.kwaaiType.map KwaaiCredentialType.asStr).getD "Unknown").toList

/-- `abbreviate_did`. -/
def abbreviateDid (did : List Char) (maxLen : Nat) : Option (List Char) :=
  if Utf8.width did ≤ maxLen then some did
  else (Utf8.sliceTo did maxLen).map fun front => front ++ ['…']

/-- What the commands know besides the credentials. -/
structure Console (K : Type) where
  peer : PeerId
  now : DateTime
  decay : DateTime → K
  /-- `{:.0}` of the score in percent. -/
  percent : K → List Char
  keyFile : List Char
  storeDir : List Char

namespace Console

variable {K : Type} (console : Console K)

def did : String := peerIdToDid console.peer

/-- A line of `show_identity`. -/
def identityRow (vc : VerifiableCredential) : Option (List Char) := do
  let expiry := (vc.expirationDate.map fun expiry => dateText expiry.second).getD "no expiry".toList
  let issuerShort ← abbreviateDid vc.issuer.toList 20
  return "    [".toList ++ padRight 22 (typeLabel vc) ++ "]  expires: ".toList ++ expiry ++
    "  issuer: ".toList ++ issuerShort

/-- `IdentityJson`. -/
structure IdentityJson (K : Type) where
  did : String
  peerId : String
  trustTier : String
  score : K
  credentialCount : Nat

/-- What `show_identity` prints. -/
inductive Shown (K : Type) where
  | json (identity : IdentityJson K)
  | lines (lines : List (List Char))

/-- `show_identity`. -/
def showIdentity [Field K] [LinearOrder K] (json : Bool) (store : List VerifiableCredential) :
    Option (Shown K) :=
  let vcs := loadValidForSubject console.now console.did store
  let score := TrustScore.fromCredentials console.decay console.now vcs
  if json then
    some (.json ⟨console.did, console.peer.toBase58, score.tierLabel, score.score, vcs.length⟩)
  else do
    let rows ← vcs.mapM identityRow
    let heading :=
      ["  DID:        ".toList ++ console.did.toList,
        "  Peer ID:    ".toList ++ console.peer.toBase58.toList,
        "  Key file:   ".toList ++ console.keyFile, "  Cred store: ".toList ++ console.storeDir, [],
        "  Trust tier: ".toList ++ score.tierLabel.toList ++ "  (score: ".toList ++
          console.percent score.score ++ "%)".toList,
        "  Valid credentials: ".toList ++ Nat.toDigits 10 vcs.length, []]
    let invitation :=
      ["  💡 No credentials yet. Attend a Kwaai summit to receive your first VC.".toList,
        "  💡 Import a VC with: kwaainet identity import-vc <file.json>".toList]
    return .lines (heading ++ if vcs.isEmpty then invitation else rows)

/-- A line of `print_vc_table`. -/
def tableRow (vc : VerifiableCredential) : Option (List Char) := do
  let status := if vc.isExpired console.now then "Expired".toList else "Valid".toList
  let issuer ← abbreviateDid vc.issuer.toList 22
  return "    ".toList ++ padRight 24 (typeLabel vc) ++ " ".toList ++
    padRight 12 (dateText vc.issuanceDate.second) ++ " ".toList ++ padRight 10 status ++
    "  ".toList ++ issuer

/-- `print_vc_table`. -/
def vcTable (vcs : List VerifiableCredential) : Option (List (List Char)) := do
  let rows ← vcs.mapM console.tableRow
  return ["    ".toList ++ padRight 24 "Type".toList ++ " ".toList ++ padRight 12 "Issued".toList ++
      " ".toList ++ padRight 10 "Status".toList ++ "  Issuer".toList,
    "    ".toList ++ List.replicate 72 '-'] ++ rows

def titledTable (title : List (List Char)) (vcs : List VerifiableCredential) :
    Option (List (List Char)) :=
  if vcs.isEmpty then some [] else (console.vcTable vcs).map fun rows => title ++ rows

/-- `list_vcs`. -/
def listVcs (store : List VerifiableCredential) : Option (List (List Char)) := do
  let heading := ["  Node DID:   ".toList ++ console.did.toList,
    "  Store:      ".toList ++ console.storeDir, []]
  let mine := store.filter fun vc => vc.subject.id = console.did
  let others := store.filter fun vc => ¬ vc.subject.id = console.did
  if mine.isEmpty && others.isEmpty then
    return heading ++ ["  No credentials stored.".toList,
      "  💡 Import a credential with: kwaainet identity import-vc <file.json>".toList]
  else
    let own ← console.titledTable
      ["  This node (".toList ++ Nat.toDigits 10 mine.length ++ " credential(s)):".toList] mine
    let foreign ← console.titledTable
      [[], "  Other subjects (".toList ++ Nat.toDigits 10 others.length ++
        " credential(s)):".toList] others
    return heading ++ own ++ foreign

def attestationLine (vc : VerifiableCredential) : Option (List Char) := do
  let issuer ← Utf8.sliceTo vc.issuer.toList (min (Utf8.width vc.issuer.toList) 32)
  return "  [".toList ++ typeLabel vc ++ "] issued by ".toList ++ issuer

def trustAttestations (chrono : Chrono) (store : List VerifiableCredential) :
    Option (List (List Char) × List String) := do
  let vcs := loadValidForSubject console.now console.did store
  let rows ← vcs.mapM attestationLine
  let log :=
    if vcs.isEmpty then
      ["Trust attestations: none (run `kwaainet identity import-vc` to add)".toList]
    else ("Trust attestations: ".toList ++ Nat.toDigits 10 vcs.length ++
      " valid VC(s)".toList) :: rows
  return (log, vcs.map fun vc => vc.text chrono Json.compact)

/-! ## Panics -/

/-- A text can be cut after a number of bytes, or is not longer. -/
def Cuttable (text : List Char) (maxLen : Nat) : Prop :=
  maxLen < Utf8.width text → Utf8.IsBoundary text maxLen

theorem isSome_abbreviateDid_iff {did : List Char} {maxLen : Nat} :
    (abbreviateDid did maxLen).isSome = true ↔ Cuttable did maxLen := by
  rw [abbreviateDid, Cuttable]
  split_ifs with short
  · exact iff_of_true rfl fun long => absurd short (Nat.not_le.mpr long)
  · rw [Option.isSome_map, Utf8.isSome_sliceTo_iff]
    exact ⟨fun boundary _ => boundary, fun boundary => boundary (Nat.lt_of_not_le short)⟩

/-- The issuer of a credential can be shown: in tables, and if it is a valid credential of the node
also in its identity and when it starts. -/
structure ShowsIssuer (vc : VerifiableCredential) : Prop where
  listed : Cuttable vc.issuer.toList 22
  shown : vc.subject.id = console.did → vc.isExpired console.now = false →
    Cuttable vc.issuer.toList 20 ∧ Cuttable vc.issuer.toList 32

/-- No command panics. -/
structure Runs [Field K] [LinearOrder K] (chrono : Chrono) (store : List VerifiableCredential) :
    Prop where
  shows : ∀ json, (console.showIdentity json store).isSome = true
  lists : (console.listVcs store).isSome = true
  starts : (console.trustAttestations chrono store).isSome = true

theorem isSome_identityRow_iff {vc : VerifiableCredential} :
    (identityRow vc).isSome = true ↔ Cuttable vc.issuer.toList 20 := by
  have same : (identityRow vc).isSome = (abbreviateDid vc.issuer.toList 20).isSome := by
    rw [identityRow]
    cases abbreviateDid vc.issuer.toList 20 <;> rfl
  rw [same, isSome_abbreviateDid_iff]

theorem isSome_tableRow_iff {vc : VerifiableCredential} :
    (console.tableRow vc).isSome = true ↔ Cuttable vc.issuer.toList 22 := by
  have same : (console.tableRow vc).isSome = (abbreviateDid vc.issuer.toList 22).isSome := by
    rw [tableRow]
    cases abbreviateDid vc.issuer.toList 22 <;> rfl
  rw [same, isSome_abbreviateDid_iff]

theorem isSome_attestationLine_iff {vc : VerifiableCredential} :
    (attestationLine vc).isSome = true ↔ Cuttable vc.issuer.toList 32 := by
  have same : (attestationLine vc).isSome =
      (Utf8.sliceTo vc.issuer.toList (min (Utf8.width vc.issuer.toList) 32)).isSome := by
    rw [attestationLine]
    cases Utf8.sliceTo vc.issuer.toList (min (Utf8.width vc.issuer.toList) 32) <;> rfl
  rw [same, Utf8.isSome_sliceTo_iff, Cuttable]
  by_cases long : 32 < Utf8.width vc.issuer.toList
  · rw [Nat.min_eq_right long.le]
    exact ⟨fun boundary _ => boundary, fun boundary => boundary long⟩
  · rw [Nat.min_eq_left (Nat.not_lt.mp long)]
    exact iff_of_true ⟨_, [], (append_nil _).symm, rfl⟩ fun longer => absurd longer long

variable {console}

theorem isSome_showIdentity_iff [Field K] [LinearOrder K] {store : List VerifiableCredential} :
    (console.showIdentity false store).isSome = true ↔
      ∀ vc ∈ loadValidForSubject console.now console.did store,
        Cuttable vc.issuer.toList 20 := by
  have same : (console.showIdentity false store).isSome =
      ((loadValidForSubject console.now console.did store).mapM identityRow).isSome := by
    rw [showIdentity]
    cases (loadValidForSubject console.now console.did store).mapM identityRow <;> rfl
  simp only [same, isSome_mapM_iff, isSome_identityRow_iff]

theorem isSome_trustAttestations_iff {chrono : Chrono} {store : List VerifiableCredential} :
    (console.trustAttestations chrono store).isSome = true ↔
      ∀ vc ∈ loadValidForSubject console.now console.did store,
        Cuttable vc.issuer.toList 32 := by
  have same : (console.trustAttestations chrono store).isSome =
      ((loadValidForSubject console.now console.did store).mapM attestationLine).isSome := by
    rw [trustAttestations]
    cases (loadValidForSubject console.now console.did store).mapM attestationLine <;> rfl
  simp only [same, isSome_mapM_iff, isSome_attestationLine_iff]

theorem isSome_titledTable_iff {title : List (List Char)} {vcs : List VerifiableCredential} :
    (console.titledTable title vcs).isSome = true ↔
      ∀ vc ∈ vcs, Cuttable vc.issuer.toList 22 := by
  have same : (console.vcTable vcs).isSome = (vcs.mapM console.tableRow).isSome := by
    rw [vcTable]
    cases vcs.mapM console.tableRow <;> rfl
  rw [titledTable]
  split_ifs with empty
  · rw [isEmpty_iff.mp empty]
    exact iff_of_true rfl fun vc member => absurd member not_mem_nil
  · simp only [Option.isSome_map, same, isSome_mapM_iff, isSome_tableRow_iff]

theorem isSome_listVcs_iff {store : List VerifiableCredential} :
    (console.listVcs store).isSome = true ↔ ∀ vc ∈ store, Cuttable vc.issuer.toList 22 := by
  have parts : (∀ vc ∈ store, Cuttable vc.issuer.toList 22) ↔
      (∀ vc ∈ store.filter fun vc => vc.subject.id = console.did,
        Cuttable vc.issuer.toList 22) ∧
      ∀ vc ∈ store.filter fun vc => ¬ vc.subject.id = console.did,
        Cuttable vc.issuer.toList 22 := by
    simp only [mem_filter, decide_eq_true_eq, and_imp, ← forall_and]
    refine forall_congr' fun vc => ?_
    by_cases own : vc.subject.id = console.did <;> simp [own]
  rw [parts, listVcs]
  generalize store.filter (fun vc => decide (vc.subject.id = console.did)) = mine
  generalize store.filter (fun vc => decide ¬ vc.subject.id = console.did) = others
  split_ifs with empty
  · rw [Bool.and_eq_true, List.isEmpty_iff, List.isEmpty_iff] at empty
    rw [empty.1, empty.2]
    refine iff_of_true rfl ⟨fun vc member => ?_, fun vc member => ?_⟩
    · cases member
    · cases member
  · rw [isSome_bind_bind_pure_iff, isSome_titledTable_iff, isSome_titledTable_iff]

theorem runs_iff [Field K] [LinearOrder K] {chrono : Chrono} {store : List VerifiableCredential} :
    console.Runs chrono store ↔ ∀ vc ∈ store, console.ShowsIssuer vc := by
  have valid {property : VerifiableCredential → Prop} :
      (∀ vc ∈ loadValidForSubject console.now console.did store, property vc) ↔
        ∀ vc ∈ store, vc.subject.id = console.did → vc.isExpired console.now = false →
          property vc := by
    simp only [loadValidForSubject, loadForSubject, mem_filter, decide_eq_true_eq,
      Bool.not_eq_true', and_imp]
  constructor
  · intro runs vc member
    have shows := valid.mp (isSome_showIdentity_iff.mp (runs.shows false)) vc member
    have starts := valid.mp (isSome_trustAttestations_iff.mp runs.starts) vc member
    exact ⟨isSome_listVcs_iff.mp runs.lists vc member,
      fun own live => ⟨shows own live, starts own live⟩⟩
  · intro shown
    refine ⟨fun json => ?_, isSome_listVcs_iff.mpr fun vc member => (shown vc member).listed,
      isSome_trustAttestations_iff.mpr (valid.mpr fun vc member own live =>
        ((shown vc member).shown own live).2)⟩
    cases json with
    | true => rfl
    | false =>
      exact isSome_showIdentity_iff.mpr (valid.mpr fun vc member own live =>
        ((shown vc member).shown own live).1)

end Console

/-! ## Imported files -/

section

variable {K : Type} [Field K] [LinearOrder K]

/-- Once the file is imported, the commands run, in whatever order the store is listed. -/
def HarmlessFile (chrono : Chrono) (console : Console K) (dir : Directory) (json : String) : Prop :=
  ∀ written after vc, importFile chrono written dir (some json) = some (after, vc) →
    ∀ files, files.Perm after.entries → console.Runs chrono (loadAll chrono files)

theorem forall_mem_loadAll_put_iff {chrono : Chrono} {dir : Directory} {vc : VerifiableCredential}
    (free : "id" ∉ vc.subject.claims.map Prod.fst)
    {files : List (Sigma fun _ : List Char => String)}
    (listing : files.Perm (dir.put (fileChange chrono vc)).entries)
    {property : VerifiableCredential → Prop} :
    (∀ loaded ∈ loadAll chrono files, property loaded) ↔
      property vc ∧ ∀ file ∈ dir.entries, file.1 ≠ vcFilename vc →
        Text.hasExtension "json".toList file.1 = true →
        ∀ other, VerifiableCredential.fromJson chrono file.2 = some other → property other := by
  have listed {file : Sigma fun _ : List Char => String} : file ∈ files ↔
      file = ⟨vcFilename vc, vc.text chrono Json.pretty⟩ ∨
        file ∈ dir.entries ∧ file.1 ≠ vcFilename vc :=
    listing.mem_iff.trans Table.mem_entries_put
  constructor
  · intro all
    refine ⟨all vc (mem_loadAll free (listed.mpr (.inl rfl))), ?_⟩
    intro file member differs extension other read
    refine all other (mem_filterMap.mpr ⟨file, mem_filter.mpr ⟨?_, extension⟩, read⟩)
    exact listed.mpr (.inr ⟨member, differs⟩)
  · intro conditions loaded member
    obtain ⟨file, kept, read⟩ := mem_filterMap.mp member
    obtain ⟨here, extension⟩ := mem_filter.mp kept
    rcases listed.mp here with rfl | ⟨before, differs⟩
    · rw [VerifiableCredential.fromJson_text chrono _ free] at read
      rw [← Option.some.inj read]
      exact conditions.1
    · exact conditions.2 file before differs extension loaded read

theorem importFile_eq_some_iff {chrono : Chrono} {written : Bool} {dir after : Directory}
    {json : String} {vc : VerifiableCredential} :
    importFile chrono written dir (some json) = some (after, vc) ↔
      VerifiableCredential.fromJson chrono json = some vc ∧
        (written && isFileName (vcFilename vc)) = true ∧
        dir.put (fileChange chrono vc) = after := by
  have run : importFile chrono written dir (some json) =
      (StoreCall.importFile written (some json)).run chrono dir := rfl
  rw [run, StoreCall.run_eq, StoreCall.credential, Option.bind_some, Option.map_eq_some_iff]
  constructor
  · intro done
    obtain ⟨found, kept, same⟩ := done
    obtain ⟨rfl, rfl⟩ := Prod.mk.inj same
    obtain ⟨found', read, kept⟩ := Option.bind_eq_some_iff.mp kept
    split_ifs at kept with accepted
    obtain rfl := Option.some.inj kept
    exact ⟨read, accepted, rfl⟩
  · intro conditions
    obtain ⟨read, accepted, rfl⟩ := conditions
    exact ⟨vc, by rw [read, Option.bind_some, if_pos accepted], rfl⟩

/-- **A file is harmless exactly if, whenever it is accepted, the issuers of its credential and of
those that stay in the store can be shown.** -/
theorem harmlessFile_iff (chrono : Chrono) (console : Console K) (dir : Directory) (json : String) :
    HarmlessFile chrono console dir json ↔
      ∀ vc, VerifiableCredential.fromJson chrono json = some vc →
        isFileName (vcFilename vc) = true →
        console.ShowsIssuer vc ∧ ∀ file ∈ dir.entries, file.1 ≠ vcFilename vc →
          Text.hasExtension "json".toList file.1 = true →
          ∀ other, VerifiableCredential.fromJson chrono file.2 = some other →
            console.ShowsIssuer other := by
  constructor
  · intro harmless vc read named
    have free := VerifiableCredential.id_notMem_of_fromJson chrono read
    have runs := harmless true _ vc (importFile_eq_some_iff.mpr ⟨read, named, rfl⟩) _ (.refl _)
    exact (forall_mem_loadAll_put_iff free (.refl _)).mp (Console.runs_iff.mp runs)
  · intro conditions written after vc imported files listing
    obtain ⟨read, named, rfl⟩ := importFile_eq_some_iff.mp imported
    have free := VerifiableCredential.id_notMem_of_fromJson chrono read
    rw [Console.runs_iff, forall_mem_loadAll_put_iff free listing]
    exact conditions vc read ((Bool.and_eq_true _ _).mp named).2

end

/-- A console of the node with identity 0, where scores are shown as nothing. -/
def sampleConsole : Console ℚ :=
  ⟨PeerId.ofByte 0, 0, fun _ => 1, fun _ => [], [], []⟩

/-- A credential of the node whose issuer has characters of two bytes behind 19 of one byte. -/
def accentedIssuer : VerifiableCredential :=
  VerifiableCredential.new 0 "did:peer:2Ez6LSbysYéééééééé"
    (CredentialSubject.new (peerIdToDid (PeerId.ofByte 0))) ["VerifiableCredential", "UptimeVC"]

/-- A file with it is accepted by an empty store, and then all three commands panic. -/
theorem accentedIssuer_not_harmless :
    ¬ HarmlessFile sampleChrono sampleConsole ∅ (accentedIssuer.text sampleChrono Json.compact) ∧
      sampleConsole.showIdentity false [accentedIssuer] = none ∧
      sampleConsole.listVcs [accentedIssuer] = none ∧
      sampleConsole.trustAttestations sampleChrono [accentedIssuer] = none := by
  have free : "id" ∉ accentedIssuer.subject.claims.map Prod.fst := not_mem_nil
  have named : isFileName (vcFilename accentedIssuer) = true := by decide +kernel
  have cut : ¬ Console.Cuttable accentedIssuer.issuer.toList 22 := by
    rw [← Console.isSome_abbreviateDid_iff]
    decide +kernel
  refine ⟨fun harmless => ?_, ?_, ?_, ?_⟩
  · have read := VerifiableCredential.fromJson_text sampleChrono Json.compact free
    have runs := harmless true _ _ (importFile_eq_some_iff.mpr ⟨read, named, rfl⟩) _ (.refl _)
    have shown := (forall_mem_loadAll_put_iff free (.refl _)).mp (Console.runs_iff.mp runs)
    exact cut shown.1.listed
  · rw [← Option.isNone_iff_eq_none]
    decide +kernel
  · rw [← Option.isNone_iff_eq_none]
    decide +kernel
  · rw [← Option.isNone_iff_eq_none]
    decide +kernel

end KwaaiNet
