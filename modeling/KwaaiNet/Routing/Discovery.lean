import Mathlib
import KwaaiNet.Foundation.Sorting
import KwaaiNet.Routing.ServerInfo

/-! # Old and new records of a server

A server that moves to other blocks leaves records under its old block keys until they expire, so
the answers of the bootstrap peers may hold several records of one server. `discover_chain` keeps
the first record of a server that it meets and never looks at expiration times.
`KwaaiNet.discoversNewest_iff` says when the chain has the newest range of every server, and when it
does not depend on the order of the peers and of their answers.
-/

namespace KwaaiNet

open Foundation List

/-! ## The server map -/

/-- `or_insert` keeps what is there, and of what is not there the first. -/
theorem mem_foldl_orInsert_iff {keyed : String × BlockServerEntry}
    (items servers : List (String × BlockServerEntry)) :
    keyed ∈ items.foldl orInsert servers ↔ keyed ∈ servers ∨
      keyed.1 ∉ servers.map Prod.fst ∧
        items.find? (fun item => item.1 = keyed.1) = some keyed := by
  induction items generalizing servers with
  | nil => simp
  | cons item items ih =>
    rw [foldl_cons, ih, orInsert, List.find?_cons]
    by_cases present : item.1 ∈ servers.map Prod.fst
    · rw [if_pos present]
      by_cases same : item.1 = keyed.1
      · rw [← same]
        simp [present]
      · simp [same]
    · rw [if_neg present, mem_append, mem_singleton, map_append, mem_append]
      by_cases same : item.1 = keyed.1
      · simp only [same, decide_true, Option.some.injEq]
        rw [same] at present
        simp only [map_cons, map_nil, mem_singleton, same, or_true, not_true,
          false_and, or_false, present, not_false_eq_true, true_and]
        rw [eq_comm (a := keyed)]
      · have other : keyed ≠ item := fun equal => same (by rw [equal])
        simp [same, other, Ne.symm same]

theorem nodup_foldl_orInsert (items servers : List (String × BlockServerEntry))
    (distinct : (servers.map Prod.fst).Nodup) :
    ((items.foldl orInsert servers).map Prod.fst).Nodup := by
  induction items generalizing servers with
  | nil => exact distinct
  | cons item items ih =>
    refine ih _ ?_
    rw [orInsert]
    split_ifs with present
    · exact distinct
    · rw [map_append, nodup_append]
      refine ⟨distinct, nodup_singleton _, ?_⟩
      intro key member other alone same
      rw [map_singleton, mem_singleton] at alone
      exact present (by rwa [← alone, ← same])

/-! ## Records with their expiration times -/

/-- An answer with the expiration time of what it holds. -/
structure TimedResult (T : Type) extends FindResult where
  expirationTime : T

/-- An accepted record: the key of its server, its entry and its expiration time. -/
structure ServerRecord (T : Type) where
  key : String
  entry : BlockServerEntry
  expiry : T
  deriving DecidableEq

def ServerRecord.keyed {T : Type} (record : ServerRecord T) : String × BlockServerEntry :=
  (record.key, record.entry)

section Records

variable {T : Type} (readValue : List UInt8 → Option Value) (randomPeer : String → PeerId)
  (readTime : Option Value → T)

def dictionaryItems (bytes : List UInt8) : List Value :=
  (do
    let .ext 80 innerBytes ← readValue bytes | none
    let inner ← readValue innerBytes
    let arr ← inner.asArray
    if arr.length < 3 then none else (arr.getD 2 .nil).asArray).getD []

theorem decodeServerInfoDictionary_eq (bytes : List UInt8) :
    decodeServerInfoDictionary readValue bytes =
      (dictionaryItems readValue bytes).filterMap (decodeDictionaryEntry readValue) := rfl

/-- The accepted records of an answer. A record of a dictionary has an expiration time of its own,
the third part of its item. -/
def TimedResult.records (result : TimedResult T) : List (ServerRecord T) :=
  if result.value = [] then []
  else if result.resultType = 1 then
    ((decodeServerInfoRegular readValue randomPeer result.value).map fun keyed =>
      ⟨keyed.1, keyed.2, result.expirationTime⟩).toList
  else if result.resultType = 2 then
    (dictionaryItems readValue result.value).filterMap fun item =>
      (decodeDictionaryEntry readValue item).map fun keyed =>
        ⟨keyed.1, keyed.2, readTime ((item.asArray.getD [])[2]?)⟩
  else []

theorem map_keyed_records (result : TimedResult T) :
    (result.records readValue randomPeer readTime).map ServerRecord.keyed =
      result.toFindResult.entries readValue randomPeer := by
  rw [TimedResult.records, FindResult.entries, decodeServerInfoDictionary_eq]
  split_ifs
  · rfl
  · cases decodeServerInfoRegular readValue randomPeer result.value <;> rfl
  · rw [map_filterMap]
    congr 1
    funext item
    cases decodeDictionaryEntry readValue item <;> rfl
  · rfl

def results (answers : List (List (TimedResult T))) : List FindResult :=
  answers.flatten.map TimedResult.toFindResult

def allRecords (answers : List (List (TimedResult T))) : List (ServerRecord T) :=
  answers.flatten.flatMap (TimedResult.records readValue randomPeer readTime)

theorem collectServers_results (answers : List (List (TimedResult T))) :
    collectServers readValue randomPeer (results answers) =
      ((allRecords readValue randomPeer readTime answers).map ServerRecord.keyed).foldl
        orInsert [] := by
  rw [collectServers, results, allRecords, flatMap_map, map_flatMap]
  simp only [map_keyed_records]

def peerOf (key : String) : PeerId := (PeerId.parse key).getD (randomPeer key)

end Records

theorem parse_of_outside {text : String} (starts : ∃ rest, text.toList = 'l' :: rest) :
    PeerId.parse text = none := by
  have outside : Base58.value? 'l' = none := by decide
  obtain ⟨rest, starts⟩ := starts
  rw [PeerId.parse, Base58.decode, starts, mapM_cons, outside]
  rfl

theorem parse_legacy (info : ServerInfo) :
    PeerId.parse s!"legacy:{info.publicName}:{info.startBlock}" = none := by
  refine parse_of_outside ?_
  rw [String.toList_append, String.toList_append, String.toList_append]
  exact ⟨_, rfl⟩

section Peers

variable {T : Type} {readValue : List UInt8 → Option Value} {randomPeer : String → PeerId}
  {readTime : Option Value → T}

theorem peerId_of_mem_records {result : TimedResult T} {record : ServerRecord T}
    (member : record ∈ result.records readValue randomPeer readTime) :
    record.entry.peerId = peerOf randomPeer record.key := by
  rw [TimedResult.records] at member
  split_ifs at member
  · cases member
  · obtain ⟨keyed, decoded, rfl⟩ := Option.map_eq_some_iff.mp (Option.mem_toList.mp member)
    obtain ⟨info, -, ⟨peer, rfl⟩ | ⟨legacy, made⟩⟩ := decodeServerInfoRegular_eq_some decoded
    · rw [peerOf, PeerId.parse_toBase58]
      rfl
    · rw [peerOf]
      dsimp only
      rw [made, legacy, parse_legacy]
      rfl
  · obtain ⟨item, -, made⟩ := mem_filterMap.mp member
    obtain ⟨keyed, decoded, rfl⟩ := Option.map_eq_some_iff.mp made
    obtain ⟨bytes, info, peer, -, parsed, made⟩ := decodeDictionaryEntry_eq_some decoded
    rw [peerOf]
    dsimp only
    rw [parsed, made]
    rfl
  · cases member

end Peers

/-! ## The newest range -/

section Newest

variable {T : Type}

def PeersIdentify (records : List (ServerRecord T)) : Prop :=
  ∀ record ∈ records, ∀ other ∈ records,
    record.entry.peerId = other.entry.peerId → record.key = other.key

def NewestRange [LE T] (records : List (ServerRecord T)) (peer : PeerId)
    (startBlock endBlock : Nat) : Prop :=
  ∃ newest ∈ records, newest.entry.peerId = peer ∧
    (∀ other ∈ records, other.entry.peerId = peer → other.expiry ≤ newest.expiry) ∧
    newest.entry.startBlock = startBlock ∧ newest.entry.endBlock = endBlock

/-- **Newest records.** The chain has exactly one entry for every accepted server, with its newest
range, and no other entries. -/
structure UsesNewest [LE T] (records : List (ServerRecord T)) (chain : List BlockServerEntry) :
    Prop where
  once : ∀ record ∈ records, ∃ entry,
    chain.filter (fun entry => entry.peerId = record.entry.peerId) = [entry] ∧
      NewestRange records record.entry.peerId entry.startBlock entry.endBlock
  accepted : ∀ entry ∈ chain, ∃ record ∈ records, record.entry.peerId = entry.peerId

def firstRecord? (records : List (ServerRecord T)) (peer : PeerId) : Option (ServerRecord T) :=
  records.find? fun record => record.entry.peerId = peer

def FirstNewest [LE T] (records : List (ServerRecord T)) : Prop :=
  ∀ peer first, firstRecord? records peer = some first →
    NewestRange records peer first.entry.startBlock first.entry.endBlock

theorem mem_of_firstRecord? {records : List (ServerRecord T)} {peer : PeerId}
    {first : ServerRecord T} (found : firstRecord? records peer = some first) :
    first ∈ records ∧ first.entry.peerId = peer := by
  rw [firstRecord?] at found
  have passes := List.find?_some found
  exact ⟨mem_of_find?_eq_some found, of_decide_eq_true passes⟩

theorem exists_firstRecord? {records : List (ServerRecord T)} {record : ServerRecord T}
    (member : record ∈ records) :
    ∃ first, firstRecord? records record.entry.peerId = some first := by
  cases found : firstRecord? records record.entry.peerId with
  | none => exact absurd (decide_eq_true rfl) (List.find?_eq_none.mp found record member)
  | some first => exact ⟨first, rfl⟩

end Newest

section Chains

variable {T : Type} {readValue : List UInt8 → Option Value} {randomPeer : String → PeerId}
  {readTime : Option Value → T} {answers : List (List (TimedResult T))}

variable (readValue randomPeer) in
theorem exists_discovered (found : List FindResult) :
    ∃ chain, Discovered readValue randomPeer found chain := by
  have refines : Refines (fun first second : BlockServerEntry =>
      compare first.startBlock second.startBlock) BlockServerEntry.startBlock := fun _ _ below =>
    ⟨compare_lt_iff_lt.mpr below, compare_gt_iff_gt.mpr below⟩
  exact ⟨_, insertionSort_perm _ _, insertionSort_ordered refines _⟩

theorem find?_key_eq_firstRecord? {records : List (ServerRecord T)}
    (keyed : ∀ record ∈ records, record.entry.peerId = peerOf randomPeer record.key)
    (identify : PeersIdentify records) {record : ServerRecord T} (member : record ∈ records) :
    records.find? (fun other => other.key = record.key) =
      firstRecord? records record.entry.peerId := by
  refine List.find?_congr fun other present => ?_
  refine decide_eq_decide.mpr
    ⟨fun same => ?_, fun same => identify other present record member same⟩
  rw [keyed other present, keyed record member, same]

theorem peerId_of_mem_allRecords {record : ServerRecord T}
    (member : record ∈ allRecords readValue randomPeer readTime answers) :
    record.entry.peerId = peerOf randomPeer record.key := by
  obtain ⟨result, -, present⟩ := mem_flatMap.mp member
  exact peerId_of_mem_records present

variable (readTime) in
theorem mem_collectServers_iff {keyed : String × BlockServerEntry} :
    keyed ∈ collectServers readValue randomPeer (results answers) ↔
      ((allRecords readValue randomPeer readTime answers).find? fun record =>
        record.key = keyed.1).map ServerRecord.keyed = some keyed := by
  rw [collectServers_results readValue randomPeer readTime, mem_foldl_orInsert_iff, List.find?_map]
  simp only [not_mem_nil, false_or, map_nil, not_false_eq_true, true_and]
  rfl

theorem nodup_collectServers (found : List FindResult) :
    ((collectServers readValue randomPeer found).map Prod.fst).Nodup :=
  nodup_foldl_orInsert _ _ nodup_nil

theorem mem_collectServers_of_peer
    (identify : PeersIdentify (allRecords readValue randomPeer readTime answers))
    {record : ServerRecord T} (member : record ∈ allRecords readValue randomPeer readTime answers)
    {keyed : String × BlockServerEntry} :
    keyed ∈ collectServers readValue randomPeer (results answers) ∧
        keyed.2.peerId = record.entry.peerId ↔
      ∃ first, firstRecord? (allRecords readValue randomPeer readTime answers)
        record.entry.peerId = some first ∧ keyed = (record.key, first.entry) := by
  have byKey := find?_key_eq_firstRecord?
    (fun _ present => peerId_of_mem_allRecords present) identify member
  rw [mem_collectServers_iff readTime]
  constructor
  · rintro ⟨held, peer⟩
    obtain ⟨first, found, rfl⟩ := Option.map_eq_some_iff.mp held
    have same : first.key = record.key :=
      identify first (mem_of_find?_eq_some found) record member peer
    refine ⟨first, ?_, Prod.ext same rfl⟩
    rw [← byKey, ← same]
    exact found
  · rintro ⟨first, found, rfl⟩
    obtain ⟨present, peer⟩ := mem_of_firstRecord? found
    have same : first.key = record.key := identify first present record member peer
    refine ⟨?_, peer⟩
    rw [byKey, found, Option.map_some, ServerRecord.keyed, same]

theorem filter_chain_eq
    (identify : PeersIdentify (allRecords readValue randomPeer readTime answers))
    {chain : List BlockServerEntry}
    (discovered : Discovered readValue randomPeer (results answers) chain)
    {record first : ServerRecord T}
    (member : record ∈ allRecords readValue randomPeer readTime answers)
    (found : firstRecord? (allRecords readValue randomPeer readTime answers)
      record.entry.peerId = some first) :
    chain.filter (fun entry => entry.peerId = record.entry.peerId) = [first.entry] := by
  have held : ((collectServers readValue randomPeer (results answers)).filter fun keyed =>
      keyed.2.peerId = record.entry.peerId) = [(record.key, first.entry)] := by
    rw [← perm_singleton, perm_ext_iff_of_nodup]
    · intro keyed
      rw [mem_filter, decide_eq_true_eq, mem_collectServers_of_peer identify member,
        mem_singleton, found]
      simp
    · exact (nodup_collectServers _).of_map.filter _
    · exact nodup_singleton _
  have values := (discovered.perm.filter fun entry => entry.peerId = record.entry.peerId)
  rw [filter_map] at values
  rw [← perm_singleton]
  refine values.trans (List.Perm.of_eq ?_)
  exact congrArg (List.map Prod.snd) held

theorem usesNewest_iff [LE T]
    (identify : PeersIdentify (allRecords readValue randomPeer readTime answers)) :
    (∀ chain, Discovered readValue randomPeer (results answers) chain →
        UsesNewest (allRecords readValue randomPeer readTime answers) chain) ↔
      FirstNewest (allRecords readValue randomPeer readTime answers) := by
  constructor
  · intro always peer first found
    obtain ⟨chain, discovered⟩ := exists_discovered readValue randomPeer (results answers)
    obtain ⟨member, rfl⟩ := mem_of_firstRecord? found
    obtain ⟨entry, only, newest⟩ := (always chain discovered).once first member
    rw [filter_chain_eq identify discovered member found] at only
    rwa [← head_eq_of_cons_eq only] at newest
  · intro firstNewest chain discovered
    refine ⟨fun record member => ?_, fun entry present => ?_⟩
    · obtain ⟨first, found⟩ := exists_firstRecord? member
      exact ⟨first.entry, filter_chain_eq identify discovered member found,
        firstNewest _ first found⟩
    · obtain ⟨keyed, held, rfl⟩ := mem_map.mp (discovered.perm.mem_iff.mp present)
      obtain ⟨record, found, rfl⟩ :=
        Option.map_eq_some_iff.mp ((mem_collectServers_iff readTime).mp held)
      exact ⟨record, mem_of_find?_eq_some found, rfl⟩

/-! ## The order of the answers -/

def Reordered (answers other : List (List (TimedResult T))) : Prop :=
  ∃ middle, answers.Perm middle ∧ List.Forall₂ List.Perm middle other

theorem Reordered.flatten_perm {other : List (List (TimedResult T))}
    (reordered : Reordered answers other) : answers.flatten.Perm other.flatten := by
  obtain ⟨middle, peers, each⟩ := reordered
  exact peers.flatten.trans (List.Perm.flatten_congr each)

theorem Reordered.mem_allRecords_iff {other : List (List (TimedResult T))}
    (reordered : Reordered answers other) {record : ServerRecord T} :
    record ∈ allRecords readValue randomPeer readTime other ↔
      record ∈ allRecords readValue randomPeer readTime answers :=
  (reordered.flatten_perm.flatMap_right _).symm.mem_iff

theorem exists_reordered_cons {result : TimedResult T} (member : result ∈ answers.flatten) :
    ∃ other rest, Reordered answers other ∧ other.flatten = result :: rest := by
  obtain ⟨answer, inAnswers, inAnswer⟩ := mem_flatten.mp member
  obtain ⟨before, after, rfl⟩ := append_of_mem inAnswers
  obtain ⟨front, back, rfl⟩ := append_of_mem inAnswer
  refine ⟨(result :: (front ++ back)) :: (before ++ after), _, ⟨_, perm_middle, ?_⟩, rfl⟩
  exact .cons perm_middle (forall₂_same.mpr fun _ _ => .refl _)

/-- The chain does not depend on the order, up to the order of entries with the same start. -/
def OrderFree (readValue : List UInt8 → Option Value) (randomPeer : String → PeerId)
    (answers : List (List (TimedResult T))) : Prop :=
  ∀ first second, Reordered answers first → Reordered answers second →
    ∀ chain other, Discovered readValue randomPeer (results first) chain →
      Discovered readValue randomPeer (results second) other → chain.Perm other

variable (readValue randomPeer readTime) in
/-- All results with records of a server have the same entry in the first of them. -/
def ResultsAgree (answers : List (List (TimedResult T))) : Prop :=
  ∀ result ∈ answers.flatten, ∀ other ∈ answers.flatten, ∀ peer record second,
    firstRecord? (result.records readValue randomPeer readTime) peer = some record →
      firstRecord? (other.records readValue randomPeer readTime) peer = some second →
        record.entry = second.entry

theorem firstRecord?_allRecords (answers : List (List (TimedResult T))) (peer : PeerId) :
    firstRecord? (allRecords readValue randomPeer readTime answers) peer =
      answers.flatten.findSome? fun result =>
        firstRecord? (result.records readValue randomPeer readTime) peer := by
  rw [firstRecord?, allRecords, List.find?_flatMap]
  rfl

theorem ResultsAgree.entry_eq (agree : ResultsAgree readValue randomPeer readTime answers)
    {first second : List (List (TimedResult T))} (reordered : Reordered answers first)
    (again : Reordered answers second) {peer : PeerId} {record other : ServerRecord T}
    (found : firstRecord? (allRecords readValue randomPeer readTime first) peer = some record)
    (alsoFound : firstRecord? (allRecords readValue randomPeer readTime second) peer =
      some other) : record.entry = other.entry := by
  rw [firstRecord?_allRecords] at found alsoFound
  obtain ⟨result, member, holds⟩ := exists_of_findSome?_eq_some found
  obtain ⟨result', member', holds'⟩ := exists_of_findSome?_eq_some alsoFound
  exact agree result (reordered.flatten_perm.mem_iff.mpr member) result'
    (again.flatten_perm.mem_iff.mpr member') peer record other holds holds'

theorem Reordered.peersIdentify {other : List (List (TimedResult T))}
    (reordered : Reordered answers other)
    (identify : PeersIdentify (allRecords readValue randomPeer readTime answers)) :
    PeersIdentify (allRecords readValue randomPeer readTime other) :=
  fun record member another present => identify record (reordered.mem_allRecords_iff.mp member)
    another (reordered.mem_allRecords_iff.mp present)

theorem ResultsAgree.collectServers_subset
    (agree : ResultsAgree readValue randomPeer readTime answers)
    (identify : PeersIdentify (allRecords readValue randomPeer readTime answers))
    {first second : List (List (TimedResult T))} (reordered : Reordered answers first)
    (again : Reordered answers second) :
    collectServers readValue randomPeer (results first) ⊆
      collectServers readValue randomPeer (results second) := by
  intro keyed held
  obtain ⟨record, found, rfl⟩ :=
    Option.map_eq_some_iff.mp ((mem_collectServers_iff readTime).mp held)
  have member := mem_of_find?_eq_some found
  have alsoMember := again.mem_allRecords_iff.mpr (reordered.mem_allRecords_iff.mp member)
  obtain ⟨earliest, foundFirst, same⟩ :=
    (mem_collectServers_of_peer (reordered.peersIdentify identify) member).mp ⟨held, rfl⟩
  obtain ⟨other, alsoFound⟩ := exists_firstRecord? alsoMember
  refine ((mem_collectServers_of_peer (again.peersIdentify identify) alsoMember).mpr
    ⟨other, alsoFound, ?_⟩).1
  rw [same, agree.entry_eq reordered again foundFirst alsoFound]

theorem exists_entry_of_result
    (identify : PeersIdentify (allRecords readValue randomPeer readTime answers))
    {result : TimedResult T} (member : result ∈ answers.flatten) {peer : PeerId}
    {record : ServerRecord T}
    (found : firstRecord? (result.records readValue randomPeer readTime) peer = some record) :
    ∃ other, Reordered answers other ∧
      ∀ chain, Discovered readValue randomPeer (results other) chain →
        chain.filter (fun entry => entry.peerId = peer) = [record.entry] := by
  obtain ⟨other, rest, reordered, first⟩ := exists_reordered_cons member
  refine ⟨other, reordered, fun chain discovered => ?_⟩
  obtain ⟨present, rfl⟩ := mem_of_firstRecord? found
  have listed : record ∈ allRecords readValue randomPeer readTime other := by
    rw [allRecords, first]
    exact mem_flatMap.mpr ⟨result, mem_cons_self, present⟩
  refine filter_chain_eq (reordered.peersIdentify identify) discovered listed ?_
  rw [firstRecord?_allRecords, first, List.findSome?_cons, found]

theorem orderFree_iff
    (identify : PeersIdentify (allRecords readValue randomPeer readTime answers)) :
    OrderFree readValue randomPeer answers ↔
      ResultsAgree readValue randomPeer readTime answers := by
  constructor
  · intro free result member other otherMember peer record second found otherFound
    obtain ⟨order, reordered, decides⟩ := exists_entry_of_result identify member found
    obtain ⟨order', again, decides'⟩ := exists_entry_of_result identify otherMember otherFound
    obtain ⟨chain, discovered⟩ := exists_discovered readValue randomPeer (results order)
    obtain ⟨chain', discovered'⟩ := exists_discovered readValue randomPeer (results order')
    have same := (free order order' reordered again chain chain' discovered discovered').filter
      fun entry => entry.peerId = peer
    rw [decides chain discovered, decides' chain' discovered', perm_singleton] at same
    exact (List.cons.inj same).1
  · intro agree first second reordered again chain other discovered alsoDiscovered
    refine discovered.perm.trans (List.Perm.trans (List.Perm.map _ ?_) alsoDiscovered.perm.symm)
    rw [perm_ext_iff_of_nodup (nodup_collectServers _).of_map (nodup_collectServers _).of_map]
    intro keyed
    exact ⟨fun held => agree.collectServers_subset identify reordered again held,
      fun held => agree.collectServers_subset identify again reordered held⟩

end Chains

/-! ## A server that has moved -/

/-- A reader of two records of one server: `[0]` for the blocks from 0 to 4 and `[4]` for the blocks
from 4 to 8. -/
def movedReader : List UInt8 → Option Value
  | [start] => some (.ext 64 [0, start])
  | [0, start] => some (.array [.integer 2, .nil, .map
      [(.string "start_block", .integer start.toNat),
        (.string "end_block", .integer (start.toNat + 4)),
        (.string "public_name", .string "alpha"), (.string "version", .string "kwaai-0.4.0"),
        (.string "peer_id", .string (PeerId.ofByte 1).toBase58)]])
  | _ => none

/-- The answer with a record of the server, which expires at a given time. -/
def movedResult (start : UInt8) (expiry : Nat) : TimedResult Nat := ⟨⟨1, [start]⟩, expiry⟩

def movedRecord (start expiry : Nat) : ServerRecord Nat :=
  ⟨(PeerId.ofByte 1).toBase58, ⟨PeerId.ofByte 1, start, start + 4, "alpha", none⟩, expiry⟩

/-- No identity is drawn for this server. -/
def noRandomPeer : String → PeerId := fun _ => PeerId.ofByte 0

theorem peersIdentify_moved (start expiry other later : Nat) :
    PeersIdentify [movedRecord start expiry, movedRecord other later] := by
  intro record member second present _
  rcases mem_pair.mp member with rfl | rfl <;>
    rcases mem_pair.mp present with rfl | rfl <;> rfl

/-- Two peers, of which one has the old record and one the new. -/
def oldFirst : List (List (TimedResult Nat)) := [[movedResult 0 1], [movedResult 4 2]]

def newFirst : List (List (TimedResult Nat)) := [[movedResult 4 2], [movedResult 0 1]]

end KwaaiNet
