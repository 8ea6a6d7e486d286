import Mathlib
import KwaaiNet.Foundation.Text
import KwaaiNet.Routing.PinnedPath

/-! # Decoding announcements into a chain

Servers announce themselves in the DHT as MessagePack records. The MessagePack
reader is a parameter; what this file models is which fields the code reads, how it
casts them, which records it drops, and how the accepted ones become a chain. Block
numbers are signed 64-bit integers in the record and are cast to unsigned ones
without a check.
-/

namespace KwaaiNet

open Foundation

/-- A decoded MessagePack value; a string that is not UTF-8 has no text. -/
inductive Value where
  | nil
  | boolean (value : Bool)
  | integer (value : Int)
  | f32 (bits : UInt32)
  | f64 (bits : UInt64)
  | string (text : Option String)
  | binary (bytes : List UInt8)
  | array (items : List Value)
  | map (entries : List (Value × Value))
  | ext (tag : Int) (bytes : List UInt8)

namespace Value

/-- `Value::as_i64`: integers that fit. -/
def asI64 : Value → Option Int
  | .integer value => if -2 ^ 63 ≤ value ∧ value < 2 ^ 63 then some value else none
  | _ => none

/-- `Value::as_str`. -/
def asStr : Value → Option String
  | .string text => text
  | _ => none

/-- `Value::as_array`. -/
def asArray : Value → Option (List Value)
  | .array items => some items
  | _ => none

/-- `Value::as_map`. -/
def asMap : Value → Option (List (Value × Value))
  | .map entries => some entries
  | _ => none

def lookup (entries : List (Value × Value)) (key : String) : Option Value :=
  (entries.find? fun entry => entry.1.asStr = some key).map Prod.snd

end Value

/-- `as usize` on a signed 64-bit integer. -/
def usizeOfI64 (value : Int) : Nat := (value % 2 ^ 64).toNat

/-- `as i32` on a signed 64-bit integer. -/
def i32OfI64 (value : Int) : Int := value.bmod (2 ^ 32)

/-! ## Versions -/

/-- `str::parse::<u32>`. -/
def parseU32 (text : List Char) : Option Nat :=
  let digits := match text with
    | '+' :: rest => rest
    | _ => text
  if digits = [] ∨ ¬ digits.all Char.isDigit then none
  else
    let number := digits.foldl (fun value digit => value * 10 + (digit.toNat - '0'.toNat)) 0
    if number < 2 ^ 32 then some number else none

def splitDot (text : List Char) : List Char × Option (List Char) :=
  match text.span (fun character => character ≠ '.') with
  | (front, _ :: back) => (front, some back)
  | (front, []) => (front, none)

/-- `parse_kwaai_version`. -/
def parseKwaaiVersion (version : String) : Option (Nat × Nat × Nat) :=
  let text := ((Text.stripPrefix? "kwaai-" version).getD version).toList
  let (major, afterMajor) := splitDot text
  afterMajor.bind fun rest =>
    let (minor, afterMinor) := splitDot rest
    afterMinor.bind fun patch => do
      let maj ← parseU32 major
      let min ← parseU32 minor
      let pat ← parseU32 (patch.rdropWhile fun character => !character.isDigit)
      return (maj, min, pat)

/-- The oldest version whose records are trusted. -/
def minVersion : Nat × Nat × Nat := (0, 3, 15)

/-- `version_meets_minimum`. -/
def versionMeetsMinimum (version : String) : Bool :=
  match parseKwaaiVersion version with
  | some (maj, min, pat) =>
    decide (toLex (minVersion.1, toLex minVersion.2) ≤ toLex (maj, toLex (min, pat)))
  | none => false

/-! ## Records -/

/-- What is read from a server record. -/
structure ServerInfo where
  state : Int
  startBlock : Nat
  endBlock : Nat
  publicName : String
  peerIdB58 : String
  version : String
  deriving DecidableEq

/-- One answer of a `FindResponse`. -/
structure FindResult where
  resultType : Int
  value : List UInt8

section Decoding

variable (readValue : List UInt8 → Option Value) (randomPeer : String → PeerId)

/-- `decode_server_info_ext`. -/
def decodeServerInfoExt (bytes : List UInt8) : Option ServerInfo := do
  let .ext 64 innerBytes ← readValue bytes | none
  let inner ← readValue innerBytes
  let arr ← inner.asArray
  if arr.length < 3 then none
  else
    let map ← (arr.getD 2 .nil).asMap
    let startBlock ← (Value.lookup map "start_block").bind Value.asI64
    let endBlock ← (Value.lookup map "end_block").bind Value.asI64
    let getS := fun key => ((Value.lookup map key).bind Value.asStr).getD ""
    some {
      state := i32OfI64 ((arr.getD 0 .nil).asI64.getD 0)
      startBlock := usizeOfI64 startBlock
      endBlock := usizeOfI64 endBlock
      publicName := getS "public_name"
      peerIdB58 := getS "peer_id"
      version := getS "version" }

def ServerInfo.entry (info : ServerInfo) (peer : PeerId) : BlockServerEntry where
  peerId := peer
  startBlock := info.startBlock
  endBlock := info.endBlock
  publicName := info.publicName
  trustScore := none

/-- Online, and new enough to be trusted. -/
def ServerInfo.usable (info : ServerInfo) : Bool :=
  info.state = 2 && versionMeetsMinimum info.version

/-- `decode_server_info_regular`: a record without a parsable peer identity gets a
random one and a key made of its name and start block. -/
def decodeServerInfoRegular (bytes : List UInt8) : Option (String × BlockServerEntry) := do
  let info ← decodeServerInfoExt readValue bytes
  if info.usable then
    match PeerId.parse info.peerIdB58 with
    | some peer => some (peer.toBase58, info.entry peer)
    | none =>
      let key := s!"legacy:{info.publicName}:{info.startBlock}"
      some (key, info.entry (randomPeer key))
  else none

def subkeyText : Value → Option String
  | .string text => some (text.getD "")
  | .binary bytes =>
    match readValue bytes with
    | some (.string text) => some (text.getD "")
    | _ => none
  | _ => none

def decodeDictionaryEntry (entry : Value) : Option (String × BlockServerEntry) := do
  let arr ← entry.asArray
  if arr.length < 2 then none
  else
    let peerIdB58 ← subkeyText readValue (arr.getD 0 .nil)
    let .binary valueBytes := arr.getD 1 .nil | none
    if peerIdB58 = "" then none
    else
      let peer ← PeerId.parse peerIdB58
      let info ← decodeServerInfoExt readValue valueBytes
      if info.usable then some (peerIdB58, info.entry peer) else none

/-- The entries of a dictionary answer that `decode_server_info_dictionary` inserts. -/
def decodeServerInfoDictionary (bytes : List UInt8) : List (String × BlockServerEntry) :=
  ((do
    let .ext 80 innerBytes ← readValue bytes | none
    let inner ← readValue innerBytes
    let arr ← inner.asArray
    if arr.length < 3 then none else (arr.getD 2 .nil).asArray).getD []).filterMap
      (decodeDictionaryEntry readValue)

def FindResult.entries (result : FindResult) : List (String × BlockServerEntry) :=
  if result.value = [] then []
  else if result.resultType = 1 then
    (decodeServerInfoRegular readValue randomPeer result.value).toList
  else if result.resultType = 2 then decodeServerInfoDictionary readValue result.value
  else []

/-- `entry(key).or_insert(..)`. -/
def orInsert (servers : List (String × BlockServerEntry)) (keyed : String × BlockServerEntry) :
    List (String × BlockServerEntry) :=
  if keyed.1 ∈ servers.map Prod.fst then servers else servers ++ [keyed]

def collectServers (answers : List FindResult) : List (String × BlockServerEntry) :=
  (answers.flatMap fun answer => answer.entries readValue randomPeer).foldl orInsert []

/-- `discover_chain`: the values of the server map, in some order of equal start
blocks, sorted by start block. -/
structure Discovered (answers : List FindResult) (chain : List BlockServerEntry) : Prop where
  perm : chain.Perm ((collectServers readValue randomPeer answers).map Prod.snd)
  sorted : chain.Pairwise fun first second => first.startBlock ≤ second.startBlock

end Decoding

variable {readValue : List UInt8 → Option Value} {randomPeer : String → PeerId}

theorem decodeDictionaryEntry_eq_some {entry : Value} {keyed : String × BlockServerEntry}
    (decoded : decodeDictionaryEntry readValue entry = some keyed) :
    ∃ bytes info peer, decodeServerInfoExt readValue bytes = some info ∧
      PeerId.parse keyed.1 = some peer ∧ keyed.2 = info.entry peer := by
  unfold decodeDictionaryEntry at decoded
  simp only [bind, Option.bind_eq_some_iff] at decoded
  obtain ⟨arr, _, decoded⟩ := decoded
  split at decoded
  case isTrue => cases decoded
  case isFalse =>
    obtain ⟨subkey, _, decoded⟩ := Option.bind_eq_some_iff.mp decoded
    split at decoded
    case h_1 valueBytes _ =>
      split at decoded
      case isTrue => cases decoded
      case isFalse =>
        obtain ⟨peer, parsed, decoded⟩ := Option.bind_eq_some_iff.mp decoded
        obtain ⟨info, read, decoded⟩ := Option.bind_eq_some_iff.mp decoded
        split at decoded
        case isTrue =>
          obtain rfl := Option.some.inj decoded
          exact ⟨valueBytes, info, peer, read, parsed, rfl⟩
        case isFalse => cases decoded
    case h_2 => cases decoded

theorem decodeServerInfoRegular_eq_some {bytes : List UInt8} {keyed : String × BlockServerEntry}
    (decoded : decodeServerInfoRegular readValue randomPeer bytes = some keyed) :
    ∃ info, decodeServerInfoExt readValue bytes = some info ∧
      ((∃ peer : PeerId, keyed = (peer.toBase58, info.entry peer)) ∨
        keyed.1 = s!"legacy:{info.publicName}:{info.startBlock}" ∧
          keyed.2 = info.entry (randomPeer keyed.1)) := by
  unfold decodeServerInfoRegular at decoded
  obtain ⟨info, read, decoded⟩ := Option.bind_eq_some_iff.mp decoded
  split at decoded
  case isTrue =>
    split at decoded
    case h_1 peer _ =>
      obtain rfl := Option.some.inj decoded
      exact ⟨info, read, .inl ⟨peer, rfl⟩⟩
    case h_2 =>
      obtain rfl := Option.some.inj decoded
      exact ⟨info, read, .inr ⟨rfl, rfl⟩⟩
  case isFalse => cases decoded

end KwaaiNet
