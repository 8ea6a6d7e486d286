import Mathlib
import KwaaiNet.Foundation.MessagePack
import KwaaiNet.Routing.ServerInfo

/-! # Values as bytes

The writer and the reader of `rmpv` for the values that records in the DHT are made of. Lengths are
cut to 32 bits when they are written. A value whose numbers and lengths fit the format and that is
not nested too deep is read back, whatever follows its bytes (`KwaaiNet.Value.readAt_write`).
-/

namespace KwaaiNet.Value

open Foundation Foundation.MessagePack List

/-! ## Writing -/

def packNegative (value : Int) : List UInt8 :=
  if -32 ≤ value then [UInt8.ofNat (256 + value).toNat]
  else if -2 ^ 7 ≤ value then 0xd0 :: toBE 1 (256 ^ 1 + value).toNat
  else if -2 ^ 15 ≤ value then 0xd1 :: toBE 2 (256 ^ 2 + value).toNat
  else if -2 ^ 31 ≤ value then 0xd2 :: toBE 4 (256 ^ 4 + value).toNat
  else 0xd3 :: toBE 8 (256 ^ 8 + value).toNat

def packInteger (value : Int) : List UInt8 :=
  if 0 ≤ value then packUint value.toNat else packNegative value

def binHeader (length : Nat) : List UInt8 :=
  if length < 256 then 0xc4 :: toBE 1 length
  else if length < 256 ^ 2 then 0xc5 :: toBE 2 length
  else 0xc6 :: toBE 4 length

def extHeader (length : Nat) (tag : Int) : List UInt8 :=
  (if length = 1 then [0xd4]
    else if length = 2 then [0xd5]
    else if length = 4 then [0xd6]
    else if length = 8 then [0xd7]
    else if length = 16 then [0xd8]
    else if length < 256 then 0xc7 :: toBE 1 length
    else if length < 256 ^ 2 then 0xc8 :: toBE 2 length
    else 0xc9 :: toBE 4 length) ++ toBE 1 (tag % 256).toNat

/-- `as u32`. -/
def lengthU32 (length : Nat) : Nat := length % 2 ^ 32

mutual

/-- `rmpv::encode::write_value`. A string that is not UTF-8 is never written. -/
def write : Value → List UInt8
  | .nil => [0xc0]
  | .boolean false => [0xc2]
  | .boolean true => [0xc3]
  | .integer value => packInteger value
  | .f32 bits => 0xca :: toBE 4 bits.toNat
  | .f64 bits => 0xcb :: toBE 8 bits.toNat
  | .string text =>
    strHeader (lengthU32 (utf8Bytes (text.getD "")).length) ++ utf8Bytes (text.getD "")
  | .binary bytes => binHeader (lengthU32 bytes.length) ++ bytes
  | .array items => arrayHeader (lengthU32 items.length) ++ writeItems items
  | .map entries => mapHeader (lengthU32 entries.length) ++ writeEntries entries
  | .ext tag bytes => extHeader (lengthU32 bytes.length) tag ++ bytes

def writeItems : List Value → List UInt8
  | [] => []
  | item :: items => write item ++ writeItems items

def writeEntries : List (Value × Value) → List UInt8
  | [] => []
  | (key, value) :: entries => (write key ++ write value) ++ writeEntries entries

end

/-! ## Reading -/

section Reading

variable (nested : Reader Value)

def readText (length : Nat) : Reader Value := fun bytes =>
  (takeBytes length bytes).map fun taken =>
    (.string (String.fromUTF8? ⟨taken.1.toArray⟩), taken.2)

def readBinary (length : Nat) : Reader Value := fun bytes =>
  (takeBytes length bytes).map fun taken => (.binary taken.1, taken.2)

def readItems (count : Nat) : Reader Value := fun bytes =>
  (readMany nested count bytes).map fun read => (.array read.1, read.2)

def readEntry : Reader (Value × Value) := fun bytes =>
  (nested bytes).bind fun key => (nested key.2).map fun value => ((key.1, value.1), value.2)

def readEntries (count : Nat) : Reader Value := fun bytes =>
  (readMany (readEntry nested) count bytes).map fun read => (.map read.1, read.2)

/-- The tag of an extension, and then its bytes. -/
def readExt (length : Nat) : Reader Value := fun bytes =>
  (takeNat 1 bytes).bind fun tag =>
    (takeBytes length tag.2).map fun taken => (.ext (signed 1 tag.1) taken.1, taken.2)

def readExtOf (width : Nat) : Reader Value := fun bytes =>
  (takeNat width bytes).bind fun length => readExt length.1 length.2

/-- What is neither an integer nor has items or text: `nil`, truth values, floats and
extensions. -/
def readSpecial (byte : UInt8) : Reader Value := fun bytes =>
  match byte.toNat with
  | 0xc2 => some (.boolean false, bytes)
  | 0xc3 => some (.boolean true, bytes)
  | 0xc7 => readExtOf 1 bytes
  | 0xc8 => readExtOf 2 bytes
  | 0xc9 => readExtOf 4 bytes
  | 0xca => (takeNat 4 bytes).map fun taken => (.f32 (UInt32.ofNat taken.1), taken.2)
  | 0xcb => (takeNat 8 bytes).map fun taken => (.f64 (UInt64.ofNat taken.1), taken.2)
  | 0xd4 => readExt 1 bytes
  | 0xd5 => readExt 2 bytes
  | 0xd6 => readExt 4 bytes
  | 0xd7 => readExt 8 bytes
  | 0xd8 => readExt 16 bytes
  | _ => some (.nil, bytes)

def readBody (byte : UInt8) : Header → Reader Value
  | .uint n, bytes => some (.integer n, bytes)
  | .uintOf width, bytes => (takeNat width bytes).map fun taken => (.integer taken.1, taken.2)
  | .sint value, bytes => some (.integer value, bytes)
  | .sintOf width, bytes =>
    (takeNat width bytes).map fun taken => (.integer (signed width taken.1), taken.2)
  | .str length, bytes => readText length bytes
  | .strOf width, bytes => (takeNat width bytes).bind fun length => readText length.1 length.2
  | .binOf width, bytes => (takeNat width bytes).bind fun length => readBinary length.1 length.2
  | .array length, bytes => readItems nested length bytes
  | .arrayOf width, bytes =>
    (takeNat width bytes).bind fun length => readItems nested length.1 length.2
  | .map length, bytes => readEntries nested length bytes
  | .mapOf width, bytes =>
    (takeNat width bytes).bind fun length => readEntries nested length.1 length.2
  | .skip _, bytes => readSpecial byte bytes
  | .skipOf _ _, bytes => readSpecial byte bytes
  | .reserved, bytes => some (.nil, bytes)

end Reading

def readAt : Nat → Reader Value
  | 0, _ => none
  | _ + 1, [] => none
  | depth + 1, byte :: bytes => readBody (readAt depth) byte (.ofByte byte) bytes

/-- `rmpv::decode::read_value`. What follows the value is not looked at. -/
def read (bytes : List UInt8) : Option Value := (readAt 1024 bytes).map Prod.fst

/-! ## Reading what was written -/

/-- The numbers of a value fit the format, and it has at most as many levels as given. -/
inductive Fits : Nat → Value → Prop
  | nil {depth : Nat} : Fits (depth + 1) .nil
  | boolean {depth : Nat} (value : Bool) : Fits (depth + 1) (.boolean value)
  | integer {depth : Nat} {value : Int} (low : -2 ^ 63 ≤ value) (high : value < 2 ^ 64) :
      Fits (depth + 1) (.integer value)
  | f32 {depth : Nat} (bits : UInt32) : Fits (depth + 1) (.f32 bits)
  | f64 {depth : Nat} (bits : UInt64) : Fits (depth + 1) (.f64 bits)
  | string {depth : Nat} (text : String) : Fits (depth + 1) (.string (some text))
  | binary {depth : Nat} (bytes : List UInt8) : Fits (depth + 1) (.binary bytes)
  | array {depth : Nat} {items : List Value} (each : ∀ item ∈ items, Fits depth item) :
      Fits (depth + 1) (.array items)
  | map {depth : Nat} {entries : List (Value × Value)}
      (keys : ∀ entry ∈ entries, Fits depth entry.1)
      (values : ∀ entry ∈ entries, Fits depth entry.2) : Fits (depth + 1) (.map entries)
  | ext {depth : Nat} {tag : Int} (low : -2 ^ 7 ≤ tag) (high : tag < 2 ^ 7)
      (bytes : List UInt8) : Fits (depth + 1) (.ext tag bytes)

theorem readAt_cons (depth : Nat) (byte : UInt8) (bytes : List UInt8) :
    readAt (depth + 1) (byte :: bytes) = readBody (readAt depth) byte (.ofByte byte) bytes := rfl

theorem readAt_of_announces {inByte ofWidth : Nat → Header} {depth n : Nat}
    {header rest : List UInt8} {result : Option (Value × List UInt8)}
    (announced : Announces inByte ofWidth n header)
    (here : ∀ byte, readBody (readAt depth) byte (inByte n) rest = result)
    (after : ∀ byte width, n < 256 ^ width →
      readBody (readAt depth) byte (ofWidth width) (toBE width n ++ rest) = result) :
    readAt (depth + 1) (header ++ rest) = result := by
  cases announced with
  | inByte header => rw [singleton_append, readAt_cons, header, here]
  | ofWidth header fits => rw [cons_append, readAt_cons, header, after _ _ fits]

section Headers

variable {depth length : Nat}

theorem readAt_strHeader (fits : length < 256 ^ 4) (rest : List UInt8) :
    readAt (depth + 1) (strHeader length ++ rest) = readText length rest := by
  refine readAt_of_announces (announces_strHeader fits) (fun _ => rfl) fun byte width fits => ?_
  rw [readBody, takeNat_toBE fits, Option.bind_some]

theorem readAt_arrayHeader (fits : length < 256 ^ 4) (rest : List UInt8) :
    readAt (depth + 1) (arrayHeader length ++ rest) = readItems (readAt depth) length rest := by
  refine readAt_of_announces (announces_arrayHeader fits) (fun _ => rfl) fun byte width fits => ?_
  rw [readBody, takeNat_toBE fits, Option.bind_some]

theorem readAt_mapHeader (fits : length < 256 ^ 4) (rest : List UInt8) :
    readAt (depth + 1) (mapHeader length ++ rest) = readEntries (readAt depth) length rest := by
  refine readAt_of_announces (announces_mapHeader fits) (fun _ => rfl) fun byte width fits => ?_
  rw [readBody, takeNat_toBE fits, Option.bind_some]

end Headers

theorem lengthU32_of_lt {length : Nat} (short : length < 2 ^ 32) : lengthU32 length = length :=
  Nat.mod_eq_of_lt short

theorem writeItems_eq (items : List Value) : writeItems items = items.flatMap write := by
  induction items with
  | nil => rfl
  | cons item items ih => rw [writeItems, ih, flatMap_cons]

def writeEntry (entry : Value × Value) : List UInt8 := write entry.1 ++ write entry.2

theorem writeEntries_eq (entries : List (Value × Value)) :
    writeEntries entries = entries.flatMap writeEntry := by
  induction entries with
  | nil => rfl
  | cons entry entries ih =>
    obtain ⟨key, value⟩ := entry
    rw [writeEntries, ih, flatMap_cons, writeEntry]

theorem lengthU32_lt (length : Nat) : lengthU32 length < 256 ^ 4 :=
  Nat.mod_lt _ (by decide)

theorem one_le_length_packInteger (value : Int) : 1 ≤ (packInteger value).length := by
  rw [packInteger]
  split_ifs
  · exact one_le_length_packUint _
  · rw [packNegative]
    split_ifs <;> exact Nat.succ_le_succ (Nat.zero_le _)

theorem one_le_length_write (value : Value) : 1 ≤ (write value).length := by
  cases value with
  | nil => exact Nat.le_refl 1
  | boolean value => cases value <;> exact Nat.le_refl 1
  | integer value =>
    rw [write]
    exact one_le_length_packInteger value
  | f32 bits | f64 bits => exact Nat.succ_le_succ (Nat.zero_le _)
  | string text =>
    rw [write, length_append]
    exact le_add_right (announces_strHeader (lengthU32_lt _)).one_le_length
  | binary bytes =>
    rw [write, length_append, binHeader]
    split_ifs <;> exact le_add_right (Nat.succ_le_succ (Nat.zero_le _))
  | array items =>
    rw [write, length_append]
    exact le_add_right (announces_arrayHeader (lengthU32_lt _)).one_le_length
  | map entries =>
    rw [write, length_append]
    exact le_add_right (announces_mapHeader (lengthU32_lt _)).one_le_length
  | ext tag bytes =>
    rw [write, extHeader, length_append, length_append, length_toBE]
    omega

theorem length_item_le {items : List Value} {item : Value} (member : item ∈ items) :
    (write item).length ≤ (write (.array items)).length := by
  obtain ⟨before, after, rfl⟩ := append_of_mem member
  rw [write, writeItems_eq]
  simp only [flatMap_append, flatMap_cons, length_append]
  omega

theorem length_items_le (items : List Value) : items.length ≤ (write (.array items)).length := by
  rw [write, writeItems_eq, length_append]
  exact le_add_left (length_le_flatMap one_le_length_write items)

theorem length_entry_le {entries : List (Value × Value)} {entry : Value × Value}
    (member : entry ∈ entries) :
    (write entry.1).length + (write entry.2).length ≤ (write (.map entries)).length := by
  obtain ⟨before, after, rfl⟩ := append_of_mem member
  rw [write, writeEntries_eq]
  simp only [flatMap_append, flatMap_cons, writeEntry, length_append]
  omega

theorem length_entries_le (entries : List (Value × Value)) :
    entries.length ≤ (write (.map entries)).length := by
  have full : ∀ entry : Value × Value, 1 ≤ (writeEntry entry).length := by
    intro entry
    rw [writeEntry, length_append]
    exact le_add_right (one_le_length_write entry.1)
  rw [write, writeEntries_eq, length_append]
  exact le_add_left (length_le_flatMap full entries)

section Scalars

variable {depth : Nat}

theorem readAt_packUint {n : Nat} (fits : n < 256 ^ 8) (rest : List UInt8) :
    readAt (depth + 1) (packUint n ++ rest) = some (.integer n, rest) := by
  refine readAt_of_announces (announces_packUint fits) (fun _ => rfl) fun byte width fits => ?_
  rw [readBody, takeNat_toBE fits]
  rfl

/-- Two's complement is read back. -/
theorem signed_add {width : Nat} {value : Int} (wide : 0 < width)
    (low : -2 ^ (8 * width - 1) ≤ value) (negative : value < 0) :
    (256 ^ width + value).toNat < 256 ^ width ∧
      signed width (256 ^ width + value).toNat = value := by
  have power : (256 : Int) ^ width = 2 * 2 ^ (8 * width - 1) := by
    rw [← pow_succ', show (256 : Int) = 2 ^ 8 by norm_num, ← pow_mul]
    congr 1
    omega
  have whole : (2 : Int) ^ (8 * width) = 256 ^ width := by
    rw [pow_mul]
    norm_num
  have natPower : ((256 ^ width : Nat) : Int) = 256 ^ width := by push_cast; rfl
  have half : ((2 ^ (8 * width - 1) : Nat) : Int) = 2 ^ (8 * width - 1) := by push_cast; rfl
  have positive : (0 : Int) < 2 ^ (8 * width - 1) := by positivity
  have back : (((256 : Int) ^ width + value).toNat : Int) = 256 ^ width + value :=
    Int.toNat_of_nonneg (by omega)
  refine ⟨by omega, ?_⟩
  rw [signed, if_neg (by omega), back, whole]
  omega

theorem readAt_negativeOf {byte : UInt8} {width : Nat} {value : Int}
    (header : Header.ofByte byte = .sintOf width) (wide : 0 < width)
    (low : -2 ^ (8 * width - 1) ≤ value) (negative : value < 0) (rest : List UInt8) :
    readAt (depth + 1) (byte :: toBE width (256 ^ width + value).toNat ++ rest) =
      some (.integer value, rest) := by
  obtain ⟨fits, back⟩ := signed_add wide low negative
  rw [cons_append, readAt_cons, header, readBody, takeNat_toBE fits, Option.map_some, back]

theorem readAt_packNegative {value : Int} (low : -2 ^ 63 ≤ value) (negative : value < 0)
    (rest : List UInt8) :
    readAt (depth + 1) (packNegative value ++ rest) = some (.integer value, rest) := by
  rw [packNegative]
  split_ifs with tiny one two four
  · have header : Header.ofByte (UInt8.ofNat (256 + value).toNat) = .sint value := by
      rw [Header.ofByte, UInt8.toNat_ofNat', Nat.mod_eq_of_lt (by omega)]
      rw [if_neg (by omega), if_neg (by omega), if_neg (by omega), if_neg (by omega),
        if_pos (by omega)]
      congr 1
      omega
    rw [singleton_append, readAt_cons, header, readBody]
  · exact readAt_negativeOf rfl (by decide) one negative rest
  · exact readAt_negativeOf rfl (by decide) two negative rest
  · exact readAt_negativeOf rfl (by decide) four negative rest
  · exact readAt_negativeOf rfl (by decide) low negative rest

theorem readAt_packInteger {value : Int} (low : -2 ^ 63 ≤ value) (high : value < 2 ^ 64)
    (rest : List UInt8) :
    readAt (depth + 1) (packInteger value ++ rest) = some (.integer value, rest) := by
  rw [packInteger]
  split_ifs with nonneg
  · rw [readAt_packUint (by omega), Int.toNat_of_nonneg nonneg]
  · exact readAt_packNegative low (by omega) rest

theorem readAt_text {text : String} (short : (utf8Bytes text).length < 2 ^ 32)
    (rest : List UInt8) :
    readAt (depth + 1) (write (.string (some text)) ++ rest) =
      some (.string (some text), rest) := by
  rw [write, Option.getD_some, lengthU32_of_lt short, append_assoc, readAt_strHeader short,
    readText, takeBytes_append rfl, Option.map_some, fromUTF8?_utf8Bytes]

theorem readAt_binary {bytes : List UInt8} (short : bytes.length < 2 ^ 32) (rest : List UInt8) :
    readAt (depth + 1) (write (.binary bytes) ++ rest) = some (.binary bytes, rest) := by
  have wide : ∀ {byte width}, Header.ofByte byte = .binOf width → bytes.length < 256 ^ width →
      readAt (depth + 1) (byte :: toBE width bytes.length ++ (bytes ++ rest)) =
        some (.binary bytes, rest) := by
    intro byte width header fits
    rw [cons_append, readAt_cons, header, readBody, takeNat_toBE fits, Option.bind_some,
      readBinary, takeBytes_append rfl]
    rfl
  rw [write, lengthU32_of_lt short, binHeader, append_assoc]
  split_ifs with one two
  · exact wide rfl one
  · exact wide rfl two
  · exact wide rfl short

theorem readExt_append {tag : Int} (low : -2 ^ 7 ≤ tag) (high : tag < 2 ^ 7)
    (bytes rest : List UInt8) :
    readExt bytes.length (toBE 1 (tag % 256).toNat ++ (bytes ++ rest)) =
      some (.ext tag bytes, rest) := by
  have back : signed 1 (tag % 256).toNat = tag := by
    rw [signed]
    split_ifs <;> omega
  rw [readExt, takeNat_toBE (by omega), Option.bind_some, takeBytes_append rfl, Option.map_some,
    back]

theorem readAt_ext {tag : Int} (low : -2 ^ 7 ≤ tag) (high : tag < 2 ^ 7) {bytes : List UInt8}
    (short : bytes.length < 2 ^ 32) (rest : List UInt8) :
    readAt (depth + 1) (write (.ext tag bytes) ++ rest) = some (.ext tag bytes, rest) := by
  have body := readExt_append low high bytes rest
  have wide : ∀ {byte width}, bytes.length < 256 ^ width →
      (∀ bytes, readAt (depth + 1) (byte :: bytes) = readExtOf width bytes) →
      readAt (depth + 1) (byte :: toBE width bytes.length ++
        (toBE 1 (tag % 256).toNat ++ (bytes ++ rest))) = some (.ext tag bytes, rest) := by
    intro byte width fits reads
    rw [cons_append, reads, readExtOf, takeNat_toBE fits, Option.bind_some, body]
  rw [write, lengthU32_of_lt short, extHeader, append_assoc, append_assoc]
  split_ifs with one two four eight sixteen byte word
  · rw [one] at body
    exact body
  · rw [two] at body
    exact body
  · rw [four] at body
    exact body
  · rw [eight] at body
    exact body
  · rw [sixteen] at body
    exact body
  · exact wide byte fun _ => rfl
  · exact wide word fun _ => rfl
  · exact wide short fun _ => rfl

end Scalars

section Nested

variable {depth : Nat}

theorem readAt_array {items : List Value} (short : items.length < 2 ^ 32)
    (each : ∀ item ∈ items, ∀ rest, readAt depth (write item ++ rest) = some (item, rest))
    (rest : List UInt8) :
    readAt (depth + 1) (write (.array items) ++ rest) = some (.array items, rest) := by
  rw [write, lengthU32_of_lt short, writeItems_eq, append_assoc, readAt_arrayHeader short,
    readItems, readMany_flatMap each, map_id']
  rfl

theorem readAt_map {entries : List (Value × Value)} (short : entries.length < 2 ^ 32)
    (keys : ∀ entry ∈ entries, ∀ rest,
      readAt depth (write entry.1 ++ rest) = some (entry.1, rest))
    (values : ∀ entry ∈ entries, ∀ rest,
      readAt depth (write entry.2 ++ rest) = some (entry.2, rest)) (rest : List UInt8) :
    readAt (depth + 1) (write (.map entries) ++ rest) = some (.map entries, rest) := by
  have each : ∀ entry ∈ entries, ∀ rest,
      readEntry (readAt depth) (writeEntry entry ++ rest) = some (entry, rest) := by
    intro entry member rest
    rw [readEntry, writeEntry, append_assoc, keys entry member, Option.bind_some,
      values entry member]
    rfl
  rw [write, lengthU32_of_lt short, writeEntries_eq, append_assoc, readAt_mapHeader short,
    readEntries, readMany_flatMap each, map_id']
  rfl

end Nested

/-- **Round trip.** A value that fits and has less than 4 GiB is read back, whatever follows it. -/
theorem readAt_write {depth : Nat} {value : Value} (fits : Fits depth value)
    (short : (write value).length < 2 ^ 32) (rest : List UInt8) :
    readAt depth (write value ++ rest) = some (value, rest) := by
  induction fits generalizing rest with
  | nil => rfl
  | boolean value => cases value <;> rfl
  | integer low high =>
    rw [write]
    exact readAt_packInteger low high rest
  | f32 bits =>
    have fits : bits.toNat < 256 ^ 4 := bits.toNat_lt
    have body : ((takeNat 4 (toBE 4 bits.toNat ++ rest)).map fun taken =>
        (Value.f32 (UInt32.ofNat taken.1), taken.2)) = some (.f32 bits, rest) := by
      rw [takeNat_toBE fits, Option.map_some, UInt32.ofNat_toNat]
    exact body
  | f64 bits =>
    have fits : bits.toNat < 256 ^ 8 := bits.toNat_lt
    have body : ((takeNat 8 (toBE 8 bits.toNat ++ rest)).map fun taken =>
        (Value.f64 (UInt64.ofNat taken.1), taken.2)) = some (.f64 bits, rest) := by
      rw [takeNat_toBE fits, Option.map_some, UInt64.ofNat_toNat]
    exact body
  | string text =>
    rw [write, length_append] at short
    exact readAt_text ((Nat.le_add_left _ _).trans_lt short) rest
  | binary bytes =>
    rw [write, length_append] at short
    exact readAt_binary ((Nat.le_add_left _ _).trans_lt short) rest
  | @array _ items _ ih =>
    refine readAt_array ((length_items_le items).trans_lt short) ?_ rest
    intro item member
    exact ih item member ((length_item_le member).trans_lt short)
  | @map _ entries _ _ keys values =>
    refine readAt_map ((length_entries_le entries).trans_lt short) ?_ ?_ rest
    · intro entry member
      have inside := (Nat.le_add_right _ _).trans (length_entry_le member)
      exact keys entry member (inside.trans_lt short)
    · intro entry member
      have inside := (Nat.le_add_left _ _).trans (length_entry_le member)
      exact values entry member (inside.trans_lt short)
  | ext low high bytes =>
    rw [write, length_append] at short
    exact readAt_ext low high ((Nat.le_add_left _ _).trans_lt short) rest

theorem read_write {value : Value} (fits : Fits 1024 value)
    (short : (write value).length < 2 ^ 32) : read (write value) = some value := by
  have whole := readAt_write fits short []
  rw [append_nil] at whole
  rw [read, whole, Option.map_some]

/-- Different texts are written differently, however long they are. -/
theorem write_string_injective {first second : String}
    (same : write (.string (some first)) = write (.string (some second))) : first = second := by
  rw [write, write, Option.getD_some, Option.getD_some] at same
  have one := announces_strHeader (lengthU32_lt (utf8Bytes first).length)
  have two := announces_strHeader (lengthU32_lt (utf8Bytes second).length)
  generalize strHeader (lengthU32 (utf8Bytes first).length) = header at one same
  generalize strHeader (lengthU32 (utf8Bytes second).length) = other at two same
  -- the first byte says how long the header is
  have lengths : header.length = other.length := by
    cases one with
    | inByte short =>
      cases two with
      | inByte => rfl
      | ofWidth wide =>
        rw [(List.cons.inj same).1, wide] at short
        cases short
    | ofWidth wide =>
      cases two with
      | inByte short =>
        rw [(List.cons.inj same).1, short] at wide
        cases wide
      | ofWidth alsoWide =>
        rw [(List.cons.inj same).1, alsoWide, Header.strOf.injEq] at wide
        rw [length_cons, length_cons, length_toBE, length_toBE, wide]
  have bytes := (append_inj same lengths).2
  have texts := congrArg (fun bytes => String.fromUTF8? ⟨bytes.toArray⟩) bytes
  rwa [fromUTF8?_utf8Bytes, fromUTF8?_utf8Bytes, Option.some_inj] at texts

end KwaaiNet.Value
