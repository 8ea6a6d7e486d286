import KwaaiNet.Foundation.Bytes

/-! # MessagePack

Values in the MessagePack format: a reader for all of the format, and a writer for numbers,
strings, arrays and maps that takes the shortest form. Bytes that were written are read back as
the value that was written, whatever follows them; `Foundation.MessagePack.Packed` keeps bytes
and value together with that law, and arrays and maps of packed values are packed values. A
record is read from a map with its field names, or their numbers, as keys, or from an array.
-/

namespace Foundation.MessagePack

open List

/-- A value, as far as a record with fields of numbers, strings and byte arrays can see it. -/
inductive Value where
  | uint (n : Nat)
  /-- A number in a signed form. -/
  | sint (value : Int)
  | str (bytes : List UInt8)
  | bin (bytes : List UInt8)
  | array (items : List Value)
  | map (pairs : List (Value × Value))
  /-- `nil`, a truth value, a float or an extension. -/
  | other

/-- What the first byte of a value announces; widths and lengths are in bytes. -/
inductive Header where
  | uint (n : Nat)
  | uintOf (width : Nat)
  | sint (value : Int)
  | sintOf (width : Nat)
  | str (length : Nat)
  | strOf (width : Nat)
  | binOf (width : Nat)
  | array (length : Nat)
  | arrayOf (width : Nat)
  | map (length : Nat)
  | mapOf (width : Nat)
  | skip (length : Nat)
  | skipOf (width extra : Nat)
  | reserved

def Header.ofByte (byte : UInt8) : Header :=
  let code := byte.toNat
  if code < 0x80 then .uint code
  else if code < 0x90 then .map (code - 0x80)
  else if code < 0xa0 then .array (code - 0x90)
  else if code < 0xc0 then .str (code - 0xa0)
  else if 0xe0 ≤ code then .sint (code - 256)
  else
    match code - 0xc0 with
    | 1 => .reserved
    | 4 => .binOf 1
    | 5 => .binOf 2
    | 6 => .binOf 4
    | 7 => .skipOf 1 1
    | 8 => .skipOf 2 1
    | 9 => .skipOf 4 1
    | 10 => .skip 4
    | 11 => .skip 8
    | 12 => .uintOf 1
    | 13 => .uintOf 2
    | 14 => .uintOf 4
    | 15 => .uintOf 8
    | 16 => .sintOf 1
    | 17 => .sintOf 2
    | 18 => .sintOf 4
    | 19 => .sintOf 8
    | 20 => .skip 2
    | 21 => .skip 3
    | 22 => .skip 5
    | 23 => .skip 9
    | 24 => .skip 17
    | 25 => .strOf 1
    | 26 => .strOf 2
    | 27 => .strOf 4
    | 28 => .arrayOf 2
    | 29 => .arrayOf 4
    | 30 => .mapOf 2
    | 31 => .mapOf 4
    | _ => .skip 0

/-- A reader takes something off the front of a list of bytes. -/
abbrev Reader (α : Type) := List UInt8 → Option (α × List UInt8)

def takeNat (width : Nat) : Reader Nat := fun bytes =>
  (takeBytes width bytes).map fun taken => (ofBE taken.1, taken.2)

def readMany {α : Type} (item : Reader α) : Nat → Reader (List α)
  | 0, bytes => some ([], bytes)
  | count + 1, bytes =>
    (item bytes).bind fun first =>
      (readMany item count first.2).map fun others => (first.1 :: others.1, others.2)

def readPair (item : Reader Value) : Reader (Value × Value) := fun bytes =>
  (item bytes).bind fun key => (item key.2).map fun value => ((key.1, value.1), value.2)

/-- The number in two's complement. -/
def signed (width n : Nat) : Int := if n < 2 ^ (8 * width - 1) then n else n - 2 ^ (8 * width)

section Reading

variable (nested : Option (Reader Value))

def readArray (count : Nat) : Reader Value := fun bytes =>
  nested.bind fun item => (readMany item count bytes).map fun read => (.array read.1, read.2)

def readMap (count : Nat) : Reader Value := fun bytes =>
  nested.bind fun item =>
    (readMany (readPair item) count bytes).map fun read => (.map read.1, read.2)

def readBody : Header → Reader Value
  | .uint n, bytes => some (.uint n, bytes)
  | .uintOf width, bytes => (takeNat width bytes).map fun taken => (.uint taken.1, taken.2)
  | .sint value, bytes => some (.sint value, bytes)
  | .sintOf width, bytes =>
    (takeNat width bytes).map fun taken => (.sint (signed width taken.1), taken.2)
  | .str length, bytes => (takeBytes length bytes).map fun taken => (.str taken.1, taken.2)
  | .strOf width, bytes =>
    (takeNat width bytes).bind fun length =>
      (takeBytes length.1 length.2).map fun taken => (.str taken.1, taken.2)
  | .binOf width, bytes =>
    (takeNat width bytes).bind fun length =>
      (takeBytes length.1 length.2).map fun taken => (.bin taken.1, taken.2)
  | .array length, bytes => readArray nested length bytes
  | .arrayOf width, bytes =>
    (takeNat width bytes).bind fun length => readArray nested length.1 length.2
  | .map length, bytes => readMap nested length bytes
  | .mapOf width, bytes =>
    (takeNat width bytes).bind fun length => readMap nested length.1 length.2
  | .skip length, bytes => (takeBytes length bytes).map fun taken => (.other, taken.2)
  | .skipOf width extra, bytes =>
    (takeNat width bytes).bind fun length =>
      (takeBytes (length.1 + extra) length.2).map fun taken => (.other, taken.2)
  | .reserved, _ => none

def readWith : Reader Value
  | [] => none
  | byte :: bytes => readBody nested (.ofByte byte) bytes

end Reading

def readValue : Nat → Reader Value
  | 0 => readWith none
  | depth + 1 => readWith (some (readValue depth))

/-- Bytes that are read as a value, whatever follows them. -/
structure Packed (depth : Nat) where
  bytes : List UInt8
  value : Value
  reads : ∀ rest, readValue depth (bytes ++ rest) = some (value, rest)

/-! ## Numbers and strings -/

def utf8Bytes (text : String) : List UInt8 := text.toByteArray.data.toList

theorem utf8Bytes_ofList (chars : List Char) :
    utf8Bytes (String.ofList chars) = chars.flatMap String.utf8EncodeChar := by
  rw [utf8Bytes, String.toByteArray_ofList, List.utf8Encode]
  simp

theorem fromUTF8?_utf8Bytes (text : String) :
    String.fromUTF8? ⟨(utf8Bytes text).toArray⟩ = some text := by
  rw [utf8Bytes, Array.toArray_toList, String.fromUTF8?, dif_pos text.isValidUTF8]
  rfl

/-- A number in the shortest form. -/
def packUint (n : Nat) : List UInt8 :=
  if n < 128 then [UInt8.ofNat n]
  else if n < 256 then 0xcc :: toBE 1 n
  else if n < 256 ^ 2 then 0xcd :: toBE 2 n
  else if n < 256 ^ 4 then 0xce :: toBE 4 n
  else 0xcf :: toBE 8 n

def strHeader (length : Nat) : List UInt8 :=
  if length < 32 then [UInt8.ofNat (0xa0 + length)]
  else if length < 256 then 0xd9 :: toBE 1 length
  else if length < 256 ^ 2 then 0xda :: toBE 2 length
  else 0xdb :: toBE 4 length

def packStr (text : String) : List UInt8 :=
  strHeader (utf8Bytes text).length ++ utf8Bytes text

def arrayHeader (length : Nat) : List UInt8 :=
  if length < 16 then [UInt8.ofNat (0x90 + length)]
  else if length < 256 ^ 2 then 0xdc :: toBE 2 length
  else 0xdd :: toBE 4 length

def packBytes (bytes : List UInt8) : List UInt8 :=
  arrayHeader bytes.length ++ bytes.flatMap fun byte => packUint byte.toNat

def mapHeader (length : Nat) : List UInt8 :=
  if length < 16 then [UInt8.ofNat (0x80 + length)]
  else if length < 256 ^ 2 then 0xde :: toBE 2 length
  else 0xdf :: toBE 4 length

def packRecord (fields : List (String × List UInt8)) : List UInt8 :=
  mapHeader fields.length ++ fields.flatMap fun field => packStr field.1 ++ field.2

theorem length_utf8Bytes_le (text : String) : (utf8Bytes text).length ≤ (packStr text).length := by
  rw [packStr, length_append]
  exact Nat.le_add_left _ _

theorem one_le_length_packUint (n : Nat) : 1 ≤ (packUint n).length := by
  rw [packUint]
  split_ifs <;> exact Nat.succ_le_succ (Nat.zero_le _)

theorem length_le_flatMap {α : Type} {bytes : α → List UInt8} (full : ∀ x, 1 ≤ (bytes x).length)
    (items : List α) : items.length ≤ (items.flatMap bytes).length := by
  induction items with
  | nil => exact Nat.le_refl 0
  | cons first items ih =>
    have more := full first
    rw [flatMap_cons, length_append, length_cons]
    omega

theorem length_le_packBytes (bytes : List UInt8) : bytes.length ≤ (packBytes bytes).length := by
  have items := length_le_flatMap (fun byte : UInt8 => one_le_length_packUint byte.toNat) bytes
  rw [packBytes, length_append]
  omega

theorem length_le_packRecord {fields : List (String × List UInt8)} {field : String × List UInt8}
    (member : field ∈ fields) : field.2.length ≤ (packRecord fields).length := by
  obtain ⟨before, after, rfl⟩ := append_of_mem member
  simp only [packRecord, flatMap_append, flatMap_cons, length_append]
  omega

def nestedReader : Nat → Option (Reader Value)
  | 0 => none
  | depth + 1 => some (readValue depth)

theorem readValue_cons (depth : Nat) (byte : UInt8) (bytes : List UInt8) :
    readValue depth (byte :: bytes) = readBody (nestedReader depth) (.ofByte byte) bytes := by
  cases depth with
  | zero => rfl
  | succ depth => rfl

theorem takeNat_toBE {width n : Nat} (fits : n < 256 ^ width) (rest : List UInt8) :
    takeNat width (toBE width n ++ rest) = some (n, rest) := by
  rw [takeNat, takeBytes_append (length_toBE width n), Option.map_some, ofBE_toBE,
    Nat.mod_eq_of_lt fits]

/-- The bytes that announce a number or a length: in the first byte, or in the bytes after it. -/
inductive Announces (inByte ofWidth : Nat → Header) (n : Nat) : List UInt8 → Prop
  | inByte {byte : UInt8} (header : Header.ofByte byte = inByte n) :
      Announces inByte ofWidth n [byte]
  | ofWidth {byte : UInt8} {width : Nat} (header : Header.ofByte byte = ofWidth width)
      (fits : n < 256 ^ width) : Announces inByte ofWidth n (byte :: toBE width n)

theorem Announces.one_le_length {inByte ofWidth : Nat → Header} {n : Nat} {bytes : List UInt8}
    (announced : Announces inByte ofWidth n bytes) : 1 ≤ bytes.length := by
  cases announced with
  | inByte => exact Nat.le_refl 1
  | ofWidth => exact Nat.succ_le_succ (Nat.zero_le _)

theorem announces_packUint {n : Nat} (fits : n < 256 ^ 8) :
    Announces .uint .uintOf n (packUint n) := by
  rw [packUint]
  split_ifs with tiny one two four
  · apply Announces.inByte
    rw [Header.ofByte, UInt8.toNat_ofNat', Nat.mod_eq_of_lt (by omega)]
    exact if_pos tiny
  · exact .ofWidth rfl one
  · exact .ofWidth rfl two
  · exact .ofWidth rfl four
  · exact .ofWidth rfl fits

theorem announces_strHeader {length : Nat} (fits : length < 256 ^ 4) :
    Announces .str .strOf length (strHeader length) := by
  rw [strHeader]
  split_ifs with tiny one two
  · apply Announces.inByte
    rw [Header.ofByte, UInt8.toNat_ofNat', Nat.mod_eq_of_lt (by omega)]
    rw [if_neg (by omega), if_neg (by omega), if_neg (by omega), if_pos (by omega),
      Nat.add_sub_cancel_left]
  · exact .ofWidth rfl one
  · exact .ofWidth rfl two
  · exact .ofWidth rfl fits

theorem announces_arrayHeader {length : Nat} (fits : length < 256 ^ 4) :
    Announces .array .arrayOf length (arrayHeader length) := by
  rw [arrayHeader]
  split_ifs with tiny two
  · apply Announces.inByte
    rw [Header.ofByte, UInt8.toNat_ofNat', Nat.mod_eq_of_lt (by omega)]
    rw [if_neg (by omega), if_neg (by omega), if_pos (by omega), Nat.add_sub_cancel_left]
  · exact .ofWidth rfl two
  · exact .ofWidth rfl fits

theorem announces_mapHeader {length : Nat} (fits : length < 256 ^ 4) :
    Announces .map .mapOf length (mapHeader length) := by
  rw [mapHeader]
  split_ifs with tiny two
  · apply Announces.inByte
    rw [Header.ofByte, UInt8.toNat_ofNat', Nat.mod_eq_of_lt (by omega)]
    rw [if_neg (by omega), if_pos (by omega), Nat.add_sub_cancel_left]
  · exact .ofWidth rfl two
  · exact .ofWidth rfl fits

theorem readValue_of_announces {inByte ofWidth : Nat → Header} {depth n : Nat}
    {header rest : List UInt8} {result : Option (Value × List UInt8)}
    (announced : Announces inByte ofWidth n header)
    (here : readBody (nestedReader depth) (inByte n) rest = result)
    (after : ∀ width, n < 256 ^ width →
      readBody (nestedReader depth) (ofWidth width) (toBE width n ++ rest) = result) :
    readValue depth (header ++ rest) = result := by
  cases announced with
  | inByte header => rw [singleton_append, readValue_cons, header, here]
  | ofWidth header fits => rw [cons_append, readValue_cons, header, after _ fits]

section Scalars

variable {depth n : Nat}

theorem readValue_packUint (fits : n < 256 ^ 8) (rest : List UInt8) :
    readValue depth (packUint n ++ rest) = some (.uint n, rest) := by
  refine readValue_of_announces (announces_packUint fits) rfl fun width fits => ?_
  rw [readBody, takeNat_toBE fits]
  rfl

theorem readValue_packStr {text : String} (fits : (utf8Bytes text).length < 256 ^ 4)
    (rest : List UInt8) :
    readValue depth (packStr text ++ rest) = some (.str (utf8Bytes text), rest) := by
  rw [packStr, append_assoc]
  refine readValue_of_announces (announces_strHeader fits) ?_ fun width fits => ?_
  · rw [readBody, takeBytes_append rfl]
    rfl
  · rw [readBody, takeNat_toBE fits, Option.bind_some, takeBytes_append rfl]
    rfl

end Scalars

namespace Packed

variable {depth : Nat}

def uint (n : Nat) (fits : n < 256 ^ 8) : Packed depth :=
  ⟨packUint n, .uint n, readValue_packUint fits⟩

def str (text : String) (fits : (utf8Bytes text).length < 256 ^ 4) : Packed depth :=
  ⟨packStr text, .str (utf8Bytes text), readValue_packStr fits⟩

end Packed

/-! ## Arrays and maps -/

section Nested

variable {depth : Nat}

theorem readMany_flatMap {α β : Type} {item : Reader β} {bytes : α → List UInt8} {value : α → β}
    {items : List α} (reads : ∀ x ∈ items, ∀ rest, item (bytes x ++ rest) = some (value x, rest))
    (rest : List UInt8) :
    readMany item items.length (items.flatMap bytes ++ rest) = some (items.map value, rest) := by
  induction items with
  | nil => rfl
  | cons first items ih =>
    rw [forall_mem_cons] at reads
    rw [length_cons, readMany, flatMap_cons, append_assoc, reads.1,
      Option.bind_some, ih reads.2]
    rfl

def pairBytes (pair : Packed depth × Packed depth) : List UInt8 := pair.1.bytes ++ pair.2.bytes

theorem readMap_packed (pairs : List (Packed depth × Packed depth)) (rest : List UInt8) :
    readMap (some (readValue depth)) pairs.length (pairs.flatMap pairBytes ++ rest) =
      some (.map (pairs.map fun pair => (pair.1.value, pair.2.value)), rest) := by
  have pair : ∀ (pair : Packed depth × Packed depth) rest,
      readPair (readValue depth) (pairBytes pair ++ rest) =
        some ((pair.1.value, pair.2.value), rest) := by
    intro pair rest
    rw [readPair, pairBytes, append_assoc, pair.1.reads, Option.bind_some, pair.2.reads]
    rfl
  rw [readMap, Option.bind_some, readMany_flatMap fun x _ => pair x]
  rfl

theorem readValue_array {α : Type} {bytes : α → List UInt8} {value : α → Value}
    (reads : ∀ x rest, readValue depth (bytes x ++ rest) = some (value x, rest)) {items : List α}
    (fits : items.length < 256 ^ 4) (rest : List UInt8) :
    readValue (depth + 1) (arrayHeader items.length ++ items.flatMap bytes ++ rest) =
      some (.array (items.map value), rest) := by
  have inner : readArray (some (readValue depth)) items.length (items.flatMap bytes ++ rest) =
      some (.array (items.map value), rest) := by
    rw [readArray, Option.bind_some, readMany_flatMap fun x _ => reads x]
    rfl
  rw [append_assoc]
  refine readValue_of_announces (announces_arrayHeader fits) inner fun width fits => ?_
  rw [readBody, takeNat_toBE fits, Option.bind_some]
  exact inner

theorem readValue_packBytes {bytes : List UInt8} (fits : bytes.length < 256 ^ 4)
    (rest : List UInt8) :
    readValue (depth + 1) (packBytes bytes ++ rest) =
      some (.array (bytes.map fun byte => .uint byte.toNat), rest) := by
  apply readValue_array _ fits
  intro byte
  exact readValue_packUint (Nat.lt_of_lt_of_le byte.toNat_lt (by decide))

theorem readValue_map {pairs : List (Packed depth × Packed depth)}
    (fits : pairs.length < 256 ^ 4) (rest : List UInt8) :
    readValue (depth + 1) (mapHeader pairs.length ++ pairs.flatMap pairBytes ++ rest) =
      some (.map (pairs.map fun pair => (pair.1.value, pair.2.value)), rest) := by
  rw [append_assoc]
  refine readValue_of_announces (announces_mapHeader fits) (readMap_packed pairs rest)
    fun width fits => ?_
  rw [readBody, takeNat_toBE fits, Option.bind_some]
  exact readMap_packed pairs rest

end Nested

namespace Packed

variable {depth : Nat}

def byteArray (bytes : List UInt8) (fits : bytes.length < 256 ^ 4) : Packed (depth + 1) :=
  ⟨packBytes bytes, .array (bytes.map fun byte => .uint byte.toNat), readValue_packBytes fits⟩

def map (pairs : List (Packed depth × Packed depth)) (fits : pairs.length < 256 ^ 4) :
    Packed (depth + 1) :=
  ⟨mapHeader pairs.length ++ pairs.flatMap pairBytes,
    .map (pairs.map fun pair => (pair.1.value, pair.2.value)), readValue_map fits⟩

end Packed

/-! ## Records -/

namespace Value

def toNat? (limit : Nat) : Value → Option Nat
  | .uint n => if n < limit then some n else none
  | .sint value => if 0 ≤ value ∧ value < limit then some value.toNat else none
  | _ => none

def toString? : Value → Option String
  | .str bytes | .bin bytes => String.fromUTF8? ⟨bytes.toArray⟩
  | _ => none

def toBytes? : Value → Option (List UInt8)
  | .bin bytes => some bytes
  | .array items => items.mapM fun item => (item.toNat? 256).map UInt8.ofNat
  | _ => none

end Value

/-- What the key of a pair stands for: a key names a field by its name or by its number, and a
key that is neither a string nor an unsigned number is an error. -/
inductive KeyRead where
  | field (index : Nat)
  | ignored
  | invalid
  deriving DecidableEq

def readKey (names : List (List UInt8)) : Value → KeyRead
  | .str bytes | .bin bytes =>
    if bytes ∈ names then .field (names.idxOf bytes) else .ignored
  | .uint n => if n < names.length then .field n else .ignored
  | _ => .invalid

def fillFields (names : List (List UInt8)) :
    List (Value × Value) → List (Option Value) → Option (List (Option Value))
  | [], fields => some fields
  | (key, value) :: pairs, fields =>
    match readKey names key with
    | .invalid => none
    | .ignored => fillFields names pairs fields
    | .field index =>
      if (fields.getD index none).isSome then none
      else fillFields names pairs (fields.set index (some value))

def readFields (names : List (List UInt8)) : Value → Option (List Value)
  | .map pairs =>
    (fillFields names pairs (List.replicate names.length none)).bind fun fields =>
      fields.mapM id
  | .array items => if items.length = names.length then some items else none
  | _ => none

theorem toString?_str (text : String) : (Value.str (utf8Bytes text)).toString? = some text :=
  fromUTF8?_utf8Bytes text

theorem toBytes?_array (bytes : List UInt8) :
    (Value.array (bytes.map fun byte => .uint byte.toNat)).toBytes? = some bytes := by
  have item : ∀ byte : UInt8,
      ((Value.uint byte.toNat).toNat? 256).map UInt8.ofNat = some byte := by
    intro byte
    rw [Value.toNat?, if_pos byte.toNat_lt, Option.map_some, UInt8.ofNat_toNat]
  rw [Value.toBytes?, mapM_map]
  induction bytes with
  | nil => rfl
  | cons byte bytes ih =>
    rw [mapM_cons, Function.comp_apply, item, ih]
    rfl

theorem fillFields_append (names : List (List UInt8)) (first second : List (Value × Value))
    (fields : List (Option Value)) :
    fillFields names (first ++ second) fields =
      (fillFields names first fields).bind (fillFields names second) := by
  induction first generalizing fields with
  | nil => rfl
  | cons pair first ih =>
    obtain ⟨key, value⟩ := pair
    rw [cons_append, fillFields, fillFields]
    cases readKey names key with
    | invalid => rfl
    | ignored => exact ih fields
    | field index =>
      dsimp only
      split_ifs
      · rfl
      · exact ih _

theorem fillFields_of_ignored (names : List (List UInt8)) {pairs : List (Value × Value)}
    (ignored : ∀ pair ∈ pairs, readKey names pair.1 = .ignored) (fields : List (Option Value)) :
    fillFields names pairs fields = some fields := by
  induction pairs with
  | nil => rfl
  | cons pair pairs ih =>
    obtain ⟨key, value⟩ := pair
    rw [forall_mem_cons] at ignored
    rw [fillFields, ignored.1]
    exact ih ignored.2

end Foundation.MessagePack
