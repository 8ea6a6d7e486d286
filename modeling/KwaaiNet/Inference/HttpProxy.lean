import Mathlib
import KwaaiNet.Foundation.Marker
import KwaaiNet.Foundation.MessagePack
import KwaaiNet.Foundation.Text

/-! # The local HTTP proxies

Two proxies take HTTP requests of local clients and forward them to a peer. Both read a request in
two phases: until the blank line after the header fields has arrived, and then, as far as bytes are
missing, the body of the length that the fields declare. What has been read after the blank line is
forwarded as the body, even if it is more than the body (the read that brought the blank line also
brought bytes of a following request) or less (the stream ended or the time was over).
`KwaaiNet.HttpProxy.forwardsExactly_iff` says for which divisions of the stream into reads exactly
the request is forwarded.
-/

namespace KwaaiNet.HttpProxy

open Foundation Foundation.Text Foundation.MessagePack List

/-- What a read of at most 16 KiB gives. -/
structure Segment where
  bytes : List UInt8
  nonempty : bytes ≠ []
  short : bytes.length ≤ 16 * 1024

/-- The outcome of a read. -/
inductive Arrival where
  | data (segment : Segment)
  /-- `Ok(Ok(0))` -/
  | eof
  /-- `Ok(Err(_))` -/
  | error
  /-- `Err(_)`: the deadline has passed. -/
  | timeout

/-- `b"\r\n\r\n"`. -/
def separator : List UInt8 := [13, 10, 13, 10]

def readHead : List Arrival → List UInt8 → Option (Nat × List UInt8 × List Arrival)
  | [], buf => (position separator buf).map fun headerEnd => (headerEnd, buf, [])
  | arrival :: rest, buf =>
    match position separator buf, arrival with
    | some headerEnd, _ => some (headerEnd, buf, arrival :: rest)
    | none, .data segment => readHead rest (buf ++ segment.bytes)
    | none, _ => none

/-- The second phase. A read takes no more bytes than are missing. -/
def readBody (total : Nat) : List Arrival → List UInt8 → Option (List UInt8)
  | [], buf => some buf
  | arrival :: rest, buf =>
    if buf.length < total then
      match arrival with
      | .data segment =>
        let want := min (total - buf.length) (16 * 1024)
        readBody total rest (buf ++ segment.bytes.take want)
      | .eof => some buf
      | .timeout => some buf
      | .error => none
    else some buf

def isLengthLine (line : List Char) : Bool :=
  "content-length:".toList <+: line.map Char.toLower

/-- The length that the header fields declare; 0 if they cannot be read. -/
def contentLength (head : List UInt8) : Nat :=
  let text := (String.fromUTF8? ⟨head.toArray⟩).getD ""
  ((((lines text.toList).find? isLengthLine).bind fun line =>
    (splitOnce ':' line).map Prod.snd).bind fun value =>
      parseUnsigned (2 ^ 64) (trim value)).getD 0

/-- The request as far as it is read; `none` if the connection is closed instead. The sum wraps in a
release build and panics in a debug build. -/
def readRequest (arrivals : List Arrival) : Option (List UInt8) :=
  (readHead arrivals []).bind fun (headerEnd, buf, rest) =>
    let total := (headerEnd + 4 + contentLength (buf.take headerEnd)) % 2 ^ 64
    readBody total rest buf

def Overflows (arrivals : List Arrival) : Prop :=
  ∃ headerEnd buf rest, readHead arrivals [] = some (headerEnd, buf, rest) ∧
    2 ^ 64 ≤ headerEnd + 4 + contentLength (buf.take headerEnd)

/-- `parse_http_request`. -/
def parseHttpRequest (raw : List UInt8) : Option (String × String × List UInt8) :=
  (position separator raw).bind fun sep =>
    (String.fromUTF8? ⟨(raw.take sep).toArray⟩).bind fun headers =>
      (lines headers.toList).head?.bind fun reqLine =>
        (splitOnce ' ' reqLine).map fun (method, rest) =>
          (String.ofList method, String.ofList (rest.takeWhile fun character => character ≠ ' '),
            raw.drop (sep + 4))

/-- What a proxy does with a connection. -/
inductive ProxyOutcome where
  | closed
  /-- 503: the circuit of the peer is open. -/
  | unavailable
  /-- 400 -/
  | badRequest
  | forwarded (method path : String) (body : List UInt8)
  deriving DecidableEq

def forwardRequest (allowed : Bool) (arrivals : List Arrival) : ProxyOutcome :=
  match readRequest arrivals with
  | none => .closed
  | some buf =>
    if !allowed then .unavailable
    else
      match parseHttpRequest buf with
      | none => .badRequest
      | some (method, path, body) => .forwarded method path body

/-- `inference_mux::handle_mux_proxy_connection`. -/
def handleMuxProxyConnection := forwardRequest

/-- `ollama_proxy::handle_connection`. -/
def handleConnection := forwardRequest

/-! ## Requests -/

/-- The request line and the header fields of a request. -/
structure HttpHead where
  method : List Char
  path : List Char
  version : List Char
  fields : List (List Char × List Char)
  method_clean : ∀ character ∈ [' ', ':', '\r', '\n'], character ∉ method
  path_clean : ∀ character ∈ [' ', '\r', '\n'], character ∉ path
  version_clean : ∀ character ∈ ['\r', '\n'], character ∉ version
  name_clean : ∀ field ∈ fields, ∀ character ∈ [':', '\r', '\n'], character ∉ field.1
  value_clean : ∀ field ∈ fields, ∀ character ∈ ['\r', '\n'], character ∉ field.2

namespace HttpHead

variable (head : HttpHead)

def requestLine : List Char := head.method ++ ' ' :: (head.path ++ ' ' :: head.version)

def fieldLine (field : List Char × List Char) : List Char := field.1 ++ ':' :: field.2

def headLines : List (List Char) := head.requestLine :: head.fields.map fieldLine

def text : List Char := ['\r', '\n'].intercalate head.headLines

/-- The bytes of a head, without the blank line. -/
def bytes : List UInt8 := utf8Bytes (String.ofList head.text)

def isContentLength (field : List Char × List Char) : Bool :=
  field.1.map Char.toLower = "content-length".toList

/-- The first field for the length of the body has the length as its value, in digits with blanks
around them. Without such a field there is no body. -/
def Declares (length : Nat) : Prop :=
  match head.fields.find? isContentLength with
  | none => length = 0
  | some field => ∃ left digits right, field.2 = left ++ digits ++ right ∧
      (∀ character ∈ left ++ right, character = ' ' ∨ character = '\t') ∧ digits ≠ [] ∧
      (∀ digit ∈ digits, digit.isDigit = true) ∧ decimal digits = length

end HttpHead

/-- A request with a body of the length that its header fields declare. -/
structure HttpRequest extends HttpHead where
  body : List UInt8
  declared : toHttpHead.Declares body.length

def HttpRequest.allBytes (request : HttpRequest) : List UInt8 :=
  request.bytes ++ (separator ++ request.body)

/-! ## Divisions of a stream into reads -/

def received : List Arrival → List UInt8
  | .data segment :: rest => segment.bytes ++ received rest
  | _ => []

def brokenOff : List Arrival → Bool
  | .data _ :: rest => brokenOff rest
  | .error :: _ => true
  | _ => false

def readUpTo (wanted : Nat) : List Arrival → Nat → Nat
  | .data segment :: rest, got =>
    if wanted ≤ got then got else readUpTo wanted rest (got + segment.bytes.length)
  | _, got => got

theorem separator_ne_nil : separator ≠ [] := cons_ne_nil _ _

theorem le_readUpTo {wanted : Nat} {arrivals : List Arrival} {got : Nat}
    (enough : wanted ≤ got + (received arrivals).length) :
    wanted ≤ readUpTo wanted arrivals got := by
  induction arrivals generalizing got with
  | nil => exact enough
  | cons arrival rest ih =>
    cases arrival with
    | data segment =>
      rw [readUpTo]
      split_ifs with reached
      · exact reached
      · apply ih
        rw [received, length_append] at enough
        omega
    | eof | error | timeout => exact enough

theorem readUpTo_le_received (wanted : Nat) (arrivals : List Arrival) (got : Nat) :
    readUpTo wanted arrivals got ≤ got + (received arrivals).length := by
  induction arrivals generalizing got with
  | nil => exact Nat.le_add_right _ _
  | cons arrival rest ih =>
    cases arrival with
    | data segment =>
      rw [readUpTo, received, length_append, ← Nat.add_assoc]
      split_ifs
      · exact (Nat.le_add_right _ _).trans (Nat.le_add_right _ _)
      · exact ih _
    | eof | error | timeout => exact Nat.le_add_right _ _

theorem readUpTo_le (wanted : Nat) (arrivals : List Arrival) (got : Nat) :
    readUpTo wanted arrivals got ≤ max got (wanted + 16 * 1024) := by
  induction arrivals generalizing got with
  | nil => exact le_max_left _ _
  | cons arrival rest ih =>
    cases arrival with
    | data segment =>
      rw [readUpTo]
      split_ifs with reached
      · exact le_max_left _ _
      · have later := ih (got + segment.bytes.length)
        have short := segment.short
        omega
    | eof | error | timeout => exact le_max_left _ _

theorem position_buffer {buf whole : List UInt8} {headerEnd : Nat} (starts : buf <+: whole)
    (found : position separator whole = some headerEnd) :
    position separator buf = if headerEnd + 4 ≤ buf.length then some headerEnd else none := by
  rw [position_of_isPrefix separator_ne_nil starts, found, Option.filter_some]
  simp only [decide_eq_true_eq]
  rfl

theorem readHead_of_found {buf : List UInt8} {headerEnd : Nat}
    (found : position separator buf = some headerEnd) (arrivals : List Arrival) :
    readHead arrivals buf = some (headerEnd, buf, arrivals) := by
  cases arrivals <;> simp [readHead, found]

theorem readHead_data {buf : List UInt8} (absent : position separator buf = none)
    (segment : Segment) (rest : List Arrival) :
    readHead (.data segment :: rest) buf = readHead rest (buf ++ segment.bytes) := by
  simp [readHead, absent]

/-- **The first phase.** If a blank line arrives, reading stops with the read that completes it. -/
theorem readHead_of_position {arrivals : List Arrival} {buf : List UInt8} {headerEnd : Nat}
    (found : position separator (buf ++ received arrivals) = some headerEnd) :
    ∃ taken rest, readHead arrivals buf = some (headerEnd, buf ++ taken, rest) ∧
      received arrivals = taken ++ received rest ∧ brokenOff rest = brokenOff arrivals ∧
      (buf ++ taken).length = readUpTo (headerEnd + 4) arrivals buf.length := by
  induction arrivals generalizing buf with
  | nil =>
    have here : position separator buf = some headerEnd := append_nil buf ▸ found
    refine ⟨[], [], ?_, rfl, rfl, ?_⟩
    · rw [append_nil]
      exact readHead_of_found here []
    · rw [append_nil]
      rfl
  | cons arrival rest ih =>
    have here := position_buffer (List.prefix_append buf (received (arrival :: rest))) found
    by_cases complete : headerEnd + 4 ≤ buf.length
    · rw [if_pos complete] at here
      refine ⟨[], arrival :: rest, ?_, rfl, rfl, ?_⟩
      · rw [append_nil]
        exact readHead_of_found here _
      · cases arrival <;> simp [readUpTo, complete]
    · rw [if_neg complete] at here
      cases arrival with
      | data segment =>
        rw [received, ← append_assoc] at found
        obtain ⟨taken, left, read, split, sameStop, count⟩ := ih found
        refine ⟨segment.bytes ++ taken, left, ?_, ?_, sameStop, ?_⟩
        · rw [readHead_data here, ← append_assoc]
          exact read
        · rw [received, split, append_assoc]
        · rw [← append_assoc, count, readUpTo, if_neg complete, length_append]
      | eof | error | timeout =>
        -- Nothing arrives any more, and there is no blank line yet.
        have whole : position separator buf = some headerEnd := append_nil buf ▸ found
        cases whole.symm.trans here

/-- Without a blank line the connection is closed. -/
theorem readHead_of_none {arrivals : List Arrival} {buf : List UInt8}
    (absent : position separator (buf ++ received arrivals) = none) :
    readHead arrivals buf = none := by
  induction arrivals generalizing buf with
  | nil =>
    have here : position separator buf = none := append_nil buf ▸ absent
    simp [readHead, here]
  | cons arrival rest ih =>
    have here : position separator buf = none := by
      rw [position_of_isPrefix separator_ne_nil (List.prefix_append buf _), absent]
      rfl
    cases arrival with
    | data segment =>
      rw [received, ← append_assoc] at absent
      rw [readHead_data here]
      exact ih absent
    | eof | error | timeout => simp [readHead, here]

theorem readBody_of_complete {total : Nat} {buf : List UInt8} (complete : total ≤ buf.length)
    (arrivals : List Arrival) : readBody total arrivals buf = some buf := by
  cases arrivals with
  | nil => rfl
  | cons arrival rest => cases arrival <;> rw [readBody, if_neg (Nat.not_lt.mpr complete)]

/-- **The second phase.** Reading stops at the end of the body or, if the stream stops before it,
with what has arrived, unless it stops with an error. -/
theorem readBody_eq (total : Nat) (arrivals : List Arrival) (buf : List UInt8) :
    readBody total arrivals buf =
      if total ≤ buf.length then some buf
      else if total ≤ (buf ++ received arrivals).length then
        some ((buf ++ received arrivals).take total)
      else if brokenOff arrivals then none
      else some (buf ++ received arrivals) := by
  by_cases complete : total ≤ buf.length
  · rw [if_pos complete, readBody_of_complete complete]
  rw [if_neg complete]
  induction arrivals generalizing buf with
  | nil =>
    have same : buf ++ received [] = buf := append_nil buf
    rw [same, if_neg complete]
    rfl
  | cons arrival rest ih =>
    cases arrival with
    | data segment =>
      rw [readBody, if_pos (Nat.lt_of_not_le complete), received, ← append_assoc]
      dsimp only
      have short := segment.short
      by_cases whole : segment.bytes.length ≤ min (total - buf.length) (16 * 1024)
      · rw [take_of_length_le whole]
        by_cases reached : total ≤ (buf ++ segment.bytes).length
        · have exactly : total = (buf ++ segment.bytes).length := by
            rw [length_append] at reached ⊢
            omega
          have enough := reached.trans (List.prefix_append _ (received rest)).length_le
          rw [readBody_of_complete reached, if_pos enough, exactly, take_left]
        · exact ih _ reached
      · -- The read takes what is missing and leaves the rest of the segment.
        have want : min (total - buf.length) (16 * 1024) = total - buf.length := by omega
        have filled : (buf ++ segment.bytes.take (total - buf.length)).length = total := by
          rw [length_append, length_take]
          omega
        have enough : total ≤ (buf ++ segment.bytes ++ received rest).length := by
          simp only [length_append]
          omega
        rw [want, readBody_of_complete filled.ge, if_pos enough, append_assoc,
          take_append, take_of_length_le (Nat.le_of_not_le complete),
          take_append_of_le_length (by omega)]
    | eof =>
      have same : buf ++ received (.eof :: rest) = buf := append_nil buf
      rw [same, readBody, if_pos (Nat.lt_of_not_le complete), if_neg complete]
      rfl
    | timeout =>
      have same : buf ++ received (.timeout :: rest) = buf := append_nil buf
      rw [same, readBody, if_pos (Nat.lt_of_not_le complete), if_neg complete]
      rfl
    | error =>
      have same : buf ++ received (.error :: rest) = buf := append_nil buf
      rw [same, readBody, if_pos (Nat.lt_of_not_le complete), if_neg complete]
      rfl

/-! ## Reading a head -/

namespace HttpHead

variable (head : HttpHead)

theorem headLines_full : ∀ line ∈ head.headLines, line ≠ [] := by
  intro line member
  rcases mem_cons.mp member with rfl | listed
  · exact append_ne_nil_of_right_ne_nil _ (cons_ne_nil _ _)
  · obtain ⟨field, _, rfl⟩ := mem_map.mp listed
    exact append_ne_nil_of_right_ne_nil _ (cons_ne_nil _ _)

theorem headLines_clean {character : Char} (lineEnd : character ∈ ['\r', '\n']) :
    ∀ line ∈ head.headLines, character ∉ line := by
  have plain : character ≠ ' ' ∧ character ≠ ':' := by
    rcases mem_pair.mp lineEnd with rfl | rfl <;> decide
  intro line member
  rcases mem_cons.mp member with rfl | listed
  · have method := head.method_clean character
      (mem_cons_of_mem _ (mem_cons_of_mem _ lineEnd))
    have path := head.path_clean character (mem_cons_of_mem _ lineEnd)
    have version := head.version_clean character lineEnd
    simp [requestLine, method, path, version, plain]
  · obtain ⟨field, present, rfl⟩ := mem_map.mp listed
    have name := head.name_clean field present character (mem_cons_of_mem _ lineEnd)
    have value := head.value_clean field present character lineEnd
    simp [fieldLine, name, value, plain]

theorem lines_text : lines head.text = head.headLines :=
  lines_intercalate (head.headLines_clean (by decide)) head.headLines_full

theorem flatMap_intercalate {α β : Type*} (image : α → List β) (between : List α)
    (pieces : List (List α)) :
    (between.intercalate pieces).flatMap image =
      (between.flatMap image).intercalate (pieces.map fun piece => piece.flatMap image) := by
  induction pieces with
  | nil => rfl
  | cons piece pieces ih =>
    cases pieces with
    | nil => simp
    | cons next pieces =>
      rw [intercalate_cons_cons, flatMap_append, flatMap_append, ih]
      exact intercalate_cons_cons.symm

theorem bytes_eq : head.bytes = [13, 10].intercalate
    (head.headLines.map fun line => line.flatMap String.utf8EncodeChar) := by
  rw [bytes, utf8Bytes_ofList, text, flatMap_intercalate]
  rfl

theorem position_bytes (after : List UInt8) :
    position separator (head.bytes ++ (separator ++ after)) = some head.bytes.length := by
  have encoded : ∀ line ∈ head.headLines, (13 : UInt8) ∉ line.flatMap String.utf8EncodeChar := by
    intro line member present
    obtain ⟨character, inLine, byte⟩ := mem_flatMap.mp present
    have code := toNat_eq_of_mem_utf8EncodeChar (by decide) byte
    have same : character = '\r' := Char.toNat_inj.mp code
    exact head.headLines_clean (by decide) line member (same ▸ inLine)
  have encodedFull : ∀ line ∈ head.headLines, line.flatMap String.utf8EncodeChar ≠ [] := by
    intro line member empty
    obtain ⟨first, rest, rfl⟩ := exists_cons_of_ne_nil (head.headLines_full line member)
    exact String.utf8EncodeChar_ne_nil (append_eq_nil_iff.mp empty).1
  rw [bytes_eq]
  refine position_intercalate (fun line member => ?_) (fun line member => ?_) (by decide) after
  · rw [← map_cons] at member
    obtain ⟨source, listed, rfl⟩ := mem_map.mp member
    exact encoded source listed
  · obtain ⟨source, listed, rfl⟩ := mem_map.mp member
    exact encodedFull source (mem_cons_of_mem _ listed)

/-! The lines as the proxies read them. -/

theorem prefix_key_iff {key text : List Char} (plain : ':' ∉ key) :
    key ++ [':'] <+: text ↔
      text.takeWhile (fun character => character ≠ ':') = key ∧ ':' ∈ text := by
  constructor
  · rintro ⟨rest, rfl⟩
    rw [append_assoc, takeWhile_append_of_pos (forall_ne_of_notMem plain)]
    simp
  · rintro ⟨same, present⟩
    obtain ⟨front, back, rfl, absent⟩ := eq_append_cons_of_mem present
    rw [takeWhile_append_of_pos (forall_ne_of_notMem absent)] at same
    have whole : front = key := by simpa using same
    exact ⟨back, by rw [whole, append_assoc]; rfl⟩

theorem not_isLengthLine_requestLine : isLengthLine head.requestLine = false := by
  have plain : ':' ∉ head.method.map Char.toLower :=
    notMem_map_toLower (by decide) (head.method_clean ':' (by decide))
  have key : "content-length:".toList = "content-length".toList ++ [':'] := by decide
  apply decide_eq_false
  rw [key, prefix_key_iff (by decide), requestLine, map_append,
    takeWhile_append_of_pos (forall_ne_of_notMem plain)]
  rintro ⟨same, _⟩
  -- The name of the field has no blank.
  have blank : ' ' ∈ "content-length".toList := by
    rw [← same]
    exact mem_append_right _ mem_cons_self
  exact absurd blank (by decide)

theorem isLengthLine_fieldLine {field : List Char × List Char} (member : field ∈ head.fields) :
    isLengthLine (fieldLine field) = isContentLength field := by
  have plain : ':' ∉ field.1.map Char.toLower :=
    notMem_map_toLower (by decide) (head.name_clean field member ':' (by decide))
  have key : "content-length:".toList = "content-length".toList ++ [':'] := by decide
  have name : (fieldLine field).map Char.toLower =
      field.1.map Char.toLower ++ ':' :: field.2.map Char.toLower := by
    rw [fieldLine, map_append]
    rfl
  rw [isLengthLine, isContentLength, key, name, decide_eq_decide, prefix_key_iff (by decide),
    takeWhile_append_of_pos (forall_ne_of_notMem plain)]
  simp

theorem find?_headLines :
    head.headLines.find? isLengthLine = (head.fields.find? isContentLength).map fieldLine := by
  rw [headLines, List.find?_cons_of_neg, List.find?_map]
  · refine congrArg (Option.map fieldLine) (List.find?_congr fun field member => ?_)
    exact head.isLengthLine_fieldLine member
  · rw [head.not_isLengthLine_requestLine]
    exact Bool.false_ne_true

/-- **The length.** The declared length is read, unless it has more than 64 bits. -/
theorem contentLength_bytes {length : Nat} (declared : head.Declares length) :
    contentLength head.bytes = if length < 2 ^ 64 then length else 0 := by
  rw [contentLength, bytes, fromUTF8?_utf8Bytes, Option.getD_some, String.toList_ofList, lines_text,
    find?_headLines]
  rw [Declares] at declared
  cases found : head.fields.find? isContentLength with
  | none =>
    rw [found] at declared
    obtain rfl : length = 0 := declared
    rfl
  | some field =>
    rw [found] at declared
    obtain ⟨left, digits, right, value, blank, full, numeric, rfl⟩ := declared
    have name := head.name_clean field (mem_of_find?_eq_some found) ':' (by decide)
    have trimmed : trim field.2 = digits := by
      rw [value]
      refine trim_padded (fun character member => ?_) (fun digit member => ?_) full
      · rcases blank character member with rfl | rfl <;> decide
      · exact isWhiteSpace_of_isDigit (numeric digit member)
    rw [Option.map_some, Option.bind_some, fieldLine, splitOnce_append name, Option.map_some,
      Option.bind_some, trimmed, parseUnsigned_digits _ full numeric]
    split_ifs <;> rfl

/-- **The parts of a request.** Everything after the blank line is taken as the body. -/
theorem parseHttpRequest_bytes (after : List UInt8) :
    parseHttpRequest (head.bytes ++ (separator ++ after)) =
      some (String.ofList head.method, String.ofList head.path, after) := by
  have path : (head.path ++ ' ' :: head.version).takeWhile (fun character => character ≠ ' ') =
      head.path := by
    rw [takeWhile_append_of_pos (forall_ne_of_notMem (head.path_clean ' ' (by decide)))]
    simp
  have rest : (head.bytes ++ (separator ++ after)).drop (head.bytes.length + 4) = after := by
    rw [← drop_drop, drop_left]
    rfl
  rw [parseHttpRequest, position_bytes, Option.bind_some, take_left, rest, bytes,
    fromUTF8?_utf8Bytes, Option.bind_some, String.toList_ofList, lines_text, headLines,
    List.head?_cons, Option.bind_some, requestLine,
    splitOnce_append (head.method_clean ' ' (by decide)), Option.map_some]
  dsimp only
  rw [path]

end HttpHead

/-! ## Exactly the request -/

/-- **Forwards exactly the request.** The lengths do not overflow; if the whole request arrives, its
method, path and body are forwarded; if only a part of it arrives, nothing is. -/
structure ForwardsExactly (handle : Bool → List Arrival → ProxyOutcome) (request : HttpRequest)
    (arrivals : List Arrival) : Prop where
  fits : ¬ Overflows arrivals
  whole : request.allBytes.length ≤ (received arrivals).length →
    handle true arrivals = .forwarded (String.ofList request.method) (String.ofList request.path)
      request.body
  part : (received arrivals).length < request.allBytes.length →
    ∀ method path body, handle true arrivals ≠ .forwarded method path body

/-- **Divided well.** If the blank line after the head arrives, then the request has fewer than
`2 ^ 64` bytes, the read that completes the blank line brings nothing from behind the request, and
the rest of the request arrives, or the stream stops with an error. -/
def DividedWell (request : HttpRequest) (arrivals : List Arrival) : Prop :=
  request.bytes.length + 4 ≤ (received arrivals).length →
    request.allBytes.length < 2 ^ 64 ∧
    readUpTo (request.bytes.length + 4) arrivals 0 ≤ request.allBytes.length ∧
    (request.allBytes.length ≤ (received arrivals).length ∨ brokenOff arrivals)

section Forward

variable {request : HttpRequest} {arrivals : List Arrival}

theorem length_allBytes (request : HttpRequest) :
    request.allBytes.length = request.bytes.length + 4 + request.body.length := by
  rw [HttpRequest.allBytes, length_append, length_append, ← Nat.add_assoc]
  rfl

/-- The blank line after the head stands first in what arrives. -/
theorem position_sent (request : HttpRequest) (following : List UInt8) :
    position separator (request.allBytes ++ following) = some request.bytes.length := by
  rw [HttpRequest.allBytes, append_assoc, append_assoc]
  exact request.position_bytes _

theorem buffer_eq {request : HttpRequest} {buf following : List UInt8}
    (starts : buf <+: request.allBytes ++ following)
    (long : request.bytes.length + 4 ≤ buf.length) :
    buf = request.bytes ++ (separator ++ buf.drop (request.bytes.length + 4)) := by
  have head : request.bytes ++ separator <+: request.allBytes ++ following := by
    rw [HttpRequest.allBytes, ← append_assoc, append_assoc]
    exact List.prefix_append _ _
  have length : (request.bytes ++ separator).length = request.bytes.length + 4 :=
    length_append
  obtain ⟨rest, rfl⟩ := List.prefix_of_prefix_length_le head starts (length.le.trans long)
  rw [← length, drop_left, append_assoc]

variable {following : List UInt8} (sent : received arrivals <+: request.allBytes ++ following)

include sent

theorem forwardRequest_of_buffer {buf : List UInt8} (read : readRequest arrivals = some buf)
    (starts : buf <+: received arrivals) (long : request.bytes.length + 4 ≤ buf.length) :
    forwardRequest true arrivals =
      .forwarded (String.ofList request.method) (String.ofList request.path)
        (buf.drop (request.bytes.length + 4)) := by
  rw [forwardRequest, read]
  simp only [Bool.not_true, Bool.false_eq_true, ↓reduceIte]
  have parsed := request.parseHttpRequest_bytes (buf.drop (request.bytes.length + 4))
  rw [← buffer_eq (starts.trans sent) long] at parsed
  rw [parsed]

theorem readHead_of_sent (arrives : request.bytes.length + 4 ≤ (received arrivals).length) :
    ∃ taken rest, readHead arrivals [] = some (request.bytes.length, taken, rest) ∧
      received arrivals = taken ++ received rest ∧ brokenOff rest = brokenOff arrivals ∧
      taken.length = readUpTo (request.bytes.length + 4) arrivals 0 ∧
      request.bytes.length + 4 ≤ taken.length ∧
      contentLength (taken.take request.bytes.length) =
        if request.body.length < 2 ^ 64 then request.body.length else 0 := by
  have found : position separator ([] ++ received arrivals) = some request.bytes.length := by
    rw [nil_append, position_buffer sent (position_sent request following), if_pos arrives]
  obtain ⟨taken, rest, read, split, sameStop, count⟩ := readHead_of_position found
  have long : request.bytes.length + 4 ≤ taken.length := by
    rw [nil_append] at count
    rw [count]
    exact le_readUpTo (arrives.trans (Nat.le_add_left _ _))
  have starts : taken <+: request.allBytes ++ following :=
    List.IsPrefix.trans (split ▸ List.prefix_append _ _) sent
  refine ⟨taken, rest, read, split, sameStop, count, long, ?_⟩
  rw [buffer_eq starts long, take_left]
  exact request.contentLength_bytes request.declared

theorem readRequest_of_sent (arrives : request.bytes.length + 4 ≤ (received arrivals).length)
    (small : request.allBytes.length < 2 ^ 64) :
    readRequest arrivals =
      if request.allBytes.length ≤ readUpTo (request.bytes.length + 4) arrivals 0 then
        some ((received arrivals).take (readUpTo (request.bytes.length + 4) arrivals 0))
      else if request.allBytes.length ≤ (received arrivals).length then
        some ((received arrivals).take request.allBytes.length)
      else if brokenOff arrivals then none
      else some (received arrivals) := by
  obtain ⟨taken, rest, read, split, sameStop, count, long, declared⟩ :=
    readHead_of_sent sent arrives
  have length := length_allBytes request
  rw [if_pos (by omega)] at declared
  have total : (request.bytes.length + 4 + contentLength (taken.take request.bytes.length)) %
      2 ^ 64 = request.allBytes.length := by
    rw [declared, ← length, Nat.mod_eq_of_lt small]
  rw [readRequest, read, Option.bind_some]
  dsimp only
  rw [total, readBody_eq, sameStop, ← split, count, split, ← count, take_left]

/-- A request of `2 ^ 64` bytes or more is not forwarded exactly: the sum overflows, or the length
cannot be read and the body is cut off. -/
theorem small_of_forwardsExactly
    (arrives : request.bytes.length + 4 ≤ (received arrivals).length)
    (exactly : ForwardsExactly forwardRequest request arrivals) :
    request.allBytes.length < 2 ^ 64 := by
  obtain ⟨taken, rest, read, split, _, count, long, declared⟩ := readHead_of_sent sent arrives
  have length := length_allBytes request
  by_contra large
  by_cases short : request.body.length < 2 ^ 64
  · rw [if_pos short] at declared
    refine exactly.fits ⟨_, taken, rest, read, ?_⟩
    rw [declared]
    omega
  · rw [if_neg short] at declared
    have stops : readRequest arrivals = some taken := by
      rw [readRequest, read, Option.bind_some]
      dsimp only
      rw [declared]
      exact readBody_of_complete ((Nat.mod_le _ _).trans long) rest
    have forwarded := forwardRequest_of_buffer sent stops (split ▸ List.prefix_append _ _) long
    rcases Nat.lt_or_ge (received arrivals).length request.allBytes.length with cut | whole
    · exact exactly.part cut _ _ _ forwarded
    · have body := congrArg List.length (ProxyOutcome.forwarded.inj
        ((exactly.whole whole).symm.trans forwarded)).2.2
      have bound := readUpTo_le (request.bytes.length + 4) arrivals 0
      rw [length_drop] at body
      omega

theorem dividedWell_of_forwardsExactly
    (exactly : ForwardsExactly forwardRequest request arrivals) :
    DividedWell request arrivals := by
  intro arrives
  have small := small_of_forwardsExactly sent arrives exactly
  have read := readRequest_of_sent sent arrives small
  have length := length_allBytes request
  have inside := readUpTo_le_received (request.bytes.length + 4) arrivals 0
  have reached : request.bytes.length + 4 ≤ readUpTo (request.bytes.length + 4) arrivals 0 :=
    le_readUpTo (arrives.trans (Nat.le_add_left _ _))
  refine ⟨small, ?_, ?_⟩
  · -- A read that goes beyond the request makes the body too long.
    by_contra far
    rw [if_pos (Nat.le_of_not_le far)] at read
    have taken := length_take_of_le (Nat.zero_add (received arrivals).length ▸ inside)
    have forwarded := forwardRequest_of_buffer sent read (List.take_prefix _ _)
      (reached.trans_eq taken.symm)
    have body := congrArg List.length (ProxyOutcome.forwarded.inj
      ((exactly.whole (by omega)).symm.trans forwarded)).2.2
    rw [length_drop, taken] at body
    omega
  · -- A body that is cut short is forwarded unless the stream stops with an error.
    by_contra neither
    rw [not_or] at neither
    rw [if_neg (by omega), if_neg neither.1, if_neg neither.2] at read
    have forwarded := forwardRequest_of_buffer sent read (List.prefix_refl _) arrives
    exact exactly.part (Nat.lt_of_not_le neither.1) _ _ _ forwarded

theorem forwardsExactly_of_dividedWell (well : DividedWell request arrivals) :
    ForwardsExactly forwardRequest request arrivals := by
  have length := length_allBytes request
  by_cases arrives : request.bytes.length + 4 ≤ (received arrivals).length
  · obtain ⟨small, near, enough⟩ := well arrives
    have read := readRequest_of_sent sent arrives small
    have inside := readUpTo_le_received (request.bytes.length + 4) arrivals 0
    refine ⟨?_, fun whole => ?_, fun cut => ?_⟩
    · rintro ⟨headerEnd, buf, left, found, large⟩
      obtain ⟨taken, rest, readFirst, _, _, _, _, declared⟩ := readHead_of_sent sent arrives
      cases found.symm.trans readFirst
      rw [declared, if_pos (by omega)] at large
      omega
    · have first : request.allBytes = (received arrivals).take request.allBytes.length :=
        List.prefix_iff_eq_take.mp
          (List.prefix_of_prefix_length_le (List.prefix_append _ following) sent whole)
      have all : readRequest arrivals = some request.allBytes := by
        rw [read, ← first, if_pos whole]
        split_ifs with reached
        · rw [le_antisymm near reached, ← first]
        · rfl
      rw [forwardRequest_of_buffer sent all (first ▸ List.take_prefix _ _) (by omega),
        HttpRequest.allBytes, ← drop_drop, drop_left]
      rfl
    · rw [if_neg (by omega), if_neg (Nat.not_le.mpr cut),
        if_pos (enough.resolve_left (Nat.not_le.mpr cut))] at read
      rw [forwardRequest, read]
      nofun
  · have absent : position separator ([] ++ received arrivals) = none := by
      rw [nil_append, position_buffer sent (position_sent request following),
        if_neg arrives]
    have stopped := readHead_of_none absent
    refine ⟨?_, fun whole => absurd whole (by omega), fun _ => ?_⟩
    · rintro ⟨headerEnd, buf, rest, found, _⟩
      cases found.symm.trans stopped
    · rw [forwardRequest, readRequest, stopped]
      nofun

end Forward

/-- **The proxies.** Let the reads of a connection give a part of a request and of what follows it.
Either proxy forwards exactly the request, or nothing if it does not arrive completely, exactly if
the stream is divided well. -/
theorem forwardsExactly_iff (request : HttpRequest) {following : List UInt8}
    {arrivals : List Arrival} (sent : received arrivals <+: request.allBytes ++ following) :
    (ForwardsExactly handleMuxProxyConnection request arrivals ↔ DividedWell request arrivals) ∧
      (ForwardsExactly handleConnection request arrivals ↔ DividedWell request arrivals) :=
  have both : ForwardsExactly forwardRequest request arrivals ↔ DividedWell request arrivals :=
    ⟨dividedWell_of_forwardsExactly sent, forwardsExactly_of_dividedWell sent⟩
  ⟨both, both⟩

/-- A request line and the field for the length. -/
def postHead (digits : List Char) (plain : ∀ character ∈ ['\r', '\n'], character ∉ digits) :
    HttpHead where
  method := "POST".toList
  path := "/v1/chat".toList
  version := "HTTP/1.1".toList
  fields := [("Content-Length".toList, ' ' :: digits)]
  method_clean := by simp
  path_clean := by simp
  version_clean := by simp
  name_clean := by simp
  value_clean := by simpa using plain

def shortRequest : HttpRequest where
  toHttpHead := postHead ['2'] (by simp)
  body := [123, 125]
  declared := ⟨[' '], ['2'], [], rfl, by simp, by simp, by simp, rfl⟩

def wholeRead : Segment where
  bytes := shortRequest.allBytes
  nonempty := by decide +kernel
  short := by decide +kernel

theorem wholeRead_forwardsExactly :
    ForwardsExactly handleMuxProxyConnection shortRequest [.data wholeRead] ∧
      ForwardsExactly handleConnection shortRequest [.data wholeRead] := by
  have sent : received [.data wholeRead] <+: shortRequest.allBytes ++ [] := List.prefix_refl _
  have well : DividedWell shortRequest [.data wholeRead] := fun _ =>
    ⟨by decide +kernel, by decide +kernel, .inl (by decide +kernel)⟩
  exact ⟨(forwardsExactly_iff shortRequest sent).1.mpr well,
    (forwardsExactly_iff shortRequest sent).2.mpr well⟩

/-- One read of the request and the first byte of the next one. -/
def crowdedRead : Segment where
  bytes := shortRequest.allBytes ++ [71]
  nonempty := by decide +kernel
  short := by decide +kernel

/-- A read of the request without its last byte. -/
def cutRead : Segment where
  bytes := shortRequest.allBytes.dropLast
  nonempty := by decide +kernel
  short := by decide +kernel

def hugeRequest : HttpRequest where
  toHttpHead := postHead "18446744073709551615".toList (by simp)
  body := List.replicate 18446744073709551615 0
  declared := by
    refine ⟨[' '], "18446744073709551615".toList, [], rfl, by simp, by simp, by simp, ?_⟩
    rw [length_replicate]
    decide +kernel

def headRead : Segment where
  bytes := hugeRequest.bytes ++ separator
  nonempty := by decide +kernel
  short := by decide +kernel

/-- **Inexact forwarding.** A byte of the next request is forwarded as part of the body; a body that
is cut short is forwarded; a length near `2 ^ 64` overflows. -/
theorem inexact_forwarding :
    handleConnection true [.data crowdedRead] =
        .forwarded "POST" "/v1/chat" [123, 125, 71] ∧
      ¬ ForwardsExactly handleConnection shortRequest [.data crowdedRead] ∧
      handleConnection true [.data cutRead, .eof] = .forwarded "POST" "/v1/chat" [123] ∧
      ¬ ForwardsExactly handleConnection shortRequest [.data cutRead, .eof] ∧
      Overflows [.data headRead, .eof] ∧
      ¬ ForwardsExactly handleConnection hugeRequest [.data headRead, .eof] := by
  have crowded : handleConnection true [.data crowdedRead] =
      .forwarded "POST" "/v1/chat" [123, 125, 71] := by decide +kernel
  have cut : handleConnection true [.data cutRead, .eof] =
      .forwarded "POST" "/v1/chat" [123] := by decide +kernel
  have overflows : Overflows [.data headRead, .eof] := by
    have sent : received [.data headRead, .eof] <+: hugeRequest.allBytes ++ [] := by
      rw [HttpRequest.allBytes, ← append_assoc, append_assoc]
      exact List.prefix_append _ _
    obtain ⟨taken, rest, read, _, _, _, _, declared⟩ :=
      readHead_of_sent sent (by decide +kernel)
    refine ⟨_, taken, rest, read, ?_⟩
    have length : hugeRequest.body.length = 2 ^ 64 - 1 := length_replicate
    rw [declared, length, if_pos (by omega)]
    omega
  refine ⟨crowded, fun exactly => ?_, cut, fun exactly => ?_, overflows, fun exactly => ?_⟩
  · have body := exactly.whole (by decide +kernel)
    rw [crowded] at body
    exact absurd body (by decide +kernel)
  · exact exactly.part (by decide +kernel) _ _ _ cut
  · exact exactly.fits overflows

end KwaaiNet.HttpProxy
