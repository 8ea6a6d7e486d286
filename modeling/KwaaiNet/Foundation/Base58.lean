import Mathlib

/-! # Changing the base of a digit string, and base 58

A big-endian digit string is re-encoded in another base by keeping its leading
zeros as leading zeros and writing the number the remaining digits denote. Doing
so and then going back gives the digits one started with
(`Foundation.Radix.transcode_transcode`), so the encoding is injective. Base 58 is
the case of bytes written with a 58-character alphabet; decoding inverts encoding
(`Foundation.Base58.decode_encode`), and only what would be encoded is decoded
(`Foundation.Base58.encode_of_decode`).
-/

namespace Foundation.Radix

open List

def leadingZeros (digits : List Nat) : Nat := (digits.takeWhile (fun digit => digit = 0)).length

/-- Re-encode a big-endian digit string from one base to another. -/
def transcode (source target : Nat) (digits : List Nat) : List Nat :=
  List.replicate (leadingZeros digits) 0 ++
    (Nat.digits target (Nat.ofDigits source digits.reverse)).reverse

theorem exists_leadingZeros_split (digits : List Nat) :
    ∃ tail, digits = List.replicate (leadingZeros digits) 0 ++ tail ∧
      ∀ nonempty : tail ≠ [], tail.head nonempty ≠ 0 := by
  induction digits with
  | nil => exact ⟨[], rfl, fun nonempty => (nonempty rfl).elim⟩
  | cons digit digits ih =>
    by_cases zero : digit = 0
    · obtain ⟨tail, split, head⟩ := ih
      refine ⟨tail, ?_, head⟩
      have count : leadingZeros (digit :: digits) = leadingZeros digits + 1 := by
        simp only [leadingZeros, takeWhile_cons, zero, decide_true, ↓reduceIte,
          length_cons]
      rw [count, replicate_succ, cons_append, ← split, zero]
    · refine ⟨digit :: digits, ?_, fun _ => zero⟩
      have count : leadingZeros (digit :: digits) = 0 := by
        simp only [leadingZeros, takeWhile_cons, zero, decide_false, Bool.false_eq_true,
          ↓reduceIte, length_nil]
      rw [count, replicate_zero, nil_append]

theorem leadingZeros_replicate_append (count : Nat) (tail : List Nat)
    (head : ∀ nonempty : tail ≠ [], tail.head nonempty ≠ 0) :
    leadingZeros (List.replicate count 0 ++ tail) = count := by
  induction count with
  | zero =>
    cases tail with
    | nil => rfl
    | cons digit tail =>
      have nonzero := head (cons_ne_nil _ _)
      rw [head_cons] at nonzero
      simp only [replicate_zero, nil_append, leadingZeros, takeWhile_cons,
        nonzero, decide_false, Bool.false_eq_true, ↓reduceIte, length_nil]
  | succ count ih =>
    simp only [leadingZeros] at ih
    simp only [leadingZeros, replicate_succ, cons_append, takeWhile_cons,
      decide_true, ↓reduceIte, length_cons, ih]

/-- Leading zeros do not change the number denoted. -/
theorem ofDigits_replicate_append (base count : Nat) (tail : List Nat) :
    Nat.ofDigits base (List.replicate count 0 ++ tail).reverse =
      Nat.ofDigits base tail.reverse := by
  rw [reverse_append, reverse_replicate, Nat.ofDigits_append_replicate_zero]

theorem head_reverse_digits_ne_zero (base number : Nat)
    (nonempty : (Nat.digits base number).reverse ≠ []) :
    (Nat.digits base number).reverse.head nonempty ≠ 0 := by
  have nonzero : number ≠ 0 := by
    rintro rfl
    exact nonempty (by simp)
  rw [head_reverse]
  exact Nat.getLast_digit_ne_zero base nonzero

theorem digits_div_pow {base : Nat} (large : 1 < base) (count number : Nat) :
    Nat.digits base (number / base ^ count) = (Nat.digits base number).drop count := by
  rw [Nat.self_div_pow_eq_ofDigits_drop count number large]
  apply Nat.digits_ofDigits base large
  · intro digit member
    exact Nat.digits_lt_base large (mem_of_mem_drop member)
  · intro nonempty
    rw [getLast_drop]
    refine Nat.getLast_digit_ne_zero base fun zero => nonempty ?_
    rw [zero, Nat.digits_zero, drop_nil]

theorem lt_of_mem_transcode {source target : Nat} (large : 1 < target) (digits : List Nat)
    {digit : Nat} (member : digit ∈ transcode source target digits) : digit < target := by
  rw [transcode, mem_append] at member
  rcases member with zero | written
  · rw [eq_of_mem_replicate zero]
    exact Nat.zero_lt_of_lt large
  · exact Nat.digits_lt_base large (mem_reverse.mp written)

/-- **Transcoding back.** Changing the base twice gives the original digit string. -/
theorem transcode_transcode {source target : Nat} (large : 1 < source) (digits : List Nat)
    (bounded : ∀ digit ∈ digits, digit < source) :
    transcode target source (transcode source target digits) = digits := by
  obtain ⟨tail, split, head⟩ := exists_leadingZeros_split digits
  -- The number denoted is the one the digits after the leading zeros denote.
  have number : Nat.ofDigits source digits.reverse = Nat.ofDigits source tail.reverse := by
    conv_lhs => rw [split]
    exact ofDigits_replicate_append source _ tail
  have zeros : leadingZeros (transcode source target digits) = leadingZeros digits :=
    leadingZeros_replicate_append _ _ (head_reverse_digits_ne_zero target _)
  have value : Nat.ofDigits target (transcode source target digits).reverse =
      Nat.ofDigits source tail.reverse := by
    rw [transcode, ofDigits_replicate_append, reverse_reverse, Nat.ofDigits_digits, number]
  have written : Nat.digits source (Nat.ofDigits source tail.reverse) = tail.reverse := by
    apply Nat.digits_ofDigits source large
    · intro digit member
      apply bounded
      rw [split]
      exact mem_append_right _ (mem_reverse.mp member)
    · intro nonempty
      rw [getLast_reverse]
      exact head _
  rw [transcode, zeros, value, written, reverse_reverse, ← split]

end Foundation.Radix

namespace Foundation.Base58

def alphabet : List Char := "123456789ABCDEFGHJKLMNPQRSTUVWXYZabcdefghijkmnopqrstuvwxyz".toList

def symbol (digit : Nat) : Char := alphabet.getD digit '1'

def value? (character : Char) : Option Nat := alphabet.idxOf? character

theorem value?_symbol {digit : Nat} (bounded : digit < 58) :
    value? (symbol digit) = some digit := by
  have table : ∀ entry < 58, value? (symbol entry) = some entry := by decide
  exact table digit bounded

def encode (bytes : List UInt8) : String :=
  String.ofList ((Radix.transcode 256 58 (bytes.map UInt8.toNat)).map symbol)

/-- Read bytes written in base 58; nothing when a character is outside the alphabet. -/
def decode (text : String) : Option (List UInt8) :=
  (text.toList.mapM value?).map fun digits =>
    (Radix.transcode 58 256 digits).map UInt8.ofNat

theorem mapM_value?_symbol (digits : List Nat) (bounded : ∀ digit ∈ digits, digit < 58) :
    (digits.map symbol).mapM value? = some digits := by
  induction digits with
  | nil => rfl
  | cons digit digits ih =>
    rw [List.map_cons, List.mapM_cons, value?_symbol (bounded digit List.mem_cons_self),
      ih fun other member => bounded other (List.mem_cons_of_mem _ member)]
    rfl

/-- **Base 58 round trip.** -/
theorem decode_encode (bytes : List UInt8) : decode (encode bytes) = some bytes := by
  have digits : ∀ digit ∈ Radix.transcode 256 58 (bytes.map UInt8.toNat), digit < 58 :=
    fun digit member => Radix.lt_of_mem_transcode (by decide) _ member
  have back : Radix.transcode 58 256 (Radix.transcode 256 58 (bytes.map UInt8.toNat)) =
      bytes.map UInt8.toNat := by
    apply Radix.transcode_transcode (by decide)
    intro digit member
    obtain ⟨byte, _, rfl⟩ := List.mem_map.mp member
    exact byte.toNat_lt
  rw [decode, encode, String.toList_ofList, mapM_value?_symbol _ digits, Option.map_some, back,
    List.map_map]
  congr 1
  conv_rhs => rw [← List.map_id bytes]
  apply List.map_congr_left
  intro byte _
  exact UInt8.ofNat_toNat

theorem encode_injective : Function.Injective encode := by
  intro first second same
  have decoded := congrArg decode same
  rw [decode_encode, decode_encode] at decoded
  exact Option.some.inj decoded

theorem symbol_of_value? {character : Char} {digit : Nat} (read : value? character = some digit) :
    digit < 58 ∧ symbol digit = character := by
  obtain ⟨within, found, _⟩ := List.idxOf?_eq_some_iff.mp read
  exact ⟨within, (List.getD_eq_getElem _ _ within).trans found⟩

theorem map_symbol_of_mapM_value? {text : List Char} {digits : List Nat}
    (read : text.mapM value? = some digits) :
    (∀ digit ∈ digits, digit < 58) ∧ digits.map symbol = text := by
  induction text generalizing digits with
  | nil =>
    obtain rfl : digits = [] := (Option.some.inj read).symm
    exact ⟨fun _ member => absurd member List.not_mem_nil, rfl⟩
  | cons character text ih =>
    rw [List.mapM_cons] at read
    obtain ⟨digit, first, rest⟩ := Option.bind_eq_some_iff.mp read
    obtain ⟨others, later, whole⟩ := Option.bind_eq_some_iff.mp rest
    obtain rfl : digit :: others = digits := Option.some.inj whole
    obtain ⟨small, written⟩ := symbol_of_value? first
    obtain ⟨bounded, same⟩ := ih later
    refine ⟨List.forall_mem_cons.mpr ⟨small, bounded⟩, ?_⟩
    rw [List.map_cons, written, same]

theorem encode_of_decode {text : String} {bytes : List UInt8} (decoded : decode text = some bytes) :
    encode bytes = text := by
  obtain ⟨digits, read, rfl⟩ := Option.map_eq_some_iff.mp decoded
  obtain ⟨bounded, written⟩ := map_symbol_of_mapM_value? read
  have bytes : ((Radix.transcode 58 256 digits).map UInt8.ofNat).map UInt8.toNat =
      Radix.transcode 58 256 digits := by
    rw [List.map_map]
    conv_rhs => rw [← List.map_id (Radix.transcode 58 256 digits)]
    refine List.map_congr_left fun digit member => ?_
    exact UInt8.toNat_ofNat_of_lt (Radix.lt_of_mem_transcode (by decide) _ member)
  rw [encode, bytes, Radix.transcode_transcode (by decide) digits bounded, written,
    String.ofList_toList]

theorem mem_alphabet_of_mem_encode {bytes : List UInt8} {character : Char}
    (member : character ∈ (encode bytes).toList) : character ∈ alphabet := by
  rw [encode, String.toList_ofList] at member
  obtain ⟨digit, written, rfl⟩ := List.mem_map.mp member
  have table : ∀ entry < 58, symbol entry ∈ alphabet := by decide
  exact table digit (Radix.lt_of_mem_transcode (by decide) _ written)

end Foundation.Base58
