import Mathlib

/-! # Base 64 with the URL-safe alphabet and no padding

Three bytes are four digits; one or two bytes that remain are two or three digits whose unused
low bits are zero, and the reader refuses any others. Written bytes are read back
(`Foundation.Base64.decode_encode`).
-/

namespace Foundation.Base64

/-- The digits in the order of their values. -/
def alphabet : List Char :=
  "ABCDEFGHIJKLMNOPQRSTUVWXYZabcdefghijklmnopqrstuvwxyz0123456789-_".toList

def digit (value : Nat) : Char := alphabet.getD value 'A'

def value? (character : Char) : Option Nat := alphabet.idxOf? character

theorem value?_digit : ∀ value < 64, value? (digit value) = some value := by decide

def encodeChars : List UInt8 → List Char
  | a :: b :: c :: rest =>
    digit (a.toNat / 4) :: digit (a.toNat % 4 * 16 + b.toNat / 16) ::
      digit (b.toNat % 16 * 4 + c.toNat / 64) :: digit (c.toNat % 64) :: encodeChars rest
  | [a, b] =>
    [digit (a.toNat / 4), digit (a.toNat % 4 * 16 + b.toNat / 16), digit (b.toNat % 16 * 4)]
  | [a] => [digit (a.toNat / 4), digit (a.toNat % 4 * 16)]
  | [] => []

def decodeChars : List Char → Option (List UInt8)
  | w :: x :: y :: z :: rest => do
      let w ← value? w
      let x ← value? x
      let y ← value? y
      let z ← value? z
      let bytes ← decodeChars rest
      return UInt8.ofNat (w * 4 + x / 16) :: UInt8.ofNat (x % 16 * 16 + y / 4) ::
        UInt8.ofNat (y % 4 * 64 + z) :: bytes
  | [w, x, y] => do
      let w ← value? w
      let x ← value? x
      let y ← value? y
      if y % 4 = 0 then
        return [UInt8.ofNat (w * 4 + x / 16), UInt8.ofNat (x % 16 * 16 + y / 4)]
      else none
  | [w, x] => do
      let w ← value? w
      let x ← value? x
      if x % 16 = 0 then return [UInt8.ofNat (w * 4 + x / 16)] else none
  | [_] => none
  | [] => some []

def encode (bytes : List UInt8) : String := String.ofList (encodeChars bytes)

def decode (text : String) : Option (List UInt8) := decodeChars text.toList

theorem ofNat_eq {byte : UInt8} {value : Nat} (same : value = byte.toNat) :
    UInt8.ofNat value = byte := by
  rw [same, UInt8.ofNat_toNat]

theorem decodeChars_encodeChars (bytes : List UInt8) :
    decodeChars (encodeChars bytes) = some bytes := by
  induction bytes using encodeChars.induct with
  | case1 a b c rest ih =>
    have hw := a.toNat_lt
    have hx := b.toNat_lt
    have hy := c.toNat_lt
    rw [encodeChars, decodeChars, value?_digit _ (by omega), value?_digit _ (by omega),
      value?_digit _ (by omega), value?_digit _ (by omega), ih]
    have first : UInt8.ofNat (a.toNat / 4 * 4 + (a.toNat % 4 * 16 + b.toNat / 16) / 16) = a :=
      ofNat_eq (by omega)
    have second : UInt8.ofNat ((a.toNat % 4 * 16 + b.toNat / 16) % 16 * 16 +
        (b.toNat % 16 * 4 + c.toNat / 64) / 4) = b :=
      ofNat_eq (by omega)
    have third : UInt8.ofNat ((b.toNat % 16 * 4 + c.toNat / 64) % 4 * 64 + c.toNat % 64) = c :=
      ofNat_eq (by omega)
    simp only [Option.bind_eq_bind, Option.bind_some, Option.pure_def, first, second, third]
  | case2 a b =>
    have hw := a.toNat_lt
    have hx := b.toNat_lt
    rw [encodeChars, decodeChars, value?_digit _ (by omega), value?_digit _ (by omega),
      value?_digit _ (by omega)]
    have first : UInt8.ofNat (a.toNat / 4 * 4 + (a.toNat % 4 * 16 + b.toNat / 16) / 16) = a :=
      ofNat_eq (by omega)
    have second : UInt8.ofNat ((a.toNat % 4 * 16 + b.toNat / 16) % 16 * 16 +
        b.toNat % 16 * 4 / 4) = b :=
      ofNat_eq (by omega)
    have spare : b.toNat % 16 * 4 % 4 = 0 := Nat.mul_mod_left _ _
    simp only [Option.bind_eq_bind, Option.bind_some, Option.pure_def, first, second, spare,
      if_true]
  | case3 a =>
    have hw := a.toNat_lt
    rw [encodeChars, decodeChars, value?_digit _ (by omega), value?_digit _ (by omega)]
    have first : UInt8.ofNat (a.toNat / 4 * 4 + a.toNat % 4 * 16 / 16) = a :=
      ofNat_eq (by omega)
    have spare : a.toNat % 4 * 16 % 16 = 0 := Nat.mul_mod_left _ _
    simp only [Option.bind_eq_bind, Option.bind_some, Option.pure_def, first, spare, if_true]
  | case4 => rfl

/-- **Written bytes are read back.** -/
theorem decode_encode (bytes : List UInt8) : decode (encode bytes) = some bytes := by
  rw [decode, encode, String.toList_ofList, decodeChars_encodeChars]

end Foundation.Base64
