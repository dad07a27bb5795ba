/-
Two text encodings of bytes: a library with the standard definitions of hex and
of padded base64, and their round trips.

Both decoders are strict: hex takes either case but only whole bytes, base64
takes only canonical padding with zero spare bits.
-/
import Mathlib.Data.List.Basic

set_option autoImplicit false

namespace Encodings

/-- A number that is a byte's is that byte. -/
theorem ofNat_eq (a : UInt8) {n : ℕ} (h : n = a.toNat) : UInt8.ofNat n = a := by
  rw [h, UInt8.ofNat_toNat]

/-! ## Hex -/

namespace Hex

def alphabet : List Char := "0123456789abcdef".toList

def digit (n : ℕ) : Char := alphabet.getD n '0'

/-- The value of a digit of either case. -/
def value (c : Char) : Option ℕ := alphabet.idxOf? c.toLower

def encode : List UInt8 → List Char
  | [] => []
  | b :: bs => digit (b.toNat / 16) :: digit (b.toNat % 16) :: encode bs

def decode : List Char → Option (List UInt8)
  | [] => some []
  | [_] => none
  | hi :: lo :: cs =>
    match value hi, value lo, decode cs with
    | some h, some l, some bs => some (UInt8.ofNat (16 * h + l) :: bs)
    | _, _, _ => none

theorem value_digit {n : ℕ} (h : n < 16) : value (digit n) = some n := by
  have hall : ∀ i : Fin 16, value (digit i) = some i.val := by decide
  exact hall ⟨n, h⟩

theorem decode_encode (bs : List UInt8) : decode (encode bs) = some bs := by
  induction bs with
  | nil => rfl
  | cons b bs ih =>
      have hb : b.toNat < 256 := b.toNat_lt
      have hhi := value_digit (n := b.toNat / 16) (by omega)
      have hlo := value_digit (n := b.toNat % 16) (by omega)
      simp only [encode, decode, hhi, hlo, ih]
      rw [ofNat_eq b (by omega)]

end Hex

/-! ## Base64 -/

namespace Base64

def alphabet : List Char :=
  "ABCDEFGHIJKLMNOPQRSTUVWXYZabcdefghijklmnopqrstuvwxyz0123456789+/".toList

def digit (n : ℕ) : Char := alphabet.getD n 'A'

def value (c : Char) : Option ℕ := alphabet.idxOf? c

/-- Three bytes to four digits; one or two bytes left over are padded. -/
def encode : List UInt8 → List Char
  | [] => []
  | [a] => [digit (a.toNat / 4), digit (a.toNat % 4 * 16), '=', '=']
  | [a, b] =>
    [digit (a.toNat / 4), digit (a.toNat % 4 * 16 + b.toNat / 16), digit (b.toNat % 16 * 4), '=']
  | a :: b :: c :: bs =>
    digit (a.toNat / 4) :: digit (a.toNat % 4 * 16 + b.toNat / 16) ::
      digit (b.toNat % 16 * 4 + c.toNat / 64) :: digit (c.toNat % 64) :: encode bs

def decode : List Char → Option (List UInt8)
  | [] => some []
  | w :: x :: y :: z :: cs =>
    match value w, value x, value y, value z with
    | some p, some q, some r, some s =>
      (decode cs).map fun bs => UInt8.ofNat (p * 4 + q / 16) ::
        UInt8.ofNat (q % 16 * 16 + r / 4) :: UInt8.ofNat (r % 4 * 64 + s) :: bs
    | some p, some q, some r, none =>
      if z = '=' ∧ cs = [] ∧ r % 4 = 0 then
        some [UInt8.ofNat (p * 4 + q / 16), UInt8.ofNat (q % 16 * 16 + r / 4)]
      else none
    | some p, some q, none, none =>
      if y = '=' ∧ z = '=' ∧ cs = [] ∧ q % 16 = 0 then some [UInt8.ofNat (p * 4 + q / 16)]
      else none
    | _, _, _, _ => none
  | _ => none

theorem value_digit {n : ℕ} (h : n < 64) : value (digit n) = some n := by
  have hall : ∀ i : Fin 64, value (digit i) = some i.val := by decide +kernel
  exact hall ⟨n, h⟩

theorem value_pad : value '=' = none := by decide

/-- By the recursion of `encode`: a whole group, or one of the padded ends. -/
theorem decode_encode (bs : List UInt8) : decode (encode bs) = some bs := by
  induction bs using encode.induct with
  | case1 => rfl
  | case2 a =>
      have ha : a.toNat < 256 := a.toNat_lt
      have h1 := value_digit (n := a.toNat / 4) (by omega)
      have h2 := value_digit (n := a.toNat % 4 * 16) (by omega)
      simp only [encode, decode, h1, h2, value_pad]
      rw [if_pos ⟨trivial, trivial, trivial, by omega⟩, ofNat_eq a (by omega)]
  | case3 a b =>
      have ha : a.toNat < 256 := a.toNat_lt
      have hb : b.toNat < 256 := b.toNat_lt
      have h1 := value_digit (n := a.toNat / 4) (by omega)
      have h2 := value_digit (n := a.toNat % 4 * 16 + b.toNat / 16) (by omega)
      have h3 := value_digit (n := b.toNat % 16 * 4) (by omega)
      simp only [encode, decode, h1, h2, h3, value_pad]
      rw [if_pos ⟨trivial, trivial, by omega⟩, ofNat_eq a (by omega), ofNat_eq b (by omega)]
  | case4 a b c bs ih =>
      have ha : a.toNat < 256 := a.toNat_lt
      have hb : b.toNat < 256 := b.toNat_lt
      have hc : c.toNat < 256 := c.toNat_lt
      have h1 := value_digit (n := a.toNat / 4) (by omega)
      have h2 := value_digit (n := a.toNat % 4 * 16 + b.toNat / 16) (by omega)
      have h3 := value_digit (n := b.toNat % 16 * 4 + c.toNat / 64) (by omega)
      have h4 := value_digit (n := c.toNat % 64) (by omega)
      simp only [encode, decode, h1, h2, h3, h4, ih, Option.map_some]
      rw [ofNat_eq a (by omega), ofNat_eq b (by omega), ofNat_eq c (by omega)]

end Base64

end Encodings
