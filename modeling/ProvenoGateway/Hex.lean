/-
ProvenoGateway/Hex.lean

Byte strings of a fixed length and their hexadecimal text, as a library of
its own.  `encode` writes lowercase digits; `decodeToSlice` reads either case
and wants exactly the expected number of bytes.
-/
import Mathlib.Data.List.Basic

-- Mathlib as a whole brings a second instance; the core one is meant here.
instance (priority := 2000) decidableEqBytes : DecidableEq ByteArray := ByteArray.instDecidableEq

namespace Hex

/-- Byte strings of length `n`. -/
abbrev Bytes (n : Nat) : Type := { l : List UInt8 // l.length = n }

/-! ### Digits -/

/-- The lowercase hexadecimal digit of `n < 16`. -/
def digit (n : Nat) : Char :=
  if n < 10 then Char.ofNat (48 + n) else Char.ofNat (87 + n)

/-- The value of a hexadecimal digit of either case. -/
def val (c : Char) : Option Nat :=
  if '0' ≤ c ∧ c ≤ '9' then some (c.toNat - 48)
  else if 'a' ≤ c ∧ c ≤ 'f' then some (c.toNat - 87)
  else if 'A' ≤ c ∧ c ≤ 'F' then some (c.toNat - 55)
  else none

theorem val_digit : ∀ n, n < 16 → val (digit n) = some n := by decide

/-! ### Byte strings -/

def encodeChars : List UInt8 → List Char
  | [] => []
  | b :: bs => digit (b.toNat / 16) :: digit (b.toNat % 16) :: encodeChars bs

/-- `hex::encode`. -/
def encode (bs : List UInt8) : String := String.ofList (encodeChars bs)

def decodeChars : List Char → Option (List UInt8)
  | [] => some []
  | [_] => none
  | hi :: lo :: rest => do
      let hi ← val hi
      let lo ← val lo
      let bs ← decodeChars rest
      some (UInt8.ofNat (hi * 16 + lo) :: bs)

/-- `hex::decode_to_slice` into a slice of `n` bytes. -/
def decodeToSlice (n : Nat) (s : String) : Option (Bytes n) :=
  match decodeChars s.toList with
  | some bs => if h : bs.length = n then some ⟨bs, h⟩ else none
  | none => none

theorem decodeChars_encodeChars (bs : List UInt8) : decodeChars (encodeChars bs) = some bs := by
  induction bs with
  | nil => rfl
  | cons b bs ih =>
    have hlt := b.toNat_lt
    have hb : b.toNat / 16 * 16 + b.toNat % 16 = b.toNat := by omega
    simp only [encodeChars, decodeChars, val_digit (b.toNat / 16) (by omega),
      val_digit (b.toNat % 16) (by omega), ih, Option.bind_eq_bind, Option.bind_some, hb,
      UInt8.ofNat_toNat]

/-- Reading back what was written. -/
theorem decodeToSlice_encode {n : Nat} (bs : Bytes n) :
    decodeToSlice n (encode bs.val) = some bs := by
  simp only [decodeToSlice, encode, String.toList_ofList, decodeChars_encodeChars]
  rw [dif_pos bs.property]

/-- The text determines the bytes. -/
theorem encode_injective {as bs : List UInt8} (h : encode as = encode bs) : as = bs := by
  have hc : encodeChars as = encodeChars bs := String.ofList_inj.mp h
  have hd := congrArg decodeChars hc
  rw [decodeChars_encodeChars, decodeChars_encodeChars] at hd
  exact Option.some.inj hd

end Hex
