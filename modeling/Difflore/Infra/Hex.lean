import Difflore.SessionMine.Candidate
import Mathlib.Tactic.IntervalCases

/-! # Hexadecimal keys

A key of 32 bytes is written with two lower-case digits for each byte. Reading takes two bytes
of the text at a time; a slice that would cut a character in two panics.
-/

namespace Difflore.Infra

open Foundation SessionMine

structure Bytes32 where
  bytes : List UInt8
  length_bytes : bytes.length = 32
  deriving DecidableEq

inductive HexError
  | invalid
  | panics
  deriving DecidableEq

def toHex (bytes : List UInt8) : Text := bytes.flatMap hexByte

def hexValue (c : Char) : Option Nat :=
  let code := c.toNat
  if 0x30 ≤ code && code ≤ 0x39 then some (code - 0x30)
  else if 0x61 ≤ code && code ≤ 0x66 then some (code - 0x61 + 10)
  else if 0x41 ≤ code && code ≤ 0x46 then some (code - 0x41 + 10)
  else none

/-- `u8::from_str_radix(_, 16)` on two characters; a leading `+` is a sign. -/
def fromStrRadix (high low : Char) : Except HexError UInt8 :=
  let value := if high = '+' then hexValue low
    else (hexValue high).bind fun highValue => (hexValue low).map (16 * highValue + ·)
  match value with
  | some value => .ok (UInt8.ofNat value)
  | none => .error .invalid

def fromHexPairs : Text → Except HexError (List UInt8)
  | [] => .ok []
  | c :: rest =>
    if c.utf8Size = 2 then .error .invalid
    else if c.utf8Size = 1 then
      match rest with
      | [] => .error .panics
      | d :: rest =>
        if d.utf8Size = 1 then
          match fromStrRadix c d with
          | .ok byte => (fromHexPairs rest).map (byte :: ·)
          | .error e => .error e
        else .error .panics
    else .error .panics

def byteLength (text : Text) : Nat := (text.map Char.utf8Size).sum

def fromHex (hex : Text) : Except HexError (List UInt8) :=
  if byteLength hex % 2 = 0 then fromHexPairs hex else .error .invalid

def parse32ByteHex (hex : Text) : Except HexError Bytes32 :=
  match fromHex hex with
  | .error e => .error e
  | .ok bytes => if hlength : bytes.length = 32 then .ok ⟨bytes, hlength⟩ else .error .invalid

theorem hexDigit_spec {n : Nat} (hn : n < 16) : hexValue (hexDigit n) = some n ∧
    (hexDigit n).utf8Size = 1 ∧ hexDigit n ≠ '+' ∧ (hexDigit n).isUpper = false := by
  interval_cases n <;> decide

theorem fromStrRadix_hexDigits (byte : UInt8) :
    fromStrRadix (hexDigit (byte.toNat / 16)) (hexDigit (byte.toNat % 16)) = .ok byte := by
  have hbyte := byte.toNat_lt
  have hhigh := hexDigit_spec (show byte.toNat / 16 < 16 by omega)
  have hlow := hexDigit_spec (show byte.toNat % 16 < 16 by omega)
  unfold fromStrRadix
  rw [if_neg hhigh.2.2.1, hhigh.1, hlow.1]
  simp only [Option.bind_some, Option.map_some]
  rw [Nat.div_add_mod, UInt8.ofNat_toNat]

theorem fromHexPairs_toHex (bytes : List UInt8) : fromHexPairs (toHex bytes) = .ok bytes := by
  induction bytes with
  | nil => rfl
  | cons byte rest ih =>
    have hbyte := byte.toNat_lt
    have hhigh := hexDigit_spec (show byte.toNat / 16 < 16 by omega)
    have hlow := hexDigit_spec (show byte.toNat % 16 < 16 by omega)
    have hcons : toHex (byte :: rest) = hexDigit (byte.toNat / 16) ::
      hexDigit (byte.toNat % 16) :: toHex rest := rfl
    rw [hcons, fromHexPairs, if_neg (by rw [hhigh.2.1]; decide), if_pos hhigh.2.1,
      if_pos hlow.2.1, fromStrRadix_hexDigits, ih]
    rfl

theorem byteLength_toHex (bytes : List UInt8) : byteLength (toHex bytes) = 2 * bytes.length := by
  induction bytes with
  | nil => rfl
  | cons byte rest ih =>
    have hbyte := byte.toNat_lt
    have hhigh := hexDigit_spec (show byte.toNat / 16 < 16 by omega)
    have hlow := hexDigit_spec (show byte.toNat % 16 < 16 by omega)
    have hcons : byteLength (toHex (byte :: rest)) = (hexDigit (byte.toNat / 16)).utf8Size +
      ((hexDigit (byte.toNat % 16)).utf8Size + byteLength (toHex rest)) := rfl
    rw [hcons, hhigh.2.1, hlow.2.1, ih, List.length_cons]
    omega

theorem parse32ByteHex_toHex (key : Bytes32) : parse32ByteHex (toHex key.bytes) = .ok key := by
  have heven : byteLength (toHex key.bytes) % 2 = 0 := by
    rw [byteLength_toHex]
    omega
  unfold parse32ByteHex fromHex
  rw [if_pos heven, fromHexPairs_toHex]
  dsimp only
  rw [dif_pos key.length_bytes]

end Difflore.Infra
