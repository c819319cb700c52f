import PeerLink.Bytes

/-!
# Hexadecimal text

Bytes are written as pairs of lowercase hexadecimal digits; both cases are
read.
-/

namespace PeerLink
namespace Hex

/-- The lowercase digit of a value below sixteen. -/
def digit (value : Nat) : Char :=
  if value < 10 then Char.ofNat (48 + value) else Char.ofNat (87 + value)

/-- Two lowercase digits for every byte. -/
def encode (bytes : Bytes) : String :=
  String.ofList (bytes.flatMap fun byte => [digit (byte.toNat / 16), digit (byte.toNat % 16)])

/-- The value of the hexadecimal digit that this ASCII code stands for. -/
def value? (code : UInt8) : Option Nat :=
  if 48 ≤ code ∧ code ≤ 57 then some (code.toNat - 48)
  else if 97 ≤ code ∧ code ≤ 102 then some (code.toNat - 87)
  else if 65 ≤ code ∧ code ≤ 70 then some (code.toNat - 55)
  else none

/-- The first code that is no hexadecimal digit, and where it stands. -/
structure BadDigit where
  code : UInt8
  position : Nat
  deriving DecidableEq, Repr

/-- Reads pairs of digits, counting positions from `start`.  A last digit
without a partner is left unread. -/
def decodeFrom (start : Nat) : Bytes → Except BadDigit Bytes
  | high :: low :: rest =>
    match value? high, value? low with
    | none, _ => .error ⟨high, start⟩
    | some _, none => .error ⟨low, start + 1⟩
    | some h, some l =>
      match decodeFrom (start + 2) rest with
      | .error bad => .error bad
      | .ok bytes => .ok (UInt8.ofNat (h * 16 + l) :: bytes)
  | _ => .ok []

/-- The bytes that an even number of hexadecimal digits spell. -/
def decode (digits : Bytes) : Except BadDigit Bytes := decodeFrom 0 digits

theorem length_of_decodeFrom {start : Nat} {digits bytes : Bytes}
    (h : decodeFrom start digits = .ok bytes) : bytes.length = digits.length / 2 := by
  fun_induction decodeFrom start digits generalizing bytes with
  | case1 => cases h
  | case2 => cases h
  | case3 => cases h
  | case4 start high low rest _ _ _ _ _ hrest ih =>
    simp only [Except.ok.injEq] at h
    subst h
    simp only [List.length_cons, ih hrest]
    omega
  | case5 digits start hshort =>
    simp only [Except.ok.injEq] at h
    subst h
    match digits with
    | [] => rfl
    | [_] => simp
    | high :: low :: rest => exact absurd rfl (hshort high low rest)

/-- Every pair of digits gives one byte. -/
theorem length_of_decode {digits bytes : Bytes} (h : decode digits = .ok bytes) :
    bytes.length = digits.length / 2 := length_of_decodeFrom h

end Hex
end PeerLink
