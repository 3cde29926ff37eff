import CgminerT4.Library.ByteString

/-!
# Obfuscated lines of the getwork protocol (getwork.c, util.c)

gen_getwork_sendata writes a two byte mark, the complemented length times 29 in
two bytes and the complemented message; gen_getwork_revdata undoes it. Both ends
delimit the frame as a C string, although header bytes may be zero. `char` is
unsigned, as on the ARM boards. The receiver recomputes the length but never
uses it.
-/
namespace CgminerT4.Source.GetworkTransport
open Library.ByteString

/-- The two header bytes derived from `strlen(in)`; `int` arithmetic. -/
def lengthField (length : Nat) : Bytes :=
  let len : Int := ~~~((length : Int) * 29)
  [UInt8.ofInt (len >>> (8 : Nat)), UInt8.ofInt len]

/-- The bytes written to `out` for a NUL-free message. -/
def genGetworkSendata (input : Bytes) : Bytes :=
  [0xFE, 0x7C] ++ lengthField input.length ++ input.map (~~~ ·)

/-- The return value and the bytes written to `out`. -/
def genGetworkRevdata (input : Bytes) : Int × Bytes :=
  match input with
  | first :: second :: _ :: _ :: pstr =>
    if first ≠ 0xFE ∨ second ≠ 0x7C then (-1, [])
    else (1, (cString pstr).map (~~~ ·))
  | _ => (-1, [])

/-- What stratum_send passes to __stratum_send: the bytes strlen counts in the
zeroed `s_send_str`. None when the frame or strlen leaves the array. -/
def stratumSend (s : Bytes) : Option Bytes :=
  ((Buffer.zero 2048).store 0 (genGetworkSendata s)).bind fun sendStr =>
    if 0 ∈ sendStr.bytes then some (cString sendStr.bytes) else none

/-- The receive buffer of recv_line: zeroed, then filled from the socket. -/
def receiveBuffer (wire : Bytes) : Bytes := overwrite (List.replicate 8192 0) 0 wire

/-- The length bytes as complemented remainders of the scaled length. -/
theorem lengthField_eq (length : Nat) : lengthField length =
    [UInt8.ofNat (255 - length * 29 / 256 % 256), UInt8.ofNat (255 - length * 29 % 256)] := by
  have complement : ~~~((length : Int) * 29) = -((length * 29 : Nat) : Int) - 1 := by
    have scaled : (length : Int) * 29 = ((length * 29 : Nat) : Int) := by simp
    rw [scaled]
    change Int.negSucc (length * 29) = _
    rw [Int.negSucc_eq]
    omega
  have shifted : (-((length * 29 : Nat) : Int) - 1) / ((2 ^ 8 : Nat) : Int) =
      -((length * 29 / 256 : Nat) : Int) - 1 := by omega
  have low : ∀ n : Nat, (-(n : Int) - 1) % 2 ^ 8 = ((255 - n % 256 : Nat) : Int) := by omega
  simp only [lengthField, complement, Int.shiftRight_eq_div_pow, shifted, UInt8.ofInt, low,
    Int.toNat_natCast]

theorem length_genGetworkSendata (s : Bytes) : (genGetworkSendata s).length = s.length + 4 := by
  simp [genGetworkSendata, lengthField]

end CgminerT4.Source.GetworkTransport
