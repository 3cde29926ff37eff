import CgminerT4.Source.GbtTemplate

/-!
# Block templates: writes (cgminer.c)

What gbt_decode and gbt_solo_decode write to the coinbase, `scriptsig_base`,
`witness_str`, `merklebin` and `header`, in order and whether it fits or not.
The lengths are the ints that are computed for the copies. A pointer behind the
end of its string reads nothing here.
-/
namespace CgminerT4.Source.TemplateWrites
open Library.ByteString Jansson Hex GbtMerkle GbtWitness GbtTemplate

/-- A copy of `len` bytes to an offset of a buffer with `size` bytes, and how
many bytes it stores. -/
structure Write where
  size : Nat
  ofs : Int
  len : Int
  written : Nat
  deriving DecidableEq

def Write.Inside (w : Write) : Prop := 0 ≤ w.len ∧ 0 ≤ w.ofs ∧ w.ofs + w.written ≤ w.size

instance (w : Write) : Decidable w.Inside := inferInstanceAs (Decidable (_ ∧ _ ∧ _))

/-- A copy that stores all its bytes. -/
def copy (size : Nat) (ofs : Int) (n : Nat) : Write := ⟨size, ofs, n, n⟩

/-- hex2bin, which takes its length as a size_t. -/
def decode (size : Nat) (ofs : Int) (hexstr : Bytes) (len : Int) : Write :=
  ⟨size, ofs, len, (hex2bin hexstr (UInt64.ofInt len).toNat).1.length⟩

/-- `strlen(s) / 2` as an int. -/
def halfLen (s : Bytes) : Int := toInt (s.length / 2 : Nat)

/-! ## gbt_merkle_bins -/

/-- The `while` loop. -/
def branchWrites (binleft merkles : Nat) : List Write :=
  if binleft ≤ 1 then []
  else copy (16 * 32) (merkles * 32 : Nat) 32 :: branchWrites ((binleft + 1) / 2) (merkles + 1)
termination_by binleft

/-- It is not reached when data or a valid id is missing. -/
def merkleWrites (txns : List Json) : List Write :=
  if txns.all fun txn => (transactionData txn).isSome && (storedTxid txn).isSome then
    branchWrites (txns.length + 1) 0
  else []

/-! ## gbt_decode -/

def origLen (coinbasetxn : Bytes) : Nat := ((hex2bin coinbasetxn 42).1.getD 41 0).toNat

def coinbasetxnWrites (coinbasetxn : Bytes) : List Write :=
  let cbtLen := halfLen coinbasetxn
  let size := (cbtLen + 9).toNat * alignLen 1
  let extraLen := UInt8.ofNat (origLen coinbasetxn + 8)
  [decode size 0 coinbasetxn 42,
    decode size 42 (coinbasetxn.drop 84) (origLen coinbasetxn),
    copy size 41 1,
    decode size (42 + extraLen.toNat) (coinbasetxn.drop (84 + 2 * origLen coinbasetxn))
      (cbtLen - origLen coinbasetxn - 42)]

/-- None when `coinbase_len + 1` leaves the range of int. When it is negative the
allocation fails, and the process exits. -/
def gbtDecodeWrites (t : GbtFields) (txns : List Json) : Option (List Write) :=
  if 2 ^ 31 ≤ halfLen t.coinbasetxn + 9 then none
  else if halfLen t.coinbasetxn + 9 < 0 then some []
  else some (coinbasetxnWrites t.coinbasetxn ++ merkleWrites txns)

/-! ## gbt_solo_decode -/

/-- __bin2hex of the witness data, with its terminator. -/
def witnessStrWrites (insertWitness : Bool) : List Write :=
  if insertWitness then [copy 72 0 (2 * witnessdataSize + 1)] else []

/-- `len` of the signature, at most 32. -/
def sigLen (sig : Bytes) : Int := min (toInt sig.length) 32

/-- Where the extranonce starts. -/
def extranonceStart (t : SoloFields) : Int := flagsOfs t + halfLen t.flags + 21

/-- `ofs` at the end. -/
def scriptEnd (t : SoloFields) (optBtcSig : Option Bytes) : Int :=
  match optBtcSig with
  | none => extranonceStart t + 8 + 1
  | some sig => extranonceStart t + 8 + 1 + sigLen sig + 1

def scriptsigWrites (t : SoloFields) (optBtcSig : Option Bytes) : List Write :=
  [copy 100 0 42, copy 100 1 5, copy 100 (flagsOfs t - 1) 1,
    decode 100 (flagsOfs t) t.flags (halfLen t.flags),
    copy 100 (flagsOfs t + halfLen t.flags) 21] ++
    (optBtcSig.toList.flatMap fun sig =>
      [copy 100 (extranonceStart t + 8) 1,
        ⟨100, extranonceStart t + 8 + 1, sigLen sig, (UInt64.ofInt (sigLen sig)).toNat⟩]) ++
    [copy 100 0 1]

/-- The new coinbase; `ofs` is the length of the script. -/
def soloCoinbaseWrites (insertWitness : Bool) (ofs : Int) : List Write :=
  let len :=
    41 + ofs + 4 + 1 + 8 + 1 + 25 + 4 + if insertWitness then 8 + 1 + 2 + witnessdataSize else 0
  let size := len.toNat * alignLen 1
  [⟨size, 41, ofs, (UInt64.ofInt ofs).toNat⟩, copy size (41 + ofs) 4, copy size (41 + ofs + 4) 1,
    copy size (41 + ofs + 4 + 1) 8] ++
    if insertWitness then
      [copy size (41 + ofs + 4 + 1 + 8 + 1 + 25) (8 + 1 + 2 + witnessdataSize)] else []

/-- snprintf of at most 257 bytes. -/
def headerWrites (header : Bytes) : List Write := [⟨260, 0, 257, min header.length 256 + 1⟩]

variable (genHash : Bytes → Digest) (diffFromTarget : Buffer 32 → Double)

/-- It returns early when the witness data cannot be calculated or is another one. -/
def soloDecodeWrites (pool : TemplatePool) (t : SoloFields) (hashSwap : Buffer 32)
    (optBtcSig : Option Bytes) :
    List Write :=
  let zeros := List.replicate witnessdataSize 0
  merkleWrites (arrayItems t.transactionArr) ++
    if t.insertWitness && !(gbtWitnessData genHash t.transactionArr zeros witnessdataSize).1 then []
    else
      witnessStrWrites t.insertWitness ++
        match checkWitness genHash t with
        | .undefined | .rejected => []
        | .data _ =>
          scriptsigWrites t optBtcSig ++
            soloCoinbaseWrites t.insertWitness (scriptEnd t optBtcSig) ++
            headerWrites (soloHeader (storeSolo diffFromTarget pool t hashSwap))

end CgminerT4.Source.TemplateWrites
