import CgminerT4.Library.TracedArith

/-!
# The size of the next piece of work (hash_sole_work in cgminer.c)

How `max_nonce` follows the time `sdiff` that the last piece took. The widths of
long and time_t are those of the data model; an operation of a uint32_t and a
long is done in their common type. The rest of the loop (statistics, hash meter,
restarts) is left out.
-/
namespace CgminerT4.Source.WorkAdapt
open Library.TracedArith

inductive DataModel where
  | ilp32
  | lp64
  deriving DecidableEq, Repr

/-- The value bits of a long. -/
def DataModel.longValueBits : DataModel → Nat
  | .ilp32 => 31
  | .lp64 => 63

def DataModel.long (dm : DataModel) (n : Int) : Calc Int := signed (dm.longValueBits + 1) n

/-- The common type of uint32_t and long. -/
def DataModel.common : DataModel → Int → Calc Int
  | .ilp32, n => unsigned 32 n
  | .lp64, n => signed 64 n

/-- A struct timeval. -/
structure Timeval where
  sec : Int
  usec : Int
  deriving DecidableEq, Repr

/-- The time of one more scan is added. -/
def Timeval.accumulate (sdiff diff : Timeval) : Timeval :=
  let sdiff := ⟨sdiff.sec + diff.sec, sdiff.usec + diff.usec⟩
  if sdiff.usec > 1000000 then ⟨sdiff.sec + 1, sdiff.usec - 1000000⟩ else sdiff

def cycleOf (optLogInterval : Int) : Int := if optLogInterval / 5 ≠ 0 then optLogInterval / 5 else 1

/-- The int `mult` of the fast case. -/
def multiplier (dm : DataModel) (cycle usec : Int) : Calc Int := do
  let units ← dm.long (usec + 0x400)
  let d ← quotient units 0x400
  let q ← quotient 1000000 d
  let sum ← dm.long (q + 0x10)
  let mult ← signed 32 sum
  let product ← dm.long (mult * cycle)
  signed 32 product

def fastNonce (dm : DataModel) (cycle usec maxNonce : Int) : Calc Int := do
  if maxNonce = 0xffffffff then pure maxNonce
  else
    let mult ← multiplier dm cycle usec
    let threshold ← unsigned 32 (0xffffffff * 0x400)
    let factor ← unsigned 32 mult
    let limit ← quotient threshold factor
    if maxNonce > limit then pure 0xffffffff
    else
      let product ← unsigned 32 (maxNonce * factor)
      quotient product 0x400

def slowNonce (dm : DataModel) (cycle sec maxNonce : Int) : Calc Int := do
  let nonce ← dm.common maxNonce
  let factor ← dm.common cycle
  let product ← dm.common (nonce * factor)
  let divisor ← dm.common sec
  let q ← quotient product divisor
  unsigned 32 q

/-- The divisor of the third case. -/
def ratio (dm : DataModel) (cycle usec : Int) : Calc Int := do
  let period ← dm.long (cycle * 1000000)
  let total ← dm.long (period + usec)
  let unit ← quotient period 0x400
  quotient total unit

def lateNonce (dm : DataModel) (cycle usec maxNonce : Int) : Calc Int := do
  let scaled ← unsigned 32 (maxNonce * 0x400)
  let r ← ratio dm cycle usec
  let numerator ← dm.common scaled
  let divisor ← dm.common r
  let q ← quotient numerator divisor
  unsigned 32 q

def nextMaxNonce (dm : DataModel) (cycle : Int) (sdiff : Timeval) (maxNonce : Int) : Calc Int :=
  if sdiff.sec < cycle then fastNonce dm cycle sdiff.usec maxNonce
  else if sdiff.sec > cycle then slowNonce dm cycle sdiff.sec maxNonce
  else if sdiff.usec > 100000 then lateNonce dm cycle sdiff.usec maxNonce
  else pure maxNonce

end CgminerT4.Source.WorkAdapt
