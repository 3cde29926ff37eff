import CgminerT4.Library.ByteString
import CgminerT4.Library.SignedInt

/-!
# Checking the chips of a chain (t4_common.c, driver-SPI-bitmine-t4.c)

The counters of cores and the functions that read the registers of the chips,
count their cores and disable them. Each loop over the active chips touches the
chip in hand and the totals only. The answers of the hardware and of the clock
are part of the inputs; the millisecond clock is an int, and adding a period to
it must not overflow. A chain that is not detected again ends the process.
`g_ctype`, the log and the power commands are left out, and so is the value of
check_chip, which no caller uses.
-/
namespace CgminerT4.Source.ChipHealth
open Library.ByteString Library.SignedInt

def brokenChipThreshold : Nat := 4
def asicChipNum : Nat := 80
def cooldownMs : Int := 30 * 1000
def checkCoresMs : Int := 10 * 60 * 1000
def disableChipFailThreshold : Nat := 3
def lestCoreBin1Chain : Int := 300
def lestCoreBin2Chain : Int := 260
def chainResetTestNum : Nat := 6

abbrev Register := Buffer 12

structure Chip where
  numCores : Nat
  cooldownBegin : CInt
  failCount : Nat
  failReset : Nat
  disabled : Bool
  reg : Register
  deriving DecidableEq

structure Chain where
  chips : List Chip
  numChips : Nat
  numActiveChips : Nat
  numCores : Int
  lastCheckTime : CInt
  bin1Test : Nat
  bin2Test : Nat
  deriving DecidableEq

/-- The calloc'ed chips of chain_strcut_init. -/
def blankChip : Chip := ⟨0, .zero, 0, 0, false, .zero 12⟩

/-- The bits set in the core mask. -/
def activeCores (buffer : Register) : Nat :=
  (List.range 8).countP fun j => (buffer.get 11).toNat.testBit j

/-- check_chip, with the total so far and the register when it can be read. -/
def checkChip (numCores : Int) (chip : Chip) : Option Register → Int × Chip
  | none => (numCores, { chip with numCores := 0, disabled := true })
  | some buffer =>
    let cores := activeCores buffer
    let chip := { chip with numCores := cores, reg := buffer }
    if cores < brokenChipThreshold then (numCores + cores - cores, { chip with disabled := true })
    else (numCores + cores, chip)

/-- The loop of check_chip from chip `i` on. -/
def checkChips (registers : Nat → Option Register) : Nat → Int → List Chip → Int × List Chip
  | _, numCores, [] => (numCores, [])
  | i, numCores, chip :: chips =>
    let checked := checkChip numCores chip (registers i)
    let rest := checkChips registers (i + 1) checked.1 chips
    (rest.1, checked.2 :: rest.2)

/-- Recount the chips of a chain with `active` chips; none if there is no memory for them. -/
def countChain (a1 : Chain) (active : Nat) (registers : Nat → Option Register) : Option Chain :=
  if active ≤ a1.chips.length then
    let checked := checkChips registers 0 0 (a1.chips.take active)
    some { a1 with numActiveChips := active, numCores := checked.1, chips := checked.2 ++ a1.chips.drop active }
  else none

/-- init_one_A1_chain on the zeroed chain, with the number of chips that
mcompat_chain_detect finds. -/
def initOneA1Chain (overrideChipNum : Int) (lastCheckTime : CInt) (detected : Int)
    (registers : Nat → Option Register) :
    Option Chain :=
  if detected < 1 then none
  else
    let active :=
      if 0 < overrideChipNum ∧ detected > overrideChipNum then overrideChipNum else detected
    countChain
      { chips := List.replicate asicChipNum blankChip
        numChips := detected.toNat
        numActiveChips := 0
        numCores := 0
        lastCheckTime
        bin1Test := 0
        bin2Test := 0 }
      active.toNat registers

/-! ## Disabled chips -/

def isChipDisabled (chip : Chip) : Bool := chip.disabled || chip.cooldownBegin ≠ .zero

/-- Chip ids start at 1. -/
def disableChip (a1 : Chain) (chipId : Nat) (now : CInt) : Option Chain :=
  match chipId with
  | 0 => none
  | i + 1 =>
    (a1.chips[i]?).map fun chip =>
      if isChipDisabled chip then a1
      else { a1 with chips := a1.chips.set i { chip with cooldownBegin := now } }

/-- The answers a round of the first loop may ask for. -/
structure ChipReading where
  now : CInt
  register : Option Register
  restart : CInt

def recheckChip (numCores : Int) (chip : Chip) (r : ChipReading) : Option (Int × Chip) :=
  if !isChipDisabled chip then some (numCores, chip)
  else if chip.disabled then some (numCores, chip)
  else
    (chip.cooldownBegin.add cooldownMs).map fun limit =>
      if limit.val > r.now.val then (numCores, chip)
      else
        match r.register with
        | none =>
          let failed := { chip with failCount := chip.failCount + 1 }
          if failed.failCount > disableChipFailThreshold then
            (numCores - failed.numCores, { failed with disabled := true })
          else (numCores, { failed with cooldownBegin := r.restart })
        | some _ => (numCores, { chip with cooldownBegin := .zero, failCount := 0, failReset := 0 })

/-- The first loop from chip `i` on. -/
def recheckChips (readings : Nat → ChipReading) : Nat → Int → List Chip → Option (Int × List Chip)
  | _, numCores, [] => some (numCores, [])
  | i, numCores, chip :: chips =>
    (recheckChip numCores chip (readings i)).bind fun checked =>
      (recheckChips readings (i + 1) checked.1 chips).map fun rest => (rest.1, checked.2 :: rest.2)

/-- The answers to one call of check_disabled_chips: two readings of the clock, and
the number and registers of the chips behind a reset. -/
structure Readings where
  chips : Nat → ChipReading
  checkTime : CInt
  setTime : CInt
  detected : Int
  registers : Nat → Option Register

def resetChain (a1 : Chain) (r : Readings) : Option Chain :=
  if r.detected < 1 then none
  else countChain { a1 with numChips := r.detected.toNat } r.detected.toNat r.registers

/-- The periodic check behind the first loop. -/
def checkCores (a1 : Chain) (r : Readings) : Option Chain :=
  (a1.lastCheckTime.add checkCoresMs).bind fun limit =>
    if limit.val < r.checkTime.val then
      let a1 := { a1 with lastCheckTime := r.setTime }
      if a1.numCores < lestCoreBin1Chain ∧ a1.bin1Test < chainResetTestNum then
        resetChain { a1 with bin1Test := a1.bin1Test + 1 } r
      else if a1.numCores < lestCoreBin2Chain ∧ a1.bin2Test < chainResetTestNum then resetChain a1 r
      else some a1
    else some a1

def recheckChain (a1 : Chain) (readings : Nat → ChipReading) : Option Chain :=
  if a1.numActiveChips ≤ a1.chips.length then
    (recheckChips readings 0 a1.numCores (a1.chips.take a1.numActiveChips)).map fun (numCores,
        chips) =>
      { a1 with numCores, chips := chips ++ a1.chips.drop a1.numActiveChips }
  else none

def checkDisabledChips (a1 : Chain) (r : Readings) : Option Chain :=
  (recheckChain a1 r.chips).bind fun a1 => checkCores a1 r

end CgminerT4.Source.ChipHealth
