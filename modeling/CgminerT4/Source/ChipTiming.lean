import CgminerT4.Source.ChipHealth

/-!
# The clock of the chip checks (t4_common.c, util.c)

The uptime in milliseconds as get_current_ms returns it, and the functions of
the chip checks on a machine where int arithmetic wraps. Where no sum overflows
they are those of the chip checks proper.
-/
namespace CgminerT4.Source.ChipTiming
open Library.SignedInt ChipHealth

/-- timespec_to_ms, truncated to an int. -/
def getCurrentMs (uptime : Nat) : CInt := .wrap uptime

/-- `cooldown_begin + COOLDOWN_MS > get_current_ms()`, negated. -/
def cooldownOver (chip : Chip) (now : CInt) : Bool :=
  !(CInt.wrap (chip.cooldownBegin.val + cooldownMs)).val > now.val

/-- The register of the chip is read. -/
def probes (chip : Chip) (now : CInt) : Bool :=
  isChipDisabled chip && !chip.disabled && cooldownOver chip now

/-- The chip behind a probe. -/
def probeChip (numCores : Int) (chip : Chip) (r : ChipReading) : Int × Chip :=
  match r.register with
  | none =>
    let failed := { chip with failCount := chip.failCount + 1 }
    if failed.failCount > disableChipFailThreshold then (numCores - failed.numCores,
      { failed with disabled := true })
    else (numCores, { failed with cooldownBegin := r.restart })
  | some _ => (numCores, { chip with cooldownBegin := .zero, failCount := 0, failReset := 0 })

def recheckChip (numCores : Int) (chip : Chip) (r : ChipReading) : Int × Chip :=
  if probes chip r.now then probeChip numCores chip r else (numCores, chip)

/-- The first loop from chip `i` on. -/
def recheckChips (readings : Nat → ChipReading) : Nat → Int → List Chip → Int × List Chip
  | _, numCores, [] => (numCores, [])
  | i, numCores, chip :: chips =>
    let checked := recheckChip numCores chip (readings i)
    let rest := recheckChips readings (i + 1) checked.1 chips
    (rest.1, checked.2 :: rest.2)

def recheckChain (a1 : Chain) (readings : Nat → ChipReading) : Option Chain :=
  if a1.numActiveChips ≤ a1.chips.length then
    let checked := recheckChips readings 0 a1.numCores (a1.chips.take a1.numActiveChips)
    some { a1 with numCores := checked.1, chips := checked.2 ++ a1.chips.drop a1.numActiveChips }
  else none

/-- `last_check_time + CHECK_CORES_MS < get_current_ms()`. -/
def coreCheckDue (lastCheckTime now : CInt) : Bool :=
  (CInt.wrap (lastCheckTime.val + checkCoresMs)).val < now.val

def checkCores (a1 : Chain) (r : Readings) : Option Chain :=
  if coreCheckDue a1.lastCheckTime r.checkTime then
    let a1 := { a1 with lastCheckTime := r.setTime }
    if a1.numCores < lestCoreBin1Chain ∧ a1.bin1Test < chainResetTestNum then
      resetChain { a1 with bin1Test := a1.bin1Test + 1 } r
    else if a1.numCores < lestCoreBin2Chain ∧ a1.bin2Test < chainResetTestNum then resetChain a1 r
    else some a1
  else some a1

def checkDisabledChips (a1 : Chain) (r : Readings) : Option Chain :=
  (recheckChain a1 r.chips).bind fun a1 => checkCores a1 r

/-! ## Without an overflow -/

theorem recheckChip_of_defined (numCores : Int) (chip : Chip) (r : ChipReading) (out : Int × Chip)
    (done : ChipHealth.recheckChip numCores chip r = some out) :
    recheckChip numCores chip r = out := by
  unfold ChipHealth.recheckChip at done
  unfold recheckChip probes
  split at done
  · next working =>
    rw [Bool.not_eq_true'] at working
    rw [working]
    exact Option.some.inj done
  · next cooling =>
    rw [Bool.not_eq_true', Bool.not_eq_false] at cooling
    rw [cooling]
    split at done
    · next disabled =>
      rw [disabled]
      exact Option.some.inj done
    · next able =>
      rw [Bool.not_eq_true] at able
      obtain ⟨limit, added, done⟩ := Option.map_eq_some_iff.mp done
      rw [able]
      unfold cooldownOver
      rw [CInt.wrap_of_add _ _ _ added]
      split at done
      · next early =>
        rw [decide_eq_true early]
        exact done
      · next late =>
        rw [decide_eq_false late]
        exact done

theorem recheckChips_of_defined (readings : Nat → ChipReading) (i : Nat) (numCores : Int)
    (chips : List Chip) (out : Int × List Chip)
    (done : ChipHealth.recheckChips readings i numCores chips = some out) :
    recheckChips readings i numCores chips = out := by
  induction chips generalizing i numCores out with
  | nil => exact Option.some.inj done
  | cons chip chips ih =>
    obtain ⟨checked, first, done⟩ := Option.bind_eq_some_iff.mp done
    obtain ⟨rest, others, done⟩ := Option.map_eq_some_iff.mp done
    unfold recheckChips
    dsimp only
    rw [recheckChip_of_defined _ _ _ _ first, ih _ _ _ others]
    exact done

/-- Where no sum overflows, the checks with wrapping arithmetic are the checks proper. -/
theorem checkDisabledChips_of_defined (a1 next : Chain) (r : Readings)
    (done : ChipHealth.checkDisabledChips a1 r = some next) :
    checkDisabledChips a1 r = some next := by
  obtain ⟨rechecked, first, second⟩ := Option.bind_eq_some_iff.mp done
  have loop : recheckChain a1 r.chips = some rechecked := by
    unfold ChipHealth.recheckChain at first
    unfold recheckChain
    split at first
    · next room =>
      obtain ⟨out, checked, built⟩ := Option.map_eq_some_iff.mp first
      rw [if_pos room, recheckChips_of_defined _ _ _ _ _ checked]
      exact congrArg some built
    · cases first
  obtain ⟨limit, added, second⟩ := Option.bind_eq_some_iff.mp second
  unfold checkDisabledChips
  rw [loop, Option.bind_some]
  unfold checkCores coreCheckDue
  rw [CInt.wrap_of_add _ _ _ added]
  split at second
  · next due =>
    rw [decide_eq_true due]
    exact second
  · next early =>
    rw [decide_eq_false early]
    exact second

end CgminerT4.Source.ChipTiming
