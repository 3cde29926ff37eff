import CgminerT4.Library.Runs
import CgminerT4.Source.ChipHealth

/-!
# The number of cores of a chain

`num_cores` counts the cores of the active chips that are not disabled. Giving
up a chip subtracts its cores, but the recount of a reset also adds those of
chips that stay disabled, so the number is exact in the runs where no reset
reads enough cores on a disabled chip.
-/
namespace CgminerT4.Guarantees.CoreCount
open Library.Runs Library.SignedInt Source.ChipHealth

/-- The cores of the chips that are not disabled. -/
def coreSum (chips : List Chip) : Int :=
  ((chips.filter fun chip => !chip.disabled).map fun chip => (chip.numCores : Int)).sum

def CoresExact (a1 : Chain) : Prop := a1.numCores = coreSum (a1.chips.take a1.numActiveChips)

inductive Event where
  | disableChip (chipId : Nat) (now : CInt)
  | checkDisabledChips (r : Readings)

def step (a1 : Chain) : Event → Option Chain
  | .disableChip chipId now => disableChip a1 chipId now
  | .checkDisabledChips r => checkDisabledChips a1 r

/-- The cores that a chip in use contributes. -/
def coresInUse (chip : Chip) : Int := if chip.disabled then 0 else chip.numCores

theorem coreSum_cons (chip : Chip) (chips : List Chip) :
    coreSum (chip :: chips) = coresInUse chip + coreSum chips := by
  unfold coreSum coresInUse
  cases disabled : chip.disabled with
  | true =>
    rw [List.filter_cons_of_neg (by rw [disabled]; decide)]
    simp
  | false =>
    rw [List.filter_cons_of_pos (by rw [disabled]; decide)]
    simp

/-! ## The recount -/

def coresRead : Option Register → Nat
  | none => 0
  | some buffer => activeCores buffer

/-- The cores of a chip that the recount adds although the chip stays disabled. -/
def excess (chip : Chip) (register : Option Register) : Nat :=
  if chip.disabled ∧ brokenChipThreshold ≤ coresRead register then coresRead register else 0

def totalExcess (registers : Nat → Option Register) : Nat → List Chip → Nat
  | _, [] => 0
  | i, chip :: chips => excess chip (registers i) + totalExcess registers (i + 1) chips

theorem checkChip_total (numCores : Int) (chip : Chip) (register : Option Register) :
    (checkChip numCores chip register).1 =
      numCores + coresInUse (checkChip numCores chip register).2 + excess chip register := by
  cases register with
  | none => simp [checkChip, coresInUse, excess, coresRead, brokenChipThreshold]
  | some buffer =>
    by_cases broken : activeCores buffer < brokenChipThreshold
    · have checked : checkChip numCores chip (some buffer) =
          (numCores + activeCores buffer - activeCores buffer,
            { chip with numCores := activeCores buffer, reg := buffer, disabled := true }) :=
              if_pos broken
      rw [checked]
      simp [coresInUse, excess, coresRead, Nat.not_le.mpr broken]
    · have checked : checkChip numCores chip (some buffer) =
          (numCores + activeCores buffer,
            { chip with numCores := activeCores buffer, reg := buffer }) := if_neg broken
      rw [checked]
      cases disabled : chip.disabled with
      | true => simp [coresInUse, excess, coresRead, disabled, Nat.not_lt.mp broken]
      | false => simp [coresInUse, excess, disabled]

theorem checkChips_total (registers : Nat → Option Register) (i : Nat) (numCores : Int)
    (chips : List Chip) :
    (checkChips registers i numCores chips).1 =
      numCores + coreSum (checkChips registers i numCores chips).2 +
        totalExcess registers i chips := by
  induction chips generalizing i numCores with
  | nil => simp [checkChips, coreSum, totalExcess]
  | cons chip chips ih =>
    have first := checkChip_total numCores chip (registers i)
    have rest := ih (i + 1) (checkChip numCores chip (registers i)).1
    unfold checkChips totalExcess
    dsimp only
    rw [coreSum_cons]
    push_cast
    omega

theorem length_checkChips (registers : Nat → Option Register) (i : Nat) (numCores : Int)
    (chips : List Chip) :
    (checkChips registers i numCores chips).2.length = chips.length := by
  induction chips generalizing i numCores with
  | nil => rfl
  | cons chip chips ih => exact congrArg (· + 1) (ih (i + 1) _)

theorem excess_zero (chip : Chip) (register : Option Register) :
    excess chip register = 0 ↔ (chip.disabled → coresRead register < brokenChipThreshold) := by
  unfold excess brokenChipThreshold
  split
  · next counted =>
    constructor
    · intro zero
      omega
    · intro few
      have := few counted.1
      omega
  · next fine =>
    refine iff_of_true rfl fun disabled => ?_
    by_contra many
    exact fine ⟨disabled, by omega⟩

theorem totalExcess_zero (registers : Nat → Option Register) (i : Nat) (chips : List Chip) :
    totalExcess registers i chips = 0 ↔
      ∀ k chip, chips[k]? = some chip → chip.disabled →
        coresRead (registers (i + k)) < brokenChipThreshold := by
  induction chips generalizing i with
  | nil => simp [totalExcess]
  | cons chip chips ih =>
    unfold totalExcess
    rw [Nat.add_eq_zero_iff, excess_zero, ih (i + 1)]
    constructor
    · rintro ⟨first, rest⟩ k other found
      cases k with
      | zero =>
        cases found
        exact first
      | succ k =>
        have place : i + (k + 1) = i + 1 + k := by omega
        rw [place]
        exact rest k other found
    · intro all
      refine ⟨all 0 chip rfl, fun k other found => ?_⟩
      have place : i + 1 + k = i + (k + 1) := by omega
      rw [place]
      exact all (k + 1) other found

/-- A recount is exact if no chip that stays disabled is read with enough cores. -/
theorem countChain_exact (a1 next : Chain) (active : Nat) (registers : Nat → Option Register)
    (counted : countChain a1 active registers = some next) :
    CoresExact next ↔
      ∀ i < active, ∀ chip, a1.chips[i]? = some chip → chip.disabled →
        coresRead (registers i) < brokenChipThreshold := by
  unfold countChain at counted
  split at counted
  · next room =>
    cases counted
    have total := checkChips_total registers 0 0 (a1.chips.take active)
    have length : (checkChips registers 0 0 (a1.chips.take active)).2.length = active := by
      rw [length_checkChips, List.length_take]
      exact Nat.min_eq_left room
    unfold CoresExact
    dsimp only
    rw [List.take_left' length, total]
    have zero := totalExcess_zero registers 0 (a1.chips.take active)
    constructor
    · intro same i inside chip found
      have none : totalExcess registers 0 (a1.chips.take active) = 0 := by omega
      have few := zero.mp none i chip (by rw [List.getElem?_take_of_lt inside]; exact found)
      rwa [Nat.zero_add] at few
    · intro few
      have none : totalExcess registers 0 (a1.chips.take active) = 0 := by
        refine zero.mpr fun k chip found => ?_
        rw [Nat.zero_add]
        rw [List.getElem?_take] at found
        split at found
        · next inside => exact few k inside chip found
        · cases found
      omega
  · cases counted

/-! ## Giving up chips -/

/-- The chip cannot be read after its cooldown, once too often. -/
def GivesUp (chip : Chip) (r : ChipReading) : Prop :=
  chip.disabled = false ∧ chip.cooldownBegin ≠ .zero ∧
    chip.cooldownBegin.val + cooldownMs ≤ r.now.val ∧
    r.register = none ∧ disableChipFailThreshold ≤ chip.failCount

instance (chip : Chip) (r : ChipReading) : Decidable (GivesUp chip r) :=
  inferInstanceAs (Decidable (_ ∧ _))

/-- The cores subtracted for the chips from `i` on. -/
def coresLost (readings : Nat → ChipReading) : Nat → List Chip → Nat
  | _, [] => 0
  | i, chip :: chips =>
    (if GivesUp chip (readings i) then chip.numCores else 0) + coresLost readings (i + 1) chips

structure Rechecked (chip : Chip) (r : ChipReading) (next : Chip) (lost : Int) : Prop where
  disabled : next.disabled = (chip.disabled || GivesUp chip r)
  inUse : coresInUse next = coresInUse chip - lost
  lost : lost = (if GivesUp chip r then chip.numCores else 0 : Nat)

theorem recheckChip_stays (numCores numCores' : Int) (chip next : Chip) (r : ChipReading)
    (stays : ¬ GivesUp chip r) (done : recheckChip numCores chip r = some (numCores', next)) :
    numCores' = numCores ∧ next.disabled = chip.disabled ∧ next.numCores = chip.numCores := by
  unfold recheckChip at done
  split at done
  · cases done
    exact ⟨rfl, rfl, rfl⟩
  · next cooling =>
    split at done
    · cases done
      exact ⟨rfl, rfl, rfl⟩
    · next working =>
      obtain ⟨limit, added, done⟩ := Option.map_eq_some_iff.mp done
      have sum := CInt.add_eq_some _ _ _ added
      split at done
      · cases done
        exact ⟨rfl, rfl, rfl⟩
      · next late =>
        split at done
        · next register =>
          dsimp only at done
          split at done
          · next often =>
            -- the only branch that disables the chip
            have enabled : chip.disabled = false := by simpa using working
            have begun : chip.cooldownBegin ≠ .zero := by
              intro zero
              simp [isChipDisabled, enabled, zero] at cooling
            exact absurd ⟨enabled, begun, by omega, register, by omega⟩ stays
          · cases done
            exact ⟨rfl, rfl, rfl⟩
        · cases done
          exact ⟨rfl, rfl, rfl⟩

theorem recheckChip_gives (numCores numCores' : Int) (chip next : Chip) (r : ChipReading)
    (gives : GivesUp chip r) (done : recheckChip numCores chip r = some (numCores', next)) :
    numCores' = numCores - chip.numCores ∧ next.disabled = true := by
  obtain ⟨enabled, begun, past, register, often⟩ := gives
  have cooling : isChipDisabled chip = true := by simp [isChipDisabled, begun]
  unfold recheckChip at done
  rw [cooling, if_neg (by decide), if_neg (by rw [enabled]; decide)] at done
  obtain ⟨limit, added, done⟩ := Option.map_eq_some_iff.mp done
  have sum := CInt.add_eq_some _ _ _ added
  rw [if_neg (by omega), register] at done
  dsimp only at done
  rw [if_pos (by omega)] at done
  cases done
  exact ⟨rfl, rfl⟩

theorem recheckChip_spec (numCores numCores' : Int) (chip next : Chip) (r : ChipReading)
    (done : recheckChip numCores chip r = some (numCores', next)) :
    Rechecked chip r next (numCores - numCores') := by
  by_cases gives : GivesUp chip r
  · obtain ⟨cores, disabled⟩ := recheckChip_gives numCores numCores' chip next r gives done
    refine ⟨?_, ?_, ?_⟩
    · rw [disabled, decide_eq_true gives, Bool.or_true]
    · have before : coresInUse chip = chip.numCores := by simp [coresInUse, gives.1]
      have after : coresInUse next = 0 := by simp [coresInUse, disabled]
      omega
    · rw [if_pos gives]
      omega
  · obtain ⟨cores, disabled, same⟩ := recheckChip_stays numCores numCores' chip next r gives done
    refine ⟨?_, ?_, ?_⟩
    · rw [disabled, decide_eq_false gives, Bool.or_false]
    · unfold coresInUse
      rw [disabled, same]
      omega
    · rw [if_neg gives]
      omega

/-- What the first loop leaves of the chips from `i` on. -/
structure RecheckedAll (readings : Nat → ChipReading) (i : Nat) (chips next : List Chip)
    (lost : Int) : Prop where
  length : next.length = chips.length
  disabled : ∀ k : Nat, (next[k]?).map Chip.disabled =
    (chips[k]?).map fun chip => chip.disabled || GivesUp chip (readings (i + k))
  inUse : coreSum next = coreSum chips - lost
  lost : lost = coresLost readings i chips

theorem recheckChips_spec (readings : Nat → ChipReading) (i : Nat) (numCores numCores' : Int)
    (chips next : List Chip)
    (done : recheckChips readings i numCores chips = some (numCores', next)) :
    RecheckedAll readings i chips next (numCores - numCores') := by
  induction chips generalizing i numCores next with
  | nil =>
    cases done
    exact ⟨rfl, fun _ => rfl, by omega, by simp [coresLost]⟩
  | cons chip chips ih =>
    obtain ⟨⟨between, first⟩, one, done⟩ := Option.bind_eq_some_iff.mp done
    obtain ⟨⟨final, rest⟩, others, same⟩ := Option.map_eq_some_iff.mp done
    cases same
    have head := recheckChip_spec numCores between chip first (readings i) one
    have tail := ih (i + 1) between rest others
    have headLost := head.lost
    have tailLost := tail.lost
    refine ⟨congrArg (· + 1) tail.length, fun k => ?_, ?_, ?_⟩
    · cases k with
      | zero => exact congrArg some head.disabled
      | succ k =>
        have place : i + (k + 1) = i + 1 + k := by omega
        rw [place]
        exact tail.disabled k
    · rw [coreSum_cons, coreSum_cons, head.inUse, tail.inUse]
      omega
    · unfold coresLost
      push_cast at headLost ⊢
      omega

/-! ## One call -/

/-- A chip that is disabled when the first loop is over. -/
def DisabledBehind (a1 : Chain) (r : Readings) (i : Nat) (chip : Chip) : Prop :=
  chip.disabled ∨ (i < a1.numActiveChips ∧ GivesUp chip (r.chips i))

/-- The cores left when the first loop is over. -/
def coresLeft (a1 : Chain) (r : Readings) : Int :=
  a1.numCores - coresLost r.chips 0 (a1.chips.take a1.numActiveChips)

/-- The periodic check is due, finds too few cores and has resets left. -/
def ResetDue (a1 : Chain) (numCores : Int) (checkTime : CInt) : Prop :=
  a1.lastCheckTime.val + checkCoresMs < checkTime.val ∧
    ((numCores < lestCoreBin1Chain ∧ a1.bin1Test < chainResetTestNum) ∨
      (numCores < lestCoreBin2Chain ∧ a1.bin2Test < chainResetTestNum))

/-- A reset reads too few cores on every chip that stays disabled. -/
def ResetsApart (a1 : Chain) (r : Readings) : Prop :=
  ResetDue a1 (coresLeft a1 r) r.checkTime →
    ∀ i < r.detected.toNat, ∀ chip, a1.chips[i]? = some chip → DisabledBehind a1 r i chip →
      coresRead (r.registers i) < brokenChipThreshold

def NoRecount (a1 : Chain) : Event → Prop
  | .disableChip _ _ => True
  | .checkDisabledChips r => ResetsApart a1 r

/-- The first loop keeps the number exact. -/
theorem recheckChain_spec (a1 next : Chain) (readings : Nat → ChipReading)
    (done : recheckChain a1 readings = some next) :
    ∃ numCores chips, RecheckedAll readings 0 (a1.chips.take a1.numActiveChips) chips
      (a1.numCores - numCores) ∧
      a1.numActiveChips ≤ a1.chips.length ∧
      next = { a1 with numCores, chips := chips ++ a1.chips.drop a1.numActiveChips } := by
  unfold recheckChain at done
  split at done
  · next room =>
    obtain ⟨⟨numCores, chips⟩, all, rfl⟩ := Option.map_eq_some_iff.mp done
    exact ⟨numCores, chips, recheckChips_spec readings 0 a1.numCores numCores _ chips all,
      room, rfl⟩
  · cases done

theorem resetChain_count (a1 next : Chain) (r : Readings) (done : resetChain a1 r = some next) :
    ∃ base, base.chips = a1.chips ∧ countChain base r.detected.toNat r.registers = some next := by
  unfold resetChain at done
  split at done
  · cases done
  · exact ⟨{ a1 with numChips := r.detected.toNat }, rfl, done⟩

/-- The periodic check leaves the counts alone or recounts the same chips. -/
theorem checkCores_cases (a1 next : Chain) (r : Readings) (done : checkCores a1 r = some next) :
    (¬ ResetDue a1 a1.numCores r.checkTime ∧ ∃ lastCheckTime, next = { a1 with lastCheckTime }) ∨
      (ResetDue a1 a1.numCores r.checkTime ∧
        ∃ base, base.chips = a1.chips ∧
          countChain base r.detected.toNat r.registers = some next) := by
  obtain ⟨limit, added, done⟩ := Option.bind_eq_some_iff.mp done
  have sum := CInt.add_eq_some _ _ _ added
  by_cases due : limit.val < r.checkTime.val
  · rw [if_pos due] at done
    dsimp only at done
    rw [sum] at due
    by_cases bin1 : a1.numCores < lestCoreBin1Chain ∧ a1.bin1Test < chainResetTestNum
    · rw [if_pos bin1] at done
      obtain ⟨base, same, counted⟩ := resetChain_count _ _ _ done
      exact Or.inr ⟨⟨due, Or.inl bin1⟩, base, same, counted⟩
    · rw [if_neg bin1] at done
      by_cases bin2 : a1.numCores < lestCoreBin2Chain ∧ a1.bin2Test < chainResetTestNum
      · rw [if_pos bin2] at done
        obtain ⟨base, same, counted⟩ := resetChain_count _ _ _ done
        exact Or.inr ⟨⟨due, Or.inr bin2⟩, base, same, counted⟩
      · rw [if_neg bin2] at done
        cases done
        exact Or.inl ⟨fun reset => reset.2.elim bin1 bin2, _, rfl⟩
  · rw [if_neg due] at done
    cases done
    exact Or.inl ⟨fun reset => due (by rw [sum]; exact reset.1), _, rfl⟩

/-- What is behind the active chips is as it was before the first loop. -/
theorem disabled_behind (a1 : Chain) (r : Readings) (numCores : Int) (chips : List Chip)
    (all : RecheckedAll r.chips 0 (a1.chips.take a1.numActiveChips) chips (a1.numCores - numCores))
    (room : a1.numActiveChips ≤ a1.chips.length) (i : Nat) :
    (∃ chip, (chips ++ a1.chips.drop a1.numActiveChips)[i]? = some chip ∧ chip.disabled) ↔
      ∃ chip, a1.chips[i]? = some chip ∧ DisabledBehind a1 r i chip := by
  have length : chips.length = a1.numActiveChips := by
    rw [all.length, List.length_take]
    exact Nat.min_eq_left room
  by_cases active : i < a1.numActiveChips
  · have flags := all.disabled i
    rw [Nat.zero_add, List.getElem?_take_of_lt active] at flags
    rw [List.getElem?_append_left (by omega)]
    unfold DisabledBehind
    constructor
    · rintro ⟨chip, found, disabled⟩
      rw [found, Option.map_some, disabled] at flags
      obtain ⟨before, known, flag⟩ := Option.map_eq_some_iff.mp flags.symm
      rw [Bool.or_eq_true, decide_eq_true_iff] at flag
      exact ⟨before, known, flag.imp_right fun gives => ⟨active, gives⟩⟩
    · rintro ⟨before, known, disabled⟩
      rw [known, Option.map_some] at flags
      obtain ⟨chip, found, flag⟩ := Option.map_eq_some_iff.mp flags
      refine ⟨chip, found, flag.trans ?_⟩
      rw [Bool.or_eq_true, decide_eq_true_iff]
      exact disabled.imp_right And.right
  · rw [List.getElem?_append_right (by omega), List.getElem?_drop, length]
    have place : a1.numActiveChips + (i - a1.numActiveChips) = i := by omega
    rw [place]
    unfold DisabledBehind
    constructor
    · rintro ⟨chip, found, disabled⟩
      exact ⟨chip, found, Or.inl disabled⟩
    · rintro ⟨chip, found, disabled | ⟨never, _⟩⟩
      · exact ⟨chip, found, disabled⟩
      · exact absurd never active

theorem checkDisabledChips_exact (a1 next : Chain) (r : Readings) (exact_before : CoresExact a1)
    (done : checkDisabledChips a1 r = some next) :
    CoresExact next ↔ ResetsApart a1 r := by
  obtain ⟨mid, rechecked, checked⟩ := Option.bind_eq_some_iff.mp done
  obtain ⟨numCores, chips, all, room, rfl⟩ := recheckChain_spec a1 mid r.chips rechecked
  have length : chips.length = a1.numActiveChips := by
    rw [all.length, List.length_take]
    exact Nat.min_eq_left room
  have left : numCores = coresLeft a1 r := by
    have lost := all.lost
    unfold coresLeft
    omega
  rcases checkCores_cases _ _ _ checked with ⟨stays, lastCheckTime, rfl⟩ | ⟨due, base, same,
    counted⟩
  · unfold ResetsApart
    rw [← left]
    refine iff_of_true ?_ fun due => absurd due stays
    have inUse := all.inUse
    unfold CoresExact at exact_before ⊢
    dsimp only
    rw [List.take_left' length]
    omega
  · rw [countChain_exact base next r.detected.toNat r.registers counted, same]
    have behind := disabled_behind a1 r numCores chips all room
    unfold ResetsApart
    rw [← left]
    constructor
    · intro few _ i inside chip found disabled
      obtain ⟨after, known, flag⟩ := (behind i).mpr ⟨chip, found, disabled⟩
      exact few i inside after known flag
    · intro few i inside chip found flag
      obtain ⟨before, known, disabled⟩ := (behind i).mp ⟨chip, found, flag⟩
      exact few due i inside before known disabled

/-! ## Runs -/

theorem coreSum_set (chips : List Chip) (i : Nat) (chip new : Chip) (found : chips[i]? = some chip)
    (same : coresInUse new = coresInUse chip) : coreSum (chips.set i new) = coreSum chips := by
  induction chips generalizing i with
  | nil => rfl
  | cons head chips ih =>
    cases i with
    | zero =>
      cases found
      rw [List.set_cons_zero, coreSum_cons, coreSum_cons, same]
    | succ i => rw [List.set_cons_succ, coreSum_cons, coreSum_cons, ih i found]

theorem disableChip_exact (a1 next : Chain) (chipId : Nat) (now : CInt)
    (exact_before : CoresExact a1) (done : disableChip a1 chipId now = some next) :
    CoresExact next := by
  cases chipId with
  | zero => cases done
  | succ i =>
    obtain ⟨chip, found, rfl⟩ := Option.map_eq_some_iff.mp done
    split
    · exact exact_before
    · unfold CoresExact at exact_before ⊢
      dsimp only
      rw [exact_before, List.take_set]
      by_cases active : i < a1.numActiveChips
      · have listed : (a1.chips.take a1.numActiveChips)[i]? = some chip := by
          rw [List.getElem?_take_of_lt active]
          exact found
        exact (coreSum_set _ i chip { chip with cooldownBegin := now } listed rfl).symm
      · rw [List.set_eq_of_length_le (by rw [List.length_take]; omega)]

theorem step_exact (a1 : Chain) (e : Event) (next : Chain) (exact_before : CoresExact a1)
    (taken : step a1 e = some next) :
    CoresExact next ↔ NoRecount a1 e := by
  cases e with
  | disableChip chipId now =>
    exact iff_of_true (disableChip_exact a1 next chipId now exact_before taken) trivial
  | checkDisabledChips r => exact checkDisabledChips_exact a1 next r exact_before taken

theorem init_exact (overrideChipNum : Int) (lastCheckTime : CInt) (detected : Int)
    (registers : Nat → Option Register) (a1 : Chain)
    (started : initOneA1Chain overrideChipNum lastCheckTime detected registers = some a1) :
    CoresExact a1 := by
  unfold initOneA1Chain at started
  split at started
  · cases started
  · refine (countChain_exact _ a1 _ registers started).mpr fun i _ chip found disabled => ?_
    have blank := List.eq_of_mem_replicate (List.mem_of_getElem? found)
    rw [blank] at disabled
    cases disabled

/-- From any detection, the number of cores is exact in every state of a run
exactly if no reset of it reads enough cores on a chip that stays disabled. -/
theorem core_count_exact_iff (overrideChipNum : Int) (lastCheckTime : CInt) (detected : Int)
    (registers : Nat → Option Register) (a1 : Chain) (events : List Event)
    (started : initOneA1Chain overrideChipNum lastCheckTime detected registers = some a1) :
    Always step CoresExact a1 events ↔ Guarded step NoRecount a1 events :=
  always_iff_guarded step_exact
    (init_exact overrideChipNum lastCheckTime detected registers a1 started)

/-! ## A reset that counts a disabled chip -/

/-- A register whose core mask has all eight bits set. -/
def fullRegister : Register := ⟨List.replicate 11 0 ++ [0xFF], by decide⟩

/-- Two chips, the first without an answer. -/
def firstRead : Nat → Option Register
  | 0 => none
  | _ => some fullRegister

def tenMinutes : CInt := ⟨checkCoresMs + 1, by decide, by decide⟩

/-- Two detected chips, one of them set aside. -/
theorem core_count_detected :
    ∃ a1, initOneA1Chain 0 .zero 2 firstRead = some a1 ∧
      (Always step CoresExact a1 [.disableChip 2 tenMinutes] ↔
        Guarded step NoRecount a1 [.disableChip 2 tenMinutes]) := by
  have found : (initOneA1Chain 0 .zero 2 firstRead).isSome := by decide +kernel
  obtain ⟨a1, started⟩ := Option.isSome_iff_exists.mp found
  exact ⟨a1, started, core_count_exact_iff 0 .zero 2 firstRead a1 [.disableChip 2 tenMinutes]
    started⟩

/-- The periodic check, and a reset behind which both chips answer. -/
def secondReadings : Readings where
  chips _ := ⟨.zero, none, .zero⟩
  checkTime := tenMinutes
  setTime := tenMinutes
  detected := 2
  registers _ := some fullRegister

theorem disabled_chip_counted :
    ∃ a1, initOneA1Chain 0 .zero 2 firstRead = some a1 ∧
      ¬ Always step CoresExact a1 [.checkDisabledChips secondReadings] := by
  have counts :
    ((initOneA1Chain 0 .zero 2 firstRead).bind fun a1 =>
    run step a1 [.checkDisabledChips secondReadings]).map
      (fun a1 => (a1.numCores, coreSum (a1.chips.take a1.numActiveChips))) = some (16, 8) := by
        decide +kernel
  obtain ⟨out, ran, values⟩ := Option.map_eq_some_iff.mp counts
  obtain ⟨a1, started, ran⟩ := Option.bind_eq_some_iff.mp ran
  refine ⟨a1, started, fun always => ?_⟩
  have exact_final : CoresExact out := always_final always ran
  unfold CoresExact at exact_final
  rw [Prod.mk.injEq] at values
  omega

end CgminerT4.Guarantees.CoreCount
