import CgminerT4.Library.Runs
import CgminerT4.Source.ChipTiming
import CgminerT4.Guarantees.CoreCount

/-!
# Cooldowns and core checks over any uptime

Runs of disable_chip and check_disabled_chips at uptimes that never go back,
with one chip watched: since when it cools down, and when the cores were last
checked. The wrapping comparisons are right exactly if the clock does not wrap
between the reading and the end of the period, and a cooldown that begins at a
multiple of 2^32 ms is none.
-/
namespace CgminerT4.Guarantees.CooldownTiming
open Library.Runs Library.SignedInt Source.ChipTiming
open Source.ChipHealth (Chain Chip ChipReading Readings Register isChipDisabled disableChip)

/-- A reading of the clock, of a register, and of the clock behind it, in uptimes. -/
structure TimedReading where
  time : Nat
  register : Option Register
  restart : Nat

structure TimedReadings where
  chips : Nat → TimedReading
  checkTime : Nat
  setTime : Nat
  detected : Int
  registers : Nat → Option Register

/-- The answers that the code gets. -/
def TimedReadings.answers (r : TimedReadings) : Readings where
  chips i := ⟨getCurrentMs (r.chips i).time, (r.chips i).register, getCurrentMs (r.chips i).restart⟩
  checkTime := getCurrentMs r.checkTime
  setTime := getCurrentMs r.setTime
  detected := r.detected
  registers := r.registers

/-- A chain, and the uptimes of the last reading, of the disable_chip that put
the watched chip into its cooldown, and of the last core check. -/
structure Timed where
  chain : Chain
  uptime : Nat
  began : Option Nat
  lastCheck : Nat

def Timed.start (a1 : Chain) (uptime : Nat) : Timed :=
  ⟨{ a1 with lastCheckTime := getCurrentMs uptime }, uptime, none, uptime⟩

inductive Event where
  | disableChip (chipId : Nat) (time : Nat)
  | checkDisabledChips (r : TimedReadings)

/-- A property of the chip at `i`. -/
def At (a1 : Chain) (i : Nat) (p : Chip → Bool) : Bool := (a1.chips[i]?).any p

/-- The call comes behind the last reading, and so do its own readings. -/
def Ordered (s : Timed) (r : TimedReadings) : Prop :=
  (∀ j < s.chain.numActiveChips, s.uptime ≤ (r.chips j).time) ∧ s.uptime ≤ r.checkTime ∧
    r.checkTime ≤ r.setTime

instance (s : Timed) (r : TimedReadings) : Decidable (Ordered s r) :=
  inferInstanceAs (Decidable (_ ∧ _))

/-- The call reads the register of the watched chip. -/
def Probed (i : Nat) (s : Timed) (r : TimedReadings) : Bool :=
  i < s.chain.numActiveChips && At s.chain i fun chip => probes chip (getCurrentMs (r.chips i).time)

def CoresChecked (s : Timed) (r : TimedReadings) : Bool :=
  coreCheckDue s.chain.lastCheckTime (getCurrentMs r.checkTime)

def step (i : Nat) (s : Timed) : Event → Option Timed
  | .disableChip chipId time =>
    if s.uptime ≤ time then
      (disableChip s.chain chipId (getCurrentMs time)).map fun chain =>
        { s with
          chain
          uptime := time
          began := if chipId = i + 1 ∧ At s.chain i
            (fun chip => !isChipDisabled chip) then some time else s.began }
    else none
  | .checkDisabledChips r =>
    if Ordered s r then
      (checkDisabledChips s.chain r.answers).map fun chain =>
        { chain
          uptime := r.setTime
          began := if Probed i s r ∨ At chain i (fun chip => chip.disabled) then none else s.began
          lastCheck := if CoresChecked s r then r.setTime else s.lastCheck }
    else none

/-! ## What is promised, and when it holds -/

/-- A chip in its cooldown counts as disabled. -/
def CountsAsDisabled (i : Nat) (s : Timed) : Prop := s.began.isSome → At s.chain i isChipDisabled

/-- A call probes the chip from the end of its cooldown on and not before, and
checks the cores once the last check is long enough ago. -/
def CallRight (i : Nat) (s : Timed) : Event → Prop
  | .disableChip _ _ => True
  | .checkDisabledChips r =>
    (∀ t, s.began = some t → i < s.chain.numActiveChips →
      (Probed i s r ↔ t + 30000 ≤ (r.chips i).time)) ∧
      (CoresChecked s r ↔ s.lastCheck + 600000 < r.checkTime)

/-- The milliseconds between the last wrap of the clock and a time. -/
def sinceWrap (time : Nat) : Nat := (time + 2 ^ 31) % 2 ^ 32

/-- The clock does not wrap between the end of a period and `now`, whole rounds of it apart. -/
def NoWrapBetween (finish now : Nat) : Prop :=
  if now < finish then finish - now ≤
    sinceWrap finish else (now - finish) % 2 ^ 32 + sinceWrap finish < 2 ^ 32

/-- As above, and `now` is not whole rounds behind the end. -/
def NoWrapPast (finish now : Nat) : Prop :=
  NoWrapBetween finish now ∧ (finish < now → (now - finish) % 2 ^ 32 ≠ 0)

def BeganOffZero (s : Timed) : Prop := ∀ t, s.began = some t → t % 2 ^ 32 ≠ 0

def CallTimely (i : Nat) (s : Timed) : Event → Prop
  | .disableChip _ _ => True
  | .checkDisabledChips r =>
    (∀ t, s.began = some t → i < s.chain.numActiveChips →
      NoWrapBetween (t + 30000) (r.chips i).time) ∧
      NoWrapPast (s.lastCheck + 600000) r.checkTime

/-! ## The comparisons -/

theorem getCurrentMs_val (time : Nat) : (getCurrentMs time).val = sinceWrap time - 2 ^ 31 := by
  unfold getCurrentMs sinceWrap
  rw [CInt.wrap_val]
  omega

/-- Adding a period wraps like the clock. -/
theorem wrap_period (start period : Nat) :
    (CInt.wrap ((getCurrentMs start).val + period)).val = sinceWrap (start + period) - 2 ^ 31 := by
  rw [CInt.wrap_val, getCurrentMs_val]
  unfold sinceWrap
  omega

theorem reached_iff (start period now : Nat) (behind : start ≤ now) (short : period < 2 ^ 32) :
    (sinceWrap (start + period) ≤ sinceWrap now ↔ start + period ≤ now) ↔
      NoWrapBetween (start + period) now := by
  unfold NoWrapBetween sinceWrap
  split <;> omega

theorem passed_iff (start period now : Nat) (behind : start ≤ now) (short : period < 2 ^ 32) :
    (sinceWrap (start + period) < sinceWrap now ↔ start + period < now) ↔
      NoWrapPast (start + period) now := by
  unfold NoWrapPast NoWrapBetween sinceWrap
  split <;> omega

theorem cooldownOver_iff (chip : Chip) (start now : Nat)
    (begun : chip.cooldownBegin = getCurrentMs start) :
    cooldownOver chip (getCurrentMs now) = true ↔ sinceWrap (start + 30000) ≤ sinceWrap now := by
  unfold cooldownOver
  have limit : (CInt.wrap (chip.cooldownBegin.val + Source.ChipHealth.cooldownMs)).val =
      sinceWrap (start + 30000) - 2 ^ 31 := by
    rw [begun]
    exact wrap_period start 30000
  rw [limit, getCurrentMs_val, Bool.not_eq_true', decide_eq_false_iff_not]
  omega

theorem coreCheckDue_iff (start now : Nat) :
    coreCheckDue (getCurrentMs start) (getCurrentMs now) = true ↔
      sinceWrap (start + 600000) < sinceWrap now := by
  unfold coreCheckDue
  have limit : (CInt.wrap ((getCurrentMs start).val + Source.ChipHealth.checkCoresMs)).val =
      sinceWrap (start + 600000) - 2 ^ 31 :=
    wrap_period start 600000
  rw [limit, getCurrentMs_val, decide_eq_true_iff]
  omega

/-- Only a multiple of 2^32 ms looks like no cooldown. -/
theorem getCurrentMs_eq_zero (time : Nat) : getCurrentMs time = .zero ↔ time % 2 ^ 32 = 0 := by
  constructor
  · intro zero
    have value : (getCurrentMs time).val = 0 := by rw [zero]; rfl
    rw [getCurrentMs_val] at value
    unfold sinceWrap at value
    omega
  · intro multiple
    have value : (getCurrentMs time).val = CInt.zero.val := by
      rw [getCurrentMs_val]
      unfold sinceWrap
      rw [CInt.val_zero]
      omega
    exact CInt.ext value

/-! ## What the watched chip keeps -/

/-- The watched chip is in the cooldown begun then, and the times are those of the chain. -/
structure Tracks (i : Nat) (s : Timed) : Prop where
  began : ∀ t, s.began = some t →
    t ≤ s.uptime ∧ ∃ chip, s.chain.chips[i]? = some chip ∧ chip.cooldownBegin = getCurrentMs t ∧
      chip.disabled = false
  checked : s.lastCheck ≤ s.uptime ∧ s.chain.lastCheckTime = getCurrentMs s.lastCheck

theorem start_tracks (i : Nat) (a1 : Chain) (uptime : Nat) : Tracks i (Timed.start a1 uptime) :=
  ⟨nofun, le_refl uptime, rfl⟩

theorem disableChip_frame (a1 next : Chain) (chipId : Nat) (now : CInt)
    (done : disableChip a1 chipId now = some next) :
    next.numActiveChips = a1.numActiveChips ∧ next.lastCheckTime = a1.lastCheckTime := by
  cases chipId with
  | zero => cases done
  | succ j =>
    obtain ⟨chip, found, rfl⟩ := Option.map_eq_some_iff.mp done
    split
    · exact ⟨rfl, rfl⟩
    · exact ⟨rfl, rfl⟩

/-- disable_chip puts a chip that is not disabled into its cooldown and touches no other. -/
theorem disableChip_get (a1 next : Chain) (chipId : Nat) (now : CInt)
    (done : disableChip a1 chipId now = some next) (i : Nat) :
    next.chips[i]? =
      if chipId = i + 1 ∧ At a1 i (fun chip => !isChipDisabled chip) then
        (a1.chips[i]?).map fun chip => { chip with cooldownBegin := now }
      else a1.chips[i]? := by
  cases chipId with
  | zero => cases done
  | succ j =>
    obtain ⟨chip, found, rfl⟩ := Option.map_eq_some_iff.mp done
    unfold At
    by_cases same : j = i
    · subst same
      rw [found]
      cases disabled : isChipDisabled chip with
      | true => simp [found, disabled]
      | false =>
        obtain ⟨inside, _⟩ := List.getElem?_eq_some_iff.mp found
        simp [disabled, inside]
    · have differs : ¬j + 1 = i + 1 := by omega
      simp only [differs, false_and, if_false]
      split
      · rfl
      · exact List.getElem?_set_ne same

/-! ## One call of check_disabled_chips -/

/-- The chip after its turn does not depend on the total. -/
theorem recheckChip_snd (numCores : Int) (chip : Chip) (r : ChipReading) :
    (recheckChip numCores chip r).2 = (recheckChip 0 chip r).2 := by
  unfold recheckChip
  split
  · unfold probeChip
    split
    · dsimp only
      split
      · rfl
      · rfl
    · rfl
  · rfl

theorem recheckChips_get (readings : Nat → ChipReading) (i : Nat) (numCores : Int)
    (chips : List Chip) (k : Nat) :
    (recheckChips readings i numCores chips).2[k]? =
      (chips[k]?).map fun chip => (recheckChip 0 chip (readings (i + k))).2 := by
  induction chips generalizing i numCores k with
  | nil => rfl
  | cons chip chips ih =>
    unfold recheckChips
    cases k with
    | zero => exact congrArg some (recheckChip_snd numCores chip (readings i))
    | succ k =>
      have place : i + (k + 1) = i + 1 + k := by omega
      rw [place]
      exact ih (i + 1) _ k

theorem length_recheckChips (readings : Nat → ChipReading) (i : Nat) (numCores : Int)
    (chips : List Chip) :
    (recheckChips readings i numCores chips).2.length = chips.length := by
  induction chips generalizing i numCores with
  | nil => rfl
  | cons chip chips ih => exact congrArg (· + 1) (ih (i + 1) _)

/-- Each active chip has its turn in the first loop, and no other chip is touched. -/
theorem recheckChain_get (a1 next : Chain) (readings : Nat → ChipReading)
    (done : recheckChain a1 readings = some next) (i : Nat) :
    next.chips[i]? =
      if i < a1.numActiveChips then (a1.chips[i]?).map fun chip =>
        (recheckChip 0 chip (readings i)).2
      else a1.chips[i]? := by
  unfold recheckChain at done
  split at done
  · next room =>
    cases done
    have length : (recheckChips readings 0 a1.numCores (a1.chips.take a1.numActiveChips)).2.length =
        a1.numActiveChips := by
      rw [length_recheckChips, List.length_take]
      exact Nat.min_eq_left room
    split
    · next active =>
      rw [List.getElem?_append_left (by omega), recheckChips_get, List.getElem?_take_of_lt active,
        Nat.zero_add]
    · next inactive =>
      rw [List.getElem?_append_right (by omega), length, List.getElem?_drop]
      congr 1
      omega
  · cases done

theorem recheckChain_frame (a1 next : Chain) (readings : Nat → ChipReading)
    (done : recheckChain a1 readings = some next) :
    next.numActiveChips = a1.numActiveChips ∧ next.lastCheckTime = a1.lastCheckTime := by
  unfold recheckChain at done
  split at done
  · cases done
    exact ⟨rfl, rfl⟩
  · cases done

/-- A chip that is not probed stays as it is. -/
theorem recheckChip_unprobed (chip : Chip) (r : ChipReading)
    (unprobed : probes chip r.now = false) :
    (recheckChip 0 chip r).2 = chip := by
  unfold recheckChip
  rw [unprobed]
  rfl

/-- A recount keeps the chip with its cooldown at its place. -/
theorem checkChips_cooldown (registers : Nat → Option Register) (i : Nat) (numCores : Int)
    (chips : List Chip) (k : Nat) (chip : Chip) (found : chips[k]? = some chip) :
    ∃ kept, (Source.ChipHealth.checkChips registers i numCores chips).2[k]? = some kept ∧
      kept.cooldownBegin = chip.cooldownBegin := by
  induction chips generalizing i numCores k with
  | nil => cases found
  | cons first chips ih =>
    unfold Source.ChipHealth.checkChips
    cases k with
    | zero =>
      cases found
      refine ⟨_, rfl, ?_⟩
      unfold Source.ChipHealth.checkChip
      split
      · rfl
      · dsimp only
        split
        · rfl
        · rfl
    | succ k => exact ih (i + 1) _ k found

theorem countChain_cooldown (a1 next : Chain) (active : Nat) (registers : Nat → Option Register)
    (counted : Source.ChipHealth.countChain a1 active registers = some next) (i : Nat) (chip : Chip)
    (found : a1.chips[i]? = some chip) :
    ∃ kept, next.chips[i]? = some kept ∧ kept.cooldownBegin = chip.cooldownBegin := by
  unfold Source.ChipHealth.countChain at counted
  split at counted
  · next room =>
    cases counted
    dsimp only
    have length : (Source.ChipHealth.checkChips registers 0 0 (a1.chips.take active)).2.length =
        active := by
      rw [CoreCount.length_checkChips, List.length_take]
      exact Nat.min_eq_left room
    by_cases inside : i < active
    · rw [List.getElem?_append_left (by omega)]
      exact checkChips_cooldown registers 0 0 _ i chip
        (by rw [List.getElem?_take_of_lt inside]; exact found)
    · rw [List.getElem?_append_right (by omega), length, List.getElem?_drop,
        show active + (i - active) = i by omega]
      exact ⟨chip, found, rfl⟩
  · cases counted

theorem countChain_frame (a1 next : Chain) (active : Nat) (registers : Nat → Option Register)
    (counted : Source.ChipHealth.countChain a1 active registers = some next) :
    next.lastCheckTime = a1.lastCheckTime := by
  unfold Source.ChipHealth.countChain at counted
  split at counted
  · cases counted
    rfl
  · cases counted

/-- The periodic check keeps the cooldowns, and sets its time exactly if it runs. -/
theorem checkCores_keeps (a1 next : Chain) (r : Readings) (done : checkCores a1 r = some next) :
    (next.lastCheckTime = if coreCheckDue a1.lastCheckTime r.checkTime then r.setTime else
      a1.lastCheckTime) ∧
      ∀ (i : Nat) (chip : Chip), a1.chips[i]? = some chip →
        ∃ kept, next.chips[i]? = some kept ∧ kept.cooldownBegin = chip.cooldownBegin := by
  have reset (b1 : Chain) (chips : b1.chips = a1.chips) (time : b1.lastCheckTime = r.setTime)
      (done : Source.ChipHealth.resetChain b1 r = some next) :
      next.lastCheckTime = r.setTime ∧ ∀ (i : Nat) (chip : Chip), a1.chips[i]? = some chip →
        ∃ kept, next.chips[i]? = some kept ∧ kept.cooldownBegin = chip.cooldownBegin := by
    unfold Source.ChipHealth.resetChain at done
    split at done
    · cases done
    · refine ⟨(countChain_frame _ _ _ _ done).trans time, fun i chip found => ?_⟩
      exact countChain_cooldown _ _ _ _ done i chip (by dsimp only; rw [chips]; exact found)
  unfold checkCores at done
  split at done
  · next due =>
    rw [if_pos due]
    dsimp only at done
    split at done
    · exact reset { a1 with lastCheckTime := r.setTime, bin1Test := a1.bin1Test + 1 } rfl rfl done
    · split at done
      · exact reset { a1 with lastCheckTime := r.setTime } rfl rfl done
      · cases done
        exact ⟨rfl, fun i chip found => ⟨chip, found, rfl⟩⟩
  · next early =>
    cases done
    rw [if_neg early]
    exact ⟨rfl, fun i chip found => ⟨chip, found, rfl⟩⟩

/-- A chip that a call does not probe keeps its cooldown. -/
theorem checkDisabledChips_keeps (i : Nat) (s : Timed) (r : TimedReadings) (next : Chain)
    (chip : Chip) (done : checkDisabledChips s.chain r.answers = some next)
    (found : s.chain.chips[i]? = some chip) (unprobed : Probed i s r = false) :
    ∃ kept, next.chips[i]? = some kept ∧ kept.cooldownBegin = chip.cooldownBegin := by
  obtain ⟨rechecked, first, second⟩ := Option.bind_eq_some_iff.mp done
  have same : rechecked.chips[i]? = some chip := by
    rw [recheckChain_get _ _ _ first, found]
    split
    · next active =>
      have quiet : probes chip (getCurrentMs (r.chips i).time) = false := by
        unfold Probed At at unprobed
        rw [found, decide_eq_true active] at unprobed
        exact unprobed
      exact congrArg some (recheckChip_unprobed chip (r.answers.chips i) quiet)
    · rfl
  exact (checkCores_keeps _ _ _ second).2 i chip same

theorem checkDisabledChips_time (a1 next : Chain) (r : Readings)
    (done : checkDisabledChips a1 r = some next) :
    next.lastCheckTime = if coreCheckDue a1.lastCheckTime r.checkTime then r.setTime else
      a1.lastCheckTime := by
  obtain ⟨rechecked, first, second⟩ := Option.bind_eq_some_iff.mp done
  rw [(checkCores_keeps _ _ _ second).1, (recheckChain_frame _ _ _ first).2]

theorem step_tracks (i : Nat) (s : Timed) (e : Event) (next : Timed) (tracks : Tracks i s)
    (taken : step i s e = some next) : Tracks i next := by
  obtain ⟨began, checked, time⟩ := tracks
  cases e with
  | disableChip chipId now =>
    rw [step] at taken
    split at taken
    · next later =>
      obtain ⟨chain, done, rfl⟩ := Option.map_eq_some_iff.mp taken
      refine ⟨fun t start => ?_, Nat.le_trans checked later,
        (disableChip_frame _ _ _ _ done).2.trans time⟩
      dsimp only at start ⊢
      rw [disableChip_get _ _ _ _ done]
      split at start
      · next effect =>
        cases start
        rw [if_pos effect]
        refine ⟨le_refl _, ?_⟩
        have working := effect.2
        unfold At at working
        cases found : s.chain.chips[i]? with
        | none =>
          rw [found] at working
          cases working
        | some chip =>
          rw [found] at working
          refine ⟨_, rfl, rfl, ?_⟩
          cases disabled : chip.disabled with
          | false => rfl
          | true => simp [isChipDisabled, disabled] at working
      · next none =>
        obtain ⟨before, chip, found, kept⟩ := began t start
        rw [if_neg none]
        exact ⟨Nat.le_trans before later, chip, found, kept⟩
    · cases taken
  | checkDisabledChips r =>
    rw [step] at taken
    split at taken
    · next ordered =>
      obtain ⟨_, first, second⟩ := ordered
      obtain ⟨chain, done, rfl⟩ := Option.map_eq_some_iff.mp taken
      refine ⟨fun t start => ?_, ?_, ?_⟩
      · dsimp only at start ⊢
        split at start
        · cases start
        · next quiet =>
          obtain ⟨unprobed, able⟩ := not_or.mp quiet
          obtain ⟨before, chip, found, cooling, _⟩ := began t start
          obtain ⟨kept, at_kept, same⟩ :=
            checkDisabledChips_keeps i s r chain chip done found (Bool.eq_false_iff.mpr unprobed)
          refine ⟨by omega, kept, at_kept, same.trans cooling, ?_⟩
          unfold At at able
          rw [at_kept] at able
          exact Bool.eq_false_iff.mpr able
      · dsimp only
        split <;> omega
      · dsimp only
        rw [checkDisabledChips_time _ _ _ done, time]
        unfold CoresChecked
        rw [time, apply_ite getCurrentMs]
        rfl
    · cases taken

/-! ## The exact condition -/

theorem countsAsDisabled_iff (i : Nat) (s : Timed) (tracks : Tracks i s) :
    CountsAsDisabled i s ↔ BeganOffZero s := by
  unfold CountsAsDisabled BeganOffZero
  cases start : s.began with
  | none => exact iff_of_true nofun nofun
  | some t =>
    obtain ⟨_, chip, found, cooling, able⟩ := tracks.began t start
    have status : isChipDisabled chip = true ↔ t % 2 ^ 32 ≠ 0 := by
      rw [ne_eq, ← getCurrentMs_eq_zero, ← cooling]
      simp [isChipDisabled, able]
    unfold At
    rw [found]
    constructor
    · intro counted t' same
      cases same
      exact status.mp (counted rfl)
    · intro off _
      exact status.mpr (off t rfl)

theorem probed_iff (i : Nat) (s : Timed) (r : TimedReadings) (tracks : Tracks i s) (t : Nat)
    (start : s.began = some t) (off : t % 2 ^ 32 ≠ 0) (active : i < s.chain.numActiveChips) :
    Probed i s r = true ↔ sinceWrap (t + 30000) ≤ sinceWrap (r.chips i).time := by
  obtain ⟨_, chip, found, cooling, able⟩ := tracks.began t start
  have nonzero : chip.cooldownBegin ≠ .zero := by
    rw [cooling]
    exact fun zero => off ((getCurrentMs_eq_zero t).mp zero)
  rw [← cooldownOver_iff chip t _ cooling]
  unfold Probed At
  rw [found]
  simp [probes, isChipDisabled, active, able, nonzero]

theorem callRight_iff (i : Nat) (s : Timed) (e : Event) (next : Timed) (tracks : Tracks i s)
    (off : BeganOffZero s) (taken : step i s e = some next) :
    CallRight i s e ↔ CallTimely i s e := by
  cases e with
  | disableChip chipId time => exact Iff.rfl
  | checkDisabledChips r =>
    have ordered : Ordered s r := by
      by_contra unordered
      rw [step] at taken
      rw [if_neg unordered] at taken
      cases taken
    obtain ⟨reads, later, _⟩ := ordered
    obtain ⟨checked, time⟩ := tracks.checked
    refine and_congr ⟨fun right t start active => ?_, fun timely t start active => ?_⟩ ?_
    · have before := (tracks.began t start).1
      have read := reads i active
      rw [← reached_iff t 30000 _ (by omega) (by decide),
        ← probed_iff i s r tracks t start (off t start) active]
      exact right t start active
    · have before := (tracks.began t start).1
      have read := reads i active
      rw [probed_iff i s r tracks t start (off t start) active,
        reached_iff t 30000 _ (by omega) (by decide)]
      exact timely t start active
    · unfold CoresChecked
      rw [time, coreCheckDue_iff, passed_iff _ _ _ (by omega) (by decide)]

/-- Every cooldown counts as one, ends on time, and the cores are checked on time, exactly if no
cooldown begins at a multiple of 2^32 ms and no comparison has a wrap of the clock between
its sides. -/
theorem cooldowns_on_time (i : Nat) (a1 : Chain) (uptime : Nat) (es : List Event) :
    Always (step i) (CountsAsDisabled i) (Timed.start a1 uptime) es ∧
        Guarded (step i) (CallRight i) (Timed.start a1 uptime) es ↔
      Always (step i) BeganOffZero (Timed.start a1 uptime) es ∧
        Guarded (step i) (CallTimely i) (Timed.start a1 uptime) es :=
  always_guarded_congr (fun s e next tracks taken => step_tracks i s e next tracks taken)
    (fun s tracks => countsAsDisabled_iff i s tracks)
    (fun s e next tracks off taken => callRight_iff i s e next tracks off taken)
      (start_tracks i a1 uptime) es

/-! A chain of one chip: 24 days and 20 hours after the start, the sum wraps below the
clock and the chip is probed in the millisecond of its cooldown. -/

def oneChip : Chain := ⟨[Source.ChipHealth.blankChip], 1, 1, 0, .zero, 6, 6⟩

def lastMs : Nat := 2 ^ 31 - 1

def sameMs : TimedReadings :=
  ⟨fun _ => ⟨lastMs, some (.zero 12), lastMs⟩, lastMs, lastMs, 1, fun _ => none⟩

theorem cooldown_skipped :
    ¬Guarded (step 0) (CallRight 0) (Timed.start oneChip 0) [.disableChip 1 lastMs,
      .checkDisabledChips sameMs] := by
  intro guarded
  obtain ⟨s, first, start⟩ : ∃ s, step 0 (Timed.start oneChip 0) (.disableChip 1 lastMs) = some s ∧
      s.began = some lastMs ∧ 0 < s.chain.numActiveChips ∧ Probed 0 s sameMs = true ∧
        (step 0 s (.checkDisabledChips sameMs)).isSome = true := ⟨_, rfl, by decide +kernel⟩
  obtain ⟨began, active, probed, enabled⟩ := start
  obtain ⟨next, second⟩ := Option.isSome_iff_exists.mp enabled
  have right := (((guarded s first).2) next second).1
  have due := (right.1 lastMs began active).mp probed
  exact absurd due (by decide)

end CgminerT4.Guarantees.CooldownTiming
