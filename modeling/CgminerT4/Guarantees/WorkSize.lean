import Mathlib.Tactic.Linarith
import CgminerT4.Source.WorkAdapt

/-!
# The arithmetic of the work size

In unbounded integers each case scales `max_nonce` by a fraction. The code
follows it in the slow case while the product fits the common type, in the third
case below 2^22, and in both if the result is not 0. In the fast case the
constant of the threshold itself wraps, and the threshold is 1024 times too low.
-/
namespace CgminerT4.Guarantees.WorkSize
open Library.TracedArith Source.WorkAdapt

/-- The times that `sdiff` takes on: no time, and more scans behind it. -/
inductive Measured : Timeval → Prop where
  | reset : Measured ⟨0, 0⟩
  | scan {sdiff diff : Timeval} (before : Measured sdiff) (sec : 0 ≤ diff.sec) (lower : 0 ≤
    diff.usec)
      (upper : diff.usec < 1000000) : Measured (sdiff.accumulate diff)

theorem measured_range {sdiff : Timeval} (measured : Measured sdiff) :
    0 ≤ sdiff.sec ∧ 0 ≤ sdiff.usec ∧ sdiff.usec ≤ 1000000 := by
  induction measured with
  | reset => decide
  | @scan sdiff diff before sec lower upper ih =>
    obtain ⟨first, second, third⟩ := ih
    unfold Timeval.accumulate
    dsimp only
    split
    · next carry =>
        exact ⟨show 0 ≤ sdiff.sec + diff.sec + 1 by omega, show 0 ≤
          sdiff.usec + diff.usec - 1000000 by omega,
        show sdiff.usec + diff.usec - 1000000 ≤ 1000000 by omega⟩
    · next fits =>
        exact ⟨show 0 ≤ sdiff.sec + diff.sec by omega, show 0 ≤ sdiff.usec + diff.usec by omega,
        show sdiff.usec + diff.usec ≤ 1000000 by omega⟩

/-- A round of hash_sole_work: the log interval, `max_nonce` and the measured time. -/
structure Round where
  dm : DataModel
  optLogInterval : Int
  maxNonce : Int
  sdiff : Timeval
  interval_range : 1 ≤ optLogInterval ∧ optLogInterval ≤ 9999
  nonce_range : 1 ≤ maxNonce ∧ maxNonce < 2 ^ 32
  measured : Measured sdiff
  sec_fits : sdiff.sec < 2 ^ dm.longValueBits

namespace Round

def cycle (r : Round) : Int := cycleOf r.optLogInterval

def next (r : Round) : Calc Int := nextMaxNonce r.dm r.cycle r.sdiff r.maxNonce

theorem cycle_eq (r : Round) : r.cycle = max 1 (r.optLogInterval / 5) := by
  have range := r.interval_range
  unfold cycle cycleOf
  split <;> omega

theorem cycle_range (r : Round) : 1 ≤ r.cycle ∧ r.cycle ≤ 1999 := by
  have range := r.interval_range
  rw [cycle_eq]
  omega

end Round

/-! ## The intended values -/

def multiplierValue (cycle usec : Int) : Int := (1000000 / ((usec + 1024) / 1024) + 16) * cycle

def ratioValue (cycle usec : Int) : Int := (cycle * 1000000 + usec) / (cycle * 1000000 / 1024)

/-- The new `max_nonce` in unbounded integers. -/
def intended (cycle : Int) (sdiff : Timeval) (maxNonce : Int) : Int :=
  if sdiff.sec < cycle then min 0xffffffff (maxNonce * multiplierValue cycle sdiff.usec / 1024)
  else if sdiff.sec > cycle then maxNonce * cycle / sdiff.sec
  else if sdiff.usec > 100000 then maxNonce * 1024 / ratioValue cycle sdiff.usec
  else maxNonce

/-- The intended value, reached exactly and not 0. -/
def Adapts (r : Round) : Prop :=
  r.next.value = intended r.cycle r.sdiff r.maxNonce ∧ r.next.exact = true ∧ r.next.value ≠ 0

/-- Products below the size of the common type, in the slow case. -/
def commonSize : DataModel → Int
  | .ilp32 => 2 ^ 32
  | .lp64 => 2 ^ 63

/-- When the arithmetic is right. -/
def Suits (r : Round) : Prop :=
  if r.sdiff.sec < r.cycle then r.maxNonce = 0xffffffff
  else if r.sdiff.sec > r.cycle then
    r.sdiff.sec ≤ r.maxNonce * r.cycle ∧ r.maxNonce * r.cycle < commonSize r.dm
  else if r.sdiff.usec > 100000 then
    r.maxNonce < 2 ^ 22 ∧
      r.cycle * 1000000 + r.sdiff.usec < (r.maxNonce * 1024 + 1) * (r.cycle * 1000000 / 1024)
  else True

theorem long_of_fits (dm : DataModel) {n : Int} (nonnegative : 0 ≤ n) (fits : n < 2 ^ 31) :
    dm.long n = ⟨n, true⟩ := by
  unfold DataModel.long
  cases dm with
  | ilp32 => exact signed_of_fits nonnegative fits
  | lp64 => exact signed_of_fits nonnegative (lt_of_lt_of_le fits (by decide))

theorem common_of_fits (dm : DataModel) {n : Int} (nonnegative : 0 ≤ n) (fits : n < commonSize dm) :
    dm.common n = ⟨n, true⟩ := by
  unfold DataModel.common
  cases dm with
  | ilp32 => exact unsigned_of_fits nonnegative fits
  | lp64 => exact signed_of_fits nonnegative fits

theorem commonSize_ge (dm : DataModel) : 2 ^ 32 ≤ commonSize dm := by
  cases dm <;> decide

theorem longSize_le (dm : DataModel) : 2 ^ dm.longValueBits ≤ commonSize dm := by
  cases dm <;> decide

theorem exact_common_iff (dm : DataModel) {n : Int} (nonnegative : 0 ≤ n) :
    (dm.common n).exact = true ↔ n < commonSize dm := by
  unfold DataModel.common
  cases dm with
  | ilp32 => exact exact_unsigned_iff nonnegative
  | lp64 => exact exact_signed_iff nonnegative

/-! ## The multiplier and the ratio fit an int -/

/-- The microseconds in units of 1024. -/
theorem units_range {usec : Int} (lower : 0 ≤ usec) (upper : usec ≤ 1000000) :
    1 ≤ (usec + 1024) / 1024 ∧ (usec + 1024) / 1024 ≤ 977 := by omega

theorem quotient_range {d : Int} (lower : 1 ≤ d) (upper : d ≤ 977) :
    1023 ≤ 1000000 / d ∧ 1000000 / d ≤ 1000000 := by
  constructor
  · rw [Int.le_ediv_iff_mul_le (by omega)]
    omega
  · exact Int.ediv_le_self d (by decide)

theorem multiplierValue_range {cycle usec : Int} (cycle_range : 1 ≤ cycle ∧ cycle ≤ 1999)
    (lower : 0 ≤ usec) (upper : usec ≤ 1000000) :
    1039 ≤ multiplierValue cycle usec ∧ multiplierValue cycle usec < 2 ^ 31 := by
  obtain ⟨units_pos, units_le⟩ := units_range lower upper
  obtain ⟨above, below⟩ := quotient_range units_pos units_le
  unfold multiplierValue
  constructor
  · nlinarith
  · nlinarith

theorem multiplier_eq (dm : DataModel) {cycle usec : Int} (cycle_range : 1 ≤ cycle ∧ cycle ≤ 1999)
    (lower : 0 ≤ usec) (upper : usec ≤ 1000000) :
    multiplier dm cycle usec = ⟨multiplierValue cycle usec, true⟩ := by
  obtain ⟨units_pos, units_le⟩ := units_range lower upper
  obtain ⟨above, below⟩ := quotient_range units_pos units_le
  obtain ⟨least, greatest⟩ := multiplierValue_range cycle_range lower upper
  have units : dm.long (usec + 0x400) = ⟨usec + 1024, true⟩ := long_of_fits dm (by omega) (by omega)
  have divided : quotient (usec + 1024) 0x400 = ⟨(usec + 1024) / 1024, true⟩ :=
    quotient_of_pos (by omega) (by omega)
  have rate : quotient 1000000 ((usec + 1024) / 1024) = ⟨1000000 / ((usec + 1024) / 1024), true⟩ :=
    quotient_of_pos (by omega) (by omega)
  have sum : dm.long (1000000 / ((usec + 1024) / 1024) + 0x10) =
      ⟨1000000 / ((usec + 1024) / 1024) + 16, true⟩ :=
    long_of_fits dm (by omega) (by omega)
  have narrow : signed 32 (1000000 / ((usec + 1024) / 1024) + 16) =
      ⟨1000000 / ((usec + 1024) / 1024) + 16, true⟩ :=
    signed_of_fits (by omega) (by omega)
  have product : dm.long (multiplierValue cycle usec) = ⟨multiplierValue cycle usec, true⟩ :=
    long_of_fits dm (by omega) greatest
  have stored : signed 32 (multiplierValue cycle usec) = ⟨multiplierValue cycle usec, true⟩ :=
    signed_of_fits (by omega) greatest
  unfold multiplierValue at product stored ⊢
  simp only [multiplier, bind, units, divided, rate, sum, narrow, product, stored, Bool.true_and]

theorem ratioUnit_pos {cycle : Int} (positive : 1 ≤ cycle) :
    976 ≤ cycle * 1000000 / 1024 := by omega

theorem ratioValue_range {cycle usec : Int} (cycle_range : 1 ≤ cycle ∧ cycle ≤ 1999)
    (lower : 0 ≤ usec) (upper : usec ≤ 1000000) :
    1024 ≤ ratioValue cycle usec ∧ ratioValue cycle usec < 2 ^ 31 := by
  obtain ⟨positive, least⟩ := cycle_range
  have unit := ratioUnit_pos positive
  unfold ratioValue
  constructor
  · rw [Int.le_ediv_iff_mul_le (by omega)]
    omega
  · exact lt_of_le_of_lt (Int.ediv_le_self _ (by omega)) (by omega)

theorem ratio_eq (dm : DataModel) {cycle usec : Int} (cycle_range : 1 ≤ cycle ∧ cycle ≤ 1999)
    (lower : 0 ≤ usec) (upper : usec ≤ 1000000) :
    ratio dm cycle usec = ⟨ratioValue cycle usec, true⟩ := by
  have unit_pos := ratioUnit_pos cycle_range.1
  have period : dm.long (cycle * 1000000) = ⟨cycle * 1000000, true⟩ :=
    long_of_fits dm (by omega) (by omega)
  have total : dm.long (cycle * 1000000 + usec) = ⟨cycle * 1000000 + usec, true⟩ :=
    long_of_fits dm (by omega) (by omega)
  have unit : quotient (cycle * 1000000) 0x400 = ⟨cycle * 1000000 / 1024, true⟩ :=
    quotient_of_pos (by omega) (by omega)
  have divided : quotient (cycle * 1000000 + usec) (cycle * 1000000 / 1024) =
      ⟨ratioValue cycle usec, true⟩ :=
    quotient_of_pos (by omega) (by omega)
  simp only [ratio, bind, period, total, unit, divided, Bool.true_and]

/-! ## The three cases -/

/-- The threshold of the fast case is a constant that does not fit. -/
theorem threshold_wraps : unsigned 32 (0xffffffff * 0x400) = ⟨0xfffffc00, false⟩ := by decide

theorem fast_inexact (dm : DataModel) {cycle usec maxNonce : Int} (other : maxNonce ≠ 0xffffffff) :
    ¬(fastNonce dm cycle usec maxNonce).exact = true := by
  intro exact
  unfold fastNonce at exact
  rw [if_neg other, Calc.exact_bind, threshold_wraps] at exact
  rw [Calc.exact_bind] at exact
  exact absurd exact.2.1 (by decide)

theorem fast_value (dm : DataModel) {cycle usec maxNonce : Int}
    (cycle_range : 1 ≤ cycle ∧ cycle ≤ 1999) (lower : 0 ≤ usec) (upper : usec ≤ 1000000)
    (nonnegative : 0 ≤ maxNonce) (other : maxNonce ≠ 0xffffffff) :
    (fastNonce dm cycle usec maxNonce).value =
      if maxNonce * multiplierValue cycle usec > 0xfffffc00 then 0xffffffff
      else maxNonce * multiplierValue cycle usec / 1024 := by
  obtain ⟨least, greatest⟩ := multiplierValue_range cycle_range lower upper
  have factor : unsigned 32 (multiplierValue cycle usec) = ⟨multiplierValue cycle usec, true⟩ :=
    unsigned_of_fits (by omega) (lt_trans greatest (by decide))
  have limit : quotient 0xfffffc00 (multiplierValue cycle usec) =
      ⟨0xfffffc00 / multiplierValue cycle usec, true⟩ :=
    quotient_of_pos (by decide) (by omega)
  have scaled_nonneg : 0 ≤ maxNonce * multiplierValue cycle usec :=
    Int.mul_nonneg nonnegative (by omega)
  have compare : maxNonce > 0xfffffc00 / multiplierValue cycle usec ↔
      maxNonce * multiplierValue cycle usec > 0xfffffc00 :=
    Int.ediv_lt_iff_lt_mul (by omega)
  unfold fastNonce
  rw [if_neg other]
  simp only [Calc.value_bind, multiplier_eq dm cycle_range lower upper, threshold_wraps, factor,
    limit, compare]
  split
  · rfl
  · next fits =>
    rw [Calc.value_bind, unsigned_of_fits scaled_nonneg (by omega),
      quotient_of_pos scaled_nonneg (by decide)]

/-- The value of the fast case alone is the intended one below the wrapped threshold and
from the intended one on. -/
theorem fast_value_iff (dm : DataModel) {cycle usec maxNonce : Int}
    (cycle_range : 1 ≤ cycle ∧ cycle ≤ 1999) (lower : 0 ≤ usec) (upper : usec ≤ 1000000)
    (nonnegative : 0 ≤ maxNonce) (other : maxNonce ≠ 0xffffffff) :
    (fastNonce dm cycle usec maxNonce).value =
      min 0xffffffff (maxNonce * multiplierValue cycle usec / 1024) ↔
      maxNonce * multiplierValue cycle usec ≤ 0xfffffc00 ∨
        0xffffffff * 1024 ≤ maxNonce * multiplierValue cycle usec := by
  rw [fast_value dm cycle_range lower upper nonnegative other]
  split <;> omega

theorem fast_iff (dm : DataModel) {cycle usec maxNonce : Int}
    (cycle_range : 1 ≤ cycle ∧ cycle ≤ 1999) (lower : 0 ≤ usec) (upper : usec ≤ 1000000) :
    ((fastNonce dm cycle usec maxNonce).value =
      min 0xffffffff (maxNonce * multiplierValue cycle usec / 1024) ∧
      (fastNonce dm cycle usec maxNonce).exact = true ∧
        (fastNonce dm cycle usec maxNonce).value ≠ 0) ↔
      maxNonce = 0xffffffff := by
  constructor
  · rintro ⟨_, exact, _⟩
    by_contra other
    exact fast_inexact dm other exact
  · rintro rfl
    have kept : fastNonce dm cycle usec 0xffffffff = ⟨0xffffffff, true⟩ := if_pos rfl
    obtain ⟨least, _⟩ := multiplierValue_range cycle_range lower upper
    rw [kept]
    exact ⟨by simp only; omega, rfl, by decide⟩

theorem slow_iff (dm : DataModel) {cycle sec maxNonce : Int}
    (cycle_range : 1 ≤ cycle ∧ cycle ≤ 1999) (slow : cycle < sec)
    (sec_fits : sec < commonSize dm) (nonnegative : 0 ≤ maxNonce) (nonce_fits : maxNonce < 2 ^ 32) :
    ((slowNonce dm cycle sec maxNonce).value = maxNonce * cycle / sec ∧
      (slowNonce dm cycle sec maxNonce).exact = true ∧
      (slowNonce dm cycle sec maxNonce).value ≠ 0) ↔
      sec ≤ maxNonce * cycle ∧ maxNonce * cycle < commonSize dm := by
  have size := commonSize_ge dm
  have product_nonneg : 0 ≤ maxNonce * cycle := Int.mul_nonneg nonnegative (by omega)
  have nonce : dm.common maxNonce = ⟨maxNonce, true⟩ := common_of_fits dm nonnegative (by omega)
  have factor : dm.common cycle = ⟨cycle, true⟩ := common_of_fits dm (by omega) (by omega)
  have divisor : dm.common sec = ⟨sec, true⟩ := common_of_fits dm (by omega) sec_fits
  by_cases fits : maxNonce * cycle < commonSize dm
  · have below : maxNonce * cycle / sec < 2 ^ 32 := by
      have : maxNonce * cycle ≤ maxNonce * sec :=
        Int.mul_le_mul_of_nonneg_left (by omega) nonnegative
      have := Int.ediv_le_of_le_mul (show 0 < sec by omega) this
      omega
    have exact : slowNonce dm cycle sec maxNonce = ⟨maxNonce * cycle / sec, true⟩ := by
      simp only [slowNonce, bind, nonce, factor, divisor, common_of_fits dm product_nonneg fits,
        quotient_of_pos product_nonneg (show 0 < sec by omega),
        unsigned_of_fits (Int.ediv_nonneg product_nonneg (show 0 ≤ sec by omega)) below,
        Bool.true_and]
    have reached : maxNonce * cycle / sec ≠ 0 ↔ sec ≤ maxNonce * cycle :=
      ediv_ne_zero_iff product_nonneg (by omega)
    rw [exact]
    exact ⟨fun right => ⟨reached.mp right.2.2, fits⟩, fun suits => ⟨rfl, rfl, reached.mpr suits.1⟩⟩
  · refine ⟨fun right => ?_, fun suits => absurd suits.2 fits⟩
    have exact := right.2.1
    unfold slowNonce at exact
    simp only [Calc.exact_bind, nonce, factor] at exact
    exact absurd ((exact_common_iff dm product_nonneg).mp exact.2.2.1) fits

theorem late_iff (dm : DataModel) {cycle usec maxNonce : Int}
    (cycle_range : 1 ≤ cycle ∧ cycle ≤ 1999) (lower : 0 ≤ usec) (upper : usec ≤ 1000000)
    (nonnegative : 0 ≤ maxNonce) :
    ((lateNonce dm cycle usec maxNonce).value = maxNonce * 1024 / ratioValue cycle usec ∧
      (lateNonce dm cycle usec maxNonce).exact = true ∧
        (lateNonce dm cycle usec maxNonce).value ≠ 0) ↔
      maxNonce < 2 ^ 22 ∧
        cycle * 1000000 + usec < (maxNonce * 1024 + 1) * (cycle * 1000000 / 1024) := by
  have size := commonSize_ge dm
  have scaled_nonneg : 0 ≤ maxNonce * 1024 := by omega
  obtain ⟨least, greatest⟩ := ratioValue_range cycle_range lower upper
  by_cases fits : maxNonce < 2 ^ 22
  · have below : maxNonce * 1024 / ratioValue cycle usec < 2 ^ 32 :=
      lt_of_le_of_lt (Int.ediv_le_self _ scaled_nonneg) (by omega)
    have exact : lateNonce dm cycle usec maxNonce =
        ⟨maxNonce * 1024 / ratioValue cycle usec, true⟩ := by
      simp only [lateNonce, bind,
        unsigned_of_fits scaled_nonneg (show maxNonce * 0x400 < 2 ^ 32 by omega),
        ratio_eq dm cycle_range lower upper,
        common_of_fits dm scaled_nonneg (show maxNonce * 0x400 < commonSize dm by omega),
        common_of_fits dm (show 0 ≤ ratioValue cycle usec by omega) (show ratioValue cycle usec <
        commonSize dm by omega),
        quotient_of_pos scaled_nonneg (show 0 < ratioValue cycle usec by omega),
        unsigned_of_fits (Int.ediv_nonneg scaled_nonneg (show 0 ≤ ratioValue cycle usec by omega))
        below, Bool.true_and]
    have reached : maxNonce * 1024 / ratioValue cycle usec ≠ 0 ↔
        cycle * 1000000 + usec < (maxNonce * 1024 + 1) * (cycle * 1000000 / 1024) := by
      have unit_pos := ratioUnit_pos cycle_range.1
      have smaller : ratioValue cycle usec < maxNonce * 1024 + 1 ↔
          cycle * 1000000 + usec < (maxNonce * 1024 + 1) * (cycle * 1000000 / 1024) :=
            Int.ediv_lt_iff_lt_mul (by omega)
      rw [ediv_ne_zero_iff scaled_nonneg (by omega), ← smaller]
      omega
    rw [exact]
    exact ⟨fun right => ⟨fits, reached.mp right.2.2⟩, fun suits => ⟨rfl, rfl, reached.mpr suits.2⟩⟩
  · refine ⟨fun right => ?_, fun suits => absurd suits.1 fits⟩
    have exact := right.2.1
    unfold lateNonce at exact
    rw [Calc.exact_bind, exact_unsigned_iff scaled_nonneg] at exact
    exact absurd exact.1 (by omega)

/-- The new `max_nonce` is the intended one, computed without a wrap and not 0, exactly if
the round suits. -/
theorem adapts_iff_suits (r : Round) : Adapts r ↔ Suits r := by
  have cycle_range := r.cycle_range
  obtain ⟨sec_nonneg, lower, upper⟩ := measured_range r.measured
  obtain ⟨positive, nonce_fits⟩ := r.nonce_range
  unfold Adapts Suits Round.next nextMaxNonce intended
  split
  · exact fast_iff r.dm cycle_range lower upper
  · split
    · next slow =>
        exact slow_iff r.dm cycle_range slow (lt_of_lt_of_le r.sec_fits (longSize_le r.dm))
          (by omega) nonce_fits
    · split
      · exact late_iff r.dm cycle_range lower upper (by omega)
      · exact iff_of_true ⟨rfl, rfl, show r.maxNonce ≠ 0 by omega⟩ trivial

/-- A scan of one millisecond on a system with a 64 bit long: 5000 becomes 2^32 - 1 instead
of 4882890. -/
def fastRound : Round where
  dm := .lp64
  optLogInterval := 5
  maxNonce := 5000
  sdiff := ⟨0, 1000⟩
  interval_range := by decide
  nonce_range := by decide
  measured := @Measured.scan ⟨0, 0⟩ ⟨0, 1000⟩ .reset (by decide) (by decide) (by decide)
  sec_fits := by decide

theorem fastRound_jumps :
    fastRound.next.value = 0xffffffff ∧
      intended fastRound.cycle fastRound.sdiff fastRound.maxNonce = 4882890 ∧
      ¬Adapts fastRound := by
  have value : fastRound.next.value = 0xffffffff := by decide
  have right : intended fastRound.cycle fastRound.sdiff fastRound.maxNonce = 4882890 := by decide
  refine ⟨value, right, fun adapts => ?_⟩
  rw [Adapts, value, right] at adapts
  exact absurd adapts.1 (by decide)

end CgminerT4.Guarantees.WorkSize
