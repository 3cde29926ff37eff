import Mathlib.Data.Int.Order.Basic
import Mathlib.Order.MinMax
import CgminerT4.Library.SortedTable
import CgminerT4.Source.ClockPll

/-!
# The PLL index of a speed

Between the first entry and below the last one the bracket search finds the
greatest entry that is not above the speed. From the last entry on no bracket is
left and the search answers 0; without a positive speed the answer is whatever
the stack holds.
-/
namespace CgminerT4.Guarantees.PllLookup
open Library.SignedInt Library.SortedTable Source.ClockPll

/-- The table as numbers that compare with any int. -/
def speeds : List Int := pllClk12Mhz.map Int.ofNat

/-- The place of the greatest speed that is at most `optPll`, and 0 below the first one. -/
def IsPllIndex (optPll index : Int) : Prop :=
  if optPll < 120 then index = 0 else ∃ i : Nat, index = i ∧ Floor speeds optPll i

theorem pllClk12Mhz_length : pllClk12Mhz.length = pllClocks := by decide

theorem pllClk12Mhz_sorted : pllClk12Mhz.Pairwise (· < ·) := by
  rw [← List.isChain_iff_pairwise]
  decide +kernel

theorem speeds_sorted : speeds.Pairwise (· < ·) := by
  unfold speeds
  rw [List.pairwise_map]
  exact pllClk12Mhz_sorted.imp fun below => Int.ofNat_lt.mpr below

theorem speeds_first : speeds[0]? = some 120 := by decide

theorem speeds_last : speeds[117]? = some 1296 := by decide

theorem speeds_get (i : Nat) : speeds[i]? = (pllClk12Mhz[i]?).map Int.ofNat := List.getElem?_map

/-- No entry is above the last one. -/
theorem speed_le {i : Nat} {speed : Int} (at_speed : speeds[i]? = some speed) : speed ≤ 1296 := by
  obtain ⟨inside, _⟩ := List.getElem?_eq_some_iff.mp at_speed
  have short : i < 118 := by
    unfold speeds at inside
    rw [List.length_map, pllClk12Mhz_length] at inside
    exact inside
  by_cases last : i = 117
  · rw [last, speeds_last] at at_speed
    exact le_of_eq (Option.some.inj at_speed).symm
  · exact le_of_lt (entry_lt speeds_sorted (show i < 117 by omega) at_speed speeds_last)

theorem bracketed_iff (opt i : Nat) (positive : 1 ≤ i) :
    bracketed opt i = true ↔ Between speeds opt (i - 1) := by
  unfold bracketed Between
  rw [speeds_get, speeds_get, show i - 1 + 1 = i by omega]
  cases pllClk12Mhz[i - 1]? with
  | none => simp
  | some low =>
    cases pllClk12Mhz[i]? with
    | none => simp
    | some high =>
      simp only [ge_iff_le, Bool.and_eq_true, decide_eq_true_eq, Option.map_some, Option.some.injEq]
      constructor
      · rintro ⟨upper, lower⟩
        exact ⟨low, high, rfl, rfl, Int.ofNat_le.mpr lower, Int.ofNat_lt.mpr upper⟩
      · rintro ⟨_, _, rfl, rfl, lower, upper⟩
        exact ⟨Int.ofNat_lt.mp upper, Int.ofNat_le.mp lower⟩

/-! ## The cases of the search -/

theorem pll2index_low {stack optPll : CInt} (positive : 0 < optPll.val) (low : optPll.val ≤ 120) :
    axClockPll2index stack optPll = 0 := by
  unfold axClockPll2index
  rw [if_pos positive]
  exact if_pos (show optPll.val.toNat ≤ 120 by omega)

theorem pll2index_search {stack optPll : CInt} (high : 120 < optPll.val) :
    axClockPll2index stack optPll =
      match (List.range' 1 (pllClocks - 1)).find? (bracketed optPll.val.toNat) with
      | some i => (i : Int) - 1
      | none => 0 := by
  unfold axClockPll2index
  rw [if_pos (by omega)]
  exact if_neg (show ¬optPll.val.toNat ≤ 120 by omega)

theorem pll2index_inside {stack optPll : CInt} (high : 120 < optPll.val)
    (below : optPll.val < 1296) :
    ∃ i : Nat, axClockPll2index stack optPll = i ∧ Floor speeds optPll.val i := by
  have same : ((optPll.val.toNat : Nat) : Int) = optPll.val := by omega
  rw [pll2index_search high]
  cases found : (List.range' 1 (pllClocks - 1)).find? (bracketed optPll.val.toNat) with
  | some i =>
    have positive : 1 ≤ i := (List.mem_range'_1.mp (List.mem_of_find?_eq_some found)).1
    have between := (bracketed_iff _ i positive).mp (List.find?_some found)
    rw [same] at between
    exact ⟨i - 1, by simp only; omega, floor_of_between speeds_sorted between⟩
  | none =>
    obtain ⟨i, short, between⟩ := between_exists speeds_first (le_of_lt high) speeds_last below
    have member : i + 1 ∈ List.range' 1 (pllClocks - 1) :=
      List.mem_range'_1.mpr ⟨by omega, by unfold pllClocks; omega⟩
    have missed := List.find?_eq_none.mp found (i + 1) member
    rw [bracketed_iff _ _ (by omega), same] at missed
    exact absurd between missed

theorem pll2index_above {stack optPll : CInt} (above : 1296 ≤ optPll.val) :
    axClockPll2index stack optPll = 0 := by
  rw [pll2index_search (by omega)]
  have none_found : (List.range' 1 (pllClocks - 1)).find? (bracketed optPll.val.toNat) = none := by
    rw [List.find?_eq_none]
    intro i member
    rw [bracketed_iff _ i (List.mem_range'_1.mp member).1]
    rintro ⟨low, high, _, at_high, _, upper⟩
    have := speed_le at_high
    omega
  rw [none_found]

theorem pll2index_floor {stack optPll : CInt} (low : 120 ≤ optPll.val) (below : optPll.val < 1296) :
    ∃ i : Nat, axClockPll2index stack optPll = i ∧ Floor speeds optPll.val i := by
  rcases eq_or_lt_of_le low with first | high
  · refine ⟨0, pll2index_low (by omega) (by omega), ?_⟩
    rw [← first]
    exact floor_entry speeds_first
  · exact pll2index_inside high below

theorem pll2index_correct {stack optPll : CInt} (positive : 0 < optPll.val)
    (below : optPll.val < 1296) :
    IsPllIndex optPll.val (axClockPll2index stack optPll) := by
  unfold IsPllIndex
  split
  · next low => exact pll2index_low positive (by omega)
  · next high => exact pll2index_floor (by omega) below

/-- From the last entry on the index should be that of the last entry. -/
theorem isPllIndex_last {optPll index : Int} (above : 1296 ≤ optPll)
    (correct : IsPllIndex optPll index) : index = 117 := by
  unfold IsPllIndex at correct
  rw [if_neg (by omega)] at correct
  obtain ⟨i, rfl, floor⟩ := correct
  have last : Floor speeds optPll 117 :=
    ⟨1296, speeds_last, above, fun _ _ at_other _ => speed_le at_other⟩
  rw [floor_unique speeds_sorted floor last]
  rfl

theorem isPllIndex_mono {v w i j : Int} (order : v ≤ w) (first : IsPllIndex v i)
    (second : IsPllIndex w j) : i ≤ j := by
  unfold IsPllIndex at first second
  split at first <;> split at second
  · omega
  · obtain ⟨n, rfl, _⟩ := second
    omega
  · omega
  · obtain ⟨m, rfl, floor_v⟩ := first
    obtain ⟨n, rfl, floor_w⟩ := second
    exact Int.ofNat_le.mpr (floor_mono speeds_sorted order floor_v floor_w)

theorem index2pll_nat (i : Nat) : axClockIndex2pll i = pllClk12Mhz[i]? := by
  unfold axClockIndex2pll
  rw [if_pos (by omega)]
  rfl

theorem isPllIndex_speed {v i : Int} (correct : IsPllIndex v i) :
    ∃ speed, axClockIndex2pll i = some speed ∧ (speed : Int) ≤ max v 120 := by
  unfold IsPllIndex at correct
  split at correct
  · subst correct
    exact ⟨120, rfl, le_max_right v 120⟩
  · obtain ⟨n, rfl, entry, at_entry, lower, _⟩ := correct
    rw [speeds_get] at at_entry
    obtain ⟨speed, at_speed, rfl⟩ := Option.map_eq_some_iff.mp at_entry
    exact ⟨speed, by rw [index2pll_nat, at_speed], le_max_of_le_left lower⟩

theorem isPllIndex_inverse {v i j : Int} (correct : IsPllIndex v i)
    (back : (axClockIndex2pll j).map Int.ofNat = some v) : i = j := by
  by_cases negative : j < 0
  · unfold axClockIndex2pll at back
    rw [if_neg (by omega)] at back
    cases back
  · obtain ⟨n, rfl⟩ := Int.eq_ofNat_of_zero_le (show 0 ≤ j by omega)
    rw [index2pll_nat, ← speeds_get] at back
    have floor := floor_entry back
    unfold IsPllIndex at correct
    split at correct
    · next low => exact absurd (place_le speeds_sorted (le_of_lt low) back speeds_first) (by
        intro first
        have zero : n = 0 := by omega
        rw [zero, speeds_first] at back
        have := Option.some.inj back
        omega)
    · obtain ⟨m, rfl, other⟩ := correct
      rw [floor_unique speeds_sorted other floor]

/-- What the lookup promises for a set of speeds: the right index for each of them, and with it
the order, the bound and the way back from an index whose speed is in the set. -/
structure LookupOn (P : CInt → Prop) : Prop where
  index : ∀ stack optPll, P optPll → IsPllIndex optPll.val (axClockPll2index stack optPll)
  mono : ∀ stack stack' v w, P v → P w → v.val ≤ w.val →
    axClockPll2index stack v ≤ axClockPll2index stack' w
  bounded : ∀ stack v, P v →
    ∃ speed, axClockIndex2pll (axClockPll2index stack v) = some speed ∧
      (speed : Int) ≤ max v.val 120
  inverse : ∀ stack v i, P v → (axClockIndex2pll i).map Int.ofNat = some v.val →
    axClockPll2index stack v = i

/-- The lookup meets its description on a set of speeds exactly if all of
them are positive and below the last entry. -/
theorem lookupOn_iff (P : CInt → Prop) : LookupOn P ↔ ∀ v, P v → 0 < v.val ∧ v.val < 1296 := by
  constructor
  · intro lookup v member
    refine ⟨?_, ?_⟩
    · by_contra nonpositive
      have one : (⟨1, by decide, by decide⟩ : CInt).val = 1 := rfl
      have correct := lookup.index ⟨1, by decide, by decide⟩ v member
      unfold IsPllIndex axClockPll2index at correct
      rw [if_pos (by omega), if_neg nonpositive, one] at correct
      exact absurd correct (by decide)
    · by_contra above
      have correct := lookup.index .zero v member
      rw [pll2index_above (by omega)] at correct
      exact absurd (isPllIndex_last (by omega) correct) (by decide)
  · intro inside
    have index (stack v : CInt) (member : P v) : IsPllIndex v.val (axClockPll2index stack v) :=
      pll2index_correct (inside v member).1 (inside v member).2
    exact ⟨index, fun stack stack' v w at_v at_w order =>
      isPllIndex_mono order (index stack v at_v) (index stack' w at_w),
      fun stack v member => isPllIndex_speed (index stack v member),
      fun stack v i member back => isPllIndex_inverse (index stack v member) back⟩

/-- The last entry of the table itself is looked up as the first one. -/
theorem last_speed_not_found :
    ¬IsPllIndex 1296 (axClockPll2index .zero ⟨1296, by decide, by decide⟩) ∧
      axClockIndex2pll (axClockPll2index .zero ⟨1296, by decide, by decide⟩) = some 120 := by
  have index : axClockPll2index .zero ⟨1296, by decide, by decide⟩ = 0 :=
    pll2index_above (le_refl 1296)
  rw [index]
  exact ⟨fun correct => absurd (isPllIndex_last (le_refl 1296) correct) (by decide), rfl⟩

end CgminerT4.Guarantees.PllLookup
