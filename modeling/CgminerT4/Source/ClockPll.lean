import CgminerT4.Library.SignedInt

/-!
# Clock settings of a chip (t4_clock.c)

The speeds of `PLL_Clk_12Mhz` and the functions between an index of the table
and a speed. The register words of the table and the log are left out. `A1Pll`
starts with whatever its place on the stack holds.
-/
namespace CgminerT4.Source.ClockPll
open Library.SignedInt

def pllClocks : Nat := 118

/-- The field speedMHz of PLL_Clk_12Mhz. -/
def pllClk12Mhz : List Nat :=
  [120, 125, 129, 140, 150, 159, 171, 180, 189, 201, 210, 219, 231, 240, 249, 261, 270, 279, 291,
    300, 312, 318, 330, 342, 348, 360, 372, 378, 390, 402, 408, 420, 432, 438, 450, 462, 468, 480,
    492, 498, 510, 522, 528, 540, 552, 558, 570, 582, 588, 600, 612, 624, 630, 636, 648, 660, 672,
    684, 690, 696, 708, 720, 732, 744, 750, 756, 768, 780, 792, 804, 810, 816, 828, 840, 852, 864,
    870, 876, 888, 900, 912, 924, 930, 936, 948, 960, 972, 984, 990, 996, 1008, 1020, 1032, 1044,
    1050, 1056, 1068, 1080, 1092, 1104, 1110, 1116, 1128, 1140, 1152, 1164, 1170, 1176, 1188,
    1200, 1212, 1224, 1236, 1248, 1260, 1272, 1284, 1296]

/-- Nothing for an index outside the table. -/
def axClockIndex2pll (pllClkIdx : Int) : Option Nat :=
  if 0 ≤ pllClkIdx then pllClk12Mhz[pllClkIdx.toNat]? else none

/-- The loop condition at `i`; `optPll` is compared as an unsigned number. -/
def bracketed (optPll : Nat) (i : Nat) : Bool :=
  match pllClk12Mhz[i - 1]?, pllClk12Mhz[i]? with
  | some low, some high => optPll < high && optPll ≥ low
  | _, _ => false

/-- `stack` is the value A1Pll starts with. -/
def axClockPll2index (stack optPll : CInt) : Int :=
  if optPll.val > 0 then
    let opt := optPll.val.toNat
    if opt ≤ (pllClk12Mhz[0]?).getD 0 then 0
    else
      match (List.range' 1 (pllClocks - 1)).find? (bracketed opt) with
      | some i => i - 1
      | none => 0
  else stack.val

end CgminerT4.Source.ClockPll
