import CgminerT4.Guarantees.HeightPush
import CgminerT4.Guarantees.SoloCoinbase
import CgminerT4.Source.SeenBlocks

/-!
# The height that is read back

test_work_current takes the byte at offset 42 for the length of a push and reads
what follows as a little-endian number. That is where gbt_solo_decode puts the
bytes of ser_number, behind the 41 bytes of the prefix and the length of the
script, and no generated work moves them. Mandatory work is not looked at.
-/
namespace CgminerT4.Guarantees.BlockHeight
open Library.ByteString Library.Runs Source.Jansson Source.GbtMerkle Source.GbtTemplate
  Source.SeenBlocks
open HeightPush SoloTemplate SoloCoinbase

/-- The bytes stand at offset 42. -/
def Carries (coinbase push : Bytes) : Prop := (coinbase.drop 42).take push.length = push

/-- Every test of a work of a pool with this coinbase ends, and unless the work is
mandatory it leaves the pool at the height below `height`. -/
def Finds (coinbase : Bytes) (height : Nat) : Prop :=
  ∀ s (pool : CheckedPool) (work : CheckedWork) preferred, pool.coinbase = coinbase →
    ∃ after, testWorkCurrent s pool work preferred = some after ∧
      after.pool.currentHeight.toNat =
        if work.mandatory then pool.currentHeight.toNat else height - 1

/-! ## Reading -/

theorem newBlock_height (s : Seen) (pool : CheckedPool) (work : CheckedWork) :
    (newBlock s pool work).pool.currentHeight = pool.currentHeight := by
  unfold newBlock
  dsimp only
  split <;> rfl

theorem knownBlock_height (s : Seen) (pool : CheckedPool) (work : CheckedWork) (preferred : Bool) :
    (knownBlock s pool work preferred).pool.currentHeight = pool.currentHeight := by
  unfold knownBlock
  dsimp only
  split <;> split <;> rfl

/-- What stands behind the length byte is the height. -/
theorem testWorkCurrent_height (coinbase : Bytes) (size : UInt8) (height : UInt32)
    (there : coinbase[42]? = some size) (found : cbHeight coinbase size = some height) (s : Seen)
    (pool : CheckedPool) (work : CheckedWork) (preferred : Bool) (same : pool.coinbase = coinbase) :
    ∃ after, testWorkCurrent s pool work preferred = some after ∧
      after.pool.currentHeight = if work.mandatory then pool.currentHeight else height := by
  unfold testWorkCurrent
  rw [same, there, Option.bind_some]
  by_cases skipped : work.mandatory = true
  · rw [if_pos skipped, if_pos skipped]
    exact ⟨_, rfl, rfl⟩
  · rw [if_neg skipped, if_neg skipped, found, Option.map_some]
    refine ⟨_, rfl, ?_⟩
    dsimp only
    split
    · exact newBlock_height _ _ _
    · exact knownBlock_height _ _ _ _

/-- A number of at most four bytes, less one. -/
theorem height_of_bytes (height : Nat) (positive : 1 ≤ height) (range : height < 2 ^ 32) :
    (UInt32.ofNat height - 1).toNat = height - 1 := by
  have one : (1 : UInt32) ≤ UInt32.ofNat height := by
    rw [UInt32.le_iff_toNat_le,
      UInt32.toNat_ofNat_of_lt' (show height < UInt32.size by exact range)]
    exact positive
  rw [UInt32.toNat_sub_of_le _ _ one,
    UInt32.toNat_ofNat_of_lt' (show height < UInt32.size by exact range)]
  rfl

theorem cbHeight_push (coinbase : Bytes) (k height : Nat) (few : k ≤ 4) (holds : height < 256 ^ k)
    (carries : Carries coinbase (UInt8.ofNat k :: littleEndian k height)) :
    coinbase[42]? = some (UInt8.ofNat k) ∧
      cbHeight coinbase (UInt8.ofNat k) = some (UInt32.ofNat height - 1) := by
  have value : (UInt8.ofNat k).toNat = k := UInt8.toNat_ofNat_of_lt' (by rw [UInt8.size]; omega)
  unfold Carries at carries
  rw [List.length_cons, length_littleEndian] at carries
  have long : k + 43 ≤ coinbase.length := by
    have sizes := congrArg List.length carries
    rw [List.length_take, List.length_drop, List.length_cons, length_littleEndian] at sizes
    omega
  have inside : 42 < coinbase.length := by omega
  rw [← List.getElem_cons_drop inside, List.take_succ_cons] at carries
  obtain ⟨first, rest⟩ := List.cons.inj carries
  constructor
  · rw [List.getElem?_eq_getElem inside, first]
  · unfold cbHeight
    rw [if_pos (by rw [UInt8.le_iff_toNat_le, value]; exact few), if_pos (by omega), value, rest,
      ofLittleEndian_littleEndian, Nat.mod_eq_of_lt holds]

theorem finds_push (coinbase : Bytes) (k height : Nat) (few : k ≤ 4) (positive : 1 ≤ height)
    (holds : height < 256 ^ k)
    (carries : Carries coinbase (UInt8.ofNat k :: littleEndian k height)) :
    Finds coinbase height := by
  obtain ⟨there, found⟩ := cbHeight_push coinbase k height few holds carries
  have small : (256 : Nat) ^ k ≤ 256 ^ 4 := Nat.pow_le_pow_right (by decide) few
  intro s pool work preferred same
  obtain ⟨after, done, reads⟩ :=
    testWorkCurrent_height coinbase _ _ there found s pool work preferred same
  refine ⟨after, done, ?_⟩
  rw [reads, apply_ite UInt32.toNat, height_of_bytes height positive (by omega)]

theorem chosen_holds (height : Nat) (range : height < 2 ^ 31) :
    chosen height ≤ 4 ∧ height < 256 ^ chosen height := by
  unfold chosen
  split
  · omega
  split
  · omega
  split <;> omega

theorem finds_emitted (coinbase : Bytes) (height : Nat) (positive : 1 ≤ height)
    (range : height < 2 ^ 31) (carries : Carries coinbase (emitted height)) :
    Finds coinbase height := by
  obtain ⟨few, holds⟩ := chosen_holds height range
  rw [emitted_chosen height range] at carries
  exact finds_push coinbase (chosen height) height few positive holds carries

/-! ## The script of solo mining -/

/-- A section that none of the copies reaches. -/
theorem slice_storeAll (b out : Buffer m) (writes : List (Nat × Bytes))
    (success : b.storeAll writes = some out) (j n : Nat)
    (disjoint : ∀ write ∈ writes, j + n ≤ write.1 ∨ write.1 + write.2.length ≤ j) :
    (out.bytes.drop j).take n = (b.bytes.drop j).take n := by
  induction writes generalizing b with
  | nil =>
    cases success
    rfl
  | cons write rest ih =>
    rw [List.forall_mem_cons] at disjoint
    obtain ⟨next, bytes, fits, following⟩ := Buffer.storeAll_cons b out write.1 write.2 rest success
    rw [ih next following disjoint.2, bytes]
    exact slice_overwrite_disjoint _ _ _ _ _ (by rw [b.length_eq]; exact fits) disjoint.1

/-- The bytes of ser_number that stay. -/
def heightPush (t : SoloFields) : Bytes := (serNumber t.height).1.take (serNumber t.height).2

theorem length_heightPush (t : SoloFields) : (heightPush t).length = (serNumber t.height).2 := by
  have number := serNumber_range t.height
  rw [heightPush, List.length_take, length_serNumber]
  omega

/-- The height is the second copy, and the others leave its bytes alone. -/
theorem scriptWrites_height (base out : Buffer 100) (t : SoloFields) (now : Time)
    (optBtcSig : Option Bytes) (written : base.storeAll (scriptWrites t now optBtcSig) = some out) :
    (out.bytes.drop 1).take (heightPush t).length = heightPush t := by
  have number := serNumber_range t.height
  rw [length_heightPush]
  unfold scriptWrites at written
  rw [List.append_assoc, List.cons_append, List.cons_append] at written
  obtain ⟨b1, _, _, written⟩ := Buffer.storeAll_cons _ _ _ _ _ written
  obtain ⟨b2, bytes, room, written⟩ := Buffer.storeAll_cons _ _ _ _ _ written
  rw [slice_storeAll b2 out _ written, bytes,
    slice_overwrite_within _ _ _ _ _ (by rw [b1.length_eq]; exact room)
    (le_refl _) (by rw [length_serNumber]; omega)]
  · rfl
  · simp only [List.mem_append, List.mem_cons, List.mem_map, List.not_mem_nil, or_false]
    unfold sigOfs extranonceOfs timestampOfs flagsOfs
    rintro write ((rfl | rfl | rfl) | ⟨sig, _, rfl⟩ | rfl)
    · dsimp only
      omega
    · dsimp only
      omega
    · dsimp only
      omega
    · dsimp only
      omega
    · exact Or.inr (le_refl _)

theorem blit_carries (coinbase src out push : Bytes) (ofs : Nat)
    (copied : blit coinbase ofs src = some out)
    (disjoint : 42 + push.length ≤ ofs ∨ ofs + src.length ≤ 42) (carries : Carries coinbase push) :
    Carries out push := by
  obtain ⟨fits, rfl⟩ := blit_some coinbase src out ofs copied
  unfold Carries at carries ⊢
  rw [slice_overwrite_disjoint coinbase src ofs 42 push.length fits disjoint, carries]

/-- The places of an accepted template that later copies go to are behind the height. -/
structure Laid (pool : TemplatePool) (push : Bytes) : Prop where
  carries : Carries pool.coinbase push
  script : 1 + push.length ≤ pool.n1Len
  nonce2 : 42 + push.length ≤ pool.nonce2Offset

theorem storeCoinbase_laid (stored next : TemplatePool) (t : SoloFields) (witnessdata : Bytes)
    (now : Time) (optBtcSig : Option Bytes) (size : witnessdata.length = 36)
    (built : storeCoinbase stored t witnessdata now optBtcSig = some next) :
    Laid next (heightPush t) := by
  obtain ⟨scriptsigBase, coinbase, written, readable, filled, rfl⟩ :=
    storeCoinbase_spec stored next t witnessdata now optBtcSig built
  have height := scriptWrites_height stored.scriptsigBase scriptsigBase t now optBtcSig written
  have sizes := coinbaseSize_eq t.insertWitness witnessdata (scriptLength t optBtcSig + 1) size
  have long := scriptLength_ge t optBtcSig
  have start : 1 + (heightPush t).length + 22 ≤ extranonceOfs t := by
    rw [length_heightPush]
    unfold extranonceOfs timestampOfs flagsOfs
    omega
  have inside : 1 + (heightPush t).length ≤ scriptsigBase.bytes.length := by
    have number := serNumber_range t.height
    rw [scriptsigBase.length_eq, length_heightPush]
    omega
  constructor
  · have used : ((coinbase.bytes.take (41 + (scriptLength t optBtcSig + 1) + 4 + 1 + 8 + 1 + 25 +
        (witnessOutput t.insertWitness witnessdata).length + 4)).drop 42).take
          (heightPush t).length =
        (coinbase.bytes.drop 42).take (heightPush t).length := by
      rw [List.drop_take, List.take_take, Nat.min_eq_left (by omega)]
    unfold coinbaseWrites at filled
    obtain ⟨scripted, bytes, room, filled⟩ := Buffer.storeAll_cons _ _ _ _ _ filled
    have copied :
        ((scriptsigBase.bytes ++ stored.scriptPubkey.bytes).take
        (scriptLength t optBtcSig + 1)).length =
        scriptLength t optBtcSig + 1 := by
      rw [List.length_take, List.length_append, Buffer.length_eq, Buffer.length_eq]
      omega
    unfold Carries
    dsimp only
    rw [used, slice_storeAll scripted coinbase _ filled, bytes,
      slice_overwrite_within _ _ _ _ _ (by rw [Buffer.length_eq]; exact room) (by decide)
      (by rw [copied]; omega),
      List.drop_take, List.take_take, Nat.min_eq_left (by omega),
      List.drop_append_of_le_length (by omega),
      List.take_append_of_le_length (by rw [List.length_drop]; omega), height]
    rw [copied]
    simp only [List.forall_mem_cons]
    exact ⟨by omega, by omega, by omega, by omega, List.forall_mem_nil _⟩
  · dsimp only
    omega
  · dsimp only
    omega

/-- __setup_gbt_solo fills in the prefix and what stands behind the script. -/
theorem setupGbtSolo_carries (pool ready : TemplatePool) (push : Bytes) (laid : Laid pool push)
    (set : setupGbtSolo pool = some ready) : Carries ready.coinbase push := by
  have script := laid.script
  obtain ⟨headed, first, set⟩ := Option.bind_eq_some_iff.mp set
  obtain ⟨sized, second, set⟩ := Option.bind_eq_some_iff.mp set
  obtain ⟨coinbase, third, rfl⟩ := Option.map_eq_some_iff.mp set
  have carried := blit_carries pool.coinbase scriptsigHeaderBin headed push 0 first
    (Or.inr (by rw [length_scriptsigHeaderBin]; decide)) laid.carries
  have count := blit_carries headed [25] sized push _ second (Or.inl (by omega)) carried
  exact blit_carries sized _ coinbase push _ third (Or.inl (by omega)) count

variable (genHash : Bytes → Digest) (diffFromTarget : Buffer 32 → Double)

/-- Generated work changes the coinbase at nonce2_offset only. -/
theorem generate_carries (pool next : Source.GbtMerkle.Pool) (e : UInt64 × Source.WorkItem.Work)
    (push : Bytes) (made : generate genHash pool e = some next)
    (behind : 42 + push.length ≤ pool.nonce2Offset) (carries : Carries pool.coinbase push) :
    42 + push.length ≤ next.nonce2Offset ∧ Carries next.coinbase push := by
  obtain ⟨⟨_, out⟩, generated, rfl⟩ := Option.map_eq_some_iff.mp made
  unfold Source.GbtMerkle.genSoloWork at generated
  split at generated
  · obtain ⟨coinbase, copied, generated⟩ := Option.bind_eq_some_iff.mp generated
    obtain ⟨header, _, generated⟩ := Option.bind_eq_some_iff.mp generated
    obtain ⟨data, _, same⟩ := Option.map_eq_some_iff.mp generated
    cases same
    exact ⟨behind, blit_carries pool.coinbase _ coinbase push _ copied (Or.inl behind) carries⟩
  · cases generated

/-- Every coinbase of an accepted template carries its height. -/
theorem solo_carries (pool built ready : TemplatePool) (resVal : Option Json) (hashSwap : Buffer 32)
    (now : Time) (optBtcSig : Option Bytes) (locked : Bool) (height : Nat)
    (accepted : gbtSoloDecode genHash diffFromTarget pool resVal hashSwap now optBtcSig =
      .returned built locked true)
    (same : built.height = height) (set : setupGbtSolo built = some ready)
    (es : List (UInt64 × Source.WorkItem.Work)) :
    Always (generate genHash) (fun p => Carries p.coinbase (emitted height)) ready.toPool es := by
  obtain ⟨t, stored, witnessdata, next, stages⟩ :=
    gbtSoloDecode_accepted genHash diffFromTarget pool built resVal
    hashSwap now optBtcSig locked accepted
  have laid := storeCoinbase_laid stored next t witnessdata now optBtcSig
    (checkWitness_length genHash t witnessdata stages.witness) stages.coinbase
  obtain ⟨_, _, _, _, _, fields⟩ :=
    storeCoinbase_spec stored next t witnessdata now optBtcSig stages.coinbase
  have push : heightPush t = emitted height := by
    have number : t.height = height := by
      rw [← same, stages.result, fields]
    unfold heightPush emitted
    rw [number]
  rw [push] at laid
  have kept : Laid built (emitted height) := by
    rw [stages.result]
    exact ⟨laid.carries, laid.script, laid.nonce2⟩
  have frame := (setupGbtSolo_frame built ready set).1
  apply always_mono (P := fun p => 42 + (emitted height).length ≤ p.nonce2Offset ∧
    Carries p.coinbase (emitted height))
  · exact fun p layout => layout.2
  · apply always_of_invariant
    · intro p e after layout made
      exact generate_carries genHash p after e (emitted height) made layout.1 layout.2
    · refine ⟨?_, setupGbtSolo_carries built ready (emitted height) kept set⟩
      rw [frame]
      exact kept.nonce2

theorem height_found (height : Nat) (range : 1 ≤ height ∧ height < 2 ^ 31) :
    (∀ coinbase, Carries coinbase (emitted height) → Finds coinbase height) ∧
    (∀ pool built resVal hashSwap now optBtcSig locked,
      gbtSoloDecode genHash diffFromTarget pool resVal hashSwap now optBtcSig =
        .returned built locked true →
      built.height = height → ∃ ready, setupGbtSolo built = some ready ∧
        ∀ es, Always (generate genHash) (fun p => Finds p.coinbase height) ready.toPool es) ∧
    (∀ k ≤ 4, height < 256 ^ k →
      ∀ coinbase, Carries coinbase (UInt8.ofNat k :: littleEndian k height) →
      Finds coinbase height) := by
  refine ⟨fun coinbase => finds_emitted coinbase height range.1 range.2, ?_,
    fun k few holds coinbase => finds_push coinbase k height few range.1 holds⟩
  intro pool built resVal hashSwap now optBtcSig locked accepted same
  obtain ⟨_, _, ready, _, _, _, _, _, set, _⟩ :=
    accepted_layout genHash diffFromTarget pool built resVal hashSwap now
    optBtcSig locked accepted
  refine ⟨ready, set, fun es => ?_⟩
  exact always_mono (fun (p : Source.GbtMerkle.Pool) =>
    finds_emitted p.coinbase height range.1 range.2)
    (solo_carries genHash diffFromTarget pool built ready resVal hashSwap now optBtcSig locked
      height accepted same set es)

/-- A coinbase that carries the height 840000, as ser_number writes it. -/
def halving : Bytes := List.replicate 42 0 ++ [3, 0x40, 0xd1, 0x0c, 0, 0]

theorem halving_carries : Carries halving (emitted 840000) := by
  rw [emitted_chosen 840000 (by decide)]
  rfl

/-- Read back as ser_number's push, as a push of three bytes, and in the work of a template. -/
theorem height_found_840000 :
    (Carries halving (emitted 840000) ∧ Finds halving 840000) ∧
    (∀ pool built resVal hashSwap now optBtcSig locked,
      gbtSoloDecode (fun _ => .zero 32) (fun _ => 0) pool resVal hashSwap now optBtcSig =
        .returned built locked true →
      built.height = (840000 : Nat) → ∃ ready, setupGbtSolo built = some ready ∧
        ∀ es, Always (generate fun _ => .zero 32) (fun p => Finds p.coinbase 840000)
          ready.toPool es) ∧
    (Carries halving (3 :: littleEndian 3 840000) ∧ Finds halving 840000) :=
  have found := height_found (fun _ => .zero 32) (fun _ => 0) 840000 (by decide)
  ⟨⟨halving_carries, found.1 halving halving_carries⟩, found.2.1,
    ⟨rfl, found.2.2 3 (by decide) (by decide) halving rfl⟩⟩

/-- A pool at height 0 whose coinbase carries height 5. -/
def fifth : CheckedPool := ⟨List.replicate 42 0 ++ [1, 5, 0, 0, 0], false, 0, .zero 32⟩

/-- A mandatory work. -/
def forced : CheckedWork := ⟨.zero 128, true, false, 0⟩

theorem forced_unread :
    Carries fifth.coinbase (emitted 5) ∧
      testWorkCurrent atStart fifth forced false = some ⟨true, atStart, fifth, forced, false⟩ ∧
      fifth.currentHeight.toNat ≠ 5 - 1 := by
  refine ⟨?_, rfl, by decide⟩
  rw [emitted_chosen 5 (by decide)]
  rfl

end CgminerT4.Guarantees.BlockHeight
