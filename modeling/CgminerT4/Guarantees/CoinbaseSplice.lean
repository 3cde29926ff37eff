import Mathlib.Data.List.Nodup
import CgminerT4.Guarantees.SubmissionBuffers

/-!
# The nonce in a template's coinbase

gbt_decode copies a coinbase in two parts around eight new bytes and adds these
to the length of the script. gen_gbt_work counts up in them, and nothing else of
the coinbase changes until the next template is decoded.
-/
namespace CgminerT4.Guarantees.CoinbaseSplice
open Library.ByteString Library.Runs Library.SignedInt Source.Jansson Source.Hex Source.WorkItem
  Source.WorkRoll
open Source.GbtMerkle Source.GbtTemplate Source.BlockSubmit SoloTemplate BlockSubmission
  SubmissionBuffers

/-- The length byte of the script. -/
def scriptLen (t : Bytes) : Nat := (t.getD 41 0).toNat

/-- The part in front of the nonce. -/
def front (t : Bytes) : Bytes :=
  t.take 41 ++ [UInt8.ofNat (scriptLen t + 8)] ++ (t.drop 42).take (scriptLen t)

/-- The coinbase `t` with `nonce` behind its script. -/
def spliced (t nonce : Bytes) : Bytes := front t ++ nonce ++ t.drop (42 + scriptLen t)

/-! ## Decoding -/

theorem length_front (t : Bytes) (inside : 42 + scriptLen t ≤ t.length) :
    (front t).length = 42 + scriptLen t := by
  rw [front, List.length_append, List.length_append, List.length_take, List.length_take,
    List.length_drop, List.length_singleton]
  omega

theorem length_spliced (t nonce : Bytes) (inside : 42 + scriptLen t ≤ t.length) :
    (spliced t nonce).length = t.length + nonce.length := by
  rw [spliced, List.length_append, List.length_append, length_front t inside, List.length_drop]
  omega

/-- The zeros that stay behind the coinbase in its memory. -/
def unused (t : Bytes) : Bytes := List.replicate (3 * (t.length + 9) + 1) 0

/-- The zeroed memory after the first copy, in sections. -/
theorem first_copy (t : Bytes) (inside : 42 + scriptLen t ≤ t.length) :
    t.take 42 ++ List.replicate ((t.length + 9) * 4 - 42) 0 =
      t.take 41 ++ [t.getD 41 0] ++ List.replicate (scriptLen t) 0 ++
        (List.replicate 8 0 ++ List.replicate (t.length - scriptLen t - 42) 0 ++ unused t) := by
  have split : t.take 42 = t.take 41 ++ [t.getD 41 0] := by
    have there : 41 < t.length := by omega
    rw [List.take_add_one, List.getD_eq_getElem?_getD, List.getElem?_eq_getElem there]
    rfl
  have zeros : (t.length + 9) * 4 - 42 =
      scriptLen t + (8 + (t.length - scriptLen t - 42) + (3 * (t.length + 9) + 1)) := by omega
  rw [split, zeros, List.replicate_add, List.replicate_add, List.replicate_add]
  simp only [List.append_assoc]
  rfl

/-- The copy of the script and the new length byte. -/
theorem second_copy (t rest : Bytes) (inside : 42 + scriptLen t ≤ t.length) :
    (overwrite (t.take 41 ++ [t.getD 41 0] ++ List.replicate (scriptLen t) 0 ++ rest) 42
      ((t.drop 42).take (scriptLen t))).set 41 (UInt8.ofNat (scriptLen t + 8)) =
        front t ++ rest := by
  have head : (t.take 41).length = 41 := by
    rw [List.length_take]
    omega
  have starts : (t.take 41 ++ [t.getD 41 0]).length = 42 := by
    rw [List.length_append, head, List.length_singleton]
  have script : ((t.drop 42).take (scriptLen t)).length =
      (List.replicate (scriptLen t) (0 : UInt8)).length := by
    rw [List.length_take, List.length_drop, List.length_replicate]
    omega
  have copied := overwrite_middle (t.take 41 ++ [t.getD 41 0]) (List.replicate (scriptLen t) 0)
    ((t.drop 42).take (scriptLen t)) rest script
  rw [starts] at copied
  rw [copied, front]
  simp only [List.append_assoc, List.singleton_append]
  rw [List.set_append_right _ _ (by omega), head]
  rfl

/-- The three copies, in zeroed memory that is longer. -/
theorem appendNonce2_spliced (text t : Bytes) (valid : validHex text = true)
    (decoded : unhex text = t) (pairs : text.length = 2 * t.length)
    (inside : 42 + scriptLen t ≤ t.length) (short : scriptLen t + 8 < 256)
    (small : t.length + 9 < 2 ^ 31) :
    appendNonce2 text = some (spliced t (List.replicate 8 0) ++ unused t, scriptLen t + 42) := by
  have half : text.length / 2 = t.length := by omega
  have first : (hex2bin text 42).1 = t.take 42 := by rw [hex2bin_fst, decoded]
  have second : (hex2bin (text.drop 84) (scriptLen t)).1 = (t.drop 42).take (scriptLen t) := by
    rw [hex2bin_fst, unhex_drop text 42 valid (by omega), decoded]
  have third : (hex2bin (text.drop (84 + 2 * scriptLen t)) (t.length - scriptLen t - 42)).1 =
      t.drop (42 + scriptLen t) := by
    have whole : t.length - scriptLen t - 42 = (t.drop (42 + scriptLen t)).length := by
      rw [List.length_drop]
      omega
    rw [hex2bin_fst, show 84 + 2 * scriptLen t = 2 * (42 + scriptLen t) by omega,
      unhex_drop text (42 + scriptLen t) valid (by omega), decoded, whole, List.take_length]
  have firstSize : (t.take 42).length = 42 := by
    rw [List.length_take]
    omega
  have secondSize : ((t.drop 42).take (scriptLen t)).length = scriptLen t := by
    rw [List.length_take, List.length_drop]
    omega
  have byte : (UInt8.ofNat (scriptLen t + 8)).toNat = scriptLen t + 8 := by
    rw [UInt8.toNat_ofNat', Nat.mod_eq_of_lt short]
  have lengthByte : ((t.take 42 ++ List.replicate ((t.length + 9) * 4 - 42) 0).getD 41 0).toNat =
      scriptLen t := by
    rw [scriptLen, List.getD_eq_getElem?_getD, List.getD_eq_getElem?_getD,
      List.getElem?_append_left (by omega), List.getElem?_take_of_lt (by decide)]
  unfold appendNonce2
  dsimp only
  rw [half, if_neg (by omega), if_neg (by omega), first, cgcalloc_bytes, blit,
    if_pos (by rw [firstSize, List.length_replicate]; omega), Option.bind_some, overwrite_replicate,
    firstSize, lengthByte, if_neg (by omega),
    second, blit,
    if_pos (by rw [secondSize, List.length_append, firstSize, List.length_replicate]; omega),
    Option.bind_some, first_copy t inside, second_copy t _ inside, third, byte]
  have tailSize : (t.drop (42 + scriptLen t)).length =
      (List.replicate (t.length - scriptLen t - 42) (0 : UInt8)).length := by
    rw [List.length_drop, List.length_replicate]
    omega
  have starts : (front t ++ List.replicate 8 0).length = 42 + (scriptLen t + 8) := by
    rw [List.length_append, length_front t inside, List.length_replicate, Nat.add_assoc]
  have copied :=
    overwrite_middle (front t ++ List.replicate 8 0)
      (List.replicate (t.length - scriptLen t - 42) 0)
    (t.drop (42 + scriptLen t)) (unused t) tailSize
  rw [starts] at copied
  have room : 42 + (scriptLen t + 8) + (t.drop (42 + scriptLen t)).length ≤
      (front t ++ List.replicate 8 0 ++ List.replicate (t.length - scriptLen t - 42) 0 ++
        unused t).length := by
    rw [List.length_append, List.length_append, starts, tailSize]
    omega
  simp only [← List.append_assoc]
  rw [blit, if_pos room, copied]
  rfl

variable (genHash : Bytes → Digest) (diffFromTarget : Buffer 32 → Double)

/-- What the works generated from a decoded coinbase rely on. -/
structure Ready (t : Bytes) (pool : TemplatePool) : Prop where
  coinbase : ∃ nonce, nonce.length = 8 ∧ pool.coinbase = spliced t nonce
  nonce2Offset : pool.nonce2Offset = 42 + scriptLen t
  n2size : pool.n2size = 8
  gbtVersion : pool.gbtVersion.length = 4
  curtime : pool.curtime.length = 4
  gbtTxns : pool.gbtTxns = 0

/-- What gbt_decode stores of such a coinbase. -/
theorem gbtDecode_spliced (pool next : TemplatePool) (resVal : Option Json) (hashSwap : Buffer 32)
    (ret : Bool) (fields : GbtFields) (t : Bytes) (read : readGbt resVal = some fields)
    (appended : appendNonce2 fields.coinbasetxn =
      some (spliced t (List.replicate 8 0) ++ unused t, scriptLen t + 42))
    (pairs : fields.coinbasetxn.length = 2 * t.length) (inside : 42 + scriptLen t ≤ t.length)
    (uncounted : pool.gbtTxns = 0)
    (decoded : gbtDecode genHash pool resVal hashSwap = some (next, ret)) :
    ret = true ∧ next.coinbase = spliced t (List.replicate 8 0) ∧ Ready t next := by
  have size := length_spliced t (List.replicate 8 0) inside
  have cut : (spliced t (List.replicate 8 0) ++ unused t).take (fields.coinbasetxn.length / 2 + 8) =
      spliced t (List.replicate 8 0) := by
    rw [List.length_replicate] at size
    rw [pairs, Nat.mul_div_cancel_left _ Nat.two_pos, ← size, List.take_left]
  unfold gbtDecode at decoded
  rw [read] at decoded
  dsimp only at decoded
  rw [appended, Option.bind_some] at decoded
  obtain ⟨built, transactions, same⟩ := Option.map_eq_some_iff.mp decoded
  cases same
  have frame := buildGbtTxns_frame genHash _ built _ transactions
  dsimp only at frame
  rw [cut] at frame
  refine ⟨rfl, by rw [frame], ?_⟩
  rw [frame]
  exact
    { coinbase := ⟨_, List.length_replicate, rfl⟩
      nonce2Offset := Nat.add_comm _ _
      n2size := rfl
      gbtVersion := length_htobe32 _
      curtime := length_htobe32 _
      gbtTxns := uncounted }

/-! ## Generating work -/

/-- The copies into the work's data all fit. -/
theorem gbtWrites_fit (pool : TemplatePool) (merkleroot : Digest)
    (gbtVersion : pool.gbtVersion.length = 4) (curtime : pool.curtime.length = 4) :
    ∀ write ∈ gbtWrites pool merkleroot, write.1 + write.2.length ≤ 128 := by
  have padding := length_hex2bin_le workpadding 48
  simp only [gbtWrites, List.forall_mem_cons, gbtVersion, curtime, Buffer.length_eq,
    length_flipWords, List.length_replicate, List.not_mem_nil]
  exact ⟨by omega, by omega, by omega, by omega, by omega, by omega, by omega,
    fun _ never => never.elim⟩

theorem genGbtWork_defined (pool : TemplatePool) (work : GbtWork) (coinbase : Bytes)
    (narrow : pool.n2size ≤ 8)
      (copied : blit pool.coinbase pool.nonce2Offset
        ((littleEndian 8 pool.nonce2.toNat).take pool.n2size) =
      some coinbase)
    (gbtVersion : pool.gbtVersion.length = 4) (curtime : pool.curtime.length = 4)
    (uncounted : pool.gbtTxns = 0) :
    ∃ made, genGbtWork genHash pool work =
      some ({ pool with coinbase, nonce2 := pool.nonce2 + 1 }, made) ∧
      made.coinbase = some (bin2hex coinbase) := by
  have fits := gbtWrites_fit { pool with coinbase, nonce2 := pool.nonce2 + 1 }
    (gbtMerkleroot genHash { pool.toPool with coinbase, nonce2 := pool.nonce2 + 1 })
      gbtVersion curtime
  obtain ⟨data, written⟩ := Option.isSome_iff_exists.mp ((work.data.storeAll_isSome _).mpr fits)
  obtain ⟨one, counted⟩ : ∃ one, CInt.ofInt (pool.gbtTxns + 1) = some one := by
    rw [uncounted]
    exact ⟨_, rfl⟩
  unfold genGbtWork
  rw [if_pos narrow, copied, Option.bind_some]
  dsimp only
  rw [written, Option.bind_some, counted]
  exact ⟨_, rfl, rfl⟩

/-- A call puts the count into the coinbase and keeps its hex with the work. -/
theorem genGbtWork_ready (t : Bytes) (pool : TemplatePool) (work : GbtWork)
    (inside : 42 + scriptLen t ≤ t.length) (ready : Ready t pool) :
    ∃ next made, genGbtWork genHash pool work = some (next, made) ∧ Ready t next ∧
      next.coinbase = spliced t (littleEndian 8 pool.nonce2.toNat) ∧ next.nonce2 = pool.nonce2 + 1 ∧
      made.coinbase = some (bin2hex next.coinbase) := by
  obtain ⟨nonce, size, coinbase⟩ := ready.coinbase
  have count : (littleEndian 8 pool.nonce2.toNat).take 8 = littleEndian 8 pool.nonce2.toNat :=
    List.take_of_length_le (by rw [length_littleEndian])
  have room : 42 + scriptLen t + (littleEndian 8 pool.nonce2.toNat).length ≤
      (spliced t nonce).length := by
    rw [length_spliced t nonce inside, length_littleEndian, size]
    omega
  have middle :=
    overwrite_middle (front t) nonce (littleEndian 8 pool.nonce2.toNat) (t.drop (42 + scriptLen t))
    (by rw [length_littleEndian, size])
  rw [length_front t inside] at middle
  have copied :
      blit pool.coinbase pool.nonce2Offset ((littleEndian 8 pool.nonce2.toNat).take pool.n2size) =
      some (spliced t (littleEndian 8 pool.nonce2.toNat)) := by
    rw [ready.n2size, count, ready.nonce2Offset, coinbase, blit, if_pos room, spliced, middle]
    rfl
  obtain ⟨made, generated, kept⟩ :=
    genGbtWork_defined genHash pool work _ (by rw [ready.n2size]) copied
    ready.gbtVersion ready.curtime ready.gbtTxns
  exact ⟨_, made, generated, { ready with coinbase := ⟨_, length_littleEndian _ _, rfl⟩ }, rfl,
    rfl, kept⟩

/-- What one call of gen_gbt_work is given: the clock, the time of the pool's last
work, the reply in case it asks for a template, and the work. -/
structure GbtCall where
  now : Int
  lastwork : Int
  reply : Option (Option Json)
  hashSwap : Buffer 32
  work : GbtWork

/-- The call decodes no new template. -/
def Quiet (call : GbtCall) : Prop :=
  call.now - call.lastwork > 60 → ∀ val, call.reply = some val →
    readGbt (jsonObjectGet val "result") = none

/-- Calls in order, with the pool and the work that each leaves. -/
def genGbtWorks : TemplatePool → List GbtCall → Option (List (TemplatePool × GbtWork))
  | _, [] => some []
  | pool, call :: rest =>
    (genGbtWorkAt genHash call.now call.lastwork call.reply call.hashSwap pool call.work).bind
        fun out =>
      (genGbtWorks out.1 rest).map fun outs => out :: outs

/-- A reply without a template leaves the pool alone. -/
theorem updateGbt_rejected (pool : TemplatePool) (val : Option Json) (hashSwap : Buffer 32)
    (rejected : readGbt (jsonObjectGet val "result") = none) :
    updateGbt genHash pool val hashSwap = some pool := by
  unfold updateGbt gbtDecode
  dsimp only
  rw [rejected]
  split
  · rfl
  · rfl

theorem genGbtWorkAt_quiet (pool : TemplatePool) (call : GbtCall) (quiet : Quiet call) :
    genGbtWorkAt genHash call.now call.lastwork call.reply call.hashSwap pool call.work =
      genGbtWork genHash pool call.work := by
  unfold genGbtWorkAt
  by_cases old : call.now - call.lastwork > 60
  · rw [if_pos old]
    cases asked : call.reply with
    | none => rfl
    | some val =>
      dsimp only
      rw [updateGbt_rejected genHash pool val call.hashSwap (quiet old val asked), Option.bind_some]
  · rw [if_neg old]

/-- The coinbases of a sequence of calls count up from the pool's nonce. -/
theorem genGbtWorks_counted (t : Bytes) (inside : 42 + scriptLen t ≤ t.length) (pool : TemplatePool)
    (calls : List GbtCall) (ready : Ready t pool) (quiet : ∀ call ∈ calls, Quiet call) :
    ∃ outs, genGbtWorks genHash pool calls = some outs ∧
      (outs.map fun out => out.1.coinbase) = ((List.range calls.length).map fun i =>
        spliced t (littleEndian 8 (pool.nonce2 + UInt64.ofNat i).toNat)) ∧
      ∀ out ∈ outs, out.2.coinbase = some (bin2hex out.1.coinbase) := by
  induction calls generalizing pool with
  | nil => exact ⟨[], rfl, rfl, fun _ member => absurd member List.not_mem_nil⟩
  | cons call rest ih =>
    obtain ⟨first, others⟩ := List.forall_mem_cons.mp quiet
    obtain ⟨next, made, generated, kept, coinbase, nonce2, hex⟩ :=
      genGbtWork_ready genHash t pool call.work inside ready
    obtain ⟨outs, ran, counted, hexes⟩ := ih next kept others
    refine ⟨(next, made) :: outs, ?_, ?_, ?_⟩
    · rw [genGbtWorks, genGbtWorkAt_quiet genHash pool call first, generated, Option.bind_some, ran,
        Option.map_some]
    · rw [List.map_cons, counted, List.length_cons, List.range_succ_eq_map, List.map_cons,
        List.map_map, coinbase, nonce2]
      have head : pool.nonce2 + UInt64.ofNat 0 = pool.nonce2 := UInt64.add_zero _
      have tail : ∀ i, pool.nonce2 + 1 + UInt64.ofNat i = pool.nonce2 + UInt64.ofNat (i + 1) := by
        intro i
        rw [UInt64.add_assoc, UInt64.ofNat_add, UInt64.add_comm 1]
        rfl
      rw [head]
      congr 1
      apply List.map_congr_left
      intro i _
      rw [tail]
      rfl
    · exact List.forall_mem_cons.mpr ⟨hex, hexes⟩

theorem spliced_inj (t a b : Bytes) (same : spliced t a = spliced t b) : a = b :=
  List.append_cancel_left (List.append_cancel_right same)

/-- Fewer than 2^64 counts are all different. -/
theorem counts_nodup (t : Bytes) (first : UInt64) (n : Nat) (few : n < 2 ^ 64) :
    ((List.range n).map fun i =>
      spliced t (littleEndian 8 (first + UInt64.ofNat i).toNat)).Nodup := by
  apply List.Nodup.map_on
  · intro i inI j inJ same
    rw [List.mem_range] at inI inJ
    have numbers := littleEndian_inj _ _ _ (spliced_inj t _ _ same)
    have sum : first + UInt64.ofNat i = first + UInt64.ofNat j := by
      apply UInt64.toNat_inj.mp
      have low := (first + UInt64.ofNat i).toNat_lt
      have high := (first + UInt64.ofNat j).toNat_lt
      omega
    have equal := congrArg UInt64.toNat ((UInt64.add_right_inj _).mp sum)
    rw [UInt64.toNat_ofNat', UInt64.toNat_ofNat'] at equal
    omega
  · exact List.nodup_range

theorem coinbase_spliced (poolNo : PoolNo) (scriptPubkey : Buffer 28) (es : List Event) (s : World)
    (reached : run (step genHash diffFromTarget) (start poolNo false scriptPubkey) es = some s)
    (resVal : Option Json) (hashSwap : Buffer 32) (fields : GbtFields) (t : Bytes)
    (read : readGbt resVal = some fields) (valid : validHex fields.coinbasetxn = true)
    (bytes : unhex fields.coinbasetxn = t) (pairs : fields.coinbasetxn.length = 2 * t.length)
    (long : 42 + scriptLen t + 4 ≤ t.length) (script : scriptLen t ≤ 92)
    (small : t.length + 9 < 2 ^ 31) :
    ((gbtDecode genHash s.pool resVal hashSwap).isSome = true ↔
      MerkleFits (arrayItems (jsonObjectGet resVal "transactions"))) ∧
    ∀ next ret, gbtDecode genHash s.pool resVal hashSwap = some (next, ret) →
      ret = true ∧ next.coinbase = spliced t (List.replicate 8 0) ∧
        next.coinbase.length = t.length + 8 ∧
      next.nonce2Offset = 42 + scriptLen t ∧
      ∀ calls : List GbtCall, (∀ call ∈ calls, Quiet call) →
        ∃ outs, genGbtWorks genHash next calls = some outs ∧ outs.length = calls.length ∧
          (∀ out ∈ outs, ∃ nonce, nonce.length = 8 ∧ out.1.coinbase = spliced t nonce ∧
            out.2.coinbase = some (bin2hex (spliced t nonce))) ∧
          (calls.length < 2 ^ 64 → (outs.map fun out => out.2.coinbase).Nodup) := by
  have inv := always_final (always_of_invariant (step_inv genHash diffFromTarget)
    (start_inv poolNo false scriptPubkey) es) reached
  have inside : 42 + scriptLen t ≤ t.length := by omega
  have appended :=
    appendNonce2_spliced fields.coinbasetxn t valid bytes pairs inside (by omega) small
  constructor
  · unfold gbtDecode
    rw [read]
    dsimp only
    rw [appended, Option.bind_some, Option.isSome_map, buildGbtTxns_defined]
  · intro next ret decoded
    obtain ⟨accepted, coinbase, ready⟩ :=
      gbtDecode_spliced genHash s.pool next resVal hashSwap ret fields t read
      appended pairs inside inv.uncounted decoded
    refine ⟨accepted, coinbase, ?_, ready.nonce2Offset, ?_⟩
    · rw [coinbase, length_spliced t _ inside, List.length_replicate]
    · intro calls quiet
      obtain ⟨outs, ran, counted, hexes⟩ :=
        genGbtWorks_counted genHash t inside next calls ready quiet
      refine ⟨outs, ran, ?_, ?_, ?_⟩
      · have sizes := congrArg List.length counted
        rwa [List.length_map, List.length_map, List.length_range] at sizes
      · intro out member
        have among : out.1.coinbase ∈ outs.map fun out => out.1.coinbase :=
          List.mem_map_of_mem member
        rw [counted] at among
        obtain ⟨i, _, same⟩ := List.mem_map.mp among
        refine ⟨_, length_littleEndian _ _, same.symm, ?_⟩
        rw [hexes out member, ← same]
      · intro few
        have strings : (outs.map fun out => out.2.coinbase) =
            (outs.map fun out => out.1.coinbase).map fun coinbase => some (bin2hex coinbase) := by
          rw [List.map_map]
          exact List.map_congr_left hexes
        rw [strings, counted]
        apply List.Nodup.map
        · exact fun a b same => bin2hex_inj a b (Option.some.inj same)
        · exact counts_nodup t next.nonce2 calls.length few

/-- A call right after another one. -/
def soonCall : GbtCall := ⟨1, 0, none, .zero 32, blankWork⟩

/-- Two works from a first template with a coinbase of 60 bytes. -/
theorem coinbase_spliced_sixty :
    ∃ next outs, gbtDecode (fun _ => .zero 32) (start 0 false (.zero 28)).pool
        (some (zeroTemplate 60)) (.zero 32) =
        some (next, true) ∧ next.coinbase = spliced (List.replicate 60 0) (List.replicate 8 0) ∧
      genGbtWorks (fun _ => .zero 32) next [soonCall, soonCall] = some outs ∧
      (outs.map fun out => out.2.coinbase).Nodup := by
  obtain ⟨returns, decodes⟩ :=
    coinbase_spliced (fun _ => .zero 32) (fun _ => 0) 0 (.zero 28) [] _ rfl
    (some (zeroTemplate 60)) (.zero 32) _ (List.replicate 60 0) rfl (by decide +kernel)
      (by decide +kernel)
    (by decide +kernel) (by decide +kernel) (by decide +kernel) (by decide +kernel)
  obtain ⟨⟨next, ret⟩, decoded⟩ := Option.isSome_iff_exists.mp (returns.mpr fun _ => by decide)
  obtain ⟨accepted, coinbase, _, _, calls⟩ := decodes next ret decoded
  have quiet : ∀ call ∈ [soonCall, soonCall], Quiet call := by
    simp [Quiet, soonCall]
  obtain ⟨outs, ran, _, _, different⟩ := calls [soonCall, soonCall] quiet
  rw [accepted] at decoded
  exact ⟨next, outs, decoded, coinbase, ran, different (by decide)⟩

theorem unhex_zeros (n : Nat) : unhex (List.replicate (2 * n) 0x30) = List.replicate n 0 := by
  induction n with
  | zero => rfl
  | succ n ih =>
    rw [Nat.mul_succ, List.replicate_succ, List.replicate_succ, List.replicate_succ, ← ih]
    rfl

theorem readGbt_zeroTemplate (size : Nat) :
    ∃ fields, readGbt (some (zeroTemplate size)) = some fields ∧
      fields.coinbasetxn = List.replicate (2 * size) 0x30 :=
  ⟨_, rfl, rfl⟩

/-- A call a minute later that is answered with another template. -/
def lateCall : GbtCall :=
  ⟨61, 0, some (some (.object [("result", zeroTemplate 120)])), .zero 32, blankWork⟩

/-- Two limits of this: the call that decodes another template in between, and a
coinbase of 2^31 bytes, whose lengths leave the range of int. -/
theorem splice_limits :
    (∃ next out, gbtDecode (fun _ => .zero 32) (start 0 false (.zero 28)).pool
        (some (zeroTemplate 100)) (.zero 32) =
        some (next, true) ∧ genGbtWorks (fun _ => .zero 32) next [lateCall] = some [out] ∧
      ¬ ∃ nonce, nonce.length = 8 ∧ out.1.coinbase = spliced (List.replicate 100 0) nonce) ∧
    ∃ fields, readGbt (some (zeroTemplate (2 ^ 31))) = some fields ∧
      validHex fields.coinbasetxn = true ∧
      unhex fields.coinbasetxn = List.replicate (2 ^ 31) 0 ∧
      gbtDecode (fun _ => .zero 32) (start 0 false (.zero 28)).pool (some (zeroTemplate (2 ^ 31)))
        (.zero 32) =
        none := by
  constructor
  · have ran :
      (gbtDecode (fun _ => .zero 32) (start 0 false (.zero 28)).pool (some (zeroTemplate 100))
        (.zero 32)).bind (fun decoded =>
            (genGbtWorks (fun _ => .zero 32) decoded.1 [lateCall]).map fun outs =>
          (decoded.2, outs.map fun out => out.1.coinbase.length)) = some (true, [128]) := by
            decide +kernel
    obtain ⟨⟨next, ret⟩, decoded, ran⟩ := Option.bind_eq_some_iff.mp ran
    obtain ⟨outs, generated, shape⟩ := Option.map_eq_some_iff.mp ran
    obtain ⟨accepted, sizes⟩ := Prod.mk.inj shape
    dsimp only at accepted sizes
    subst accepted
    have one : outs.length = 1 := by simpa using congrArg List.length sizes
    obtain ⟨out, rfl⟩ := List.length_eq_one_iff.mp one
    refine ⟨next, out, decoded, generated, ?_⟩
    rintro ⟨nonce, size, same⟩
    have length : out.1.coinbase.length = 128 := (List.cons.inj sizes).1
    rw [same, length_spliced _ _ (by decide +kernel), size, List.length_replicate] at length
    exact absurd length (by decide)
  · obtain ⟨fields, read, text⟩ := readGbt_zeroTemplate (2 ^ 31)
    refine ⟨fields, read, ?_, ?_, ?_⟩
    · rw [text, validHex, List.all_replicate, if_neg (by decide)]
      decide
    · rw [text, unhex_zeros]
    · unfold gbtDecode appendNonce2
      rw [read]
      dsimp only
      rw [text, List.length_replicate, if_pos (by decide), Option.bind_none]

end CgminerT4.Guarantees.CoinbaseSplice
