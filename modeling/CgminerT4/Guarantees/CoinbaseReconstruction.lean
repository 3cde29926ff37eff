import CgminerT4.Guarantees.TemplateConsistency
import CgminerT4.Source.ShareSender

/-!
# The pool's view of a generated coinbase

After an accepted subscription and a notify that parse_notify handles, the pool
can rebuild the coinbase of every later work from what it has sent itself and
the extranonce2 of the share, until it sends another notify or the miner
subscribes anew. The eight bytes of the counter fill extranonce2 from the left;
what a wider extranonce2 holds behind them is not the miner's to say, and the
sender drops its shares.
-/
namespace CgminerT4.Guarantees.CoinbaseReconstruction
open Library.ByteString Library.Runs Source.Jansson Source.Hex Source.WorkItem
  Source.StratumTemplate Source.ShareSender NotifyTemplate TemplateConsistency

variable (genHash : Bytes → Digest)

/-- The subscription stays in force over everything but another accepted one. -/
def KeepsSubscription : Event → Prop
  | .subscribe first second => acceptedReply first second = none
  | _ => True

/-- The template stays in force over everything but a stored notify and another
accepted subscription. -/
def KeepsNotify : Event → Prop
  | .message val => notifyOf val = none
  | event => KeepsSubscription event

/-- What the pool knows about a work: the coinbase that was hashed into its
header, and the extranonce2 that the sender submits for its shares unless it
drops them as repetitions or for its width. -/
structure Reconstructed (n : Notify) (sub : Subscription) (made : Generated) (nonce2 : Bytes) :
    Prop where
  size : nonce2.length = sub.n2size
  coinbase : made.coinbase = coinbaseWith n (unhex sub.nonce1) nonce2
  counter : nonce2.take 8 = littleEndian (min sub.n2size 8) made.work.nonce2.toNat
  header : WorkFrom genHash n made
  sent : ∀ share last, share.nonce2 = made.work.nonce2 → share.nonce2Len = made.work.nonce2Len →
    submittedNonce2 last share =
      if sub.n2size ≤ 8 ∧ ¬ (workNonce share = last.nonce ∧ share.nonce2 = last.nonce2)
      then some (bin2hex nonce2) else none

/-- The subscription's part of the coinbase. -/
structure Subscribed (sub : Subscription) (s : World) : Prop where
  nonce1bin : s.pool.nonce1bin = unhex sub.nonce1
  n2size : s.pool.n2size = sub.n2size

/-- Since the state `origin`, in which the notify was stored, `made` has been
generated and nothing else happened to the template. -/
structure InForce (n : Notify) (sub : Subscription) (origin s : World) : Prop where
  n2size : s.pool.n2size = sub.n2size
  offset : s.pool.nonce2Offset = (unhex n.coinbase1).length + (unhex sub.nonce1).length
  template : ∃ nonce2 memory, nonce2.length = sub.n2size ∧ s.pool.coinbase = some memory ∧
    memory.length = 4 * s.pool.coinbaseLen ∧
    memory.take s.pool.coinbaseLen = coinbaseWith n (unhex sub.nonce1) nonce2 ∧
    FromNotify n s.pool (memory.take s.pool.coinbaseLen)
  made : ∃ made, s.works = origin.works ++ made ∧
    s.pool.nonce2 = origin.pool.nonce2 + UInt64.ofNat made.length ∧
    ∀ i generated, made[i]? = some generated →
      generated.work.nonce2 = origin.pool.nonce2 + UInt64.ofNat i ∧
        ∃ nonce2, Reconstructed genHash n sub generated nonce2

/-! ## Subscription -/

/-- The whole of an extranonce1 with complete digit pairs is decoded. -/
theorem storeSubscription_nonce1bin (pool : Pool) (sub : Subscription)
    (valid : validHex sub.nonce1 = true) (even : sub.nonce1.length % 2 = 0) :
    (storeSubscription pool sub).nonce1bin = unhex sub.nonce1 := by
  have pairs : sub.nonce1.length = 2 * (sub.nonce1.length / 2) := by omega
  have decoded := hex2bin_valid sub.nonce1 _ valid pairs
  obtain ⟨_, _, size⟩ := hex2bin_success sub.nonce1 _ (by rw [decoded])
  simp only [storeSubscription, decoded]
  exact overwrite_all _ _ (by rw [size, List.length_replicate])

theorem subscribed_start (s next : World) (first second : Attempt) (sub : Subscription)
    (accepted : acceptedReply first second = some sub) (even : sub.nonce1.length % 2 = 0)
    (taken : step genHash s (.subscribe first second) = some next) : Subscribed sub next := by
  cases taken
  obtain ⟨_, size, nonce1bin⟩ := initiateStratum_accepted s.pool first second sub accepted
  refine ⟨nonce1bin.trans ?_, size⟩
  exact storeSubscription_nonce1bin s.pool sub (acceptedReply_spec first second sub accepted).1 even

theorem subscribed_step (sub : Subscription) (s : World) (event : Event) (next : World)
    (before : Subscribed sub s) (keeps : KeepsSubscription event)
    (taken : step genHash s event = some next) : Subscribed sub next := by
  cases event with
  | message val =>
    simp only [step, Option.map_eq_some_iff] at taken
    obtain ⟨⟨pool, ret⟩, handled, rfl⟩ := taken
    rcases parseMethod_spec s.pool pool val ret handled with ⟨_, _, same⟩ | ⟨n, _, same, _⟩
    · exact ⟨same.nonce1bin.trans before.nonce1bin, same.n2size.trans before.n2size⟩
    · exact ⟨same.nonce1bin.trans before.nonce1bin, same.n2size.trans before.n2size⟩
  | subscribe first second =>
    cases taken
    obtain ⟨_, same⟩ := initiateStratum_refused s.pool first second keeps
    exact ⟨same.nonce1bin.trans before.nonce1bin, same.n2size.trans before.n2size⟩
  | generate behind work =>
    simp only [step, Option.map_eq_some_iff] at taken
    obtain ⟨⟨pool, out⟩, generated, rfl⟩ := taken
    obtain ⟨_, _, made⟩ := genStratumWork_spec genHash behind s.pool pool work out generated
    rw [made.stored]
    exact ⟨before.nonce1bin, before.n2size⟩

/-! ## Notify -/

/-- A notify that is handled puts its template in force. -/
theorem inForce_start (n : Notify) (sub : Subscription) (ready next : World) (val : Option Json)
    (before : Subscribed sub ready) (named : notifyOf val = some n)
    (handled : (parseMethod ready.pool val).map Prod.snd = some true)
    (taken : step genHash ready (.message val) = some next) : InForce genHash n sub next next := by
  simp only [step, Option.map_eq_some_iff] at taken
  obtain ⟨⟨pool, ret⟩, result, rfl⟩ := taken
  rw [result, Option.map_some, Option.some.injEq] at handled
  rcases parseMethod_spec ready.pool pool val ret result with ⟨unnamed, _⟩ | ⟨m, named',
    same, effect⟩
  · rw [named] at unnamed
    cases unnamed
  · obtain rfl : n = m := Option.some.inj (named.symm.trans named')
    rcases effect with ⟨_, stored⟩ | ⟨failed, _⟩
    · obtain ⟨length, _, origin⟩ := stored_fromNotify n ready.pool pool stored _ stored.coinbase
      refine ⟨same.n2size.trans before.n2size, ?_, ?_, ?_⟩
      · dsimp only
        rw [stored.nonce2Offset, before.nonce1bin]
      · refine ⟨List.replicate ready.pool.n2size 0, _, ?_, stored.coinbase, length, ?_, origin⟩
        · exact List.length_replicate.trans before.n2size
        · dsimp only
          rw [stored.coinbaseLen, take_allocated, before.nonce1bin]
      · refine ⟨[], (List.append_nil _).symm, ?_, ?_⟩
        · exact (UInt64.add_zero pool.nonce2).symm
        · intro i generated impossible
          cases impossible
    · rw [failed] at handled
      cases handled

/-! ## Works -/

/-- What the sender makes of a share with the work's nonce2. -/
theorem submittedNonce2_eq (last : LastShare) (share : Work) :
    submittedNonce2 last share =
      if share.nonce2Len ≤ 8 ∧ ¬ (workNonce share = last.nonce ∧ share.nonce2 = last.nonce2)
      then some (bin2hex (littleEndian share.nonce2Len share.nonce2.toNat)) else none := by
  simp only [submittedNonce2, admitShare]
  split
  · next wide => rw [Option.map_none, if_neg (by omega)]
  · next narrow =>
    split
    · next repeated => rw [Option.map_none, if_neg (fun sent => sent.2 repeated)]
    · next fresh =>
      rw [Option.map_some, if_pos ⟨by omega, fresh⟩, nonce2hex, take_littleEndian _ 8 _ (by omega)]

/-- The counter fills extranonce2 from the left. -/
theorem take_extranonce2 (behind : Bytes) (pool : Pool) :
    (extranonce2 behind pool).take 8 = littleEndian (min pool.n2size 8) pool.nonce2.toNat := by
  have counter := take_littleEndian (min pool.n2size 8) 8 pool.nonce2.toNat (Nat.min_le_right _ _)
  rw [extranonce2, List.take_take, Nat.min_comm 8,
    List.take_append_of_le_length (by rw [length_littleEndian]; exact Nat.min_le_right _ _),
    counter]

/-- An extranonce2 that the counter covers is the counter. -/
theorem extranonce2_narrow (behind : Bytes) (pool : Pool) (narrow : pool.n2size ≤ 8) :
    extranonce2 behind pool = littleEndian pool.n2size pool.nonce2.toNat := by
  rw [extranonce2, List.take_append_of_le_length (by rw [length_littleEndian]; exact narrow),
    take_littleEndian _ 8 _ narrow]

/-- Steps that leave the pool's template and its works alone. -/
theorem inForce_same (n : Notify) (sub : Subscription) (origin s : World) (next : Pool)
    (notifies : List Notify) (before : InForce genHash n sub origin s)
    (same : SameTemplate s.pool next) (subscription : SameSubscription s.pool next) :
    InForce genHash n sub origin ⟨next, notifies, s.works⟩ := by
  obtain ⟨n2size, offset, ⟨nonce2, memory, size, present, whole, used, template⟩,
    made, works, counter,
    log⟩ := before
  refine ⟨subscription.n2size.trans n2size, same.nonce2Offset.trans offset,
    ⟨nonce2, memory, size, same.coinbase.trans present, ?_, ?_, ?_⟩, made, works,
    same.nonce2.trans counter, log⟩
  · dsimp only
    rw [same.coinbaseLen, whole]
  · dsimp only
    rw [same.coinbaseLen, used]
  · dsimp only
    rw [same.coinbaseLen]
    exact fromNotify_of_same n _ _ _ same template

/-- A work generated while the template is in force is the one the pool rebuilds,
and the template stays in force. -/
theorem inForce_generate (n : Notify) (sub : Subscription) (origin s next : World) (behind : Bytes)
    (work : Work) (before : InForce genHash n sub origin s) (small : sub.n2size ≤ 16)
    (taken : step genHash s (.generate behind work) = some next) :
    InForce genHash n sub origin next := by
  simp only [step, Option.map_eq_some_iff] at taken
  obtain ⟨⟨pool, out⟩, generated, rfl⟩ := taken
  obtain ⟨n2size, offset, ⟨old, before, oldSize, present, whole, used, template⟩,
    earlier, works, counter,
    log⟩ := before
  obtain ⟨nodes, _, count, live⟩ := template.nodes
  obtain ⟨memory, merkleRoot, made⟩ :=
    genStratumWork_spec genHash behind s.pool pool work out generated
  obtain rfl := Option.some.inj (present.symm.trans made.present)
  have room : s.pool.nonce2Offset + s.pool.n2size ≤ s.pool.coinbaseLen := by
    have length := congrArg List.length used
    rw [List.length_take, length_coinbaseWith] at length
    omega
  obtain ⟨hashed, _⟩ :=
    workMade_live genHash behind s.pool pool out _ merkleRoot nodes (by omega) room
    count live made
  obtain ⟨header, template', patched, changed, length, coinbaseLen, _⟩ :=
    generate_from genHash n behind
    s.pool pool work out _ present whole room (n2size.trans_le small) template generated
  obtain ⟨_, size, _, stored, _, _, nonce2, nonce2Len, _⟩ := made
  rw [used, offset, coinbaseWith_overwrite _ _ _ _ (by rw [size, n2size, oldSize])] at hashed
  have front : patched.take pool.coinbaseLen = hashedCoinbase pool := by
    rw [hashedCoinbase, changed, Option.getD_some]
  have rebuilt :
      Reconstructed genHash n sub ⟨hashedCoinbase pool, out⟩ (extranonce2 behind s.pool) := by
    refine ⟨size.trans n2size, hashed, ?_, header, ?_⟩
    · dsimp only
      rw [take_extranonce2, n2size, nonce2]
    · intro share last same width
      rw [submittedNonce2_eq, width, nonce2Len, n2size]
      by_cases sent : sub.n2size ≤ 8 ∧ ¬ (workNonce share = last.nonce ∧ share.nonce2 = last.nonce2)
      · have narrow := extranonce2_narrow behind s.pool (n2size.trans_le sent.1)
        rw [if_pos sent, if_pos sent, same, nonce2, narrow, n2size]
      · rw [if_neg sent, if_neg sent]
  refine ⟨?_, ?_, ⟨extranonce2 behind s.pool, patched, size.trans n2size, changed, ?_,
    front.trans hashed,
    front.symm ▸ template'⟩, ?_⟩
  · rw [stored]
    exact n2size
  · rw [stored]
    exact offset
  · dsimp only
    rw [length, coinbaseLen]
  · refine ⟨earlier ++ [⟨hashedCoinbase pool, out⟩], ?_, ?_, ?_⟩
    · dsimp only
      rw [works, List.append_assoc]
    · rw [stored, List.length_append, List.length_singleton, UInt64.ofNat_add, ← UInt64.add_assoc,
        ← counter]
      rfl
    · intro i entry found
      rcases Nat.lt_or_ge i earlier.length with inside | last
      · rw [List.getElem?_append_left inside] at found
        exact log i entry found
      · rw [List.getElem?_append_right last, List.getElem?_singleton] at found
        split at found
        · next zero =>
          cases found
          obtain rfl : i = earlier.length := by omega
          exact ⟨nonce2.trans counter, _, rebuilt⟩
        · cases found

theorem inForce_step (n : Notify) (sub : Subscription) (small : sub.n2size ≤ 16) (origin s : World)
    (event : Event) (next : World) (before : InForce genHash n sub origin s)
    (keeps : KeepsNotify event) (taken : step genHash s event = some next) :
    InForce genHash n sub origin next := by
  cases event with
  | message val =>
    simp only [step, Option.map_eq_some_iff] at taken
    obtain ⟨⟨pool, ret⟩, handled, rfl⟩ := taken
    rcases parseMethod_spec s.pool pool val ret handled with ⟨_, same, subscription⟩ | ⟨m, named, _⟩
    · exact inForce_same genHash n sub origin s pool _ before same subscription
    · rw [KeepsNotify, named] at keeps
      cases keeps
  | subscribe first second =>
    cases taken
    obtain ⟨same, subscription⟩ := initiateStratum_refused s.pool first second keeps
    exact inForce_same genHash n sub origin s _ _ before same subscription
  | generate behind work =>
    exact inForce_generate genHash n sub origin s next behind work before small taken

/-! ## Runs -/

/-- Two values of a counter that has advanced by less than `256 ^ k` differ in
their `k` low bytes. -/
theorem counter_distinct (base : UInt64) (i j k : Nat) (fits : k ≤ 8) (before : i < j)
    (near : j - i < 256 ^ k) :
    littleEndian k (base + UInt64.ofNat i).toNat ≠
      littleEndian k (base + UInt64.ofNat j).toNat := by
  intro same
  have divides : 256 ^ k ∣ 2 ^ 64 := Nat.pow_dvd_pow 256 fits
  have low : ∀ m, (base + UInt64.ofNat m).toNat % 256 ^ k = (base.toNat + m) % 256 ^ k := by
    intro m
    rw [UInt64.toNat_add, UInt64.toNat_ofNat', Nat.mod_mod_of_dvd _ divides, Nat.add_mod,
      Nat.mod_mod_of_dvd _ divides, ← Nat.add_mod]
  have equal := littleEndian_inj k _ _ same
  rw [low, low] at equal
  have zero := Nat.sub_mod_eq_zero_of_mod_eq equal.symm
  rw [Nat.add_sub_add_left, Nat.mod_eq_of_lt near] at zero
  omega

/-- Every work generated under a subscription and a notify is rebuilt by the
pool, and two of them fewer than `256 ^ n2size` calls apart have different extra
nonces, as far as the eight bytes of the counter go. -/
theorem coinbase_reconstructed (s subscribed ready notified final : World) (first second : Attempt)
    (sub : Subscription) (between after : List Event) (val : Option Json) (n : Notify)
    (accepted : acceptedReply first second = some sub) (even : sub.nonce1.length % 2 = 0)
    (subscription : step genHash s (.subscribe first second) = some subscribed)
    (sameSubscription : ∀ event ∈ between, KeepsSubscription event)
    (ranBetween : run (step genHash) subscribed between = some ready)
    (named : notifyOf val = some n)
    (handled : (parseMethod ready.pool val).map Prod.snd = some true)
    (taken : step genHash ready (.message val) = some notified)
    (sameNotify : ∀ event ∈ after, KeepsNotify event)
    (ranAfter : run (step genHash) notified after = some final) :
    ∃ made, final.works = notified.works ++ made ∧
      (∀ generated ∈ made, ∃ nonce2, Reconstructed genHash n sub generated nonce2) ∧
      ∀ (i j : Nat) (earlier later : Generated) (nonce2 nonce2' : Bytes), made[i]? = some earlier →
        made[j]? = some later → Reconstructed genHash n sub earlier nonce2 →
        Reconstructed genHash n sub later nonce2' → i < j → j - i < 256 ^ min sub.n2size 8 →
        nonce2 ≠ nonce2' := by
  have small := (acceptedReply_spec first second sub accepted).2.2
  have subscribed : Subscribed sub ready :=
    always_final (always_of_guarded (subscribed_step genHash sub)
      (subscribed_start genHash s subscribed first second sub accepted even subscription)
      (guarded_of_forall sameSubscription subscribed)) ranBetween
  have inForce : InForce genHash n sub notified final :=
    always_final (always_of_guarded (inForce_step genHash n sub small notified)
      (inForce_start genHash n sub ready notified val subscribed named handled taken)
      (guarded_of_forall sameNotify notified)) ranAfter
  obtain ⟨made, works, _, log⟩ := inForce.made
  refine ⟨made, works, ?_, ?_⟩
  · intro generated member
    obtain ⟨i, found⟩ := List.mem_iff_getElem?.mp member
    exact (log i generated found).2
  · intro i j earlier later nonce2 nonce2' at_i at_j fromFirst fromSecond before near same
    have differ :=
      counter_distinct notified.pool.nonce2 i j _ (Nat.min_le_right sub.n2size 8) before near
    rw [← (log i earlier at_i).1, ← (log j later at_j).1, ← fromFirst.counter, ← fromSecond.counter,
      same] at differ
    exact differ rfl

/-- Two works under a subscription to four bytes of extranonce2. -/
theorem coinbase_reconstructed_four :
    ∃ sub n notified final made,
      run (step fun _ => .zero 32) (start 0)
        [.subscribe (subscribeReply 4) .unanswered,
          .message (notifyLine [0x30, 0x32] [0x30, 0x33])] =
          some notified ∧
      run (step fun _ => .zero 32) notified [.generate [] makeWork, .generate [] makeWork] =
        some final ∧
      final.works = notified.works ++ made ∧
      ∀ generated ∈ made, ∃ nonce2, Reconstructed (fun _ => .zero 32) n sub generated nonce2 := by
  have ran :
    (run (step fun _ => .zero 32)
    ⟨(initiateStratum (emptyPool 0) (subscribeReply 4) .unanswered).1, [], []⟩
      [.message (notifyLine [0x30, 0x32] [0x30, 0x33]), .generate [] makeWork,
        .generate [] makeWork]).isSome =
        true := by decide +kernel
  have notify : (notifyOf (notifyLine [0x30, 0x32] [0x30, 0x33])).isSome = true := by decide +kernel
  obtain ⟨n, named⟩ := Option.isSome_iff_exists.mp notify
  obtain ⟨final, ran⟩ := Option.isSome_iff_exists.mp ran
  obtain ⟨notified, taken, ran⟩ := run_cons_some ran
  obtain ⟨made, works, rebuilt, _⟩ :=
    coinbase_reconstructed (fun _ => .zero 32) (start 0) _ _ notified final
    (subscribeReply 4) .unanswered ⟨none, [0x30, 0x31], 4⟩ [] [.generate [] makeWork,
      .generate [] makeWork]
    (notifyLine [0x30, 0x32] [0x30, 0x33]) n rfl rfl rfl (by simp) rfl named
      (by decide +kernel) taken
    (by simp [KeepsNotify, KeepsSubscription]) ran
  refine ⟨_, n, notified, final, made, ?_, ran, works, rebuilt⟩
  have first : run (step fun _ => .zero 32) notified [] = some notified := rfl
  rw [run, step, Option.bind_some, run]
  exact Option.bind_eq_some_iff.mpr ⟨notified, taken, first⟩

/-- With nine bytes of extranonce2 the last one is whatever the stack held, and
the sender drops the share. -/
theorem nine_bytes_not_sent :
    ∃ final generated,
      run (step fun _ => .zero 32) (start 0)
        [.subscribe (subscribeReply 9) .unanswered, .message (notifyLine [0x30, 0x32] [0x30, 0x33]),
          .generate [0xAA] makeWork] = some final ∧
      final.works = [generated] ∧
      generated.coinbase ≠ unhex [0x30, 0x32] ++ unhex [0x30, 0x31] ++
        littleEndian 9 generated.work.nonce2.toNat ++ unhex [0x30, 0x33] ∧
      ∀ last, submittedNonce2 last generated.work = none := by
  have ran : (run (step fun _ => .zero 32) (start 0)
      [.subscribe (subscribeReply 9) .unanswered, .message (notifyLine [0x30, 0x32] [0x30, 0x33]),
        .generate [0xAA] makeWork]).map
          (fun s => s.works.map fun made => (made.coinbase, made.work.nonce2,
            made.work.nonce2Len)) =
      some [([2, 1, 0, 0, 0, 0, 0, 0, 0, 0, 0xAA, 3], 0, 9)] := by decide +kernel
  obtain ⟨final, ran, logged⟩ := Option.map_eq_some_iff.mp ran
  obtain ⟨generated, works, fields⟩ := List.map_eq_singleton_iff.mp logged
  simp only [Prod.mk.injEq] at fields
  obtain ⟨coinbase, nonce2, nonce2Len⟩ := fields
  refine ⟨final, generated, ran, works, ?_, ?_⟩
  · rw [coinbase, nonce2]
    decide
  · intro last
    rw [submittedNonce2_eq, nonce2Len, if_neg (fun sent => absurd sent.1 (by decide))]

end CgminerT4.Guarantees.CoinbaseReconstruction
