import CgminerT4.Guarantees.NotifyTemplate
import CgminerT4.Library.Runs

/-!
# One notify at a time in the stratum template

A pool under server messages, subscriptions and generated works in any order;
any thread may generate a work between two messages. parse_notify stores the
head of the template before it decodes the rest, and a subscription changes
`n2size` without touching the coinbase, so the template stays that of one notify
as long as no notify is given up half stored and no subscription widens the
extra nonce past the end of the coinbase. Such runs also meet no undefined
behaviour. The memory of the coinbase is four times what is in use.
-/
namespace CgminerT4.Guarantees.TemplateConsistency
open Library.ByteString Library.Runs Source.Jansson Source.Hex Source.WorkItem
  Source.StratumTemplate NotifyTemplate

/-- A generated work and the bytes gen_hash was given for it. -/
structure Generated where
  coinbase : Bytes
  work : Work

/-- The pool, every notify it has accepted for storing, and every work it has generated. -/
structure World where
  pool : Pool
  notifies : List Notify
  works : List Generated

inductive Event where
  /-- A line handled by parse_method, none when it is not JSON. -/
  | message (val : Option Json)
  | subscribe (first second : Attempt)
  /-- gen_stratum_work, in the receive thread or in any other. -/
  | generate (behind : Bytes) (work : Work)

/-- The notify that a line makes parse_notify store. -/
def notifyOf (val : Option Json) : Option Notify :=
  match readMethod val with
  | .notify params => readNotify params
  | _ => none

variable (genHash : Bytes → Digest)

def step (s : World) : Event → Option World
  | .message val =>
    (parseMethod s.pool val).map fun (pool, _) =>
      { s with pool, notifies := s.notifies ++ (notifyOf val).toList }
  | .subscribe first second => some { s with pool := (initiateStratum s.pool first second).1 }
  | .generate behind work =>
    (genStratumWork genHash behind s.pool work).map fun (pool, out) =>
      { s with pool, works := s.works ++ [⟨hashedCoinbase pool, out⟩] }

def start (poolNo : PoolNo) : World := ⟨emptyPool poolNo, [], []⟩

/-- The coinbase of a notify around some extranonce1, with at most 16 bytes
written behind extranonce1 since. -/
def CoinbaseFrom (n : Notify) (nonce2Offset : Nat) (coinbase : Bytes) : Prop :=
  ∃ nonce1 n2size extra,
    nonce2Offset = (unhex n.coinbase1).length + nonce1.length ∧ extra.length ≤ 16 ∧
      nonce2Offset + extra.length ≤ (coinbaseWith n nonce1 (List.replicate n2size 0)).length ∧
      coinbase = overwrite (coinbaseWith n nonce1 (List.replicate n2size 0)) nonce2Offset extra

/-- The template is that of the notify: job id, time, header, all merkle nodes,
which are live, and the coinbase. -/
structure FromNotify (n : Notify) (pool : Pool) (coinbase : Bytes) : Prop where
  jobId : pool.jobId = some n.jobId
  ntime : pool.ntime = n.ntime.take 8
  header : pool.headerBin.bytes = unhex (headerText n)
  nodes : ∃ nodes, NodesOf n.merkleArr nodes ∧ pool.merkles = nodes.length ∧
    pool.merkleBin.take pool.merkles = nodes.map .live
  coinbase : CoinbaseFrom n pool.nonce2Offset coinbase

structure Consistent (s : World) (memory : Bytes) : Prop where
  length : memory.length = 4 * s.pool.coinbaseLen
  fits : s.pool.nonce2Offset + s.pool.n2size ≤ s.pool.coinbaseLen
  origin : ∃ n ∈ s.notifies, FromNotify n s.pool (memory.take s.pool.coinbaseLen)

/-- What generating a work from the template of one notify gives. -/
structure WorkFrom (n : Notify) (made : Generated) : Prop where
  jobId : made.work.jobId = some n.jobId
  ntime : made.work.ntime = some (n.ntime.take 8)
  coinbase : ∃ nonce2Offset, CoinbaseFrom n nonce2Offset made.coinbase
  data : ∃ nodes, NodesOf n.merkleArr nodes ∧
    made.work.data.bytes.take 112 = overwrite ((unhex (headerText n)).take 112) 36
      (flipWords (foldNodes genHash nodes (genHash made.coinbase)).bytes)

/-- Whenever there is a coinbase the template is that of one notify, and so is
every work generated so far. -/
structure TemplateConsistent (s : World) : Prop where
  template : ∀ memory, s.pool.coinbase = some memory → Consistent s memory
  works : ∀ made ∈ s.works, ∃ n ∈ s.notifies, WorkFrom genHash n made

structure Inv (s : World) : Prop where
  n2size : s.pool.n2size ≤ 16
  unused : s.pool.coinbase = none → s.pool.merkles = 0
  consistent : TemplateConsistent genHash s

/-- A notify that is stored decodes in all of its parts, and a subscription does
not ask for an extra nonce that would reach past the end of the coinbase. Works
are generated for a subscribed pool with a coinbase; `behind` supplies what an
extranonce2 of more than eight bytes reads. -/
def Intact (s : World) : Event → Prop
  | .message val => ∀ n, notifyOf val = some n → Decodes n
  | .subscribe first second => s.pool.coinbase = none ∨
      ∀ sub, acceptedReply first second = some sub →
        s.pool.nonce2Offset + sub.n2size ≤ s.pool.coinbaseLen
  | .generate behind _ =>
    s.pool.coinbase ≠ none ∧ s.pool.nonce1 ≠ none ∧ s.pool.n2size ≤ 8 + behind.length

/-! ## Steps -/

/-- A handled line either leaves the template alone, or is a notify that stores
all of it, or fails and leaves the old coinbase behind. -/
theorem parseMethod_spec (pool next : Pool) (val : Option Json) (ret : Bool)
    (done : parseMethod pool val = some (next, ret)) :
    (notifyOf val = none ∧ SameTemplate pool next ∧ SameSubscription pool next) ∨
      ∃ n, notifyOf val = some n ∧ SameSubscription pool next ∧
        ((ret = true ∧ Stored n pool next) ∨
          (ret = false ∧ next.coinbase = pool.coinbase ∧ ¬ Decodes n)) := by
  unfold parseMethod at done
  unfold notifyOf
  split at done
  · next params method =>
    rw [method]
    rcases parseNotify_spec pool next params ret done with ⟨rejected, rfl, _⟩ | stored
    · exact Or.inl ⟨rejected, SameTemplate.refl _, ⟨rfl, rfl⟩⟩
    · exact Or.inr stored
  · next params method =>
    rw [method]
    have result : (parseDiff pool params).1 = next := congrArg Prod.fst (Option.some.inj done)
    exact Or.inl ⟨rfl, result ▸ parseDiff_spec pool params⟩
  · next method =>
    rw [method]
    cases done
    exact Or.inl ⟨rfl, SameTemplate.refl _, ⟨rfl, rfl⟩⟩

theorem length_nodesOf (entries : List Json) (nodes : List Digest) (named : NodesOf entries nodes) :
    nodes.length = entries.length := by
  have lengths := congrArg List.length named
  simpa using lengths.symm

/-- A stored notify makes a consistent template. -/
theorem stored_fromNotify (n : Notify) (before next : Pool) (stored : Stored n before next)
    (memory : Bytes) (present : next.coinbase = some memory) :
    memory.length = 4 * next.coinbaseLen ∧ next.nonce2Offset + before.n2size ≤ next.coinbaseLen ∧
      FromNotify n next (memory.take next.coinbaseLen) := by
  obtain ⟨nodes, named, live⟩ := stored.nodes
  have built := Option.some.inj (present.symm.trans stored.coinbase)
  have size : memory.length = 4 * next.coinbaseLen := by
    rw [built, stored.coinbaseLen, length_allocated]
  have used : memory.take next.coinbaseLen =
      coinbaseWith n before.nonce1bin (List.replicate before.n2size 0) := by
    rw [built, stored.coinbaseLen, take_allocated]
  have room : next.nonce2Offset + before.n2size ≤ next.coinbaseLen := by
    rw [stored.nonce2Offset, stored.coinbaseLen, length_coinbaseWith, List.length_replicate]
    omega
  refine ⟨size, room, stored.jobId, stored.ntime, stored.header, ⟨nodes, named, ?_, live⟩, ?_⟩
  · rw [stored.merkles, length_nodesOf _ _ named]
  · refine ⟨before.nonce1bin, before.n2size, [], stored.nonce2Offset, Nat.zero_le _, ?_, ?_⟩
    · rw [List.length_nil, ← stored.coinbaseLen]
      omega
    · rw [overwrite_nil, used]

/-- The template only depends on the fields named in `SameTemplate`. -/
theorem fromNotify_of_same (n : Notify) (before next : Pool) (coinbase : Bytes)
    (same : SameTemplate before next) (stems : FromNotify n before coinbase) :
    FromNotify n next coinbase := by
  obtain ⟨jobId, ntime, header, merkles, merkleBin, _, _, nonce2Offset, _⟩ := same
  refine ⟨jobId.trans stems.jobId, ntime.trans stems.ntime, ?_, ?_, ?_⟩
  · rw [header]
    exact stems.header
  · rw [merkles, merkleBin]
    exact stems.nodes
  · rw [nonce2Offset]
    exact stems.coinbase

/-- Writing another extra nonce leaves a coinbase of the same notify. -/
theorem coinbaseFrom_overwrite (n : Notify) (nonce2Offset : Nat) (coinbase nonce2 : Bytes)
    (stems : CoinbaseFrom n nonce2Offset coinbase) (short : nonce2.length ≤ 16)
    (fits : nonce2Offset + nonce2.length ≤ coinbase.length) :
    CoinbaseFrom n nonce2Offset (overwrite coinbase nonce2Offset nonce2) := by
  obtain ⟨nonce1, n2size, extra, offset, extraShort, extraFits, rfl⟩ := stems
  rw [length_overwrite _ _ _ extraFits] at fits
  refine ⟨nonce1, n2size, nonce2 ++ extra.drop nonce2.length, offset, ?_, ?_, ?_⟩
  · rw [List.length_append, List.length_drop]
    omega
  · rw [List.length_append, List.length_drop]
    omega
  · exact overwrite_same_place _ extra nonce2 nonce2Offset extraFits fits

/-- A work generated from a consistent template is that of its notify, and so
is the coinbase it leaves. -/
theorem generate_from (n : Notify) (behind : Bytes) (pool next : Pool) (work out : Work)
    (memory : Bytes) (present : pool.coinbase = some memory)
    (whole : memory.length = 4 * pool.coinbaseLen)
    (room : pool.nonce2Offset + pool.n2size ≤ pool.coinbaseLen) (short : pool.n2size ≤ 16)
    (origin : FromNotify n pool (memory.take pool.coinbaseLen))
    (done : genStratumWork genHash behind pool work = some (next, out)) :
    WorkFrom genHash n ⟨hashedCoinbase next, out⟩ ∧
      FromNotify n next (hashedCoinbase next) ∧
      ∃ patched, next.coinbase = some patched ∧ patched.length = 4 * pool.coinbaseLen ∧
        next.coinbaseLen = pool.coinbaseLen ∧ next.nonce2Offset = pool.nonce2Offset ∧
        next.n2size = pool.n2size := by
  obtain ⟨nodes, named, count, live⟩ := origin.nodes
  obtain ⟨old, merkleRoot, made⟩ := genStratumWork_spec genHash behind pool next work out done
  obtain rfl : memory = old := Option.some.inj (present.symm.trans made.present)
  obtain ⟨hashed, rfl⟩ :=
    workMade_live genHash behind pool next out memory merkleRoot nodes (by omega)
    room count live made
  have size := made.size
  have used : (memory.take pool.coinbaseLen).length = pool.coinbaseLen := by
    rw [List.length_take]
    omega
  have from' : CoinbaseFrom n pool.nonce2Offset (hashedCoinbase next) := by
    rw [hashed]
    exact coinbaseFrom_overwrite n _ _ _ origin.coinbase (by omega) (by omega)
  have header := made.header
  rw [origin.header] at header
  refine ⟨⟨made.jobId.trans origin.jobId, ?_, ⟨_, from'⟩, nodes, named, header⟩, ?_,
    overwrite memory pool.nonce2Offset (extranonce2 behind pool), ?_, ?_, ?_⟩
  · rw [made.ntime, origin.ntime]
  · rw [made.stored] at from' ⊢
    exact ⟨origin.jobId, origin.ntime, origin.header, origin.nodes, from'⟩
  · rw [made.stored]
  · rw [length_overwrite _ _ _ (by rw [size]; exact made.inside), whole]
  · rw [made.stored]
    exact ⟨rfl, rfl, rfl⟩

/-- What was generated from an earlier notify stays accounted for. -/
theorem works_of_subset (s : World) (notifies : List Notify)
    (inv : Inv genHash s) (kept : ∀ n ∈ s.notifies, n ∈ notifies) :
    ∀ out ∈ s.works, ∃ n ∈ notifies, WorkFrom genHash n out := by
  intro out member
  obtain ⟨n, known, stems⟩ := inv.consistent.works out member
  exact ⟨n, kept n known, stems⟩

/-- A step that leaves the template alone keeps it consistent as long as the
extra nonce still fits. -/
theorem same_template_inv (s : World) (next : Pool) (notifies : List Notify) (inv : Inv genHash s)
    (kept : ∀ n ∈ s.notifies, n ∈ notifies) (same : SameTemplate s.pool next)
    (small : next.n2size ≤ 16) (fits : ∀ memory, s.pool.coinbase = some memory →
      s.pool.nonce2Offset + next.n2size ≤ s.pool.coinbaseLen) :
    Inv genHash ⟨next, notifies, s.works⟩ := by
  refine ⟨small, ?_, ?_, works_of_subset genHash s notifies inv kept⟩
  · intro absent
    rw [same.merkles]
    exact inv.unused (same.coinbase.symm.trans absent)
  · intro memory present
    have before := same.coinbase.symm.trans present
    obtain ⟨length, _, n, known, origin⟩ := inv.consistent.template memory before
    refine ⟨?_, ?_, n, kept n known, ?_⟩
    · dsimp only
      rw [same.coinbaseLen, length]
    · dsimp only
      rw [same.nonce2Offset, same.coinbaseLen]
      exact fits memory before
    · dsimp only
      rw [same.coinbaseLen]
      exact fromNotify_of_same n _ _ _ same origin

theorem message_inv (s next : World) (val : Option Json) (inv : Inv genHash s)
    (intact : Intact s (.message val)) (taken : step genHash s (.message val) = some next) :
    Inv genHash next := by
  simp only [step, Option.map_eq_some_iff] at taken
  obtain ⟨⟨pool, ret⟩, handled, rfl⟩ := taken
  have kept : ∀ n ∈ s.notifies, n ∈ s.notifies ++ (notifyOf val).toList :=
    fun n known => List.mem_append_left _ known
  rcases parseMethod_spec s.pool pool val ret handled with
    ⟨_, same, subscription⟩ | ⟨n, named, same, ⟨_, stored⟩ | ⟨_, _, fails⟩⟩
  · refine same_template_inv genHash s pool _ inv kept same
      (subscription.n2size.trans_le inv.n2size) ?_
    intro memory present
    rw [subscription.n2size]
    exact (inv.consistent.template memory present).fits
  · refine ⟨same.n2size.trans_le inv.n2size, ?_, ?_, works_of_subset genHash s _ inv kept⟩
    · intro absent
      cases absent.symm.trans stored.coinbase
    · intro memory present
      obtain ⟨length, fits, origin⟩ := stored_fromNotify n s.pool pool stored memory present
      have known : n ∈ s.notifies ++ (notifyOf val).toList := by
        rw [named]
        exact List.mem_append_right _ (List.mem_singleton_self n)
      exact ⟨length, same.n2size ▸ fits, n, known, origin⟩
  · exact absurd (intact n named) fails

theorem subscribe_inv (s next : World) (first second : Attempt) (inv : Inv genHash s)
    (intact : Intact s (.subscribe first second))
    (taken : step genHash s (.subscribe first second) = some next) : Inv genHash next := by
  cases taken
  have kept : ∀ n ∈ s.notifies, n ∈ s.notifies := fun n known => known
  cases accepted : acceptedReply first second with
  | none =>
    obtain ⟨same, subscription⟩ := initiateStratum_refused s.pool first second accepted
    refine same_template_inv genHash s _ _ inv kept same
      (subscription.n2size.trans_le inv.n2size) ?_
    intro memory present
    rw [subscription.n2size]
    exact (inv.consistent.template memory present).fits
  | some sub =>
    obtain ⟨same, size, _⟩ := initiateStratum_accepted s.pool first second sub accepted
    refine same_template_inv genHash s _ _ inv kept same
      (size.trans_le (acceptedReply_spec first second sub accepted).2.2) ?_
    intro memory present
    rw [size]
    rcases intact with absent | fits
    · rw [absent] at present
      cases present
    · exact fits sub accepted

theorem generate_inv (s next : World) (behind : Bytes) (work : Work) (inv : Inv genHash s)
    (taken : step genHash s (.generate behind work) = some next) : Inv genHash next := by
  simp only [step, Option.map_eq_some_iff] at taken
  obtain ⟨⟨pool, out⟩, generated, rfl⟩ := taken
  obtain ⟨memory, _, made⟩ := genStratumWork_spec genHash behind s.pool pool work out generated
  obtain ⟨whole, room, n, known, origin⟩ := inv.consistent.template memory made.present
  obtain ⟨stems, origin', patched, stored, length, coinbaseLen, nonce2Offset, n2size⟩ :=
    generate_from genHash n behind s.pool pool work out memory made.present whole room
      inv.n2size origin
      generated
  have hashed : hashedCoinbase pool = patched.take pool.coinbaseLen := by
    rw [hashedCoinbase, stored, Option.getD_some]
  refine ⟨n2size.trans_le inv.n2size, ?_, ?_, ?_⟩
  · intro absent
    cases absent.symm.trans stored
  · intro current same
    obtain rfl := Option.some.inj (stored.symm.trans same)
    refine ⟨?_, ?_, n, known, hashed ▸ origin'⟩
    · dsimp only
      rw [length, coinbaseLen]
    · dsimp only
      rw [nonce2Offset, n2size, coinbaseLen]
      exact room
  · intro entry member
    rcases List.mem_append.mp member with old | fresh
    · exact inv.consistent.works entry old
    · rw [List.mem_singleton.mp fresh]
      exact ⟨n, known, stems⟩

theorem step_inv (s : World) (event : Event) (next : World) (inv : Inv genHash s)
    (intact : Intact s event) (taken : step genHash s event = some next) : Inv genHash next := by
  cases event with
  | message val => exact message_inv genHash s next val inv intact taken
  | subscribe first second => exact subscribe_inv genHash s next first second inv intact taken
  | generate behind work => exact generate_inv genHash s next behind work inv taken

/-! A consistent template is also safe to work with: neither storing a notify
that decodes nor generating a work touches freed nodes or leaves its array. -/

/-- The counted nodes are live, also before there is a coinbase. -/
theorem counted_live (s : World) (inv : Inv genHash s) :
    ∃ nodes : List Digest, s.pool.merkles = nodes.length ∧
      s.pool.merkleBin.take s.pool.merkles = nodes.map .live := by
  cases current : s.pool.coinbase with
  | none =>
    have unused := inv.unused current
    exact ⟨[], unused, by rw [unused]; rfl⟩
  | some memory =>
    obtain ⟨_, _, _, _, origin⟩ := inv.consistent.template memory current
    obtain ⟨nodes, _, count, live⟩ := origin.nodes
    exact ⟨nodes, count, live⟩

theorem message_defined (s : World) (val : Option Json) (inv : Inv genHash s)
    (decodes : ∀ n, notifyOf val = some n → Decodes n) :
    (step genHash s (.message val)).isSome = true := by
  obtain ⟨nodes, count, live⟩ := counted_live genHash s inv
  rw [step, Option.isSome_map]
  unfold parseMethod
  unfold notifyOf at decodes
  split
  · next params method =>
    rw [method] at decodes
    unfold parseNotify
    split
    · rfl
    · next n read =>
      rw [Option.isSome_map]
      exact storeNotify_defined s.pool n nodes count live (decodes n read)
  · rfl
  · rfl

theorem generate_defined (s : World) (behind : Bytes) (work : Work) (inv : Inv genHash s)
    (intact : Intact s (.generate behind work)) :
    (step genHash s (.generate behind work)).isSome = true := by
  obtain ⟨stored, subscribed, stack⟩ := intact
  obtain ⟨memory, present⟩ := Option.ne_none_iff_exists'.mp stored
  obtain ⟨nonce1, subscribed⟩ := Option.ne_none_iff_exists'.mp subscribed
  obtain ⟨whole, room, n, _, origin⟩ := inv.consistent.template memory present
  obtain ⟨nodes, _, count, live⟩ := origin.nodes
  rw [step, Option.isSome_map]
  exact genStratumWork_defined genHash behind s.pool work memory n.jobId nonce1 nodes present
    origin.jobId subscribed stack (by omega) room count live

theorem step_defined (s : World) (event : Event) (inv : Inv genHash s) (intact : Intact s event) :
    (step genHash s event).isSome = true := by
  cases event with
  | message val => exact message_defined genHash s val inv intact
  | subscribe first second => rfl
  | generate behind work => exact generate_defined genHash s behind work inv intact

/-! ## Runs -/

/-- As long as no notify is given up half stored and no subscription widens the
extra nonce past the end of the coinbase, no step is undefined and every
generated work combines the fields of one notify. -/
theorem template_consistent (poolNo : PoolNo) (events : List Event)
    (intact : Every (step genHash) Intact (start poolNo) events) :
    (run (step genHash) (start poolNo) events).isSome = true ∧
      Always (step genHash) (TemplateConsistent genHash) (start poolNo) events := by
  have initial : Inv genHash (start poolNo) :=
    ⟨Nat.zero_le _, fun _ => rfl, nofun, fun out member => absurd member List.not_mem_nil⟩
  refine ⟨run_isSome_of_every (step_defined genHash) (step_inv genHash) initial intact, ?_⟩
  have inv := always_of_guarded (step_inv genHash) initial (guarded_of_every intact)
  exact always_mono (fun s inv => inv.consistent) inv

/-- A subscription to one byte of extranonce1 and the given size of extranonce2. -/
def subscribeReply (n2size : Int) : Attempt :=
  .reply (some (.object [("result", .array [.array [], .string [0x30, 0x31], .integer n2size])]))

/-- A notify without merkle nodes around the given coinbase parts. -/
def notifyLine (coinbase1 coinbase2 : Bytes) : Option Json :=
  let digits (n : Nat) : Json := .string (List.replicate n 0x30)
  some (.object [("method", .string notifyName),
    ("params", .array [.string [0x31], digits 64, .string coinbase1, .string coinbase2, .array [],
      digits 8, digits 8, digits 8, .bool true])])

theorem notifyLine_decodes (n : Notify)
    (named : notifyOf (notifyLine [0x30, 0x32] [0x30, 0x33]) = some n) : Decodes n := by
  cases named
  exact ⟨nofun, by decide +kernel, rfl, rfl⟩

/-- What a guard depends on. -/
structure Sizes where
  coinbase : Bool
  nonce1 : Bool
  n2size : Nat
  nonce2Offset : Nat
  coinbaseLen : Nat
  deriving DecidableEq

def sizes (s : World) : Sizes :=
  ⟨s.pool.coinbase.isSome, s.pool.nonce1.isSome, s.pool.n2size, s.pool.nonce2Offset,
    s.pool.coinbaseLen⟩

theorem intact_generate (s : World) (n2size nonce2Offset coinbaseLen : Nat) (work : Work)
    (known : sizes s = ⟨true, true, n2size, nonce2Offset, coinbaseLen⟩) (small : n2size ≤ 8) :
    Intact s (.generate [] work) := by
  simp only [sizes, Sizes.mk.injEq] at known
  obtain ⟨stored, subscribed, rfl, _⟩ := known
  exact ⟨Option.isSome_iff_ne_none.mp stored, Option.isSome_iff_ne_none.mp subscribed, small⟩

/-- A subscription for a smaller extranonce2 between two works. -/
theorem template_consistent_resubscribed :
    ∃ final, run (step fun _ => .zero 32) (start 0)
        [.subscribe (subscribeReply 4) .unanswered, .message (notifyLine [0x30, 0x32] [0x30, 0x33]),
          .generate [] makeWork, .subscribe (subscribeReply 2) .unanswered, .generate [] makeWork] =
        some final ∧ TemplateConsistent (fun _ => .zero 32) final := by
  have checks : (run (step fun _ => .zero 32) (start 0) [.subscribe (subscribeReply 4) .unanswered,
      .message (notifyLine [0x30, 0x32] [0x30, 0x33])]).map (fun s => (sizes s,
        (run (step fun _ => .zero 32) s [.generate [] makeWork]).map fun s => (sizes s,
          (run (step fun _ => .zero 32) s
            [.subscribe (subscribeReply 2) .unanswered]).map sizes))) =
      some (⟨true, true, 4, 2, 7⟩, some (⟨true, true, 4, 2, 7⟩, some ⟨true, true, 2, 2, 7⟩)) := by
    decide +kernel
  have intact : Every (step fun _ => .zero 32) Intact (start 0)
      [.subscribe (subscribeReply 4) .unanswered, .message (notifyLine [0x30, 0x32] [0x30, 0x33]),
        .generate [] makeWork, .subscribe (subscribeReply 2) .unanswered,
        .generate [] makeWork] := by
    refine ⟨Or.inl rfl, fun subscribed first => ⟨notifyLine_decodes, fun notified second => ?_⟩⟩
    simp only [run, first, second, Option.bind_some, Option.map_some, Option.some.injEq,
      Prod.mk.injEq] at checks
    obtain ⟨atNotified, checks⟩ := checks
    refine ⟨intact_generate _ _ _ _ _ atNotified (by decide), fun generated third => ?_⟩
    simp only [third, Option.bind_some, Option.map_some, Option.some.injEq, Prod.mk.injEq] at checks
    obtain ⟨atGenerated, checks⟩ := checks
    refine ⟨Or.inr ?_, fun resubscribed fourth => ?_⟩
    · intro sub accepted
      simp only [sizes, Sizes.mk.injEq] at atGenerated
      obtain ⟨_, _, _, offset, used⟩ := atGenerated
      cases accepted
      rw [offset, used]
      decide
    · simp only [fourth, Option.bind_some, Option.map_some, Option.some.injEq] at checks
      exact ⟨intact_generate _ _ _ _ _ checks (by decide), fun _ _ => trivial⟩
  obtain ⟨through, consistent⟩ := template_consistent (fun _ => .zero 32) 0 _ intact
  obtain ⟨final, ran⟩ := Option.isSome_iff_exists.mp through
  exact ⟨final, ran, always_final consistent ran⟩

/-- The memory of a stored coinbase is longer than `coinbaseLen`. -/
theorem plain_notify_rounded :
    ∃ s memory, run (step fun _ => .zero 32) (start 0)
        [.subscribe (subscribeReply 4) .unanswered,
          .message (notifyLine [0x30, 0x32] [0x30, 0x33])] =
        some s ∧ s.pool.coinbase = some memory ∧ memory.length ≠ s.pool.coinbaseLen := by
  have ran : (run (step fun _ => .zero 32) (start 0)
      [.subscribe (subscribeReply 4) .unanswered,
        .message (notifyLine [0x30, 0x32] [0x30, 0x33])]).map
        (fun s => (s.pool.coinbase.map List.length, s.pool.coinbaseLen)) = some (some 28, 7) := by
    decide +kernel
  obtain ⟨s, ran, fields⟩ := Option.map_eq_some_iff.mp ran
  obtain ⟨length, used⟩ := Prod.mk.inj fields
  obtain ⟨memory, present, length⟩ := Option.map_eq_some_iff.mp length
  refine ⟨s, memory, ran, present, ?_⟩
  rw [length, used]
  decide

/-- A second notify whose coinbase2 has an odd number of digits is given up after
its longer coinbase1 was counted: the old coinbase stays, one byte too short. -/
theorem odd_coinbase2_mixed :
    ¬ Always (step fun _ => .zero 32) (TemplateConsistent fun _ => .zero 32) (start 0)
      [.subscribe (subscribeReply 4) .unanswered, .message (notifyLine [0x30, 0x32] [0x30, 0x33]),
        .message (notifyLine [0x30, 0x32, 0x30, 0x32] [0x30, 0x33, 0x30])] := by
  intro consistent
  have ran : (run (step fun _ => .zero 32) (start 0) [.subscribe (subscribeReply 4) .unanswered,
      .message (notifyLine [0x30, 0x32] [0x30, 0x33]),
      .message (notifyLine [0x30, 0x32, 0x30, 0x32] [0x30, 0x33, 0x30])]).map
        (fun s => (s.pool.coinbase.map List.length, s.pool.coinbaseLen)) = some (some 28, 8) := by
    decide +kernel
  obtain ⟨final, ran, fields⟩ := Option.map_eq_some_iff.mp ran
  obtain ⟨length, used⟩ := Prod.mk.inj fields
  obtain ⟨memory, present, length⟩ := Option.map_eq_some_iff.mp length
  have whole := ((always_final consistent ran).template memory present).length
  rw [used, length] at whole
  exact absurd whole (by decide)

end CgminerT4.Guarantees.TemplateConsistency
