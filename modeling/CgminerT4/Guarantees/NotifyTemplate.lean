import CgminerT4.Source.StratumTemplate

/-!
# What subscriptions, notifies and generated works do to the template

One statement for each operation, which the template's users build on: a notify
that decodes stores all of its parts, one that does not leaves the old coinbase
in place; generating a work writes the counter into the coinbase and nothing
else.
-/
namespace CgminerT4.Guarantees.NotifyTemplate
open Library.ByteString Source.Jansson Source.Hex Source.WorkItem Source.StratumTemplate

/-- Every part of the notify that parse_notify decodes under the lock is well formed. -/
structure Decodes (n : Notify) : Prop where
  merkles : ∀ entry ∈ n.merkleArr, ∃ merkle node,
    jsonStringValue (some entry) = some merkle ∧ decodeNode merkle = some node
  header : (hex2bin (headerText n) 128).2 = true
  coinbase1 : (hex2bin n.coinbase1 (n.coinbase1.length / 2)).2 = true
  coinbase2 : (hex2bin n.coinbase2 (n.coinbase2.length / 2)).2 = true

/-- The nodes of a notify, in order. -/
def NodesOf (entries : List Json) (nodes : List Digest) : Prop :=
  entries.map (fun entry => (jsonStringValue (some entry)).bind decodeNode) = nodes.map some

/-- Storing a node at the end of what is known of the front. -/
theorem take_set_succ (slots : List Slot) (i : Nat) (slot : Slot) (inside : i < slots.length) :
    (slots.set i slot).take (i + 1) = slots.take i ++ [slot] := by
  rw [List.take_add_one, List.take_set_of_le (Nat.le_refl i), List.getElem?_set_self inside]
  rfl

/-- The merkle loop either stores the nodes of all entries or gives up at an
entry that does not decode. -/
theorem storeMerkles_spec (entries : List Json) (i : Nat) (slots result : List Slot) (ret : Bool)
    (done : storeMerkles entries i slots = some (result, ret))
    (room : i + entries.length ≤ slots.length) :
    (ret = true ∧ ∃ nodes, NodesOf entries nodes ∧
        result.take (i + entries.length) = slots.take i ++ nodes.map .live) ∨
      (ret = false ∧ ∃ entry ∈ entries, ∀ merkle node,
        jsonStringValue (some entry) = some merkle → decodeNode merkle ≠ some node) := by
  induction entries generalizing i slots with
  | nil =>
    cases done
    exact Or.inl ⟨rfl, [], rfl, by simp⟩
  | cons entry rest ih =>
    simp only [List.length_cons] at room
    simp only [storeMerkles] at done
    split at done
    · cases done
    · next merkle text =>
      split at done
      · next failed =>
        cases done
        refine Or.inr ⟨rfl, entry, List.mem_cons_self, ?_⟩
        intro merkle' node text'
        rw [text, Option.some.injEq] at text'
        rw [← text', failed]
        exact nofun
      · next node decoded =>
        have size : (slots.set i (.live node)).length = slots.length := List.length_set
        rcases ih (i + 1) (slots.set i (.live node)) done (by omega) with
          ⟨rfl, nodes, named, stored⟩ | ⟨rfl, bad, member, fails⟩
        · refine Or.inl ⟨rfl, node :: nodes, ?_, ?_⟩
          · rw [NodesOf, List.map_cons, List.map_cons, text, Option.bind_some, decoded]
            exact congrArg _ named
          · rw [take_set_succ _ _ _ (by omega)] at stored
            rw [List.length_cons, List.map_cons, ← Nat.add_assoc, Nat.add_right_comm, stored,
              List.append_assoc]
            rfl
        · exact Or.inr ⟨rfl, bad, List.mem_cons_of_mem _ member, fails⟩

/-- A coinbase at the front of its memory, of which the rest stays zero. -/
def allocated (coinbase : Bytes) : Bytes := coinbase ++ List.replicate (3 * coinbase.length) 0

@[simp] theorem length_allocated (coinbase : Bytes) :
    (allocated coinbase).length = 4 * coinbase.length := by
  rw [allocated, List.length_append, List.length_replicate]
  omega

@[simp] theorem take_allocated (coinbase : Bytes) :
    (allocated coinbase).take coinbase.length = coinbase :=
  List.take_left

/-- The coinbase is the decoded parts around room for the extra nonces. -/
theorem buildCoinbase_eq (pool : Pool) (cb1 cb2 : Bytes)
    (size : pool.coinbaseLen = cb1.length + pool.nonce1bin.length + pool.n2size + cb2.length) :
    buildCoinbase pool cb1 cb2 =
      allocated (cb1 ++ pool.nonce1bin ++ List.replicate pool.n2size 0 ++ cb2) := by
  have zeros : (cgcalloc pool.coinbaseLen 1).length = pool.coinbaseLen * 4 := List.length_replicate
  have front : overwrite (overwrite (cgcalloc pool.coinbaseLen 1) 0 cb1) cb1.length pool.nonce1bin =
      cb1 ++ pool.nonce1bin ++
        List.replicate (pool.n2size + (cb2.length + 3 * pool.coinbaseLen)) 0 := by
    have joined := overwrite_overwrite (cgcalloc pool.coinbaseLen 1) cb1 pool.nonce1bin 0 (by omega)
    rw [Nat.zero_add] at joined
    rw [joined, cgcalloc_bytes, overwrite_replicate, List.length_append]
    congr 2
    omega
  have middle := overwrite_middle (cb1 ++ pool.nonce1bin ++ List.replicate pool.n2size 0)
    (List.replicate cb2.length 0) cb2 (List.replicate (3 * pool.coinbaseLen) 0)
    List.length_replicate.symm
  have length : (cb1 ++ pool.nonce1bin ++ List.replicate pool.n2size (0 : UInt8)).length =
      cb1.length + pool.nonce1bin.length + pool.n2size := by
    simp only [List.length_append, List.length_replicate]
  rw [length, List.append_assoc _ (List.replicate cb2.length 0), List.replicate_append_replicate,
    List.append_assoc _ (List.replicate pool.n2size 0), List.replicate_append_replicate] at middle
  rw [buildCoinbase, front, middle, allocated, List.length_append, length, ← size]

/-- The coinbase of a notify around the two extra nonces. -/
def coinbaseWith (n : Notify) (nonce1 nonce2 : Bytes) : Bytes :=
  unhex n.coinbase1 ++ nonce1 ++ nonce2 ++ unhex n.coinbase2

theorem length_coinbaseWith (n : Notify) (nonce1 nonce2 : Bytes) :
    (coinbaseWith n nonce1 nonce2).length =
      (unhex n.coinbase1).length + nonce1.length + nonce2.length + (unhex n.coinbase2).length := by
  simp only [coinbaseWith, List.length_append]

/-- Another extranonce2 of the same size takes the place of the old one. -/
theorem coinbaseWith_overwrite (n : Notify) (nonce1 old new : Bytes)
    (same : new.length = old.length) :
    overwrite (coinbaseWith n nonce1 old) ((unhex n.coinbase1).length + nonce1.length) new =
      coinbaseWith n nonce1 new := by
  rw [← List.length_append]
  exact overwrite_middle _ old new _ same

/-- All fields of the template come from this notify and from the subscription
in force when it was stored. -/
structure Stored (n : Notify) (before next : Pool) : Prop where
  jobId : next.jobId = some n.jobId
  ntime : next.ntime = n.ntime.take 8
  header : next.headerBin.bytes = unhex (headerText n)
  merkles : next.merkles = n.merkleArr.length
  nodes : ∃ nodes, NodesOf n.merkleArr nodes ∧
    next.merkleBin.take next.merkles = nodes.map .live
  coinbase : next.coinbase =
    some (allocated (coinbaseWith n before.nonce1bin (List.replicate before.n2size 0)))
  coinbaseLen :
    next.coinbaseLen = (coinbaseWith n before.nonce1bin (List.replicate before.n2size 0)).length
  nonce2Offset : next.nonce2Offset = (unhex n.coinbase1).length + before.nonce1bin.length

/-- What the coinbase takes from the subscription is not touched. -/
structure SameSubscription (before next : Pool) : Prop where
  nonce1bin : next.nonce1bin = before.nonce1bin
  n2size : next.n2size = before.n2size

/-- The stores behind the merkle nodes keep the head of the template. -/
structure KeepsHead (n : Notify) (before next : Pool) : Prop where
  jobId : next.jobId = before.jobId
  ntime : next.ntime = before.ntime
  merkleBin : next.merkleBin = before.merkleBin
  merkles : next.merkles = n.merkleArr.length
  coinbaseLen : next.coinbaseLen = before.coinbaseLen
  nonce2Offset : next.nonce2Offset = before.nonce2Offset
  nonce1bin : next.nonce1bin = before.nonce1bin
  n2size : next.n2size = before.n2size

/-- Behind the merkle nodes parse_notify stores a coinbase of the decoded parts,
or fails at a part that does not decode and keeps the old one. -/
theorem storeTail_spec (pool next : Pool) (n : Notify) (ret : Bool)
    (done : storeTail pool n = (next, ret)) :
    KeepsHead n pool next ∧
    ((ret = true ∧ next.headerBin.bytes = unhex (headerText n) ∧
        (unhex n.coinbase1).length = n.coinbase1.length / 2 ∧
        (unhex n.coinbase2).length = n.coinbase2.length / 2 ∧
        next.coinbase = some (buildCoinbase pool (unhex n.coinbase1) (unhex n.coinbase2))) ∨
      (ret = false ∧ next.coinbase = pool.coinbase ∧ ¬ Decodes n)) := by
  obtain ⟨headerBin, stored, bytes⟩ := pool.headerBin.store_of_fits 0 (hex2bin (headerText n) 128).1
    (by rw [Nat.zero_add]; exact length_hex2bin_le _ _)
  simp only [storeTail, stored, Bool.not_eq_true'] at done
  split at done
  · next bad =>
    cases done
    refine ⟨by constructor <;> rfl, Or.inr ⟨rfl, rfl, fun decodes => ?_⟩⟩
    exact absurd decodes.header (by rw [bad]; decide)
  · next header =>
    split at done
    · next bad =>
      cases done
      refine ⟨by constructor <;> rfl, Or.inr ⟨rfl, rfl, fun decodes => ?_⟩⟩
      exact absurd decodes.coinbase1 (by rw [bad]; decide)
    · next first =>
      split at done
      · next bad =>
        cases done
        refine ⟨by constructor <;> rfl, Or.inr ⟨rfl, rfl, fun decodes => ?_⟩⟩
        exact absurd decodes.coinbase2 (by rw [bad]; decide)
      · next second =>
        cases done
        obtain ⟨_, headerBytes, headerSize⟩ := hex2bin_success _ _ (Bool.not_eq_false _ ▸ header)
        obtain ⟨_, bytes1, size1⟩ := hex2bin_success _ _ (Bool.not_eq_false _ ▸ first)
        obtain ⟨_, bytes2, size2⟩ := hex2bin_success _ _ (Bool.not_eq_false _ ▸ second)
        refine ⟨by constructor <;> rfl, Or.inl ⟨rfl, ?_, size1, size2, ?_⟩⟩
        · rw [← headerBytes, ← overwrite_all pool.headerBin.bytes (hex2bin (headerText n) 128).1]
          · exact bytes
          · rw [headerBytes, headerSize, pool.headerBin.length_eq]
        · rw [bytes1, bytes2]
          rfl

/-- There is a slot for every node. -/
theorem slots_room (entries : List Json) (freed : List Slot) :
    0 + entries.length ≤
      (if entries = [] then freed else reallocSlots entries.length freed).length := by
  split
  · next empty => simp [empty]
  · simp only [reallocSlots, List.length_append, List.length_take, List.length_replicate]
    omega

/-- The section of parse_notify under the lock. -/
theorem storeNotify_spec (pool next : Pool) (n : Notify) (ret : Bool)
    (done : storeNotify pool n = some (next, ret)) :
    SameSubscription pool next ∧
      ((ret = true ∧ Stored n pool next) ∨
        (ret = false ∧ next.coinbase = pool.coinbase ∧ ¬ Decodes n)) := by
  simp only [storeNotify] at done
  split at done
  · cases done
  · next freed released =>
    have room := slots_room n.merkleArr freed
    split at done
    · cases done
    · next merkleBin failed =>
      cases done
      refine ⟨⟨rfl, rfl⟩, Or.inr ⟨rfl, rfl, fun decodes => ?_⟩⟩
      rcases storeMerkles_spec _ _ _ _ _ failed room with ⟨impossible, _⟩ | ⟨_, entry,
        member, fails⟩
      · cases impossible
      · obtain ⟨merkle, node, text, decoded⟩ := decodes.merkles entry member
        exact fails merkle node text decoded
    · next merkleBin finished =>
      rw [Option.some.injEq] at done
      obtain ⟨⟨jobId, ntime, slots, merkles, coinbaseLen, nonce2Offset, nonce1bin, n2size⟩,
          result⟩ :=
        storeTail_spec _ _ _ _ done
      refine ⟨⟨nonce1bin, n2size⟩, ?_⟩
      rcases result with ⟨rfl, header, size1, size2, coinbase⟩ | failed
      · rcases storeMerkles_spec _ _ _ _ _ finished room with ⟨_, nodes, named,
          stored⟩ | ⟨impossible, _⟩
        · have total : next.coinbaseLen = (unhex n.coinbase1).length + pool.nonce1bin.length +
              pool.n2size + (unhex n.coinbase2).length := by
            rw [coinbaseLen, size1, size2]
            rfl
          have length := length_coinbaseWith n pool.nonce1bin (List.replicate pool.n2size 0)
          rw [List.length_replicate] at length
          refine Or.inl ⟨rfl, ⟨jobId, ntime, header, merkles, ⟨nodes, named, ?_⟩, ?_,
            total.trans length.symm, ?_⟩⟩
          · rw [merkles, slots, ← Nat.zero_add n.merkleArr.length]
            exact stored
          · rw [coinbase]
            exact congrArg some (buildCoinbase_eq _ _ _ (coinbaseLen.symm.trans total))
          · rw [nonce2Offset, size1]
            rfl
        · cases impossible
      · exact Or.inr failed

/-- The slots of a branch begin with its first node. -/
theorem live_cons {node : Digest} {rest : List Digest} {slots : List Slot}
    (live : slots.take (node :: rest).length = (node :: rest).map .live) :
    ∃ later, slots = .live node :: later ∧ later.take rest.length = rest.map .live := by
  cases slots with
  | nil => simp at live
  | cons slot slots =>
    simp only [List.length_cons, List.take_succ_cons, List.map_cons, List.cons.injEq] at live
    obtain ⟨rfl, live⟩ := live
    exact ⟨slots, rfl, live⟩

theorem freeMerkles_live (nodes : List Digest) (slots : List Slot)
    (live : slots.take nodes.length = nodes.map .live) :
    ∃ freed, freeMerkles nodes.length slots = some freed := by
  induction nodes generalizing slots with
  | nil => exact ⟨slots, rfl⟩
  | cons node rest ih =>
    obtain ⟨later, rfl, rest_live⟩ := live_cons live
    obtain ⟨freed, done⟩ := ih later rest_live
    refine ⟨.dangling :: freed, ?_⟩
    rw [List.length_cons, freeMerkles, done, Option.map_some]
    exact nofun

theorem storeMerkles_decodes (entries : List Json) (i : Nat) (slots : List Slot)
    (decodes : ∀ entry ∈ entries, ∃ merkle node,
      jsonStringValue (some entry) = some merkle ∧ decodeNode merkle = some node) :
    ∃ stored, storeMerkles entries i slots = some (stored, true) := by
  induction entries generalizing i slots with
  | nil => exact ⟨slots, rfl⟩
  | cons entry rest ih =>
    obtain ⟨merkle, node, text, decoded⟩ := decodes entry List.mem_cons_self
    obtain ⟨stored, done⟩ := ih (i + 1) (slots.set i (.live node))
      fun later member => decodes later (List.mem_cons_of_mem _ member)
    refine ⟨stored, ?_⟩
    simp only [storeMerkles, text, decoded]
    exact done

/-- The loop only comes to its end when all entries decode. -/
theorem storeMerkles_nodes (entries : List Json) (i : Nat) (slots result : List Slot)
    (done : storeMerkles entries i slots = some (result, true)) :
    ∀ entry ∈ entries, ∃ merkle node,
      jsonStringValue (some entry) = some merkle ∧ decodeNode merkle = some node := by
  induction entries generalizing i slots with
  | nil => exact fun entry never => by cases never
  | cons entry rest ih =>
    unfold storeMerkles at done
    split at done
    · cases done
    · next merkle text =>
      split at done
      · cases done
      · next node decoded =>
        refine List.forall_mem_cons.mpr ⟨⟨merkle, node, text, decoded⟩, ?_⟩
        exact ih (i + 1) (slots.set i (.live node)) done

theorem storeTail_decodes (pool : Pool) (n : Notify) (done : (storeTail pool n).2 = true) :
    (hex2bin (headerText n) 128).2 = true ∧
      (hex2bin n.coinbase1 (n.coinbase1.length / 2)).2 = true ∧
      (hex2bin n.coinbase2 (n.coinbase2.length / 2)).2 = true := by
  unfold storeTail at done
  dsimp only at done
  split at done
  · cases done
  · next header =>
    split at done
    · cases done
    · next first =>
      split at done
      · cases done
      · next second =>
        rw [Bool.not_eq_true', Bool.not_eq_false] at header first second
        exact ⟨header, first, second⟩

/-- parse_notify returns true only for a notify that decodes. -/
theorem storeNotify_decodes (pool next : Pool) (n : Notify)
    (done : storeNotify pool n = some (next, true)) : Decodes n := by
  unfold storeNotify at done
  dsimp only at done
  split at done
  · cases done
  · split at done
    · cases done
    · cases done
    · next merkleBin finished =>
      have tail := congrArg Prod.snd (Option.some.inj done)
      obtain ⟨header, coinbase1, coinbase2⟩ := storeTail_decodes _ n tail
      exact ⟨storeMerkles_nodes n.merkleArr 0 _ merkleBin finished, header, coinbase1, coinbase2⟩

/-- A notify that decodes is stored without touching freed memory when the
counted nodes of the old template are live. -/
theorem storeNotify_defined (pool : Pool) (n : Notify) (nodes : List Digest)
    (count : pool.merkles = nodes.length)
    (live : pool.merkleBin.take pool.merkles = nodes.map .live)
    (decodes : Decodes n) : (storeNotify pool n).isSome = true := by
  obtain ⟨freed, released⟩ := freeMerkles_live nodes pool.merkleBin (count ▸ live)
  have released : freeMerkles (storeHead pool n).merkles (storeHead pool n).merkleBin =
      some freed := by
    rw [← released, ← count]
    rfl
  obtain ⟨stored, done⟩ := storeMerkles_decodes n.merkleArr 0
    (if n.merkleArr = [] then freed else reallocSlots n.merkleArr.length freed) decodes.merkles
  simp only [storeNotify, released, done, Option.isSome_some]

/-- parse_notify as a whole: a message it rejects changes nothing. -/
theorem parseNotify_spec (pool next : Pool) (val : Option Json) (ret : Bool)
    (done : parseNotify pool val = some (next, ret)) :
    (readNotify val = none ∧ next = pool ∧ ret = false) ∨
      ∃ n, readNotify val = some n ∧ SameSubscription pool next ∧
        ((ret = true ∧ Stored n pool next) ∨
          (ret = false ∧ next.coinbase = pool.coinbase ∧ ¬ Decodes n)) := by
  unfold parseNotify at done
  split at done
  · next rejected =>
    cases done
    exact Or.inl ⟨rejected, rfl, rfl⟩
  · next n accepted =>
    simp only [Option.map_eq_some_iff] at done
    obtain ⟨⟨stored, result⟩, inside, same⟩ := done
    cases same
    obtain ⟨subscription, effect⟩ := storeNotify_spec pool stored n result inside
    refine Or.inr ⟨n, accepted, ⟨subscription.1, subscription.2⟩, ?_⟩
    rcases effect with ⟨good, template⟩ | failed
    · exact Or.inl ⟨good, ⟨template.1, template.2, template.3, template.4, template.5, template.6,
        template.7, template.8⟩⟩
    · exact Or.inr failed

/-- The fields that generating a work combines, and where it writes. -/
structure SameTemplate (before next : Pool) : Prop where
  jobId : next.jobId = before.jobId
  ntime : next.ntime = before.ntime
  header : next.headerBin = before.headerBin
  merkles : next.merkles = before.merkles
  merkleBin : next.merkleBin = before.merkleBin
  coinbase : next.coinbase = before.coinbase
  coinbaseLen : next.coinbaseLen = before.coinbaseLen
  nonce2Offset : next.nonce2Offset = before.nonce2Offset
  nonce2 : next.nonce2 = before.nonce2

theorem SameTemplate.refl (pool : Pool) : SameTemplate pool pool := by
  constructor <;> rfl

theorem parseDiff_spec (pool : Pool) (val : Option Json) :
    SameTemplate pool (parseDiff pool val).1 ∧ SameSubscription pool (parseDiff pool val).1 := by
  unfold parseDiff
  dsimp only
  split
  · exact ⟨SameTemplate.refl pool, ⟨rfl, rfl⟩⟩
  · split
    · exact ⟨by constructor <;> rfl, ⟨rfl, rfl⟩⟩
    · exact ⟨by constructor <;> rfl, ⟨rfl, rfl⟩⟩

/-- The reply that a subscription ends up with, if any. -/
def acceptedReply (first second : Attempt) : Option Subscription :=
  match first, readAttempt first with
  | _, some sub => some sub
  | .unanswered, none => none
  | .reply _, none => readAttempt second

/-- A subscription stores the accepted reply into a pool whose template is untouched. -/
theorem initiateStratum_accepted (pool : Pool) (first second : Attempt) (sub : Subscription)
    (accepted : acceptedReply first second = some sub) :
    SameTemplate pool (initiateStratum pool first second).1 ∧
      (initiateStratum pool first second).1.n2size = sub.n2size ∧
      (initiateStratum pool first second).1.nonce1bin = (storeSubscription pool sub).nonce1bin := by
  unfold acceptedReply at accepted
  split at accepted
  · next read =>
    cases accepted
    simp only [initiateStratum, read]
    exact ⟨by constructor <;> rfl, rfl, trivial⟩
  · cases accepted
  · next refused =>
    simp only [initiateStratum, refused, accepted]
    exact ⟨by constructor <;> rfl, rfl, rfl⟩

theorem initiateStratum_refused (pool : Pool) (first second : Attempt)
    (refused : acceptedReply first second = none) :
    SameTemplate pool (initiateStratum pool first second).1 ∧
      SameSubscription pool (initiateStratum pool first second).1 := by
  unfold acceptedReply at refused
  split at refused
  · cases refused
  · next unread =>
    simp only [initiateStratum, unread]
    exact ⟨SameTemplate.refl pool, ⟨rfl, rfl⟩⟩
  · next unread =>
    simp only [initiateStratum, unread, refused]
    exact ⟨by constructor <;> rfl, ⟨rfl, rfl⟩⟩

/-- The size of extranonce2 is between 2 and 16, and extranonce1 is hexadecimal. -/
theorem readSubscription_spec (val : Option Json) (sub : Subscription)
    (accepted : readSubscription val = some sub) :
    validHex sub.nonce1 = true ∧ 2 ≤ sub.n2size ∧ sub.n2size ≤ 16 := by
  unfold readSubscription at accepted
  dsimp only at accepted
  split at accepted
  · cases accepted
  · split at accepted
    · cases accepted
    · next nonce1 _ =>
      split at accepted
      · cases accepted
      · next valid =>
        split at accepted
        · cases accepted
        · next bounds =>
          cases accepted
          have hex : validHex nonce1 = true := by simpa using valid
          exact ⟨hex, by dsimp only; omega, by dsimp only; omega⟩

theorem acceptedReply_spec (first second : Attempt) (sub : Subscription)
    (accepted : acceptedReply first second = some sub) :
    validHex sub.nonce1 = true ∧ 2 ≤ sub.n2size ∧ sub.n2size ≤ 16 := by
  have checked : ∀ attempt, readAttempt attempt = some sub →
      validHex sub.nonce1 = true ∧ 2 ≤ sub.n2size ∧ sub.n2size ≤ 16 := by
    intro attempt read
    cases attempt with
    | unanswered => cases read
    | reply val => exact readSubscription_spec val sub read
  unfold acceptedReply at accepted
  split at accepted
  · next read => exact checked _ (read.trans accepted)
  · cases accepted
  · exact checked second accepted

/-- The header template is copied to the front and the root is patched into it. -/
theorem take_patched_header (work header root : Bytes) (size : header.length = 128)
    (rootSize : root.length = 32) :
    (overwrite (overwrite work 0 (header.take 112)) 36 root).take 112 =
      overwrite (header.take 112) 36 root := by
  have front : (header.take 112).length = 112 := by
    rw [List.length_take, size]
    decide
  have copied : overwrite work 0 (header.take 112) = header.take 112 ++ work.drop 112 := by
    rw [overwrite, front]
    rfl
  have patched : overwrite (header.take 112 ++ work.drop 112) 36 root =
      overwrite (header.take 112) 36 root ++ work.drop 112 := by
    rw [overwrite, overwrite, rootSize, List.take_append_of_le_length (by omega),
      List.drop_append_of_le_length (by omega), ← List.append_assoc]
  have length : (overwrite (header.take 112) 36 root).length = 112 := by
    rw [length_overwrite _ _ _ (by omega), front]
  rw [copied, patched, List.take_append_of_le_length (by omega), List.take_of_length_le (by omega)]

/-- The merkle root over a branch of nodes. -/
def foldNodes (genHash : Bytes → Digest) (nodes : List Digest) (root : Digest) : Digest :=
  nodes.foldl (fun root node => genHash (root.bytes ++ node.bytes)) root

theorem foldMerkleBin_live (genHash : Bytes → Digest) (nodes : List Digest) (slots : List Slot)
    (root : Digest) (live : slots.take nodes.length = nodes.map .live) :
    foldMerkleBin genHash nodes.length slots root = some (foldNodes genHash nodes root) := by
  induction nodes generalizing slots root with
  | nil => rfl
  | cons node rest ih =>
    obtain ⟨later, rfl, rest_live⟩ := live_cons live
    exact ih later _ rest_live

/-- gen_stratum_work hashes the coinbase as it leaves it. -/
def hashedCoinbase (pool : Pool) : Bytes := (pool.coinbase.getD []).take pool.coinbaseLen

/-- The bytes that gen_stratum_work copies into the coinbase. -/
def extranonce2 (behind : Bytes) (pool : Pool) : Bytes :=
  (littleEndian 8 pool.nonce2.toNat ++ behind).take pool.n2size

/-- A generated work: extranonce2 goes into the coinbase, the root over the
nodes into the header, and the fields for the submission into the work. -/
structure WorkMade (genHash : Bytes → Digest) (behind : Bytes) (pool next : Pool) (out : Work)
    (coinbase : Bytes) (merkleRoot : Digest) : Prop where
  present : pool.coinbase = some coinbase
  size : (extranonce2 behind pool).length = pool.n2size
  inside : pool.nonce2Offset + pool.n2size ≤ coinbase.length
  stored : next = { pool with
    coinbase := some (overwrite coinbase pool.nonce2Offset (extranonce2 behind pool))
    nonce2 := pool.nonce2 + 1 }
  folded : foldMerkleBin genHash pool.merkles pool.merkleBin (genHash (hashedCoinbase next)) =
    some merkleRoot
  header : out.data.bytes.take 112 =
    overwrite (pool.headerBin.bytes.take 112) 36 (flipWords merkleRoot.bytes)
  nonce2 : out.nonce2 = pool.nonce2
  nonce2Len : out.nonce2Len = pool.n2size
  jobId : out.jobId = pool.jobId
  nonce1 : out.nonce1 = pool.nonce1
  ntime : out.ntime = some pool.ntime

theorem genStratumWork_spec (genHash : Bytes → Digest) (behind : Bytes) (pool next : Pool)
    (work out : Work) (done : genStratumWork genHash behind pool work = some (next, out)) :
    ∃ coinbase merkleRoot, WorkMade genHash behind pool next out coinbase merkleRoot := by
  unfold genStratumWork at done
  dsimp only at done
  split at done
  · next coinbase jobId nonce1 hasCoinbase hasJobId hasNonce1 =>
    split at done
    · next fits =>
      simp only [Option.bind_eq_some_iff, Option.map_eq_some_iff, Prod.mk.injEq] at done
      obtain ⟨updated, patched, merkleRoot, folded, header, copied, data, stored, rfl, rfl⟩ := done
      obtain ⟨inside, rfl⟩ := blit_some _ _ _ _ patched
      have size : (extranonce2 behind pool).length = pool.n2size := by
        rw [extranonce2, List.length_take, Nat.min_eq_left fits.1]
      obtain ⟨_, headerBytes⟩ := work.data.store_some header 0 _ copied
      obtain ⟨_, dataBytes⟩ := header.store_some data 36 _ stored
      refine ⟨coinbase, merkleRoot, hasCoinbase, size, ?_, rfl, folded, ?_, rfl, rfl, hasJobId.symm,
        hasNonce1.symm, rfl⟩
      · rw [← size]
        exact inside
      · dsimp only
        rw [dataBytes, headerBytes]
        exact take_patched_header _ _ _ pool.headerBin.length_eq
          (by rw [length_flipWords]; exact merkleRoot.length_eq)
    · cases done
  · cases done

/-- With a coinbase in its memory, room for extranonce2 and live nodes nothing is
read or written outside its array. -/
theorem genStratumWork_defined (genHash : Bytes → Digest) (behind : Bytes) (pool : Pool)
    (work : Work) (memory jobId nonce1 : Bytes) (nodes : List Digest)
    (present : pool.coinbase = some memory) (named : pool.jobId = some jobId)
    (subscribed : pool.nonce1 = some nonce1) (stack : pool.n2size ≤ 8 + behind.length)
    (whole : pool.coinbaseLen ≤ memory.length)
    (room : pool.nonce2Offset + pool.n2size ≤ pool.coinbaseLen)
    (count : pool.merkles = nodes.length)
    (live : pool.merkleBin.take pool.merkles = nodes.map .live) :
    (genStratumWork genHash behind pool work).isSome = true := by
  have size : ((littleEndian 8 pool.nonce2.toNat ++ behind).take pool.n2size).length =
      pool.n2size := by
    rw [List.length_take, List.length_append, length_littleEndian]
    omega
  have patched : ∃ updated, blit memory pool.nonce2Offset
      ((littleEndian 8 pool.nonce2.toNat ++ behind).take pool.n2size) = some updated :=
    ⟨_, if_pos (by rw [size]; exact room.trans whole)⟩
  obtain ⟨updated, patched⟩ := patched
  have folded := foldMerkleBin_live genHash nodes pool.merkleBin
    (genHash (updated.take pool.coinbaseLen)) (count ▸ live)
  obtain ⟨header, copied, _⟩ := work.data.store_of_fits 0 (pool.headerBin.bytes.take 112)
    (by rw [List.length_take]; omega)
  obtain ⟨data, stored, _⟩ := header.store_of_fits 36
    (flipWords (foldNodes genHash nodes (genHash (updated.take pool.coinbaseLen))).bytes)
    (by rw [length_flipWords, Buffer.length_eq]; decide)
  have fits : pool.n2size ≤ (littleEndian 8 pool.nonce2.toNat ++ behind).length ∧
      pool.coinbaseLen ≤ memory.length := by
    rw [List.length_append, length_littleEndian]
    exact ⟨stack, whole⟩
  simp only [genStratumWork, present, named, subscribed, if_pos fits, patched,
    Option.bind_some, count, folded, copied, stored, Option.map_some, Option.isSome_some]

/-- With room for extranonce2 in the coinbase and live nodes the hashed bytes are
the patched coinbase, and the root is the one over the nodes. -/
theorem workMade_live (genHash : Bytes → Digest) (behind : Bytes) (pool next : Pool) (out : Work)
    (memory : Bytes) (merkleRoot : Digest) (nodes : List Digest)
    (whole : pool.coinbaseLen ≤ memory.length)
    (room : pool.nonce2Offset + pool.n2size ≤ pool.coinbaseLen)
    (count : pool.merkles = nodes.length)
    (live : pool.merkleBin.take pool.merkles = nodes.map .live)
    (made : WorkMade genHash behind pool next out memory merkleRoot) :
    hashedCoinbase next =
        overwrite (memory.take pool.coinbaseLen) pool.nonce2Offset (extranonce2 behind pool) ∧
      merkleRoot = foldNodes genHash nodes (genHash (hashedCoinbase next)) := by
  have folded := made.folded
  rw [count, foldMerkleBin_live genHash nodes _ _ (count ▸ live)] at folded
  refine ⟨?_, (Option.some.inj folded).symm⟩
  rw [made.stored, hashedCoinbase, Option.getD_some]
  exact take_overwrite_inside memory _ _ _ (by rw [made.size]; exact room) whole

end CgminerT4.Guarantees.NotifyTemplate
