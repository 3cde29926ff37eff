import CgminerT4.Guarantees.NotifyTemplate
import CgminerT4.Source.NotifyReads

/-!
# Notifies that make the client read outside its buffers

Which messages parse_notify handles without undefined behaviour, in any state of
the pool, and leaves a coinbase that test_work_current can read.
-/
namespace CgminerT4.Guarantees.HostileNotify
open Library.ByteString Source.Jansson Source.Hex Source.StratumTemplate Source.NotifyReads
  NotifyTemplate

/-- parse_notify returns, and after true test_work_current stays inside the coinbase. -/
def NotifySafe (pool : Pool) (val : Option Json) : Prop :=
  ∃ next ret, Source.NotifyReads.parseNotify pool val = some (next, ret) ∧
    (ret = true → ∀ mandatory, (testWorkCurrent next mandatory).isSome)

/-- The counted merkle slots are there and allocated. -/
def Freeable (merkles : Nat) (slots : List Slot) : Prop :=
  merkles ≤ slots.length ∧ ∀ slot ∈ slots.take merkles, slot ≠ .dangling

/-- A merkle entry that is no string stands behind a string that does not decode. -/
def EntriesRead (entries : List Json) : Prop :=
  ∀ front entry back, entries = front ++ entry :: back → jsonStringValue (some entry) = none →
    ∃ before ∈ front, ∃ merkle, jsonStringValue (some before) = some merkle ∧
      decodeNode merkle = none

/-- The height and its size lie inside the memory of the coinbase. -/
def HeightInside (memory : Bytes) : Prop :=
  43 ≤ memory.length ∧ ((memory.getD 42 0).toNat ≤ 4 →
    43 + (memory.getD 42 0).toNat ≤ memory.length)

structure Harmless (pool : Pool) (n : Notify) : Prop where
  prevHash : 63 ≤ n.prevHash.length
  slots : Freeable pool.merkles pool.merkleBin
  entries : EntriesRead n.merkleArr
  coinbase : Decodes n →
    11 ≤ n.coinbase1.length / 2 + pool.nonce1bin.length + pool.n2size + n.coinbase2.length / 2

/-! ## The two loops over merkle nodes -/

theorem freeable_cons (merkles : Nat) (slot : Slot) (slots : List Slot) :
    Freeable (merkles + 1) (slot :: slots) ↔ slot ≠ .dangling ∧ Freeable merkles slots := by
  unfold Freeable
  rw [List.take_succ_cons, List.length_cons, List.forall_mem_cons]
  constructor
  · rintro ⟨room, first, rest⟩
    exact ⟨first, by omega, rest⟩
  · rintro ⟨first, room, rest⟩
    exact ⟨by omega, first, rest⟩

theorem freeMerkles_isSome (merkles : Nat) (slots : List Slot) :
    (freeMerkles merkles slots).isSome ↔ Freeable merkles slots := by
  induction merkles generalizing slots with
  | zero => exact iff_of_true rfl ⟨Nat.zero_le _, fun slot never => by cases never⟩
  | succ merkles ih =>
    cases slots with
    | nil => exact iff_of_false (by simp [freeMerkles]) fun freeable => absurd freeable.1 (by simp)
    | cons slot slots =>
      rw [freeable_cons, ← ih slots]
      cases slot with
      | dangling => simp [freeMerkles]
      | live node => simp [freeMerkles]
      | undecoded => simp [freeMerkles]

theorem entriesRead_string (entry : Json) (rest : List Json) (merkle : Bytes)
    (text : jsonStringValue (some entry) = some merkle) :
    EntriesRead (entry :: rest) ↔ (decodeNode merkle ≠ none → EntriesRead rest) := by
  constructor
  · intro reads decodes front other back parts missing
    obtain ⟨before, member, hash, named, fails⟩ :=
      reads (entry :: front) other back (by rw [parts, List.cons_append]) missing
    rcases List.mem_cons.mp member with same | behind
    · rw [same, text, Option.some.injEq] at named
      rw [named] at decodes
      exact absurd fails decodes
    · exact ⟨before, behind, hash, named, fails⟩
  · intro reads front other back parts missing
    cases front with
    | nil =>
      cases parts
      rw [text] at missing
      cases missing
    | cons head front =>
      cases parts
      by_cases decodes : decodeNode merkle = none
      · exact ⟨entry, List.mem_cons_self, merkle, text, decodes⟩
      · obtain ⟨before, member, hash, named, fails⟩ := reads decodes front other back rfl missing
        exact ⟨before, List.mem_cons_of_mem entry member, hash, named, fails⟩

theorem storeMerkles_isSome (entries : List Json) (i : Nat) (slots : List Slot) :
    (storeMerkles entries i slots).isSome ↔ EntriesRead entries := by
  induction entries generalizing i slots with
  | nil => exact iff_of_true rfl fun front entry back parts => by simp at parts
  | cons entry rest ih =>
    unfold storeMerkles
    cases text : jsonStringValue (some entry) with
    | none =>
      refine iff_of_false (by simp) fun reads => ?_
      obtain ⟨before, never, _⟩ := reads [] entry rest rfl text
      cases never
    | some merkle =>
      rw [entriesRead_string entry rest merkle text]
      dsimp only
      cases decoded : decodeNode merkle with
      | none => exact iff_of_true rfl fun never => absurd rfl never
      | some node =>
        dsimp only
        rw [ih]
        simp

/-! ## The whole of parse_notify -/

theorem storeNotify_isSome (pool : Pool) (n : Notify) :
    (storeNotify pool n).isSome ↔
      Freeable pool.merkles pool.merkleBin ∧ EntriesRead n.merkleArr := by
  have free : (freeMerkles (storeHead pool n).merkles (storeHead pool n).merkleBin).isSome ↔
      Freeable pool.merkles pool.merkleBin := freeMerkles_isSome pool.merkles pool.merkleBin
  rw [← free]
  unfold storeNotify
  dsimp only
  cases freeMerkles (storeHead pool n).merkles (storeHead pool n).merkleBin with
  | none => simp
  | some freed =>
    have stored := storeMerkles_isSome n.merkleArr 0
      (if n.merkleArr = [] then freed else reallocSlots n.merkleArr.length freed)
    rw [← stored]
    dsimp only
    generalize storeMerkles n.merkleArr 0 _ = result
    match result with
    | none => simp
    | some (slots, false) => simp
    | some (slots, true) => simp

/-! ## The block height -/

theorem readHeight_isSome (coinbase : Bytes) (size : Nat) :
    (readHeight coinbase size).isSome ↔ (size ≤ 4 → 43 + size ≤ coinbase.length) := by
  unfold readHeight
  by_cases small : size ≤ 4
  · rw [if_pos small]
    by_cases fits : 43 + size ≤ coinbase.length
    · rw [if_pos fits]
      exact iff_of_true rfl fun _ => fits
    · rw [if_neg fits]
      exact iff_of_false (by simp) fun inside => fits (inside small)
  · rw [if_neg small]
    exact iff_of_true rfl fun never => absurd never small

theorem testWorkCurrent_isSome (pool : Pool) (memory : Bytes)
    (named : pool.coinbase = some memory) :
    (∀ mandatory, (testWorkCurrent pool mandatory).isSome) ↔ HeightInside memory := by
  unfold testWorkCurrent heightSize HeightInside
  simp only [named, Option.bind_some]
  by_cases room : 43 ≤ memory.length
  · have found : memory[42]? = some (memory.getD 42 0) := by
      rw [List.getD_eq_getElem?_getD, List.getElem?_eq_getElem (by omega)]
      rfl
    simp only [found, Option.map_some, Option.bind_some]
    have height := readHeight_isSome memory (memory.getD 42 0).toNat
    constructor
    · intro defined
      have other := defined false
      rw [if_neg (by decide), Option.isSome_map] at other
      exact ⟨room, height.mp other⟩
    · rintro ⟨_, inside⟩ mandatory
      split
      · rfl
      · rw [Option.isSome_map]
        exact height.mpr inside
  · have missing : memory[42]? = none := List.getElem?_eq_none (by omega)
    simp only [missing]
    refine iff_of_false (fun defined => ?_) fun inside => room inside.1
    have never := defined true
    cases never

/-- The zeros behind a coinbase of up to 42 bytes give a height of no bytes, and
a longer one has room for four bytes of height in its memory. -/
theorem heightInside_allocated (coinbase : Bytes) :
    HeightInside (allocated coinbase) ↔ 11 ≤ coinbase.length := by
  unfold HeightInside
  rw [length_allocated]
  constructor
  · rintro ⟨room, _⟩
    omega
  · intro long
    refine ⟨by omega, fun small => ?_⟩
    by_cases zero : coinbase.length ≤ 42
    · have blank : (allocated coinbase).getD 42 0 = 0 := by
        rw [allocated, List.getD_eq_getElem?_getD, List.getElem?_append_right zero,
          List.getElem?_replicate]
        split <;> rfl
      rw [blank]
      change 43 + 0 ≤ _
      omega
    · omega

/-- The length of the coinbase is known from the texts. -/
theorem length_stored (pool : Pool) (n : Notify) (decodes : Decodes n) :
    (coinbaseWith n pool.nonce1bin (List.replicate pool.n2size 0)).length =
      n.coinbase1.length / 2 + pool.nonce1bin.length + pool.n2size + n.coinbase2.length / 2 := by
  obtain ⟨_, _, first⟩ := hex2bin_success _ _ decodes.coinbase1
  obtain ⟨_, _, second⟩ := hex2bin_success _ _ decodes.coinbase2
  rw [length_coinbaseWith, List.length_replicate, first, second]

/-! ## The result -/

theorem parseNotify_stored (pool next : Pool) (val : Option Json) (n : Notify) (ret : Bool)
    (accepted : readNotify val = some n)
    (done : Source.StratumTemplate.parseNotify pool val = some (next, ret)) :
    ∃ stored, storeNotify pool n = some (stored, ret) ∧ next.coinbase = stored.coinbase := by
  unfold Source.StratumTemplate.parseNotify at done
  rw [accepted] at done
  obtain ⟨⟨stored, result⟩, inside, same⟩ := Option.map_eq_some_iff.mp done
  cases same
  exact ⟨stored, inside, rfl⟩

theorem parseNotify_isSome (pool : Pool) (val : Option Json) (n : Notify)
    (accepted : readNotify val = some n) :
    (Source.NotifyReads.parseNotify pool val).isSome ↔
      63 ≤ n.prevHash.length ∧ Freeable pool.merkles pool.merkleBin ∧ EntriesRead n.merkleArr := by
  unfold Source.NotifyReads.parseNotify
  rw [accepted]
  dsimp only
  by_cases long : 63 ≤ n.prevHash.length
  · have inside : comparable n.prevHash = true := decide_eq_true (by omega)
    rw [if_pos inside, ← storeNotify_isSome pool n]
    unfold Source.StratumTemplate.parseNotify
    rw [accepted, Option.isSome_map]
    exact ⟨fun defined => ⟨long, defined⟩, And.right⟩
  · have outside : comparable n.prevHash = false := decide_eq_false (by omega)
    rw [outside]
    exact iff_of_false (by simp) fun all => long all.1

theorem notify_of_reads {pool next : Pool} {val : Option Json} {ret : Bool}
    (done : Source.NotifyReads.parseNotify pool val = some (next, ret)) :
    Source.StratumTemplate.parseNotify pool val = some (next, ret) := by
  unfold Source.NotifyReads.parseNotify at done
  split at done
  · next rejected =>
    unfold Source.StratumTemplate.parseNotify
    rw [rejected]
    exact done
  · split at done
    · exact done
    · cases done

/-- In any state of the pool a notify is handled safely exactly if it is rejected
before the lock or harmless. -/
theorem notify_safe_iff (pool : Pool) (val : Option Json) :
    NotifySafe pool val ↔ ∀ n, readNotify val = some n → Harmless pool n := by
  cases accepted : readNotify val with
  | none =>
    refine iff_of_true ⟨pool, false, ?_, nofun⟩ nofun
    unfold Source.NotifyReads.parseNotify
    rw [accepted]
  | some n =>
    have defined := parseNotify_isSome pool val n accepted
    constructor
    · rintro ⟨next, ret, done, current⟩ m same
      cases same
      obtain ⟨prevHash, slots, entries⟩ := defined.mp (by rw [done]; rfl)
      refine ⟨prevHash, slots, entries, fun decodes => ?_⟩
      obtain ⟨stored, inside, coinbase⟩ :=
        parseNotify_stored pool next val n ret accepted (notify_of_reads done)
      obtain ⟨_, ⟨rfl, template⟩ | ⟨rfl, _, fails⟩⟩ := storeNotify_spec pool stored n ret inside
      · have height :=
          (testWorkCurrent_isSome next _ (coinbase.trans template.coinbase)).mp (current rfl)
        rw [heightInside_allocated, length_stored pool n decodes] at height
        exact height
      · exact absurd decodes fails
    · intro harmless
      obtain ⟨prevHash, slots, entries, height⟩ := harmless n rfl
      obtain ⟨⟨next, ret⟩, done⟩ :=
        Option.isSome_iff_exists.mp (defined.mpr ⟨prevHash, slots, entries⟩)
      refine ⟨next, ret, done, fun good => ?_⟩
      obtain ⟨stored, inside, coinbase⟩ :=
        parseNotify_stored pool next val n ret accepted (notify_of_reads done)
      rw [good] at inside
      obtain ⟨_, ⟨_, template⟩ | ⟨never, _⟩⟩ := storeNotify_spec pool stored n true inside
      · have decodes := storeNotify_decodes pool stored n inside
        have inside := height decodes
        rw [← length_stored pool n decodes, ← heightInside_allocated] at inside
        exact (testWorkCurrent_isSome next _ (coinbase.trans template.coinbase)).mpr inside
      · cases never

/-! ## A merkle entry without text -/

def subscribed : Pool := storeSubscription (emptyPool 0) ⟨none, ascii "08000002", 4⟩

/-- Job "a" with the merkle branch [null]. -/
def nullMerkle : Json :=
  .array [.string (ascii "a"), .string (List.replicate 64 0x30), .string (ascii "01"),
    .string (ascii "01"), .array [.null], .string (ascii "00000002"), .string (ascii "1c2ac4af"),
    .string (ascii "504e86b9"), .bool true]

theorem null_merkle_dereferenced : ¬ NotifySafe subscribed (some nullMerkle) := by
  rintro ⟨next, ret, done, _⟩
  have undefined : Source.NotifyReads.parseNotify subscribed (some nullMerkle) = none := by
    decide +kernel
  rw [undefined] at done
  cases done

end CgminerT4.Guarantees.HostileNotify
