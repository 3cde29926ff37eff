import Mathlib.Tactic.Linarith
import CgminerT4.Library.Runs
import CgminerT4.Source.NonceDup
import CgminerT4.Guarantees.ListRepresentation
import CgminerT4.Guarantees.ListCounters

/-!
# The window of the duplicate filter

The difference that decides about expiry is taken the wrong way round: with a
time limit of at least 0 no nonce ever expires, so the list is the window only
while the first nonce is not older than the limit. A negative limit empties the
list after every call. Beside the code runs the history of the recorded nonces.
-/
namespace CgminerT4.Guarantees.NonceWindow
open Library.Runs Library.DoublyLinked Library.SignedInt Source.Klist Source.NonceDup
open Guarantees.ListRows (Config Spec Represents Room Allocatable blockSize blockItems allItems
  InRange)
open Guarantees.ListInvariant (Inv Holds mem_of_row addHead_exact unlinkTail_inv)
open Guarantees.ListRefill Guarantees.ListCounters

/-! ## The filter beside its history -/

structure Call where
  workId : UInt32
  nonce : UInt32
  now : ℚ

def holds (workId nonce : UInt32) (e : NItem) : Bool := e.workId = workId ∧ e.nonce = nonce

/-- The code with its last answer, and what was recorded so far, newest first, with the clock
and the numbers of calls and of repetitions. -/
structure Filter where
  code : Option (Dup × Bool)
  recorded : List NItem
  clock : ℚ
  calls : Nat
  repeats : Nat
  expected : Bool

/-- The nonces recorded at most `limit` seconds ago. -/
def Filter.window (s : Filter) (limit : CInt) : List NItem :=
  s.recorded.filter fun e => s.clock - e.when ≤ limit.val

def Filter.inWindow (s : Filter) (limit : CInt) (c : Call) : Bool :=
  (s.window limit).any (holds c.workId c.nonce)

def begin (limit : CInt) (clock : ℚ) : Filter :=
  ⟨(dupalloc limit).map fun d => (d, false), [], clock, 0, 0, false⟩

/-- A call that repeats a nonce of the window is expected to say so; any other is recorded. -/
def step (limit : CInt) (s : Filter) (c : Call) : Option Filter :=
  if s.clock ≤ c.now then
    some
      { code := s.code.bind fun last => isdupnonce last.1 c.workId c.nonce c.now
        recorded := if s.inWindow limit c then s.recorded else
          ⟨c.workId, c.nonce, c.now⟩ :: s.recorded
        clock := c.now
        calls := s.calls + 1
        repeats := if s.inWindow limit c then s.repeats + 1 else s.repeats
        expected := s.inWindow limit c }
  else none

/-- The nonce list of the code, from its head on. -/
def Lists (d : Dup) (items : List NItem) : Prop :=
  ∃ list row, d.memory.lists[nonceList]? = some list ∧ Represents d.memory true list row ∧
    row.map d.data = items

/-- The code is defined, gave the expected answer, keeps exactly the window, and counts. -/
def Filtering (limit : CInt) (s : Filter) : Prop :=
  ∃ d, s.code = some (d, s.expected) ∧ Lists d (s.window limit) ∧ d.checked = UInt64.ofNat s.calls ∧
    d.dups = UInt64.ofNat s.repeats

/-- The nonces that the int counters of the lists have room for. -/
def capacity (limit : CInt) : Nat := if limit.val < 0 then 2 ^ 31 - 1025 else 2 ^ 31 - 1024

/-- Nothing recorded is too old, unless the limit is negative, and there is room for a new nonce. -/
def Suits (limit : CInt) (s : Filter) (c : Call) : Prop :=
  (limit.val < 0 ∨ ∀ e ∈ s.recorded, c.now - e.when ≤ limit.val) ∧
    (s.inWindow limit c = false → s.recorded.length < capacity limit)

/-! ## The two lists -/

def dupConfig : Config := ⟨dupAllocate, .zero, true⟩

def twoRows (free row : List Addr) (b : Nat) : Spec := ⟨[free, row], [], List.replicate b 1024⟩

/-- The memory holds the free items and the nonces in `b` blocks; `k` nonces were added so far. -/
structure Holding (m : Memory) (free row : List Addr) (b k : Nat) : Prop where
  inv : Inv dupConfig m (twoRows free row b)
  added : ∃ list, m.lists[nonceList]? = some list ∧ list.countUp.val = k

theorem blockSize_dup (blocks : List Nat) : blockSize dupConfig blocks = 1024 := rfl

theorem Holding.blocks {m : Memory} {free row : List Addr} {b k : Nat}
    (holding : Holding m free row b k) :
    m.blocks.sum = 1024 * b := by
  rw [holding.inv.shape.blocks]
  show (List.replicate b 1024).sum = _
  rw [List.sum_replicate_nat, Nat.mul_comm]

theorem Holding.length {m : Memory} {free row : List Addr} {b k : Nat}
    (holding : Holding m free row b k) :
    free.length + row.length = 1024 * b := by
  have total := holding.inv.shape.length
  have sum := holding.blocks
  rw [holding.inv.shape.blocks] at sum
  rw [sum] at total
  simpa [twoRows] using total

/-- The number of items is an int. -/
theorem Holding.bounded {m : Memory} {free row : List Addr} {b k : Nat}
    (holding : Holding m free row b k) :
    1024 * b < 2 ^ 31 := by
  obtain ⟨list, _, total, _⟩ := holding.inv.shape.tables.first
  have sum := holding.blocks
  rw [holding.inv.shape.blocks] at sum
  rw [sum] at total
  have := list.total.upper
  omega

theorem Holding.nonces {m : Memory} {free row : List Addr} {b k : Nat}
    (holding : Holding m free row b k) {list : KList} (found : m.lists[nonceList]? = some list) :
    Holds m.links true list row :=
  holding.inv.rows 1 list row List.not_mem_nil found rfl

theorem Holding.represents {m : Memory} {free row : List Addr} {b k : Nat}
    (holding : Holding m free row b k) {list : KList} (found : m.lists[nonceList]? = some list) :
    Represents m true list row :=
  holding.inv.sound.row 1 list row found rfl

theorem Holding.isItem {m : Memory} {free row : List Addr} {b k : Nat}
    (holding : Holding m free row b k) {a : Addr} (member : a ∈ row) : IsItem m.blocks a :=
  holding.inv.shape.isItem (mem_of_row (show (twoRows free row b).rows[1]? =
    some row from rfl) member)

/-! ## The walk towards the head -/

theorem searchFrom_eq (d : Dup) (workId nonce : UInt32) {start : Option Addr} {cells : List Addr}
    (follows : Follows d.memory.links.prev start cells)
    (items : ∀ a ∈ cells, IsItem d.memory.blocks a) (fuel : Nat)
    (enough : cells.length ≤ fuel) :
    searchFrom d workId nonce fuel start =
      some (cells.any fun a => holds workId nonce (d.data a)) := by
  induction follows generalizing fuel with
  | done => cases fuel <;> rfl
  | @step a cells rest ih =>
    cases fuel with
    | zero => cases enough
    | succ fuel =>
      have further :=
        ih (fun b member => items b (List.mem_cons_of_mem a member)) fuel
          (Nat.le_of_succ_le_succ enough)
      unfold searchFrom
      rw [List.any_cons]
      split
      · next same =>
        have here : holds workId nonce (d.data a) = true := decide_eq_true same
        rw [here, Bool.true_or]
      · next other =>
        have here : holds workId nonce (d.data a) = false := decide_eq_false other
        have read : d.memory.getPrev a = some (d.memory.links.prev a) :=
          if_pos (items a List.mem_cons_self)
        rw [here, Bool.false_or, read, Option.bind_some, further]

theorem search_eq (d : Dup) (workId nonce : UInt32) {free row : List Addr} {b k : Nat}
    (holding : Holding d.memory free row b k) {list : KList}
    (found : d.memory.lists[nonceList]? = some list) :
    searchFrom d workId nonce d.items list.tail =
      some ((row.map d.data).any (holds workId nonce)) := by
  have walk := holding.represents found
  have length := holding.length
  rw [walk.last rfl, searchFrom_eq d workId nonce walk.backward
    (fun a member => holding.isItem (List.mem_reverse.mp member))
    d.items (by unfold Dup.items; rw [List.length_reverse, holding.blocks]; omega),
      List.any_reverse, List.any_map]
  rfl

/-! ## Recording -/

/-- A recorded nonce is at the head; an item of the free list is counted there no more than
before. -/
theorem record_some (d : Dup) (workId nonce : UInt32) (now : ℚ) {free row : List Addr} {b k : Nat}
    (holding : Holding d.memory free row b k) (room : free = [] → 1024 * (b + 1) < 2 ^ 31)
    (counted : k + 1 < 2 ^ 31) :
    ∃ m item free' b', record d workId nonce now =
        some { d with memory := m, data := Function.update d.data item ⟨workId, nonce, now⟩ } ∧
      item ∉ row ∧ Holding m free' (item :: row) b' (k + 1) ∧
      (free ≠ [] → b' = b ∧ ∀ list, d.memory.lists[0]? = some list →
        ∃ list', m.lists[0]? = some list' ∧ list'.countUp = list.countUp) := by
  have positive : 0 < dupConfig.allocate.val := by decide
  -- the item comes from the free list, or from a new block
  obtain ⟨m1, item, free', b', ran, inv, apart, kept⟩ : ∃ m1 item free' b',
      kUnlinkHead d.memory nfreeList = some (m1, some item) ∧
        Inv dupConfig m1 ⟨[free', row], [item], List.replicate b' 1024⟩ ∧
      item ∉ row ∧ (free ≠ [] → b' = b ∧ ∀ list, d.memory.lists[0]? = some list →
        ∃ list', m1.lists[0]? = some list' ∧ list'.countUp = list.countUp) := by
    cases free with
    | cons item free =>
      obtain ⟨m1, ran, inv⟩ :=
        unlinkHead_item holding.inv (show (twoRows (item :: free) row b).rows[0]? = some _ from rfl)
      refine ⟨m1, item, free, b, ran, inv, inv.shape.held_apart (l := 1) rfl List.mem_cons_self,
        fun _ => ⟨rfl, ?_⟩⟩
      intro list found
      have head := (holding.inv.rows 0 list _ List.not_mem_nil found rfl).head
      obtain ⟨list', found', same⟩ := (kUnlinkHead_counts found head ran).here found
      exact ⟨list', found', CInt.ext (by rw [same, Int.add_zero])⟩
    | nil =>
      have more : Allocatable dupConfig (twoRows [] row b) := by
        have sum := holding.blocks
        rw [holding.inv.shape.blocks] at sum
        unfold Allocatable InRange
        rw [sum]
        have := room rfl
        have size : dupConfig.allocate.val = 1024 := rfl
        omega
      obtain ⟨m1, ran, inv⟩ :=
        (unlinkHead_refill holding.inv positive rfl (n := 1023) rfl).kept more
      have blocks : List.replicate b 1024 ++ [1023 + 1] = List.replicate (b + 1) 1024 :=
        List.replicate_succ'.symm
      refine ⟨m1, _, _, b + 1, ran, by rw [← blocks]; exact inv, ?_,
        fun some_free => absurd rfl some_free⟩
      exact inv.shape.held_apart (l := 1) rfl List.mem_cons_self
  obtain ⟨list, found, ups⟩ := holding.added
  have found1 : m1.lists[nonceList]? = some list := (kUnlinkHead_other ran (by decide)).trans found
  have room : Room m1 nonceList := fun other found' => by
    rw [found1] at found'
    cases found'
    unfold InRange
    omega
  obtain ⟨m2, added, inv2⟩ := (addHead_exact inv (l := 1) rfl List.mem_cons_self).kept room
  obtain ⟨m2, ran2, same⟩ := Option.map_eq_some_iff.mp added
  cases same
  have counts := kAddHead_counts ran2
  obtain ⟨list', found2, ups2⟩ := counts.here found1
  refine ⟨m2, item, free', b', ?_, apart, ⟨?_, list', found2, by omega⟩, fun some_free => ?_⟩
  · unfold record
    rw [ran, Option.bind_eq_bind, Option.bind_some]
    show ((kAddHead m1 nonceList item).bind _) = _
    rw [show kAddHead m1 nonceList item = some m2 from ran2]
    rfl
  · have gone : [item].erase item = [] := List.erase_cons_head item []
    have final :
      Inv dupConfig m2 ⟨[free', item :: row], [item].erase item, List.replicate b' 1024⟩ := inv2
    rw [gone] at final
    exact final
  · obtain ⟨same, first⟩ := kept some_free
    refine ⟨same, fun list found => ?_⟩
    obtain ⟨list', found', ups'⟩ := first list found
    exact ⟨list', (counts.other (by decide)).trans found', ups'⟩

/-- Recording needs the room. -/
theorem record_room (d d' : Dup) (workId nonce : UInt32) (now : ℚ) {free row : List Addr}
    {b k : Nat} (holding : Holding d.memory free row b k)
    (ran : record d workId nonce now = some d') :
    (free = [] → 1024 * (b + 1) < 2 ^ 31) ∧ k + 1 < 2 ^ 31 := by
  obtain ⟨⟨m1, unlinked⟩, first, ran⟩ := Option.bind_eq_some_iff.mp ran
  obtain ⟨item, _, ran⟩ := Option.bind_eq_some_iff.mp ran
  obtain ⟨m2, second, _⟩ := Option.bind_eq_some_iff.mp ran
  refine ⟨fun empty => ?_, ?_⟩
  · subst empty
    by_contra out
    have full : ¬Allocatable dupConfig (twoRows [] row b) := by
      have sum := holding.blocks
      rw [holding.inv.shape.blocks] at sum
      have size : dupConfig.allocate.val = 1024 := rfl
      rintro ⟨_, upper⟩
      rw [sum] at upper
      omega
    obtain ⟨list, found, isList, _, head, _⟩ := empty_list holding.inv (by decide) rfl
    unfold kUnlinkHead at first
    rw [show d.memory.lists[nfreeList]? = some list from found, Option.bind_eq_bind,
      Option.bind_some, head, isList] at first
    rw [if_pos (show ((none : Option Addr).isNone && !false) = true from rfl),
      show kAllocItems d.memory nfreeList = none from kAllocItems_none holding.inv (by decide) rfl
        (by rw [blockSize_dup]; decide) full] at first
    cases first
  · obtain ⟨list, found, ups⟩ := holding.added
    obtain ⟨list', _, more⟩ :=
      (kAddHead_counts second).here ((kUnlinkHead_other first (by decide)).trans found)
    have := list'.countUp.upper
    omega

/-! ## Expiry -/

theorem expire_stops (d : Dup) (now : ℚ) (fuel : Nat) {free row : List Addr} {b k : Nat}
    (holding : Holding d.memory free row b k)
    (recent : ∀ a ∈ row, (d.data a).when - now ≤ d.timelimit.val) :
    expire now (fuel + 1) d = some d := by
  obtain ⟨list, found, _⟩ := holding.added
  have tail := (holding.nonces found).tail rfl
  unfold expire
  rw [found, Option.bind_eq_bind, Option.bind_some, tail]
  split
  · rfl
  · next item last =>
    exact if_neg (show ¬tdiff (d.data item).when now > d.timelimit.val from
      not_lt.mpr (recent item (List.mem_of_getLast? last)))

/-- With a negative limit the nonce just recorded goes back to the free list, if its
counter has room. -/
theorem expire_single (d : Dup) (now : ℚ) (fuel : Nat) {free : List Addr} {item : Addr} {b k : Nat}
    (holding : Holding d.memory free [item] b k) (negative : d.timelimit.val < 0)
    (here : (d.data item).when = now) {list : KList} (found : d.memory.lists[0]? = some list)
    (room : list.countUp.val + 1 < 2 ^ 31) :
    ∃ m list', expire now (fuel + 2) d = some { d with memory := m } ∧
      Holding m (item :: free) [] b k ∧
      m.lists[0]? = some list' ∧ list'.countUp.val = list.countUp.val + 1 := by
  obtain ⟨nonces, foundNonces, ups⟩ := holding.added
  have tail : nonces.tail = some item := (holding.nonces foundNonces).tail rfl
  have last : (twoRows free [item] b).rows[1]? = some ([] ++ [item]) := rfl
  obtain ⟨m1, ran1, inv1⟩ := unlinkTail_inv holding.inv last rfl
  have counts1 := kUnlinkTail_counts foundNonces tail ran1
  have found1 : m1.lists[0]? = some list := (counts1.other (by decide)).trans found
  have inv1 : Inv dupConfig m1 ⟨[free, []], [item], List.replicate b 1024⟩ := inv1
  have room : Room m1 0 := fun other found' => by
    rw [found1] at found'
    cases found'
    unfold InRange
    have := list.countUp.lower
    omega
  obtain ⟨m2, added, inv2⟩ := (addHead_exact inv1 (l := 0) rfl List.mem_cons_self).kept room
  obtain ⟨m2, ran2, same⟩ := Option.map_eq_some_iff.mp added
  cases same
  have counts2 := kAddHead_counts ran2
  obtain ⟨list', found2, more⟩ := counts2.here found1
  obtain ⟨nonces', foundNonces1, ups1⟩ := counts1.here foundNonces
  have foundNonces2 : m2.lists[nonceList]? = some nonces' :=
    (counts2.other (by decide)).trans foundNonces1
  have gone : [item].erase item = [] := List.erase_cons_head item []
  have inv2 :
    Inv dupConfig m2 ⟨[item :: free, []], [item].erase item, List.replicate b 1024⟩ := inv2
  rw [gone] at inv2
  have after : Holding m2 (item :: free) [] b k := ⟨inv2, nonces', foundNonces2, by omega⟩
  have older : tdiff (d.data item).when now > d.timelimit.val := by
    unfold tdiff
    rw [here, sub_self]
    exact_mod_cast negative
  refine ⟨m2, list', ?_, after, found2, more⟩
  have rest : expire now (fuel + 1) { d with memory := m2 } = some { d with memory := m2 } :=
    expire_stops { d with memory := m2 } now fuel after nofun
  rw [expire, foundNonces, Option.bind_eq_bind, Option.bind_some, tail]
  dsimp only
  rw [if_pos older, show kUnlinkTail d.memory nonceList =
    some (m1, some item) from ran1, Option.bind_eq_bind, Option.bind_some]
  show ((kAddHead m1 nfreeList item).bind _) = _
  rw [show kAddHead m1 nfreeList item = some m2 from ran2]
  exact rest

theorem expire_room (d d' : Dup) (now : ℚ) (fuel : Nat) {free : List Addr} {item : Addr} {b k : Nat}
    (holding : Holding d.memory free [item] b k) (negative : d.timelimit.val < 0)
    (here : (d.data item).when = now) {list : KList} (found : d.memory.lists[0]? = some list)
    (ran : expire now (fuel + 1) d = some d') :
    list.countUp.val + 1 < 2 ^ 31 := by
  obtain ⟨nonces, foundNonces, _⟩ := holding.added
  have tail : nonces.tail = some item := (holding.nonces foundNonces).tail rfl
  have older : tdiff (d.data item).when now > d.timelimit.val := by
    unfold tdiff
    rw [here, sub_self]
    exact_mod_cast negative
  rw [expire, foundNonces, Option.bind_eq_bind, Option.bind_some, tail] at ran
  dsimp only at ran
  rw [if_pos older] at ran
  obtain ⟨⟨m1, unlinked⟩, first, ran⟩ := Option.bind_eq_some_iff.mp ran
  obtain ⟨other, _, ran⟩ := Option.bind_eq_some_iff.mp ran
  obtain ⟨m2, second, _⟩ := Option.bind_eq_some_iff.mp ran
  have found1 := ((kUnlinkTail_counts foundNonces tail first).other (by decide)).trans found
  obtain ⟨list', _, more⟩ := (kAddHead_counts second).here found1
  have := list'.countUp.upper
  omega

/-! ## One call -/

/-- A filter that is right so far. -/
structure Tracks (limit : CInt) (s : Filter) (d : Dup) (free row : List Addr) (b : Nat) : Prop where
  code : s.code = some (d, s.expected)
  timelimit : d.timelimit = limit
  holding : Holding d.memory free row b s.recorded.length
  shown : row.map d.data = s.window limit
  checked : d.checked = UInt64.ofNat s.calls
  dups : d.dups = UInt64.ofNat s.repeats
  past : ∀ e ∈ s.recorded, e.when ≤ s.clock
  whole : 0 ≤ limit.val → s.window limit = s.recorded
  negative : limit.val < 0 → b = 1 ∧
    ∃ list, d.memory.lists[0]? = some list ∧ list.countUp.val = 1024 + (s.recorded.length : Int)

def Right (limit : CInt) (s : Filter) : Prop := ∃ d free row b, Tracks limit s d free row b

theorem Right.filtering {limit : CInt} {s : Filter} (right : Right limit s) :
    Filtering limit s := by
  obtain ⟨d, free, row, b, tracks⟩ := right
  obtain ⟨list, found, _⟩ := tracks.holding.added
  exact ⟨d, tracks.code, ⟨list, row, found, tracks.holding.represents found, tracks.shown⟩,
    tracks.checked, tracks.dups⟩

/-- A negative limit leaves nothing in the window. -/
theorem window_negative {limit : CInt} (s : Filter) (past : ∀ e ∈ s.recorded, e.when ≤ s.clock)
    (negative : limit.val < 0) :
    s.window limit = [] := by
  unfold Filter.window
  rw [List.filter_eq_nil_iff]
  intro e member
  have before := past e member
  have below : (limit.val : ℚ) < 0 := by exact_mod_cast negative
  rw [decide_eq_true_iff]
  linarith

/-- The window is the whole history exactly if nothing in it is too old. -/
theorem window_whole (limit : CInt) (s : Filter) :
    s.window limit = s.recorded ↔ ∀ e ∈ s.recorded, s.clock - e.when ≤ limit.val := by
  unfold Filter.window
  rw [List.filter_eq_self]
  exact forall₂_congr fun e _ => decide_eq_true_iff

/-- A list that shows the whole history shows the window only if nothing is too old. -/
theorem lists_whole {limit : CInt} {s : Filter} {d : Dup} {free row : List Addr} {b k : Nat}
    (holding : Holding d.memory free row b k) (all : row.map d.data = s.recorded)
    (shown : Lists d (s.window limit)) :
    ∀ e ∈ s.recorded, s.clock - e.when ≤ limit.val := by
  obtain ⟨list, other, found, represents, same⟩ := shown
  have length : other.length = row.length := by
    have first := represents.count
    have second := (holding.represents found).count
    omega
  have sizes : (s.window limit).length = s.recorded.length := by
    rw [← same, ← all, List.length_map, List.length_map, length]
  rw [← window_whole]
  unfold Filter.window at sizes ⊢
  exact (List.filter_sublist).eq_of_length sizes

/-- The first half of a call: the answer, and the nonce recorded. -/
theorem isdupnonce_eq {limit : CInt} {s : Filter} {d : Dup} {free row : List Addr} {b : Nat}
    (tracks : Tracks limit s d free row b) (c : Call) :
    isdupnonce d c.workId c.nonce c.now =
      (if s.inWindow limit c then some { d with checked := d.checked + 1 }
        else record { d with checked := d.checked + 1 } c.workId c.nonce c.now).bind fun d1 =>
          (expire c.now (d1.items + 1) d1).map fun d2 =>
            ({ d2 with dups := if s.inWindow limit c then d2.dups + 1 else d2.dups },
              s.inWindow limit c) := by
  obtain ⟨list, found, _⟩ := tracks.holding.added
  have search := search_eq d c.workId c.nonce tracks.holding found
  rw [tracks.shown] at search
  unfold isdupnonce
  rw [found, Option.bind_eq_bind, Option.bind_some, search, Option.bind_eq_bind, Option.bind_some]
  refine congrArg (Option.bind _) (funext fun d1 => ?_)
  rw [Option.map_eq_bind]
  rfl

/-- The history behind a call. -/
def Filter.after (s : Filter) (limit : CInt) (c : Call) (code : Option (Dup × Bool)) : Filter where
  code := code
  recorded := if s.inWindow limit c then s.recorded else ⟨c.workId, c.nonce, c.now⟩ :: s.recorded
  clock := c.now
  calls := s.calls + 1
  repeats := if s.inWindow limit c then s.repeats + 1 else s.repeats
  expected := s.inWindow limit c

theorem step_later (limit : CInt) (s : Filter) (c : Call) (later : s.clock ≤ c.now) :
    step limit s c =
      some (s.after limit c (s.code.bind fun last => isdupnonce last.1 c.workId c.nonce c.now)) :=
  if_pos later

theorem step_eq {limit : CInt} {s next : Filter} {d : Dup} {free row : List Addr} {b : Nat}
    (tracks : Tracks limit s d free row b) {c : Call} (taken : step limit s c = some next) :
    s.clock ≤ c.now ∧ next = s.after limit c (isdupnonce d c.workId c.nonce c.now) := by
  unfold step at taken
  split at taken
  · next later =>
    cases taken
    rw [tracks.code]
    exact ⟨later, rfl⟩
  · cases taken

theorem after_past {limit : CInt} {s : Filter} {d : Dup} {free row : List Addr} {b : Nat}
    (tracks : Tracks limit s d free row b) {c : Call} (later : s.clock ≤ c.now)
    (code : Option (Dup × Bool)) :
    ∀ e ∈ (s.after limit c code).recorded, e.when ≤ c.now := by
  intro e member
  unfold Filter.after at member
  dsimp only at member
  split at member
  · exact (tracks.past e member).trans later
  · rcases List.mem_cons.mp member with rfl | old
    · exact le_refl c.now
    · exact (tracks.past e old).trans later

/-- The counters behind a call. -/
theorem counters_after {limit : CInt} {s : Filter} {d : Dup} {free row : List Addr} {b : Nat}
    (tracks : Tracks limit s d free row b) (found : Bool) :
    d.checked + 1 = UInt64.ofNat (s.calls + 1) ∧
      (if found then d.dups + 1 else d.dups) =
        UInt64.ofNat (if found then s.repeats + 1 else s.repeats) := by
  rw [tracks.checked, tracks.dups, UInt64.ofNat_add]
  cases found with
  | true => exact ⟨rfl, by rw [if_pos rfl, if_pos rfl, UInt64.ofNat_add]; rfl⟩
  | false => exact ⟨rfl, rfl⟩

/-- Without a negative limit, nothing expires: the list is the whole history. -/
theorem call_nonnegative {limit : CInt} {s next : Filter} {d : Dup} {free row : List Addr} {b : Nat}
    (tracks : Tracks limit s d free row b) (nonnegative : 0 ≤ limit.val) {c : Call}
    (later : s.clock ≤ c.now) {d1 : Dup} {free' row' : List Addr} {b' : Nat}
    (done : (if s.inWindow limit c then some { d with checked := d.checked + 1 }
      else record { d with checked := d.checked + 1 } c.workId c.nonce c.now) = some d1)
    (same : next = s.after limit c (isdupnonce d c.workId c.nonce c.now))
      (timelimit : d1.timelimit = limit)
    (holding : Holding d1.memory free' row' b' next.recorded.length) (all : row'.map d1.data =
      next.recorded)
    (checked : d1.checked = d.checked + 1) (dups : d1.dups = d.dups) :
    (Filtering limit next → ∀ e ∈ next.recorded, c.now - e.when ≤ limit.val) ∧
      ((∀ e ∈ next.recorded, c.now - e.when ≤ limit.val) → Right limit next) := by
  have past : ∀ e ∈ next.recorded, e.when ≤ c.now := by
    rw [same]
    exact after_past tracks later _
  have recent : ∀ a ∈ row', (d1.data a).when - c.now ≤ d1.timelimit.val := by
    intro a member
    have before := past (d1.data a) (by rw [← all]; exact List.mem_map_of_mem member)
    rw [timelimit]
    have : (0 : ℚ) ≤ limit.val := by exact_mod_cast nonnegative
    linarith
  have clock : next.clock = c.now := by rw [same]; rfl
  have code :
      next.code = some ({ d1 with dups := if s.inWindow limit c then d1.dups + 1 else d1.dups },
      next.expected) := by
    rw [same]
    show isdupnonce d c.workId c.nonce c.now = _
    rw [isdupnonce_eq tracks c, done, Option.bind_some,
      expire_stops d1 c.now d1.items holding recent]
    rfl
  constructor
  · rintro ⟨d2, code', shown, _, _⟩
    rw [code] at code'
    cases code'
    rw [← clock]
    exact lists_whole holding all shown
  · intro fits
    have window : next.window limit = next.recorded := by
      rw [window_whole, clock]
      exact fits
    have counters := counters_after tracks (s.inWindow limit c)
    refine ⟨_, free', row', b', ⟨code, timelimit, holding, all.trans window.symm, ?_, ?_, ?_,
      fun _ => window, fun negative => ?_⟩⟩
    · rw [same]
      exact checked.trans counters.1
    · rw [same]
      show (if s.inWindow limit c then d1.dups + 1 else d1.dups) = _
      rw [dups]
      exact counters.2
    · rw [clock]
      exact past
    · omega

theorem map_update (data : Addr → NItem) {item : Addr} {row : List Addr} (apart : item ∉ row)
    (e : NItem) :
    (item :: row).map (Function.update data item e) = e :: row.map data := by
  rw [List.map_cons, Function.update_self]
  congr 1
  refine List.map_congr_left fun a member => Function.update_of_ne ?_ e data
  rintro rfl
  exact apart member

/-- A nonce that is not in the window is recorded. -/
theorem after_new {limit : CInt} {s : Filter} {c : Call} (found : s.inWindow limit c = false)
    (code : Option (Dup × Bool)) :
    (s.after limit c code).recorded = ⟨c.workId, c.nonce, c.now⟩ :: s.recorded :=
  if_neg (by rw [found]; decide)

theorem record_new {limit : CInt} {s : Filter} {c : Call} (found : s.inWindow limit c = false)
    (d : Dup) :
    (if s.inWindow limit c then some d else record d c.workId c.nonce c.now) =
      record d c.workId c.nonce c.now :=
  if_neg (by rw [found]; decide)

/-- It was recorded and the list walked if the filter goes on. -/
theorem filtering_new {limit : CInt} {s : Filter} {d : Dup} {free row : List Addr} {b : Nat}
    (tracks : Tracks limit s d free row b) {c : Call} (found : s.inWindow limit c = false)
    (filtering : Filtering limit (s.after limit c (isdupnonce d c.workId c.nonce c.now))) :
    ∃ d1 d2, record { d with checked := d.checked + 1 } c.workId c.nonce c.now = some d1 ∧
      expire c.now (d1.items + 1) d1 = some d2 := by
  obtain ⟨_, code, _⟩ := filtering
  have ran : isdupnonce d c.workId c.nonce c.now = some _ := code
  rw [isdupnonce_eq tracks c, record_new found] at ran
  obtain ⟨d1, recorded, ran⟩ := Option.bind_eq_some_iff.mp ran
  obtain ⟨d2, expired, _⟩ := Option.map_eq_some_iff.mp ran
  exact ⟨d1, d2, recorded, expired⟩

theorem nonnegative_repeat {limit : CInt} {s next : Filter} {d : Dup} {free row : List Addr}
    {b : Nat} (tracks : Tracks limit s d free row b) (nonnegative : 0 ≤ limit.val) {c : Call}
    (later : s.clock ≤ c.now) (same : next = s.after limit c (isdupnonce d c.workId c.nonce c.now))
    (found : s.inWindow limit c = true) :
    (Filtering limit next → Suits limit s c) ∧ (Suits limit s c → Right limit next) := by
  have all : row.map d.data = s.recorded := tracks.shown.trans (tracks.whole nonnegative)
  have recorded : next.recorded = s.recorded := by
    rw [same]
    exact if_pos found
  have done : (if s.inWindow limit c then some { d with checked := d.checked + 1 }
      else record { d with checked := d.checked + 1 } c.workId c.nonce c.now) =
        some { d with checked := d.checked + 1 } :=
    if_pos found
  obtain ⟨only, kept⟩ := call_nonnegative tracks nonnegative later done same tracks.timelimit
    (by rw [recorded]; exact tracks.holding) (all.trans recorded.symm) rfl rfl
  rw [recorded] at only kept
  refine ⟨fun filtering => ⟨.inr (only filtering), fun none => ?_⟩,
    fun suits => kept (suits.1.resolve_left (by omega))⟩
  rw [found] at none
  cases none

/-- With room for a new nonce, the filter goes on exactly when nothing has expired. -/
theorem nonnegative_room {limit : CInt} {s : Filter} {d : Dup} {free row : List Addr} {b : Nat}
    (tracks : Tracks limit s d free row b) (nonnegative : 0 ≤ limit.val) {c : Call}
    (later : s.clock ≤ c.now) (found : s.inWindow limit c = false)
    (room : free = [] → 1024 * (b + 1) < 2 ^ 31) (counted : s.recorded.length + 1 < 2 ^ 31) :
    (Filtering limit (s.after limit c (isdupnonce d c.workId c.nonce c.now)) →
        ∀ e ∈ (⟨c.workId, c.nonce, c.now⟩ :: s.recorded : List NItem), c.now - e.when ≤ limit.val) ∧
      ((∀ e ∈ (⟨c.workId, c.nonce, c.now⟩ :: s.recorded : List NItem), c.now - e.when ≤ limit.val) →
        Right limit (s.after limit c (isdupnonce d c.workId c.nonce c.now))) := by
  have all : row.map d.data = s.recorded := tracks.shown.trans (tracks.whole nonnegative)
  have recorded := after_new found (isdupnonce d c.workId c.nonce c.now)
  obtain ⟨m, item, free', b', ran, apart, holding, _⟩ :=
    record_some { d with checked := d.checked + 1 } c.workId c.nonce c.now tracks.holding
      room counted
  have held :
      Holding m free' (item :: row) b'
      (s.after limit c (isdupnonce d c.workId c.nonce c.now)).recorded.length := by
    rw [recorded]
    exact holding
  rw [← recorded]
  refine call_nonnegative tracks nonnegative later ((record_new found _).trans ran)
    rfl tracks.timelimit held ?_ rfl rfl
  rw [recorded]
  exact (map_update d.data apart _).trans (congrArg _ all)

theorem nonnegative_new {limit : CInt} {s next : Filter} {d : Dup} {free row : List Addr} {b : Nat}
    (tracks : Tracks limit s d free row b) (nonnegative : 0 ≤ limit.val) {c : Call}
    (later : s.clock ≤ c.now) (same : next = s.after limit c (isdupnonce d c.workId c.nonce c.now))
    (found : s.inWindow limit c = false) :
    (Filtering limit next → Suits limit s c) ∧ (Suits limit s c → Right limit next) := by
  have nonces : row.length = s.recorded.length := by
    rw [← tracks.shown.trans (tracks.whole nonnegative), List.length_map]
  have size := tracks.holding.length
  have bounded := tracks.holding.bounded
  have capacity_eq : capacity limit = 2 ^ 31 - 1024 := if_neg (by omega)
  rw [same]
  constructor
  · intro filtering
    obtain ⟨d1, _, recorded, _⟩ := filtering_new tracks found filtering
    obtain ⟨room, counted⟩ :=
      record_room { d with checked := d.checked + 1 } d1 _ _ _ tracks.holding recorded
    have within := (nonnegative_room tracks nonnegative later found room counted).1 filtering
    refine ⟨.inr fun e member => within e (List.mem_cons_of_mem _ member), fun _ => ?_⟩
    rw [capacity_eq]
    cases free with
    | nil =>
      have := room rfl
      rw [List.length_nil] at size
      omega
    | cons first free =>
      rw [List.length_cons] at size
      omega
  · intro suits
    have below := suits.2 found
    rw [capacity_eq] at below
    refine (nonnegative_room tracks nonnegative later found (fun empty => ?_) (by omega)).2 fun e
      member => ?_
    · subst empty
      rw [List.length_nil] at size
      omega
    · rcases List.mem_cons.mp member with rfl | old
      · rw [sub_self]
        exact_mod_cast nonnegative
      · exact suits.1.resolve_left (by omega) e old

theorem call_nonnegative_exact {limit : CInt} {s next : Filter} {d : Dup} {free row : List Addr}
    {b : Nat} (tracks : Tracks limit s d free row b) (nonnegative : 0 ≤ limit.val) {c : Call}
    (taken : step limit s c = some next) :
    (Filtering limit next → Suits limit s c) ∧ (Suits limit s c → Right limit next) := by
  obtain ⟨later, same⟩ := step_eq tracks taken
  cases found : s.inWindow limit c with
  | true => exact nonnegative_repeat tracks nonnegative later same found
  | false => exact nonnegative_new tracks nonnegative later same found

/-- With a negative limit nothing is in the window, and there are free items left. -/
theorem negative_empty {limit : CInt} {s : Filter} {d : Dup} {free row : List Addr} {b : Nat}
    (tracks : Tracks limit s d free row b) (negative : limit.val < 0) (c : Call) :
    s.inWindow limit c = false ∧ row = [] ∧ free ≠ [] := by
  have empty := window_negative s tracks.past negative
  have nonces : row = [] := List.map_eq_nil_iff.mp (tracks.shown.trans empty)
  refine ⟨?_, nonces, ?_⟩
  · unfold Filter.inWindow
    rw [empty]
    rfl
  · rintro rfl
    obtain ⟨one, _⟩ := tracks.negative negative
    have size := tracks.holding.length
    rw [one, nonces] at size
    cases size

theorem negative_suits {limit : CInt} {s : Filter} {d : Dup} {free row : List Addr} {b : Nat}
    (tracks : Tracks limit s d free row b) (negative : limit.val < 0) {c : Call}
    (filtering : Filtering limit (s.after limit c (isdupnonce d c.workId c.nonce c.now))) :
    Suits limit s c := by
  obtain ⟨found, rfl, filled⟩ := negative_empty tracks negative c
  obtain ⟨_, list, at_list, ups⟩ := tracks.negative negative
  obtain ⟨d1, d2, recorded, expired⟩ := filtering_new tracks found filtering
  obtain ⟨_, counted⟩ :=
    record_room { d with checked := d.checked + 1 } d1 _ _ _ tracks.holding recorded
  obtain ⟨m, item, free', b', explicit, apart, holding, kept⟩ :=
    record_some { d with checked := d.checked + 1 } c.workId c.nonce c.now tracks.holding
      (fun none => absurd none filled) counted
  rw [explicit] at recorded
  cases recorded
  obtain ⟨list', at_list', sameUps⟩ := (kept filled).2 list at_list
  have room :=
    expire_room _ d2 c.now _ holding (by rw [← tracks.timelimit] at negative; exact negative)
    (congrArg NItem.when (Function.update_self item _ d.data)) at_list' expired
  refine ⟨.inl negative, fun _ => ?_⟩
  rw [show capacity limit = 2 ^ 31 - 1025 from if_pos negative]
  rw [sameUps, ups] at room
  omega

/-- With a negative limit the list is empty again behind every call. -/
theorem negative_right {limit : CInt} {s : Filter} {d : Dup} {free row : List Addr} {b : Nat}
    (tracks : Tracks limit s d free row b) (negative : limit.val < 0) {c : Call}
    (later : s.clock ≤ c.now) (suits : Suits limit s c) :
    Right limit (s.after limit c (isdupnonce d c.workId c.nonce c.now)) := by
  obtain ⟨found, rfl, filled⟩ := negative_empty tracks negative c
  obtain ⟨one, list, at_list, ups⟩ := tracks.negative negative
  have recorded := after_new found (isdupnonce d c.workId c.nonce c.now)
  have below := suits.2 found
  rw [show capacity limit = 2 ^ 31 - 1025 from if_pos negative] at below
  obtain ⟨m, item, free', b', explicit, apart, holding, kept⟩ :=
    record_some { d with checked := d.checked + 1 } c.workId c.nonce c.now tracks.holding
      (fun none => absurd none filled)
      (by omega)
  obtain ⟨sameBlocks, first⟩ := kept filled
  obtain ⟨list', at_list', sameUps⟩ := first list at_list
  have items : Dup.items { d with
      memory := m, data := Function.update d.data item ⟨c.workId, c.nonce, c.now⟩,
        checked := d.checked + 1 } = 1023 + 1 := by
    have sum := holding.blocks
    unfold Dup.items
    rw [sameBlocks, one] at sum
    exact sum
  obtain ⟨m', list'', expired, holding', at_list'', more⟩ := expire_single
    { d with memory := m, data := Function.update d.data item ⟨c.workId, c.nonce,
      c.now⟩, checked := d.checked + 1 }
    c.now 1023 holding (by rw [← tracks.timelimit] at negative; exact negative)
    (congrArg NItem.when (Function.update_self item _ d.data)) at_list'
      (by rw [sameUps, ups]; omega)
  have ran : isdupnonce d c.workId c.nonce c.now = some ({ d with
      memory := m', data := Function.update d.data item ⟨c.workId, c.nonce, c.now⟩,
        checked := d.checked + 1 }, false) := by
    rw [isdupnonce_eq tracks c, record_new found, explicit, Option.bind_some, items, expired, found]
    rfl
  have past := after_past tracks later (isdupnonce d c.workId c.nonce c.now)
  have counters := counters_after tracks false
  refine ⟨{ d with
      memory := m', data := Function.update d.data item ⟨c.workId, c.nonce, c.now⟩,
        checked := d.checked + 1 }, item :: free',
    [], b', ⟨?_, tracks.timelimit, by rw [recorded]; exact holding',
    (window_negative _ past negative).symm,
      counters.1, ?_, past, fun nonnegative => absurd negative (by omega),
      fun _ => ⟨sameBlocks.trans one, list'', at_list'', ?_⟩⟩⟩
  · show isdupnonce d c.workId c.nonce c.now = some (_, s.inWindow limit c)
    rw [ran, found]
  · show d.dups = UInt64.ofNat (if s.inWindow limit c then s.repeats + 1 else s.repeats)
    rw [found]
    exact counters.2
  · rw [recorded, List.length_cons, more, sameUps, ups]
    push_cast
    omega

theorem call_negative_exact {limit : CInt} {s next : Filter} {d : Dup} {free row : List Addr}
    {b : Nat} (tracks : Tracks limit s d free row b) (negative : limit.val < 0) {c : Call}
    (taken : step limit s c = some next) :
    (Filtering limit next → Suits limit s c) ∧ (Suits limit s c → Right limit next) := by
  obtain ⟨later, same⟩ := step_eq tracks taken
  rw [same]
  exact ⟨negative_suits tracks negative, negative_right tracks negative later⟩

/-! ## Whole runs -/

theorem kNewList_dup :
    ∃ m list, kNewList dupConfig.allocate .zero true = some m ∧ m.lists = [list] ∧
      list.countUp.val = 1024 ∧
      list.doTail = true := by
  have allocated : Source.Klist.allocation (ListRepresentation.unfilled dupConfig) =
    some dupConfig.allocate := rfl
  have added : (ListRepresentation.unfilled dupConfig).total.add dupConfig.allocate.val =
    some dupConfig.allocate := rfl
  have made : kAllocItems ⟨[], ⟨fun _ => none, fun _ => none⟩,
      [ListRepresentation.unfilled dupConfig]⟩ 0 = _ :=
    kAllocItems_some rfl rfl (by decide) allocated added
  exact ⟨_, _, made, rfl, rfl, rfl⟩

/-- The new lists: a block of free items and no nonces. -/
theorem dupalloc_some (limit : CInt) :
    ∃ d, dupalloc limit = some d ∧ d.timelimit = limit ∧ d.checked = 0 ∧ d.dups = 0 ∧
      Holding d.memory (blockItems 0 1024) [] 1 0 ∧
        ∃ list, d.memory.lists[0]? = some list ∧ list.countUp.val = 1024 := by
  obtain ⟨m, list, made, lists, ups, _⟩ := kNewList_dup
  obtain ⟨m', code, inv⟩ :=
    (ListRepresentation.begin_exact dupConfig (by decide) (by decide)).2
      (by rw [blockSize_dup]; decide)
  have same : (kNewList dupConfig.allocate .zero true).map ListRows.void = some (m', none) := code
  rw [made] at same
  cases same
  obtain ⟨m2, store, inv2⟩ := ListRepresentation.newStore_inv inv
  have stored :
      m2.lists =
      [list] ++ [⟨true, none, none, .zero, .zero, .zero, .zero, .zero, list.doTail⟩] := by
    unfold kNewStore at store
    rw [lists] at store
    cases store
    rw [← lists]
  refine ⟨⟨limit, m2, fun _ => ⟨0, 0, 0⟩, 0, 0⟩, ?_, rfl, rfl, rfl,
    ⟨inv2, ⟨_, by rw [stored]; rfl, rfl⟩⟩, list, ?_, ups⟩
  · unfold dupalloc
    rw [show kNewList dupAllocate .zero true = some m from made, Option.bind_eq_bind,
      Option.bind_some]
    rw [show kNewStore m nfreeList = some m2 from store]
    rfl
  · show m2.lists[0]? = some list
    rw [stored]
    rfl

theorem begin_right (limit : CInt) (clock : ℚ) : Right limit (begin limit clock) := by
  obtain ⟨d, made, timelimit, checked, dups, holding, first⟩ := dupalloc_some limit
  refine ⟨d, _, [], 1, ⟨?_, timelimit, holding, rfl, checked, dups, nofun, fun _ => rfl,
    fun _ => ⟨rfl, first⟩⟩⟩
  unfold begin
  rw [made]
  rfl

theorem call_exact {limit : CInt} {s next : Filter} (right : Right limit s) {c : Call}
    (taken : step limit s c = some next) :
    (Filtering limit next → Suits limit s c) ∧ (Suits limit s c → Right limit next) := by
  obtain ⟨d, free, row, b, tracks⟩ := right
  rcases lt_or_ge limit.val 0 with negative | nonnegative
  · exact call_negative_exact tracks negative taken
  · exact call_nonnegative_exact tracks nonnegative taken

/-- The filter keeps its window throughout a sequence of calls exactly if at every call nothing
recorded is older than a limit of at least 0, and the lists have room for what is new. -/
theorem filtering_iff (limit : CInt) (clock : ℚ) (calls : List Call) :
    Always (step limit) (Filtering limit) (begin limit clock) calls ↔
      Guarded (step limit) (Suits limit) (begin limit clock) calls :=
  always_iff_guarded_of_kept (fun _ _ _ right _ suits taken => (call_exact right taken).2 suits)
    (fun _ _ _ right _ taken => ⟨(call_exact right taken).1,
      fun suits => ((call_exact right taken).2 suits).filtering⟩)
    (begin_right limit clock) (begin_right limit clock).filtering

def tenSeconds : CInt := ⟨10, by decide, by decide⟩

/-- With a limit of 10 seconds a nonce of 11 seconds ago stays in the list. -/
theorem old_nonce_kept :
    ¬Always (step tenSeconds) (Filtering tenSeconds) (begin tenSeconds 0) [⟨1, 7, 0⟩,
      ⟨2, 7, 11⟩] := by
  intro always
  have begun := begin_right tenSeconds 0
  obtain ⟨code, first⟩ : ∃ code, step tenSeconds (begin tenSeconds 0) ⟨1, 7, 0⟩ =
      some ((begin tenSeconds 0).after tenSeconds ⟨1, 7, 0⟩ code) :=
        ⟨_, step_later tenSeconds _ _ (le_refl (0 : ℚ))⟩
  have second :=
    step_later tenSeconds ((begin tenSeconds 0).after tenSeconds ⟨1, 7, 0⟩ code) ⟨2, 7, 11⟩
    (show (0 : ℚ) ≤ 11 by norm_num)
  have filtering1 := always_start (always.2 _ first)
  have filtering2 := always_start ((always.2 _ first).2 _ second)
  have right1 := (call_exact begun first).2 ((call_exact begun first).1 filtering1)
  have suits := (call_exact right1 second).1 filtering2
  rcases suits.1 with negative | recent
  · exact absurd negative (by decide)
  · have age := recent ⟨1, 7, 0⟩ List.mem_cons_self
    norm_num [tenSeconds] at age

end CgminerT4.Guarantees.NonceWindow
