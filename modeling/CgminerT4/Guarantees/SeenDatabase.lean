import CgminerT4.Source.SeenBlocks
import Mathlib.Data.List.DropRight

/-!
# The table of seen blocks

main puts a placeholder into the table, and its number is the one of the first
block: otherwise the table is the list of the last seven insertions. It is always
sorted, so the sort before a deletion changes nothing and the first element is
the oldest. The numbers stop increasing where an unsigned counter no longer fits
an int.
-/
namespace CgminerT4.Guarantees.SeenDatabase
open Library.ByteString Source.Jansson Source.Hex Source.SeenBlocks

/-- A call for the previous block `hash` of a work. -/
structure Call where
  hash : Buffer 32
  data : Buffer 128

/-- The table, and the hashes inserted so far. -/
structure World where
  seen : Seen
  inserted : List (Buffer 32)

def start : World := ⟨atStart, []⟩

def answer (w : World) (c : Call) : Bool × Seen :=
  blockExists w.seen (bin2hex c.hash.bytes) c.hash c.data

def call (w : World) (c : Call) : World :=
  ⟨(answer w c).2, if (answer w c).1 then w.inserted else w.inserted ++ [c.hash]⟩

def run (calls : List Call) : World := calls.foldl call start

/-- The hashes that are in the table. -/
def hashes (s : Seen) : List Bytes := s.blocks.map Block.hash

/-- Insertions with their numbers. -/
def numbered (inserted : List (Buffer 32)) : List Block :=
  inserted.mapIdx fun i hash => ⟨bin2hex hash.bytes, i⟩

/-- The last seven of the placeholder and the insertions. -/
structure Database (w : World) : Prop where
  recent : w.seen.blocks = (placeholder :: numbered w.inserted).rtake 7
  distinct : (hashes w.seen).Nodup
  increasing : (w.seen.blocks.filter (· ≠ placeholder)).Pairwise fun a b => a.blockNo < b.blockNo

/-- Whether the hash is known; if not, it is then. -/
structure Answers (w : World) (next : Call) : Prop where
  known : (answer w next).1 = true ↔ bin2hex next.hash.bytes ∈ hashes w.seen
  kept : (answer w next).1 = true → (answer w next).2 = w.seen
  added : (answer w next).1 = false → bin2hex next.hash.bytes ∈ hashes (answer w next).2

theorem findBlock_iff (s : Seen) (hexstr : Bytes) :
    findBlock s.blocks hexstr = true ↔ hexstr ∈ hashes s := by
  unfold findBlock hashes
  rw [List.any_eq_true, List.mem_map]
  constructor
  · rintro ⟨block, member, same⟩
    exact ⟨block, member, of_decide_eq_true same⟩
  · rintro ⟨block, member, same⟩
    exact ⟨block, member, decide_eq_true same⟩

theorem answer_known (w : World) (next : Call) (known : bin2hex next.hash.bytes ∈ hashes w.seen) :
    answer w next = (true, w.seen) := by
  unfold answer blockExists
  rw [if_pos ((findBlock_iff w.seen _).mpr known)]

theorem answer_new (w : World) (next : Call) (fresh : bin2hex next.hash.bytes ∉ hashes w.seen) :
    (answer w next).1 = false ∧
      (answer w next).2.blocks =
        addBlock w.seen.blocks ⟨bin2hex next.hash.bytes, toInt w.seen.newBlocks.toNat⟩ ∧
      (answer w next).2.newBlocks = w.seen.newBlocks + 1 := by
  unfold answer blockExists
  rw [if_neg fun found => fresh ((findBlock_iff w.seen _).mp found)]
  exact ⟨rfl, rfl, rfl⟩

theorem answers (w : World) (next : Call) : Answers w next := by
  by_cases known : bin2hex next.hash.bytes ∈ hashes w.seen
  · have same := answer_known w next known
    constructor
    · exact iff_of_true (congrArg Prod.fst same) known
    · exact fun _ => congrArg Prod.snd same
    · intro new
      rw [same] at new
      cases new
  · obtain ⟨new, blocks, _⟩ := answer_new w next known
    constructor
    · exact iff_of_false (new ▸ Bool.false_ne_true) known
    · intro found
      rw [new] at found
      cases found
    · intro _
      unfold hashes
      rw [blocks, addBlock, List.map_append]
      exact List.mem_append_right _ List.mem_cons_self

/-! ## The order of the table -/

theorem blockSort_le (a b : Block) (positive : 0 ≤ a.blockNo) (ordered : a.blockNo ≤ b.blockNo)
    (small : b.blockNo < 2 ^ 31) : blockSort a b ≤ 0 := by
  unfold blockSort toInt
  rw [Int.bmod_eq_of_le (by omega) (by omega)]
  omega

theorem mem_numbered (inserted : List (Buffer 32)) (block : Block)
    (member : block ∈ numbered inserted) :
    ∃ i hash, inserted[i]? = some hash ∧ block = ⟨bin2hex hash.bytes, (i : Nat)⟩ := by
  obtain ⟨i, inside, same⟩ := List.mem_mapIdx.mp member
  exact ⟨i, inserted[i], List.getElem?_eq_getElem inside, same.symm⟩

theorem numbered_increasing (inserted : List (Buffer 32)) :
    (numbered inserted).Pairwise fun a b => a.blockNo < b.blockNo := by
  rw [List.pairwise_iff_getElem]
  intro i j first second before
  simp only [numbered, List.getElem_mapIdx]
  omega

/-- All numbers are below the number of insertions. -/
theorem numbered_sorted (inserted : List (Buffer 32)) (few : inserted.length ≤ 2 ^ 31) :
    (placeholder :: numbered inserted).Pairwise fun a b => blockSort a b ≤ 0 := by
  have bound : ∀ block ∈ numbered inserted, 0 ≤ block.blockNo ∧ block.blockNo < 2 ^ 31 := by
    intro block member
    obtain ⟨i, hash, there, rfl⟩ := mem_numbered inserted block member
    have inside := (List.getElem?_eq_some_iff.mp there).1
    dsimp only
    omega
  rw [List.pairwise_cons]
  constructor
  · intro block member
    exact blockSort_le placeholder block (le_refl _) (bound block member).1 (bound block member).2
  · refine (List.Pairwise.and_mem.mp (numbered_increasing inserted)).imp fun {a b} ⟨first, second,
      ordered⟩ => ?_
    exact blockSort_le a b (bound a first).1 (le_of_lt ordered) (bound b second).2

theorem placeholder_ne (hash : Buffer 32) : bin2hex hash.bytes ≠ placeholder.hash := by
  intro same
  have sizes := congrArg List.length same
  rw [length_bin2hex, hash.length_eq, placeholder, List.length_replicate] at sizes
  cases sizes

theorem numbered_concat (inserted : List (Buffer 32)) (hash : Buffer 32) :
    numbered (inserted ++ [hash]) = numbered inserted ++ [⟨bin2hex hash.bytes, inserted.length⟩] :=
  List.mapIdx_concat

theorem length_rtake (l : List α) (n : Nat) : (l.rtake n).length = min n l.length := by
  rw [List.rtake, List.length_drop]
  omega

theorem tail_rtake (l : List α) (n : Nat) (long : n < l.length) :
    (l.rtake (n + 1)).tail = l.rtake n := by
  rw [List.rtake, List.rtake, List.tail_drop]
  congr 1
  omega

/-- Adding a block to the last seven of a sorted list. -/
theorem addBlock_rtake (all : List Block) (block : Block)
    (sorted : all.Pairwise fun a b => blockSort a b ≤ 0) :
    addBlock (all.rtake 7) block = (all ++ [block]).rtake 7 := by
  have suffix : (all.rtake 7).Pairwise fun a b => blockSort a b ≤ 0 :=
    sorted.sublist (List.drop_sublist _ _)
  unfold addBlock hashSort
  rw [List.rtake_concat_succ, length_rtake, suffix.insertionSort_eq]
  by_cases full : 6 < all.length
  · rw [if_pos (by omega), tail_rtake all 6 full]
  · rw [if_neg (by omega), List.rtake, List.rtake, Nat.sub_eq_zero_of_le (by omega),
      Nat.sub_eq_zero_of_le (by omega)]

/-! ## Runs -/

/-- What a call preserves until the counter leaves the range of an int. -/
structure Kept (w : World) : Prop where
  recent : w.seen.blocks = (placeholder :: numbered w.inserted).rtake 7
  distinct : (hashes w.seen).Nodup
  counted : w.seen.newBlocks.toNat = w.inserted.length

theorem start_kept : Kept start where
  recent := rfl
  distinct := List.nodup_singleton _
  counted := rfl

theorem call_kept (w : World) (c : Call) (kept : Kept w)
    (few : (call w c).inserted.length ≤ 2 ^ 31) :
    Kept (call w c) := by
  by_cases known : bin2hex c.hash.bytes ∈ hashes w.seen
  · have same : call w c = w := by
      unfold call
      rw [answer_known w c known]
      rfl
    rw [same]
    exact kept
  · obtain ⟨new, blocks, counter⟩ := answer_new w c known
    have history : (call w c).inserted = w.inserted ++ [c.hash] := by
      unfold call
      rw [new]
      rfl
    rw [history, List.length_append, List.length_singleton] at few
    have table : (call w c).seen.blocks =
        (placeholder :: numbered w.inserted ++
          [(⟨bin2hex c.hash.bytes, w.inserted.length⟩ : Block)]).rtake 7 := by
      rw [← addBlock_rtake (placeholder :: numbered w.inserted) _
        (numbered_sorted w.inserted (by omega)), ← kept.recent]
      rw [← toInt_of_lt w.inserted.length (by omega), ← kept.counted]
      exact blocks
    constructor
    · rw [table, history, numbered_concat]
      rfl
    · have shorter : ((placeholder :: numbered w.inserted).rtake 6).Sublist w.seen.blocks := by
        rw [kept.recent, List.rtake, List.rtake]
        exact List.drop_sublist_drop_left _ (by omega)
      unfold hashes
      rw [table, List.rtake_concat_succ, List.map_append, List.nodup_append]
      refine ⟨kept.distinct.sublist (shorter.map _), List.nodup_singleton _, ?_⟩
      rintro hash member other single rfl
      rw [List.map_singleton, List.mem_singleton] at single
      rw [single] at member
      exact known ((shorter.map _).subset member)
    · rw [history, List.length_append, List.length_singleton, ← kept.counted]
      refine (congrArg UInt32.toNat counter).trans ?_
      rw [UInt32.toNat_add, kept.counted]
      exact Nat.mod_eq_of_lt (by rw [UInt32.toNat_one]; omega)

theorem Kept.database {w : World} (kept : Kept w) : Database w where
  recent := kept.recent
  distinct := kept.distinct
  increasing := by
    have inserted : (w.seen.blocks.filter (· ≠ placeholder)).Sublist (numbered w.inserted) := by
      rw [kept.recent]
      refine ((List.drop_sublist _ _).filter _).trans ?_
      rw [List.filter_cons_of_neg (by simp)]
      exact List.filter_sublist
    exact (numbered_increasing w.inserted).sublist inserted

theorem run_concat (calls : List Call) (c : Call) : run (calls ++ [c]) = call (run calls) c :=
  List.foldl_concat _ _ _ _

theorem call_length (w : World) (c : Call) : w.inserted.length ≤ (call w c).inserted.length := by
  unfold call
  split
  · exact le_refl _
  · rw [List.length_append]
    exact Nat.le_add_right _ _

theorem run_kept (calls : List Call) (few : (run calls).inserted.length ≤ 2 ^ 31) :
    Kept (run calls) := by
  induction calls using List.reverseRecOn with
  | nil => exact start_kept
  | append_singleton calls c ih =>
    rw [run_concat] at few ⊢
    exact call_kept (run calls) c (ih ((call_length _ c).trans few)) few

theorem database_run (calls : List Call) (few : (run calls).inserted.length ≤ 2 ^ 31) :
    Database (run calls) ∧ ∀ next, Answers (run calls) next :=
  ⟨(run_kept calls few).database, answers (run calls)⟩

/-- The call for the hash that is the number `i`. -/
def callOf (i : Nat) : Call := ⟨⟨littleEndian 32 i, length_littleEndian 32 i⟩, .zero 128⟩

/-- Eight blocks push the first one out of the table; seen again, it is inserted again. -/
def returning : List Call := (List.range 8).map callOf ++ [callOf 7, callOf 0]

theorem returning_blocks :
    (run returning).inserted.length = 9 ∧
    (run returning).seen.blocks.map Block.blockNo = [2, 3, 4, 5, 6, 7, 8] := by
  decide +kernel

theorem database_returning :
    ((run returning).inserted.length = 9 ∧
      (run returning).seen.blocks.map Block.blockNo = [2, 3, 4, 5, 6, 7, 8]) ∧
      Database (run returning) ∧ ∀ next, Answers (run returning) next :=
  ⟨returning_blocks, database_run returning (by rw [returning_blocks.1]; decide)⟩

/-! ## More insertions -/

/-- What is in the table was inserted. -/
theorem Kept.mem_hashes {w : World} (kept : Kept w) (hash : Buffer 32)
    (member : bin2hex hash.bytes ∈ hashes w.seen) :
    hash ∈ w.inserted := by
  unfold hashes at member
  rw [kept.recent, List.mem_map] at member
  obtain ⟨block, inside, same⟩ := member
  rcases List.mem_cons.mp (List.mem_of_mem_drop inside) with rfl | old
  · exact absurd same.symm (placeholder_ne hash)
  · obtain ⟨i, other, there, rfl⟩ := mem_numbered w.inserted block old
    have bytes := congrArg unhex same
    rw [unhex_bin2hex, unhex_bin2hex] at bytes
    obtain ⟨_, _⟩ := hash
    obtain ⟨_, _⟩ := other
    cases bytes
    exact List.mem_of_getElem? there

/-- A call for a hash that was not inserted yet. -/
theorem call_fresh (w : World) (c : Call) (kept : Kept w) (fresh : c.hash ∉ w.inserted) :
    (call w c).inserted = w.inserted ++ [c.hash] ∧
      (call w c).seen.blocks =
        addBlock w.seen.blocks ⟨bin2hex c.hash.bytes, toInt w.inserted.length⟩ := by
  obtain ⟨new, blocks, _⟩ := answer_new w c fun known => fresh (kept.mem_hashes c.hash known)
  rw [kept.counted] at blocks
  refine ⟨?_, blocks⟩
  unfold call
  rw [new]
  rfl

/-- Calls for different hashes insert them all. -/
theorem run_fresh (calls : List Call) (distinct : (calls.map Call.hash).Nodup)
    (few : calls.length ≤ 2 ^ 31 + 1) :
    (run calls).inserted = calls.map Call.hash := by
  induction calls using List.reverseRecOn with
  | nil => rfl
  | append_singleton calls c ih =>
    rw [List.length_append, List.length_singleton] at few
    rw [List.map_append, List.nodup_append] at distinct
    have before := ih distinct.1 (by omega)
    have kept := run_kept calls (by rw [before, List.length_map]; omega)
    rw [run_concat, (call_fresh _ c kept ?_).1, before, List.map_append]
    · rfl
    · rw [before]
      exact fun member => distinct.2.2 c.hash member c.hash (List.mem_singleton_self _) rfl

/-- The number behind 2^31 - 1 is negative. -/
theorem numbers_wrap (calls : List Call) (last next : Call)
    (distinct : ((calls ++ [last, next]).map Call.hash).Nodup)
    (many : calls.length + 1 = 2 ^ 31) :
    ¬ ((run (calls ++ [last, next])).seen.blocks.filter (· ≠ placeholder)).Pairwise fun a b =>
      a.blockNo < b.blockNo := by
  have two : calls ++ [last, next] = calls ++ [last] ++ [next] := by
    rw [List.append_assoc, List.singleton_append]
  rw [two, List.map_append, List.nodup_append] at distinct
  have before :=
    run_fresh (calls ++ [last]) distinct.1
      (by rw [List.length_append, List.length_singleton]; omega)
  have size : (run (calls ++ [last])).inserted.length = 2 ^ 31 := by
    rw [before, List.length_map, List.length_append, List.length_singleton, many]
  have kept := run_kept (calls ++ [last]) (le_of_eq size)
  obtain ⟨_, blocks⟩ := call_fresh _ next kept (by
    rw [before]
    exact fun member => distinct.2.2 next.hash member next.hash (List.mem_singleton_self _) rfl)
  have history : (run (calls ++ [last])).inserted = calls.map Call.hash ++ [last.hash] := by
    rw [before, List.map_append]
    rfl
  -- the newest block before the call stays in the table
  have newest : (⟨bin2hex last.hash.bytes, (calls.map Call.hash).length⟩ : Block) ∈
      (placeholder :: numbered (run (calls ++ [last])).inserted).rtake 6 := by
    rw [history, numbered_concat, ← List.cons_append, List.rtake_concat_succ]
    exact List.mem_append_right _ List.mem_cons_self
  rw [two, run_concat, blocks, kept.recent, addBlock_rtake _ _ (numbered_sorted _ (le_of_eq size)),
    List.rtake_concat_succ, List.filter_append, List.pairwise_append]
  rintro ⟨_, _, ordered⟩
  have wrapped : toInt ((run (calls ++ [last])).inserted.length : Nat) = -2 ^ 31 := by
    rw [size]
    decide
  have other (hash : Buffer 32) (n : Int) : (⟨bin2hex hash.bytes, n⟩ : Block) ≠ placeholder := by
    intro same
    exact placeholder_ne hash (congrArg Block.hash same)
  have smaller := ordered _ (List.mem_filter.mpr ⟨newest, decide_eq_true (other _ _)⟩)
    ⟨bin2hex next.hash.bytes, toInt ((run (calls ++ [last])).inserted.length : Nat)⟩
    (List.mem_filter.mpr ⟨List.mem_singleton_self _, decide_eq_true (other _ _)⟩)
  rw [wrapped] at smaller
  dsimp only at smaller
  omega

theorem callOf_distinct (n : Nat) (bound : n ≤ 256 ^ 32) :
    ((List.range n).map fun i => (callOf i).hash).Nodup := by
  refine List.Nodup.map_on ?_ List.nodup_range
  intro i first j second same
  have numbers := littleEndian_inj 32 i j (congrArg Buffer.bytes same)
  rw [List.mem_range] at first second
  rwa [Nat.mod_eq_of_lt (by omega), Nat.mod_eq_of_lt (by omega)] at numbers

/-- The first block shares the table and its number with the placeholder, and the
numbers of 2^31 + 1 different blocks do not increase. -/
theorem table_beyond :
    ((run [callOf 0]).inserted.length = 1 ∧ (run [callOf 0]).seen.blocks.length = 2 ∧
      (run [callOf 0]).seen.blocks.map Block.blockNo = [0, 0]) ∧
    ∃ calls, (run calls).inserted.length = 2 ^ 31 + 1 ∧
      ¬ ((run calls).seen.blocks.filter (· ≠ placeholder)).Pairwise fun a b =>
        a.blockNo < b.blockNo := by
  refine ⟨by decide +kernel, ?_⟩
  obtain ⟨n, many⟩ : ∃ n, n + 1 = 2 ^ 31 := ⟨2 ^ 31 - 1, rfl⟩
  have calls : (List.range (n + 2)).map callOf =
      (List.range n).map callOf ++ [callOf n, callOf (n + 1)] := by
    rw [List.range_succ, List.range_succ, List.append_assoc, List.map_append]
    rfl
  have distinct : (((List.range (n + 2)).map callOf).map Call.hash).Nodup := by
    rw [List.map_map]
    exact callOf_distinct (n + 2) (by omega)
  refine ⟨(List.range (n + 2)).map callOf, ?_, ?_⟩
  · rw [run_fresh _ distinct (by rw [List.length_map, List.length_range]; omega),
      List.length_map, List.length_map, List.length_range]
    omega
  · rw [calls] at distinct ⊢
    exact numbers_wrap _ _ _ distinct (by rw [List.length_map, List.length_range, many])

end CgminerT4.Guarantees.SeenDatabase
