import CgminerT4.Guarantees.PoolSwitching

/-!
# The order that poolpriority gives

A list with a number out of range or a number twice changes nothing. Any other
list puts its pools in front, in its order, and leaves the order of the others.
-/
namespace CgminerT4.Guarantees.PriorityOrder
open Library.ByteString
open Source.SessionTable (PoolId PoolTable)
open Source.PoolSwitch (PoolStrategy)
open Source.PoolControl PoolPriorities PoolSwitching

/-- Some number is out of range or repeated. -/
def Faulty (total : Nat) (ids : List Int) : Prop := (∃ id ∈ ids, id < 0 ∨ total ≤ id) ∨ ¬ ids.Nodup

def Listed (t : PoolTable) (ids : List Int) (pool : PoolId) : Prop :=
  ∃ id ∈ ids, t.pools[id.toNat]? = some pool

/-- The listed pools have the first priorities, in the order of the list; the
others follow in the order they had. -/
structure Reordered (before after : PoolTable) (ids : List Int) : Prop where
  pools : after.pools = before.pools
  prios : (after.pools.map (prioOf after)).Perm (List.range after.pools.length)
  listed : ∀ (place : Nat) (id : Int), ids[place]? = some id →
    ∃ pool, before.pools[id.toNat]? = some pool ∧ prioOf after pool = place
  behind : ∀ pool ∈ before.pools, ¬ Listed before ids pool → ids.length ≤ prioOf after pool
  order : ∀ a ∈ before.pools, ∀ b ∈ before.pools, ¬ Listed before ids a → ¬ Listed before ids b →
    (prioOf after a < prioOf after b ↔ prioOf before a < prioOf before b)

/-! ## Reading the list -/

/-- The list is read to its end exactly if its numbers are in range, new and
different. -/
theorem mention_ok_iff (total : Nat) (ids : List Int) (m : Mentions) :
    (∃ result, mention total m ids = .ok result) ↔
      (∀ id ∈ ids, 0 ≤ id ∧ id < total ∧ ¬ m.changed id.toNat = true) ∧ ids.Nodup := by
  induction ids generalizing m with
  | nil => exact iff_of_true ⟨m, rfl⟩ ⟨fun _ never => absurd never List.not_mem_nil, List.nodup_nil⟩
  | cons id rest ih =>
    rw [mention, List.forall_mem_cons, List.nodup_cons]
    split
    · next invalid =>
      refine iff_of_false ?_ (fun good => by omega)
      rintro ⟨_, read⟩
      cases read
    · next valid =>
      split
      · next twice =>
        refine iff_of_false ?_ (fun good => good.1.1.2.2 twice)
        rintro ⟨_, read⟩
        cases read
      · next fresh =>
        rw [ih]
        constructor
        · rintro ⟨others, nodup⟩
          refine ⟨⟨⟨by omega, by omega, fresh⟩, fun other member => ?_⟩, fun again => ?_, nodup⟩
          · obtain ⟨low, high, unchanged⟩ := others other member
            refine ⟨low, high, fun changed => unchanged ?_⟩
            dsimp only
            by_cases same : other.toNat = id.toNat
            · rw [same, Function.update_self]
            · rw [Function.update_of_ne same]
              exact changed
          · exact (others id again).2.2 (Function.update_self _ _ _)
        · rintro ⟨⟨_, others⟩, absent, nodup⟩
          refine ⟨fun other member => ?_, nodup⟩
          obtain ⟨low, high, unchanged⟩ := others other member
          have apart : other.toNat ≠ id.toNat := by
            intro same
            have equal : other = id := by omega
            exact absent (equal ▸ member)
          refine ⟨low, high, ?_⟩
          dsimp only
          rw [Function.update_of_ne apart]
          exact unchanged

/-- What poolpriority starts to read with. -/
def noMentions : Mentions := { changed := fun _ => false, newPrio := fun _ => 0, prio := 0 }

theorem read_iff (total : Nat) (ids : List Int) :
    (∃ result, mention total noMentions ids = .ok result) ↔ ¬ Faulty total ids := by
  rw [mention_ok_iff, Faulty, not_or, not_not]
  refine and_congr_left fun _ => ⟨?_, ?_⟩
  · rintro good ⟨id, member, outside⟩
    obtain ⟨low, high, _⟩ := good id member
    omega
  · intro inside id member
    have bounds : ¬ (id < 0 ∨ total ≤ id) := fun outside => inside ⟨id, member, outside⟩
    exact ⟨by omega, by omega, Bool.false_ne_true⟩

/-! ## The new order -/

theorem mem_listedPools (t : PoolTable) (ids : List Int)
    (inside : ∀ id ∈ ids, 0 ≤ id ∧ id < t.pools.length)
    (pool : PoolId) : pool ∈ listedPools t ids ↔ Listed t ids pool := by
  unfold listedPools Listed
  rw [List.mem_map]
  refine exists_congr fun id => and_congr_right fun member => ?_
  have below := inside id member
  rw [List.getElem?_eq_getElem (by omega), Option.getD_some, Option.some.injEq]

/-- Pools behind the listed ones keep their order. -/
theorem order_of_sorted {t after : PoolTable} {listed rest : List PoolId}
    (numbered : ∀ i pool, (listed ++ rest)[i]? = some pool → prioOf after pool = i)
    (sorted : rest.Pairwise fun a b => prioOf t a < prioOf t b) (a b : PoolId) (first : a ∈ rest)
    (second : b ∈ rest) :
    prioOf after a < prioOf after b ↔ prioOf t a < prioOf t b := by
  obtain ⟨i, iInside, atI⟩ := List.mem_iff_getElem.mp first
  obtain ⟨j, jInside, atJ⟩ := List.mem_iff_getElem.mp second
  have place : ∀ k (inside : k < rest.length), prioOf after rest[k] = listed.length + k := by
    intro k inside
    apply numbered
    rw [List.getElem?_append_right (Nat.le_add_right _ _), Nat.add_sub_cancel_left,
      List.getElem?_eq_getElem inside]
  have sortedAt := List.pairwise_iff_getElem.mp sorted
  rw [← atI, ← atJ, place i iInside, place j jInside]
  rcases Nat.lt_trichotomy i j with less | same | more
  · exact iff_of_true (by omega) (sortedAt i j iInside jInside less)
  · subst same
    exact iff_of_false (by omega) (Nat.lt_irrefl _)
  · have greater := sortedAt j i jInside iInside more
    exact iff_of_false (by omega) (by omega)

theorem renumbered_reordered (t : PoolTable) (inv : Inv t) (m : Mentions) (ids : List Int)
    (read : mention t.pools.length noMentions ids = .ok m) : Reordered t (renumbered t m) ids := by
  obtain ⟨rest, changed, now, all, sorted⟩ := renumbered_spec t inv m ids read
  have after := renumbered_inv t inv m ids read
  have inside : ∀ id ∈ ids, 0 ≤ id ∧ id < t.pools.length := fun id member =>
    let good := ((mention_ok_iff t.pools.length ids noMentions).mp ⟨m, read⟩).1 id member
    ⟨good.1, good.2.1⟩
  have unlisted : ∀ pool ∈ t.pools, ¬ Listed t ids pool → pool ∈ rest := by
    intro pool member outside
    rcases List.mem_append.mp ((all pool).mpr member) with listed | other
    · exact absurd ((mem_listedPools t ids inside pool).mp listed) outside
    · exact other
  refine ⟨now.pools, after.ranked.perm after.nodup, fun place id here => ?_,
    fun pool member outside => ?_,
    fun a first b second outsideA outsideB => ?_⟩
  · have below := inside id (List.mem_of_getElem? here)
    have found := List.getElem?_eq_getElem (show id.toNat < t.pools.length by omega)
    refine ⟨_, found, now.numbered place _ ?_⟩
    have early := inside_of_lookup _ _ _ here
    rw [List.getElem?_append_left (by rw [listedPools, List.length_map]; exact early),
      listedPools, List.getElem?_map, here, Option.map_some, found, Option.getD_some]
  · obtain ⟨k, short, atK⟩ := List.mem_iff_getElem.mp (unlisted pool member outside)
    have place := now.numbered ((listedPools t ids).length + k) pool
      (by rw [List.getElem?_append_right (Nat.le_add_right _ _), Nat.add_sub_cancel_left,
        List.getElem?_eq_getElem short, atK])
    rw [place, listedPools, List.length_map]
    exact Nat.le_add_right _ _
  · exact order_of_sorted now.numbered sorted a b (unlisted a first outsideA)
      (unlisted b second outsideB)

/-- An empty list leaves every priority. -/
theorem reordered_refl (t : PoolTable) (inv : Inv t) : Reordered t t [] :=
  ⟨rfl, inv.ranked.perm inv.nodup, fun _ _ never => (nomatch never), fun _ _ _ => Nat.zero_le _,
    fun _ _ _ _ _ _ => Iff.rfl⟩

/-! ## poolpriority -/

variable (strategy : PoolStrategy) (behind : Nat → Option PoolId)

/-- What poolpriority does behind the loops. -/
def switchToFirst (s : Pools) : Option (Reply × Pools) :=
  s.currentpool.bind fun current =>
    if (s.table.pool current).prio ≠ 0 then (switchPools strategy behind s none).map fun s =>
      (.priorities, s)
    else some (.priorities, s)

/-- The numbers that a call lists. -/
def idsOf (param : Option Bytes) : List Int := listedIds (param.getD [])

/-- A call answers at once and leaves everything, or it stores a new table and goes on with it. -/
inductive Outcome (s : Pools) (param : Option Bytes) : Option (Reply × Pools) → Prop where
  | refused (reply : Reply) (faulty : Faulty (totalPools s) (idsOf param)) :
    Outcome s param (some (reply, s))
  | missing (reply : Reply) (nothing : idsOf param = []) : Outcome s param (some (reply, s))
  | stored (m : Mentions) (read : mention (totalPools s) noMentions (idsOf param) = .ok m) :
    Outcome s param (switchToFirst strategy behind { s with table := renumbered s.table m })

theorem listedIds_nil : listedIds [] = [] := by
  unfold listedIds
  exact if_pos rfl

/-- Without pools every number is out of range. -/
theorem faulty_of_no_pools (ids : List Int) (some : ids ≠ []) : Faulty 0 ids := by
  obtain ⟨id, rest, rfl⟩ := List.exists_cons_of_ne_nil some
  exact .inl ⟨id, List.mem_cons_self, by omega⟩

theorem checkParam_error (s : Pools) (param : Option Bytes) (reply : Reply)
    (refused : checkParam s param = .error reply) :
    totalPools s = 0 ∨ idsOf param = [] := by
  unfold checkParam at refused
  split at refused
  · next empty => exact .inl empty
  · split at refused
    · exact .inr listedIds_nil
    · exact .inr listedIds_nil
    · cases refused

theorem checkParam_ok (s : Pools) (param : Option Bytes) (text : Bytes)
    (accepted : checkParam s param = .ok text) :
    idsOf param = listedIds text := by
  unfold checkParam at accepted
  split at accepted
  · cases accepted
  · split at accepted
    · cases accepted
    · cases accepted
    · cases accepted
      rfl

theorem poolpriority_outcome (s : Pools) (param : Option Bytes) :
    Outcome strategy behind s param (poolpriority strategy behind s param) := by
  unfold poolpriority
  cases checked : checkParam s param with
  | error reply =>
    by_cases nothing : idsOf param = []
    · exact .missing reply nothing
    · have empty := (checkParam_error s param reply checked).resolve_right nothing
      exact .refused reply (empty ▸ faulty_of_no_pools _ nothing)
  | ok text =>
    have ids := checkParam_ok s param text checked
    dsimp only [Except.bind]
    cases read :
      mention (totalPools s) { changed := fun _ => false, newPrio := fun _ => 0, prio := 0 }
      (listedIds text) with
    | error reply =>
      refine .refused reply ?_
      rw [ids]
      by_contra good
      obtain ⟨m, accepted⟩ := (read_iff (totalPools s) (listedIds text)).mpr good
      exact nomatch accepted.symm.trans read
    | ok m =>
      rw [← ids] at read
      exact .stored m read

/-- A faulty list changes no priority. Otherwise the table that is switched in is
the reordered one. -/
theorem poolpriority_order (s : Pools) (inv : Inv s.table) (param : Option Bytes) :
    (Faulty (totalPools s) (idsOf param) →
      ∃ reply, poolpriority strategy behind s param = some (reply, s)) ∧
    (¬ Faulty (totalPools s) (idsOf param) → ∃ table, Reordered s.table table (idsOf param) ∧
      (poolpriority strategy behind s param = switchToFirst strategy behind { s with table } ∨
        ∃ reply, poolpriority strategy behind s param = some (reply, { s with table }))) := by
  generalize called : poolpriority strategy behind s param = result
  have outcome := poolpriority_outcome strategy behind s param
  rw [called] at outcome
  cases outcome with
  | refused reply faulty => exact ⟨fun _ => ⟨reply, rfl⟩, fun good => absurd faulty good⟩
  | missing reply nothing =>
    refine ⟨fun _ => ⟨reply, rfl⟩, fun _ => ⟨s.table, ?_, .inr ⟨reply, rfl⟩⟩⟩
    rw [nothing]
    exact reordered_refl s.table inv
  | stored m read =>
    have good := (read_iff (totalPools s) (idsOf param)).mp ⟨m, read⟩
    exact ⟨fun faulty => absurd faulty good,
      fun _ => ⟨renumbered s.table m, renumbered_reordered s.table inv m _ read, .inl rfl⟩⟩

/-- The second of two pools is listed. -/
theorem poolpriority_order_second :
    idsOf (some (ascii "1")) = [1] ∧
    (Faulty (totalPools twoPools) (idsOf (some (ascii "1"))) →
      ∃ reply, poolpriority .rotate (fun _ => none) twoPools (some (ascii "1")) =
        some (reply, twoPools)) ∧
    (¬ Faulty (totalPools twoPools) (idsOf (some (ascii "1"))) →
      ∃ table, Reordered twoPools.table table (idsOf (some (ascii "1"))) ∧
        (poolpriority .rotate (fun _ => none) twoPools (some (ascii "1")) =
            switchToFirst .rotate (fun _ => none) { twoPools with table } ∨
          ∃ reply, poolpriority .rotate (fun _ => none) twoPools (some (ascii "1")) =
            some (reply, { twoPools with table }))) :=
  ⟨by decide +kernel, poolpriority_order .rotate (fun _ => none) twoPools twoPools_inv
    (some (ascii "1"))⟩

end CgminerT4.Guarantees.PriorityOrder
