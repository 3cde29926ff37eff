import Mathlib.Data.List.Perm.Subperm
import Mathlib.Data.List.Nodup

/-!
# Rankings of a list

A ranking gives the members of a list different numbers below its length, so
that every number is taken. It survives an append, the removal of a member with
those behind it moved up, the promotion of a member to the front, and handing
out the numbers anew in any order.
-/
namespace CgminerT4.Library.Ranking

variable {α : Type*}

structure Ranked (l : List α) (rank : α → Nat) : Prop where
  bound : ∀ a ∈ l, rank a < l.length
  inj : ∀ a ∈ l, ∀ b ∈ l, rank a = rank b → a = b

/-- The ranks of a list without repetition are the numbers below its length. -/
theorem Ranked.perm {l : List α} {rank : α → Nat} (ranked : Ranked l rank) (nodup : l.Nodup) :
    (l.map rank).Perm (List.range l.length) := by
  have different : (l.map rank).Nodup := nodup.map_on ranked.inj
  have below : l.map rank ⊆ List.range l.length := by
    intro n member
    obtain ⟨a, inside, rfl⟩ := List.mem_map.mp member
    exact List.mem_range.mpr (ranked.bound a inside)
  apply (List.subperm_of_subset different below).perm_of_length_le
  exact Nat.le_of_eq (by rw [List.length_range, List.length_map])

theorem Ranked.congr {l : List α} {rank other : α → Nat} (ranked : Ranked l rank)
    (same : ∀ a ∈ l, other a = rank a) : Ranked l other := by
  constructor
  · intro a member
    rw [same a member]
    exact ranked.bound a member
  · intro a first b second equal
    rw [same a first, same b second] at equal
    exact ranked.inj a first b second equal

/-- A new member takes the next number. -/
theorem Ranked.append {l : List α} {rank : α → Nat} (ranked : Ranked l rank) (a : α)
    (next : rank a = l.length) :
    Ranked (l ++ [a]) rank := by
  constructor
  · intro b member
    rw [List.length_append, List.length_singleton]
    rcases List.mem_append.mp member with old | new
    · have below := ranked.bound b old
      omega
    · rw [List.mem_singleton.mp new]
      omega
  · intro b first c second equal
    rcases List.mem_append.mp first with old | new <;>
      rcases List.mem_append.mp second with old' | new'
    · exact ranked.inj b old c old' equal
    · rw [List.mem_singleton.mp new'] at equal
      have below := ranked.bound b old
      omega
    · rw [List.mem_singleton.mp new] at equal
      have below := ranked.bound c old'
      omega
    · rw [List.mem_singleton.mp new, List.mem_singleton.mp new']

/-- Without a member, those behind it move up. -/
theorem Ranked.remove {l rest : List α} {rank : α → Nat} (ranked : Ranked l rank) (a : α)
    (member : a ∈ l) (others : ∀ b ∈ rest, b ∈ l ∧ b ≠ a) (size : rest.length + 1 = l.length) :
    Ranked rest fun b => if rank b > rank a then rank b - 1 else rank b := by
  have differ : ∀ b ∈ rest, rank b ≠ rank a := by
    intro b inside same
    obtain ⟨inside, other⟩ := others b inside
    exact other (ranked.inj b inside a member same)
  constructor
  · intro b inside
    have below := ranked.bound b (others b inside).1
    have different := differ b inside
    have above := ranked.bound a member
    split <;> omega
  · intro b first c second equal
    have left := differ b first
    have right := differ c second
    apply ranked.inj b (others b first).1 c (others c second).1
    split at equal <;> split at equal <;> omega

/-- A member moved to the front, those before it down. -/
theorem Ranked.promote {l : List α} {rank after : α → Nat} (ranked : Ranked l rank) (a : α)
    (member : a ∈ l) (front : after a = 0)
    (others : ∀ b ∈ l, b ≠ a →
      after b = if rank b < rank a then rank b + 1 else rank b) : Ranked l after := by
  have differ : ∀ b ∈ l, b ≠ a → rank b ≠ rank a := fun b inside other same =>
    other (ranked.inj b inside a member same)
  have above := ranked.bound a member
  have positive : ∀ b ∈ l, b ≠ a → 0 < after b := by
    intro b inside other
    have different := differ b inside other
    rw [others b inside other]
    split <;> omega
  constructor
  · intro b inside
    by_cases same : b = a
    · rw [same, front]
      omega
    · have below := ranked.bound b inside
      rw [others b inside same]
      split <;> omega
  · intro b first c second equal
    by_cases left : b = a <;> by_cases right : c = a
    · rw [left, right]
    · rw [left, front] at equal
      have behind := positive c second right
      omega
    · rw [right, front] at equal
      have behind := positive b first left
      omega
    · have leftDiffer := differ b first left
      have rightDiffer := differ c second right
      rw [others b first left, others c second right] at equal
      apply ranked.inj b first c second
      split at equal <;> split at equal <;> omega

/-- The numbers handed out in the order of a list of the same members. -/
theorem ranked_of_order {l order : List α} {rank : α → Nat} (nodup : l.Nodup)
    (different : order.Nodup) (members : ∀ a, a ∈ order ↔ a ∈ l)
    (numbered : ∀ i a, order[i]? = some a → rank a = i) : Ranked l rank := by
  have size : order.length = l.length :=
    ((List.perm_ext_iff_of_nodup different nodup).mpr members).length_eq
  have place : ∀ a ∈ l, ∃ i, order[i]? = some a ∧ i < order.length := by
    intro a member
    obtain ⟨i, inside, found⟩ := List.mem_iff_getElem.mp ((members a).mpr member)
    exact ⟨i, by rw [List.getElem?_eq_getElem inside, found], inside⟩
  constructor
  · intro a member
    obtain ⟨i, found, inside⟩ := place a member
    rw [numbered i a found]
    omega
  · intro a first b second equal
    obtain ⟨i, found, _⟩ := place a first
    obtain ⟨j, other, _⟩ := place b second
    rw [numbered i a found, numbered j b other] at equal
    rw [equal, other] at found
    exact (Option.some.inj found).symm

end CgminerT4.Library.Ranking
