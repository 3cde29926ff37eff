import Mathlib.Data.Nat.Log
import Mathlib.Data.List.Basic

/-!
# Merkle roots with duplicated last nodes, and the branch of the first leaf

Over any node type and any pair hash. A level is halved by hashing neighbours,
the last node of an odd level with itself; the root is what remains. The branch
of the first leaf consists of its right-hand neighbours on the way up, none of
which depends on the first leaf.
-/
namespace CgminerT4.Library.MerkleTree

variable {α : Type*} (hash : α → α → α)

/-- One level up: neighbours are hashed together, a lonely last node with itself. -/
def nextLevel : List α → List α
  | a :: b :: rest => hash a b :: nextLevel rest
  | [a] => [hash a a]
  | [] => []

theorem length_nextLevel (l : List α) : (nextLevel hash l).length = (l.length + 1) / 2 := by
  fun_induction nextLevel hash l with
  | case1 a b rest ih => simp only [List.length_cons, ih]; omega
  | case2 a => simp
  | case3 => simp

/-- Repeating the last node of an odd level changes nothing above it. -/
theorem nextLevel_repeat (l : List α) (a : α) (even : l.length % 2 = 0) :
    nextLevel hash (l ++ [a, a]) = nextLevel hash (l ++ [a]) := by
  induction l using nextLevel.induct with
  | case1 b c rest ih =>
    simp only [List.length_cons] at even
    simp only [List.cons_append, nextLevel, ih (by omega)]
  | case2 b => simp at even
  | case3 => rfl

/-- Halve the levels above the leaves `a :: l` until one node remains. -/
def merkleRoot (a : α) (l : List α) : α :=
  match l with
  | [] => a
  | b :: rest => merkleRoot (hash a b) (nextLevel hash rest)
termination_by l.length
decreasing_by
  simp only [length_nextLevel, List.length_cons]
  omega

/-- The right-hand neighbours of the first leaf on its way to the root, where
`l` is everything to its right. -/
def branch (l : List α) : List α :=
  match l with
  | [] => []
  | b :: rest => b :: branch (nextLevel hash rest)
termination_by l.length
decreasing_by
  simp only [length_nextLevel, List.length_cons]
  omega

@[simp] theorem merkleRoot_nil (a : α) : merkleRoot hash a [] = a := by rw [merkleRoot]

theorem merkleRoot_cons (a b : α) (rest : List α) :
    merkleRoot hash a (b :: rest) = merkleRoot hash (hash a b) (nextLevel hash rest) := by
  rw [merkleRoot]

@[simp] theorem branch_nil : branch hash ([] : List α) = [] := by rw [branch]

theorem branch_cons (b : α) (rest : List α) :
    branch hash (b :: rest) = b :: branch hash (nextLevel hash rest) := by rw [branch]

/-- Hashing the branch into the first leaf gives the root, whatever the leaf. -/
theorem foldl_branch (a : α) (l : List α) :
    (branch hash l).foldl hash a = merkleRoot hash a l := by
  induction l using branch.induct hash generalizing a with
  | case1 => simp
  | case2 b rest ih => rw [branch_cons, merkleRoot_cons, List.foldl_cons, ih]

/-- The branch has as many nodes as there are levels above `1 + l.length` leaves. -/
theorem length_branch (l : List α) : (branch hash l).length = Nat.clog 2 (l.length + 1) := by
  induction l using branch.induct hash with
  | case1 => simp
  | case2 b rest ih =>
    have halved : (rest.length + 1 + 1 + 2 - 1) / 2 = (rest.length + 1) / 2 + 1 := by omega
    have levels := Nat.clog_of_two_le (b := 2) (n := rest.length + 1 + 1) (by omega) (by omega)
    rw [branch_cons, List.length_cons, ih, length_nextLevel, List.length_cons, levels, halved]

end CgminerT4.Library.MerkleTree
