import CgminerT4.Library.Runs
import CgminerT4.Source.SessionTable

/-!
# Submissions carry the session id of their pool's last login

Pools are added and removed, log in and submit in any order. A row of rpc2_id
is named by a number that pools exchange, holds 64 bytes and is filled with a
copy of 64 bytes. Submissions are attributed right as long as logins come from
the first three numbers with ids of exactly 63 bytes, and a pool submits under
the number of its last login, which no other pool has used for a login since.
-/
namespace CgminerT4.Guarantees.SessionIds
open Library.ByteString Library.Runs Source.SessionTable

/-- One submit message: the id printed into it and the id of the last login. -/
structure Submission where
  pool : PoolId
  printed : Bytes
  loginId : Bytes
  deriving DecidableEq

/-- The number and the id of a login. -/
structure Login where
  poolNo : Nat
  id : Bytes

structure World where
  table : PoolTable
  rpc2Id : SessionIds
  lastLogin : PoolId → Option Login
  /-- The pool whose login last filled a row. -/
  rowOwner : Nat → Option PoolId
  submitted : List Submission
  /-- A login or submission has left the table or the id string. -/
  outside : Bool

inductive Event where
  | addPool
  | removePool (pool : PoolId)
  /-- A successful login_getwork with the id the pool returned. -/
  | login (pool : PoolId) (id : Bytes)
  /-- getwork_sthread prints a submit message. -/
  | submit (pool : PoolId)

def step (s : World) : Event → Option World
  | .addPool => some { s with table := addPool s.table }
  | .removePool pool =>
    if pool ∈ s.table.pools then some { s with table := removePool s.table pool } else none
  | .login pool id =>
    if pool < s.table.allocated ∧ id ≠ [] ∧ 0 ∉ id then
      let poolNo := (s.table.pool pool).poolNo
      match storeSessionId s.rpc2Id poolNo id with
      | some rpc2Id =>
        some { s with
          rpc2Id
          lastLogin := Function.update s.lastLogin pool (some ⟨poolNo, id⟩)
          rowOwner := Function.update s.rowOwner poolNo (some pool) }
      | none => some { s with outside := true }
    else none
  | .submit pool =>
    match s.lastLogin pool with
    | some login =>
      match printSessionId s.rpc2Id (s.table.pool pool).poolNo with
      | some printed => some { s with submitted := s.submitted ++ [⟨pool, printed, login.id⟩] }
      | none => some { s with outside := true }
    | none => none

def start : World :=
  ⟨⟨0, fun _ => ⟨0, 0, false⟩, []⟩, .zero 192, fun _ => none, fun _ => none, [], false⟩

/-- Every message carries the complete id of its pool's last login, and nothing
was read or written elsewhere. -/
structure Attributed (s : World) : Prop where
  inside : s.outside = false
  ids : ∀ submission ∈ s.submitted, submission.printed = submission.loginId

/-- Logins fill a row of the table exactly; a pool submits under the number of
its last login, which no other pool has logged in under since. -/
def Undisturbed (s : World) : Event → Prop
  | .login pool id => (s.table.pool pool).poolNo < 3 ∧ id.length = 63
  | .submit pool =>
    (∀ login ∈ s.lastLogin pool, login.poolNo = (s.table.pool pool).poolNo) ∧
      s.rowOwner (s.table.pool pool).poolNo = some pool
  | _ => True

instance (s : World) : (e : Event) → Decidable (Undisturbed s e)
  | .login pool id => inferInstanceAs (Decidable ((s.table.pool pool).poolNo < 3 ∧ id.length = 63))
  | .submit pool =>
    inferInstanceAs
      (Decidable ((∀ login ∈ s.lastLogin pool, login.poolNo = (s.table.pool pool).poolNo) ∧
      s.rowOwner (s.table.pool pool).poolNo = some pool))
  | .addPool => isTrue trivial
  | .removePool _ => isTrue trivial

/-- A row that still belongs to a pool's last login. -/
structure RowHolds (rpc2Id : SessionIds) (login : Login) : Prop where
  row : login.poolNo < 3
  plain : 0 ∉ login.id
  length : login.id.length = 63
  bytes : (rpc2Id.bytes.drop (64 * login.poolNo)).take 64 = login.id ++ [0]

structure Inv (s : World) : Prop where
  attributed : Attributed s
  rows : ∀ pool login, s.lastLogin pool = some login → s.rowOwner login.poolNo = some pool →
    RowHolds s.rpc2Id login

theorem storeSessionId_spec (rpc2Id : SessionIds) (poolNo : Nat) (id : Bytes) (inside : poolNo < 3)
    (length : id.length = 63) :
    ∃ out, storeSessionId rpc2Id poolNo id = some out ∧
      out.bytes = overwrite rpc2Id.bytes (64 * poolNo) (id ++ [0]) := by
  have size : (id ++ [0]).length = 64 := by rw [List.length_append, length]; rfl
  have whole : (id ++ [0]).take 64 = id ++ [0] := List.take_of_length_le (Nat.le_of_eq size)
  obtain ⟨cleared, stored, zeros⟩ := rpc2Id.store_of_fits (64 * poolNo) (List.replicate 64 0)
    (by rw [List.length_replicate]; omega)
  obtain ⟨out, copied, bytes⟩ := cleared.store_of_fits (64 * poolNo) (id ++ [0]) (by omega)
  refine ⟨out, ?_, ?_⟩
  · rw [storeSessionId, if_pos (by omega), stored, Option.bind_some, whole, copied]
  · have used : (List.replicate 64 (0 : UInt8)).drop (id ++ [0]).length = [] := by rw [size]; rfl
    rw [bytes, zeros, overwrite_same_place, used, List.append_nil]
    · rw [rpc2Id.length_eq, List.length_replicate]
      omega
    · rw [rpc2Id.length_eq]
      omega

/-- The filled row, and the rows that are not touched. -/
theorem row_filled (rpc2Id out : SessionIds) (poolNo : Nat) (id : Bytes) (inside : poolNo < 3)
    (length : id.length = 63)
    (bytes : out.bytes = overwrite rpc2Id.bytes (64 * poolNo) (id ++ [0])) :
    (out.bytes.drop (64 * poolNo)).take 64 = id ++ [0] := by
  have size : (id ++ [0]).length = 64 := by rw [List.length_append, length]; rfl
  rw [bytes, ← size]
  exact slice_overwrite_same _ _ _ (by rw [rpc2Id.length_eq, size]; omega)

theorem row_untouched (rpc2Id out : SessionIds) (poolNo other : Nat) (id : Bytes)
    (inside : poolNo < 3) (length : id.length = 63) (different : other ≠ poolNo)
    (bytes : out.bytes = overwrite rpc2Id.bytes (64 * poolNo) (id ++ [0])) :
    (out.bytes.drop (64 * other)).take 64 = (rpc2Id.bytes.drop (64 * other)).take 64 := by
  have size : (id ++ [0]).length = 64 := by rw [List.length_append, length]; rfl
  rw [bytes]
  exact slice_overwrite_disjoint _ _ _ _ _ (by rw [rpc2Id.length_eq, size]; omega)
    (by rw [size]; omega)

theorem login_preserves (s next : World) (pool : PoolId) (id : Bytes) (inv : Inv s)
    (undisturbed : Undisturbed s (.login pool id)) (taken : step s (.login pool id) = some next) :
    Inv next := by
  obtain ⟨row, length⟩ := undisturbed
  obtain ⟨out, stored, bytes⟩ :=
    storeSessionId_spec s.rpc2Id (s.table.pool pool).poolNo id row length
  simp only [step, stored] at taken
  split at taken
  · next valid =>
    cases taken
    refine ⟨⟨inv.attributed.inside, inv.attributed.ids⟩, ?_⟩
    intro other login last owner
    dsimp only at last owner ⊢
    by_cases own : other = pool
    · subst own
      rw [Function.update_self] at last
      cases last
      exact ⟨row, valid.2.2, length, row_filled s.rpc2Id out _ id row length bytes⟩
    · rw [Function.update_of_ne own] at last
      by_cases same : login.poolNo = (s.table.pool pool).poolNo
      · rw [same, Function.update_self] at owner
        exact absurd (Option.some.inj owner).symm own
      · rw [Function.update_of_ne same] at owner
        have held := inv.rows other login last owner
        refine ⟨held.row, held.plain, held.length, ?_⟩
        rw [row_untouched s.rpc2Id out _ _ id row length same bytes]
        exact held.bytes
  · cases taken

/-- A row that holds an id prints as that id. -/
theorem printSessionId_of_rowHolds (rpc2Id : SessionIds) (login : Login)
    (held : RowHolds rpc2Id login) :
    printSessionId rpc2Id login.poolNo = some login.id := by
  have split : rpc2Id.bytes.drop (64 * login.poolNo) =
      login.id ++ 0 :: (rpc2Id.bytes.drop (64 * login.poolNo)).drop 64 := by
    have parts := List.take_append_drop 64 (rpc2Id.bytes.drop (64 * login.poolNo))
    rw [held.bytes, List.append_assoc, List.singleton_append] at parts
    exact parts.symm
  rw [printSessionId, split, cString_layout _ _ held.plain, if_pos (by simp)]

theorem submit_preserves (s next : World) (pool : PoolId) (inv : Inv s)
    (undisturbed : Undisturbed s (.submit pool)) (taken : step s (.submit pool) = some next) :
    Inv next := by
  obtain ⟨number, owner⟩ := undisturbed
  simp only [step] at taken
  split at taken
  · next login last =>
    have same := number login last
    rw [← same] at owner taken
    rw [printSessionId_of_rowHolds s.rpc2Id login (inv.rows pool login last owner)] at taken
    cases taken
    refine ⟨⟨inv.attributed.inside, ?_⟩, inv.rows⟩
    intro submission member
    rcases List.mem_append.mp member with earlier | new
    · exact inv.attributed.ids submission earlier
    · rw [List.mem_singleton.mp new]
  · cases taken

theorem inv_preserved (s : World) (e : Event) (next : World) (inv : Inv s)
    (undisturbed : Undisturbed s e) (taken : step s e = some next) : Inv next := by
  cases e with
  | addPool =>
    cases taken
    exact ⟨⟨inv.attributed.inside, inv.attributed.ids⟩, inv.rows⟩
  | removePool pool =>
    simp only [step] at taken
    split at taken
    · cases taken
      exact ⟨⟨inv.attributed.inside, inv.attributed.ids⟩, inv.rows⟩
    · cases taken
  | login pool id => exact login_preserves s next pool id inv undisturbed taken
  | submit pool => exact submit_preserves s next pool inv undisturbed taken

theorem inv_start : Inv start :=
  ⟨⟨rfl, by simp [start]⟩, fun _ _ last => by simp [start] at last⟩

/-- Every run whose logins and submissions are undisturbed attributes all its
submissions to the last login of their pool. -/
theorem session_ids_attributed (es : List Event) (undisturbed : Guarded step Undisturbed start es) :
    Always step Attributed start es :=
  always_mono (fun _ inv => inv.attributed) (always_of_guarded inv_preserved inv_start undisturbed)

/-- An id of 63 equal characters. -/
def idOf (c : UInt8) : Bytes := List.replicate 63 c

/-- Two pools log in and submit. -/
theorem session_ids_attributed_two :
    Always step Attributed start
      [.addPool, .addPool, .login 0 (idOf 97), .login 1 (idOf 98), .submit 0, .submit 1] :=
  session_ids_attributed _ (by decide +kernel)

/-- Pool 1 takes over the number of the removed pool 0 and submits under its session id. -/
theorem removed_pool_session_id :
    ∃ (es : List Event) (s : World), run step start es = some s ∧
      s.submitted = [⟨1, idOf 97, idOf 98⟩] ∧ ¬ Always step Attributed start es := by
  have reached : (run step start
      [.addPool, .addPool, .login 0 (idOf 97), .login 1 (idOf 98), .removePool 0, .submit 1]).map
        World.submitted = some [⟨1, idOf 97, idOf 98⟩] := by decide +kernel
  obtain ⟨s, ran, submitted⟩ := Option.map_eq_some_iff.mp reached
  refine ⟨_, s, ran, submitted, fun attributed => ?_⟩
  have same := (always_final attributed ran).ids
  rw [submitted] at same
  exact absurd (same _ List.mem_cons_self) (by decide)

end CgminerT4.Guarantees.SessionIds
