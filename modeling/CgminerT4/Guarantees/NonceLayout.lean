import CgminerT4.Library.Runs
import CgminerT4.Source.CreateJob
import CgminerT4.Source.GetworkJob
import CgminerT4.Source.PoolSwitch
import Mathlib.Logic.Function.Basic

/-!
# The nonce layout of a job and the mode of its pool

A job is laid out by the global mode, which switch_pools takes from the pool it
chooses, while the work has been prepared by the mode of its own pool. Works of
one pool stay in the drivers' queues over a switch, and works of every pool that
is connected are staged. The layout is right exactly as long as the pools of
written works and the pools chosen by switch_pools are of one kind. A call of
gen_getwork_work or create_job is one step.
-/
namespace CgminerT4.Guarantees.NonceLayout
open Library.ByteString Library.Runs Source.Jansson Source.WorkItem Source.GetworkJob
  Source.CreateJob
open Source.PoolSwitch

/-- One call of create_job. -/
structure Written where
  work : Work
  chipId : UInt8
  jobId : UInt8
  /-- The global mode when it was called. -/
  layout : Bool
  /-- `work->pool->is_nicehash_pool` at that time. -/
  mode : Bool
  packet : Bytes

structure World where
  miner : Miner
  globals : Globals
  /-- The works the drivers have taken, which they may write at any time. -/
  held : List Work
  written : List Written
  /-- The pools pool_active_getwork has been called for. -/
  probed : PoolNo → Bool
  /-- The pool the last switch_pools chose, and whether it was probed by then. -/
  lastSwitch : Option (PoolNo × Bool)

inductive Event where
  /-- pool_active_getwork. -/
  | login (pool : PoolNo) (loggedIn : Bool)
  | status (pool : PoolNo) (status : PoolStatus)
  /-- test_pool_thread makes the first pool that is alive the current one. -/
  | firstAlive (pool : PoolNo)
  | receive (pool : PoolNo) (job : Option Json)
  | clearPoolWork (pool : PoolNo)
  | switchPools (selected : Option PoolNo)
  /-- get_work, with the staged work hash_pop returns. -/
  | getWork (index thrId : Nat) (maxDiff minDiff : Double)
  | createJob (index : Nat) (chipId jobId : UInt8)

/-- What get_work sets in a work. -/
def takenWork (thrId : Nat) (maxDiff minDiff : Double) (work : Work) : Work :=
  { work with thrId, deviceDiff := max minDiff (min maxDiff work.workDifficulty) }

def poolMode (pools : List Pool) (poolNo : PoolNo) : Bool :=
  (pools[poolNo]?).any Pool.isNicehashPool

/-- The kind of a pool, by its url. -/
def nicehash (pools : List Pool) (poolNo : PoolNo) : Bool :=
  ((pools.map Pool.rpcUrl)[poolNo]?).any isNicehashUrl

variable (cmdWriteJob : UInt8) (strategy : PoolStrategy) (totalDevices : Nat)

def step (s : World) : Event → Option World
  | .login pool loggedIn =>
    some { s with
      miner := { s.miner with pools := s.miner.pools.modify pool (poolActiveGetwork · loggedIn) }
      probed := Function.update s.probed pool true }
  | .status pool status =>
    some { s with
      miner :=
        { s.miner with pools := s.miner.pools.modify pool ({ · with toPoolStatus := status }) } }
  | .firstAlive pool => some { s with miner := { s.miner with currentpool := pool } }
  | .receive pool job =>
    (s.miner.pools[pool]?).bind fun receiver =>
      if receiver.stratumInit then
        (genGetworkWork receiver.isNicehashPool totalDevices pool s.globals job).map fun staged =>
          { s with
            globals := staged.1
            miner := { s.miner with stagedWork := s.miner.stagedWork ++ staged.2.2 } }
      else none
  | .clearPoolWork pool =>
    some { s with miner := { s.miner with stagedWork := clearPoolWork s.miner.stagedWork pool } }
  | .switchPools selected =>
    (switchPools strategy s.miner selected).map fun miner =>
      { s with miner, lastSwitch := some (miner.currentpool, s.probed miner.currentpool) }
  | .getWork index thrId maxDiff minDiff =>
    (s.miner.stagedWork[index]?).map fun work =>
      { s with
        miner := { s.miner with stagedWork := s.miner.stagedWork.eraseIdx index }
        held := s.held ++ [takenWork thrId maxDiff minDiff work] }
  | .createJob index chipId jobId =>
    (s.held[index]?).map fun work =>
      { s with
        written := s.written ++
          [{ work, chipId, jobId
             layout := s.miner.currIsNicehashPool
             mode := poolMode s.miner.pools work.pool
             packet := createJob cmdWriteJob s.miner.currIsNicehashPool chipId jobId work }] }

/-- The configured pools before any of them has been probed. -/
def start (configured : List Pool) : World :=
  { miner :=
      { pools := configured.map ({ · with stratumInit := false, isNicehashPool := false })
        currentpool := 0
        currIsNicehashPool := false
        stagedWork := [] }
    globals := initialGlobals
    held := []
    written := []
    probed := fun _ => false
    lastSwitch := none }

/-- Every job was laid out in the mode of its work's pool. -/
def Agrees (s : World) : Prop :=
  ∀ w ∈ s.written, w.layout = w.mode ∧
    w.packet = createJob cmdWriteJob w.mode w.chipId w.jobId w.work

/-- Whether the last switch_pools chose a pool that has a nicehash url and was
probed by then. -/
def switchedToNicehash (pools : List Pool) : Option (PoolNo × Bool) → Bool
  | some (poolNo, probed) => probed && nicehash pools poolNo
  | none => false

/-- A written work comes from a pool of the kind that the last switch_pools chose. -/
def SameKind (s : World) : Event → Prop
  | .createJob index _ _ => ∀ work ∈ s.held[index]?,
    nicehash s.miner.pools work.pool = switchedToNicehash s.miner.pools s.lastSwitch
  | _ => True

structure Inv (s : World) : Prop where
  modes : ∀ poolNo pool, s.miner.pools[poolNo]? = some pool →
    pool.isNicehashPool = (s.probed poolNo && isNicehashUrl pool.rpcUrl) ∧
      (pool.stratumInit = true → s.probed poolNo = true)
  staged : ∀ work ∈ s.miner.stagedWork, s.probed work.pool = true
  held : ∀ work ∈ s.held, s.probed work.pool = true
  current : s.miner.currIsNicehashPool = switchedToNicehash s.miner.pools s.lastSwitch

theorem nicehash_congr (pools after : List Pool)
    (urls : after.map Pool.rpcUrl = pools.map Pool.rpcUrl) (poolNo : PoolNo) :
    nicehash after poolNo = nicehash pools poolNo := by
  unfold nicehash
  rw [urls]

theorem rpcUrl_modify (pools : List Pool) (poolNo : PoolNo) (change : Pool → Pool)
    (keeps : ∀ pool, (change pool).rpcUrl = pool.rpcUrl) :
    (pools.modify poolNo change).map Pool.rpcUrl = pools.map Pool.rpcUrl := by
  apply List.ext_getElem?
  intro i
  simp only [List.getElem?_map, List.getElem?_modify]
  cases pools[i]? with
  | none => simp
  | some pool => by_cases same : poolNo = i <;> simp [same, keeps]

theorem modified_pool (pools : List Pool) (poolNo other : PoolNo) (change : Pool → Pool)
    (pool : Pool) (found : (pools.modify poolNo change)[other]? = some pool) :
    ∃ before, pools[other]? = some before ∧
      pool = if poolNo = other then change before else before := by
  rw [List.getElem?_modify] at found
  obtain ⟨before, present, same⟩ := Option.map_eq_some_iff.mp found
  exact ⟨before, present, same.symm⟩

theorem switchedToNicehash_congr (pools after : List Pool)
    (urls : after.map Pool.rpcUrl = pools.map Pool.rpcUrl) (lastSwitch : Option (PoolNo × Bool)) :
    switchedToNicehash after lastSwitch = switchedToNicehash pools lastSwitch := by
  unfold switchedToNicehash
  split
  · rw [nicehash_congr _ _ urls]
  · rfl

/-- A probed pool is in the mode of its url. -/
theorem poolMode_of_probed (s : World) (inv : Inv s) (poolNo : PoolNo)
    (probed : s.probed poolNo = true) :
    poolMode s.miner.pools poolNo = nicehash s.miner.pools poolNo := by
  unfold poolMode nicehash
  rw [List.getElem?_map]
  cases present : s.miner.pools[poolNo]? with
  | none => rfl
  | some pool => simp [(inv.modes poolNo pool present).1, probed]

theorem pool_of_rpc2JobDecode (g next : Globals) (job : Option Json) (work out : Work)
    (accepted : Bool) (done : rpc2JobDecode g job work = some (next, out, accepted)) :
    out.pool = work.pool := by
  unfold rpc2JobDecode at done
  split at done
  · cases done
  · cases done
    rfl
  · split at done
    · cases done
      rfl
    · next copied blob =>
      obtain ⟨named, id, pair⟩ := Option.map_eq_some_iff.mp done
      obtain ⟨_, _, rfl⟩ := Option.map_eq_some_iff.mp blob
      obtain ⟨_, _, rfl⟩ := Option.map_eq_some_iff.mp id
      cases pair
      rfl

/-- The staged works belong to the pool that sent the message. -/
theorem pool_of_genGetworkWork (mode : Bool) (poolNo : PoolNo) (g : Globals) (job : Option Json)
    (staged : Globals × Bool × List Work)
    (done : genGetworkWork mode totalDevices poolNo g job = some staged) (work : Work)
    (member : work ∈ staged.2.2) : work.pool = poolNo := by
  obtain ⟨⟨next, out, accepted⟩, decoded, rfl⟩ := Option.map_eq_some_iff.mp done
  obtain ⟨device, _, rfl⟩ := List.mem_map.mp member
  exact pool_of_rpc2JobDecode g next job (jobWork poolNo) out accepted decoded

theorem login_preserves (s next : World) (poolNo : PoolNo) (loggedIn : Bool) (inv : Inv s)
    (taken : step cmdWriteJob strategy totalDevices s (.login poolNo loggedIn) = some next) :
    Inv next := by
  cases taken
  have kept : ∀ other, s.probed other = true →
      Function.update s.probed poolNo true other = true := by
    intro other probed
    by_cases same : other = poolNo
    · rw [same, Function.update_self]
    · rw [Function.update_of_ne same]
      exact probed
  constructor
  · intro other pool found
    obtain ⟨before, present, rfl⟩ := modified_pool _ _ _ _ _ found
    obtain ⟨mode, thread⟩ := inv.modes other before present
    dsimp only
    by_cases same : poolNo = other
    · subst same
      rw [if_pos rfl, Function.update_self, Bool.true_and]
      unfold poolActiveGetwork
      split
      · next ready => exact ⟨by rw [mode, thread ready, Bool.true_and], fun _ => rfl⟩
      · exact ⟨rfl, fun _ => rfl⟩
    · rw [if_neg same, Function.update_of_ne (Ne.symm same)]
      exact ⟨mode, thread⟩
  · exact fun work member => kept work.pool (inv.staged work member)
  · exact fun work member => kept work.pool (inv.held work member)
  · have keeps : ∀ pool, (poolActiveGetwork pool loggedIn).rpcUrl = pool.rpcUrl := by
      intro pool
      unfold poolActiveGetwork
      split <;> rfl
    exact inv.current.trans (switchedToNicehash_congr _ _ (rpcUrl_modify _ _ _ keeps) _).symm

theorem status_preserves (s next : World) (poolNo : PoolNo) (status : PoolStatus) (inv : Inv s)
    (taken : step cmdWriteJob strategy totalDevices s (.status poolNo status) = some next) :
    Inv next := by
  cases taken
  refine ⟨?_, inv.staged, inv.held, ?_⟩
  · intro other pool found
    obtain ⟨before, present, rfl⟩ := modified_pool _ _ _ _ _ found
    have mode := inv.modes other before present
    split <;> exact mode
  · have urls := rpcUrl_modify s.miner.pools poolNo ({ · with toPoolStatus := status }) fun _ => rfl
    exact inv.current.trans (switchedToNicehash_congr _ _ urls _).symm

theorem receive_preserves (s next : World) (poolNo : PoolNo) (job : Option Json) (inv : Inv s)
    (taken : step cmdWriteJob strategy totalDevices s (.receive poolNo job) = some next) :
    Inv next := by
  obtain ⟨receiver, present, received⟩ := Option.bind_eq_some_iff.mp taken
  split at received
  · next ready =>
    obtain ⟨staged, generated, rfl⟩ := Option.map_eq_some_iff.mp received
    refine ⟨inv.modes, ?_, inv.held, inv.current⟩
    intro work member
    rcases List.mem_append.mp member with older | new
    · exact inv.staged work older
    · rw [pool_of_genGetworkWork totalDevices _ poolNo s.globals job staged generated work new]
      exact (inv.modes poolNo receiver present).2 ready
  · cases received

theorem switchPools_preserves (s next : World) (selected : Option PoolNo) (inv : Inv s)
    (taken : step cmdWriteJob strategy totalDevices s (.switchPools selected) = some next) :
    Inv next := by
  obtain ⟨miner, switched, rfl⟩ := Option.map_eq_some_iff.mp taken
  obtain ⟨promoted, ⟨chosen, found, mode⟩, kept⟩ :=
    switchPools_spec strategy s.miner miner selected switched
  have modes : ∀ poolNo pool, miner.pools[poolNo]? = some pool →
      pool.isNicehashPool = (s.probed poolNo && isNicehashUrl pool.rpcUrl) ∧
        (pool.stratumInit = true → s.probed poolNo = true) := by
    intro poolNo pool present
    rw [promoted] at present
    obtain ⟨before, original, same⟩ := promote_pool s.miner.pools selected poolNo pool present
    rw [same]
    exact inv.modes poolNo before original
  refine ⟨modes, fun work member => inv.staged work (kept member), inv.held, ?_⟩
  rw [mode, (modes _ chosen found).1]
  unfold switchedToNicehash nicehash
  dsimp only
  rw [List.getElem?_map, found]
  rfl

/-- The mode of every probed pool is that of its url, and the global mode that
of the pool chosen last. -/
theorem inv_preserved (s : World) (e : Event) (next : World) (inv : Inv s)
    (taken : step cmdWriteJob strategy totalDevices s e = some next) : Inv next := by
  cases e with
  | login pool loggedIn => exact login_preserves _ _ _ s next pool loggedIn inv taken
  | status pool status => exact status_preserves _ _ _ s next pool status inv taken
  | receive pool job => exact receive_preserves _ _ _ s next pool job inv taken
  | switchPools selected => exact switchPools_preserves _ _ _ s next selected inv taken
  | firstAlive pool =>
    cases taken
    exact ⟨inv.modes, inv.staged, inv.held, inv.current⟩
  | clearPoolWork pool =>
    cases taken
    exact ⟨inv.modes, fun work member => inv.staged work (List.mem_of_mem_filter member), inv.held,
      inv.current⟩
  | getWork index thrId maxDiff minDiff =>
    obtain ⟨work, present, rfl⟩ := Option.map_eq_some_iff.mp taken
    refine ⟨inv.modes, fun other member => inv.staged other (List.mem_of_mem_eraseIdx member), ?_,
      inv.current⟩
    intro other member
    rcases List.mem_append.mp member with older | new
    · exact inv.held other older
    · rw [List.mem_singleton.mp new]
      exact inv.staged work (List.mem_of_getElem? present)
  | createJob index chipId jobId =>
    obtain ⟨work, _, rfl⟩ := Option.map_eq_some_iff.mp taken
    exact ⟨inv.modes, inv.staged, inv.held, inv.current⟩

/-- A job is laid out in the mode of its work's pool if and only if that pool is
of the kind chosen last. -/
theorem agrees_createJob (s next : World) (index : Nat) (chipId jobId : UInt8) (inv : Inv s)
    (good : Agrees cmdWriteJob s)
    (taken : step cmdWriteJob strategy totalDevices s (.createJob index chipId jobId) = some next) :
    Agrees cmdWriteJob next ↔ SameKind s (.createJob index chipId jobId) := by
  obtain ⟨work, present, rfl⟩ := Option.map_eq_some_iff.mp taken
  have probed := inv.held work (List.mem_of_getElem? present)
  have mode := poolMode_of_probed s inv work.pool probed
  constructor
  · intro agrees other same
    rw [present] at same
    cases same
    have layout := (agrees _ (List.mem_append_right _ List.mem_cons_self)).1
    dsimp only at layout
    rw [← mode, ← layout, inv.current]
  · intro same w member
    rcases List.mem_append.mp member with older | new
    · exact good w older
    · rw [List.mem_singleton.mp new]
      dsimp only
      have layout : s.miner.currIsNicehashPool = poolMode s.miner.pools work.pool := by
        rw [inv.current, mode, same work present]
      exact ⟨layout, by rw [layout]⟩

theorem agrees_step (s : World) (e : Event) (next : World) (inv : Inv s)
    (good : Agrees cmdWriteJob s) (taken : step cmdWriteJob strategy totalDevices s e = some next) :
    Agrees cmdWriteJob next ↔ SameKind s e := by
  cases e with
  | createJob index chipId jobId =>
    exact agrees_createJob cmdWriteJob strategy totalDevices s next index chipId jobId inv
      good taken
  | receive pool job =>
    obtain ⟨receiver, _, received⟩ := Option.bind_eq_some_iff.mp taken
    split at received
    · obtain ⟨_, _, rfl⟩ := Option.map_eq_some_iff.mp received
      exact iff_of_true good trivial
    · cases received
  | switchPools selected =>
    obtain ⟨_, _, rfl⟩ := Option.map_eq_some_iff.mp taken
    exact iff_of_true good trivial
  | getWork index thrId maxDiff minDiff =>
    obtain ⟨_, _, rfl⟩ := Option.map_eq_some_iff.mp taken
    exact iff_of_true good trivial
  | login pool loggedIn => cases taken; exact iff_of_true good trivial
  | status pool status => cases taken; exact iff_of_true good trivial
  | firstAlive pool => cases taken; exact iff_of_true good trivial
  | clearPoolWork pool => cases taken; exact iff_of_true good trivial

theorem inv_start (configured : List Pool) : Inv (start configured) := by
  constructor
  · intro poolNo pool found
    dsimp only [start] at found ⊢
    rw [List.getElem?_map] at found
    obtain ⟨before, _, rfl⟩ := Option.map_eq_some_iff.mp found
    exact ⟨rfl, fun ready => by cases ready⟩
  · exact fun _ member => absurd member List.not_mem_nil
  · exact fun _ member => absurd member List.not_mem_nil
  · rfl

/-- All jobs of a run are laid out in the modes of their works' pools if and
only if every written work comes from a pool of the kind chosen last. -/
theorem nonce_layout_iff (configured : List Pool) (es : List Event) :
    Always (step cmdWriteJob strategy totalDevices) (Agrees cmdWriteJob) (start configured) es ↔
      Guarded (step cmdWriteJob strategy totalDevices) SameKind (start configured) es := by
  apply always_iff_guarded_of_invariant
  · exact inv_preserved cmdWriteJob strategy totalDevices
  · exact agrees_step cmdWriteJob strategy totalDevices
  · exact inv_start configured
  · exact fun _ member => absurd member List.not_mem_nil

/-- A pool that is ready for use. -/
def readyPool (rpcUrl : Bytes) (prio : Nat) : Pool where
  idle := false
  enabled := .enabled
  hasStratum := false
  stratumActive := true
  stratumNotify := true
  rpcUrl
  prio
  stratumInit := false
  isNicehashPool := false

def twoPools : List Pool :=
  [readyPool (ascii "cryptonight.eu.nicehash.com:3355") 0, readyPool (ascii "pool.com:3333") 1]

def job : Option Json :=
  some (.object [("job_id", .string [0x61]), ("blob", .string (List.replicate 152 0x30)),
    ("target", .string (List.replicate 8 0x66))])

/-- A work of the nicehash pool waits while the pools are switched. -/
def keptWork : List Event :=
  [.login 0 true, .login 1 true, .switchPools none, .receive 0 job, .getWork 0 0 1 1,
    .switchPools (some 1), .createJob 0 1 1]

/-- It is laid out for an ordinary pool. -/
theorem kept_work_laid_out_wrong :
    ∃ s, run (step 7 .failover 1) (start twoPools) keptWork = some s ∧
      s.written.map (fun w => (w.work.pool, w.layout, w.mode)) = [(0, false, true)] ∧
      ¬ Always (step 7 .failover 1) (Agrees 7) (start twoPools) keptWork := by
  have reached : (run (step 7 .failover 1) (start twoPools) keptWork).map
      (fun s => s.written.map fun w => (w.work.pool, w.layout, w.mode)) =
        some [(0, false, true)] := by
    decide +kernel
  obtain ⟨s, ran, written⟩ := Option.map_eq_some_iff.mp reached
  refine ⟨s, ran, written, fun agrees => ?_⟩
  have layouts : ∀ w ∈ s.written, w.layout = w.mode :=
    fun w member => (always_final agrees ran w member).1
  have same : ∀ x ∈ s.written.map (fun w => (w.work.pool, w.layout, w.mode)), x.2.1 = x.2.2 := by
    intro x member
    obtain ⟨w, belongs, rfl⟩ := List.mem_map.mp member
    exact layouts w belongs
  rw [written] at same
  exact absurd (same _ List.mem_cons_self) (by decide)

end CgminerT4.Guarantees.NonceLayout
