import CgminerT4.Guarantees.NotifyTemplate
import CgminerT4.Guarantees.SoloTemplate
import CgminerT4.Library.Runs

/-!
# The two copies of the ntime

An accepted template has a header of exactly 256 hexadecimal digits, which fixes
the width of all its parts: the eight digits of the ntime string are the digits
of bytes 68 to 71. Work is generated with both, and every function that moves
one moves the other by the same amount modulo 2^32. A notify that is given up
half stored leaves its ntime string beside the old header when a merkle node
does not decode, and works are still generated.
-/
namespace CgminerT4.Guarantees.NtimeCoherence
open Library.ByteString Library.Runs Source.Jansson Source.Hex Source.WorkItem Source.WorkRoll
  SoloTemplate
open NotifyTemplate (Decodes parseNotify_spec storeNotify_decodes storeMerkles_nodes
  storeMerkles_decodes)
open Source.StratumTemplate
  (Notify readNotify validStrings storeHead storeTail storeNotify parseNotify headerText
  blankMerkle workpadding decodeNode reallocSlots genStratumWork)
open Source.GbtMerkle (Digest genSoloWork)
open Source.GbtTemplate (TemplatePool Time hex08 soloHeader gbtSoloDecode setupGbtSolo)

/-- Eight digits that decode to four bytes. -/
structure Digits (ntime bytes : Bytes) : Prop where
  length : ntime.length = 8
  valid : validHex ntime = true
  decodes : unhex ntime = bytes

def ntimeBytes (data : Buffer 128) : Bytes := (data.bytes.drop 68).take 4

/-- The string of a work is eight digits that decode to its binary ntime. -/
def Coherent (work : Work) : Prop :=
  ∃ ntime, work.ntime = some ntime ∧ Digits ntime (ntimeBytes work.data)

/-! ## Rolling and copying -/

theorem digits_bin2hex (bytes : Bytes) (four : bytes.length = 4) :
    Digits (bin2hex bytes) bytes := by
  refine ⟨?_, validHex_bin2hex bytes, unhex_bin2hex bytes⟩
  rw [length_bin2hex, four]

theorem offsetNtime_digits (ntime bytes : Bytes) (noffset : Int) (digits : Digits ntime bytes)
    (four : bytes.length = 4) :
    offsetNtime ntime noffset =
      some (bin2hex (htobe32 (be32toh bytes + UInt32.ofInt noffset))) := by
  have decoded := hex2bin_valid ntime 4 digits.valid digits.length
  unfold offsetNtime
  rw [decoded, digits.decodes]
  exact if_pos four

theorem length_ntimeBytes (data : Buffer 128) : (ntimeBytes data).length = 4 := by
  rw [ntimeBytes, List.length_take, List.length_drop, data.length_eq]
  rfl

/-- Both copies are moved by `noffset`. -/
theorem offset_coherent (work : Work) (noffset : Int) (coherent : Coherent work)
    (string : Option Bytes) (adjusted : offsetString work.ntime noffset = some string) :
    ∃ ntime, string = some ntime ∧
      Digits ntime
        (ntimeBytes (setNtime work.data (workNtime work.data + UInt32.ofInt noffset))) := by
  obtain ⟨ntime, present, digits⟩ := coherent
  rw [present, offsetString,
    offsetNtime_digits ntime _ noffset digits (length_ntimeBytes work.data)] at adjusted
  cases adjusted
  refine ⟨_, rfl, ?_⟩
  have written : ntimeBytes (setNtime work.data (workNtime work.data + UInt32.ofInt noffset)) =
      htobe32 (workNtime work.data + UInt32.ofInt noffset) := slice_setNtime _ _
  rw [written]
  exact digits_bin2hex _ (length_htobe32 _)

theorem rollWorkNtime_coherent (work next : RollWork) (noffset : Int)
    (coherent : Coherent work.toWork) (rolled : rollWorkNtime work noffset = some next) :
    Coherent next.toWork := by
  obtain ⟨data, _, string⟩ := rollWorkNtime_spec work next noffset rolled
  obtain ⟨ntime, same, digits⟩ := offset_coherent work.toWork noffset coherent next.ntime string
  refine ⟨ntime, same, ?_⟩
  rw [data]
  exact digits

theorem copyWorkNoffset_coherent (work next : RollWork) (noffset : Int)
    (coherent : Coherent work.toWork) (copied : copyWorkNoffset work noffset = some next) :
    Coherent next.toWork := by
  unfold copyWorkNoffset at copied
  split at copied
  · cases copied
    exact coherent
  · obtain ⟨string, adjusted, rfl⟩ := Option.map_eq_some_iff.mp copied
    exact offset_coherent work.toWork noffset coherent string adjusted

theorem makeClone_coherent (work next : RollWork) (coherent : Coherent work.toWork)
    (made : makeClone work = some next) : Coherent next.toWork := by
  obtain ⟨clone, same, data, ntime⟩ := makeClone_spec work
  rw [made] at same
  cases same
  unfold Coherent at coherent ⊢
  rwa [data, ntime]

theorem setWorkNtime_coherent (work : RollWork) (ntime : Int) (coherent : Coherent work.toWork) :
    Coherent (setWorkNtime work ntime).toWork := by
  obtain ⟨string, present, _⟩ := coherent
  refine ⟨bin2hex (htobe32 (UInt32.ofInt ntime)), ?_, ?_⟩
  · show work.ntime.map _ = _
    rw [present]
    rfl
  · have written : ntimeBytes (setNtime work.data (UInt32.ofInt ntime)) =
        htobe32 (UInt32.ofInt ntime) :=
      slice_setNtime _ _
    show Digits _ (ntimeBytes (setNtime work.data (UInt32.ofInt ntime)))
    rw [written]
    exact digits_bin2hex _ (length_htobe32 _)

/-! ## Generated work -/

/-- The ntime string of a pool is the digits at its place in the header. -/
def Carries (headerBin : Buffer 128) (ntime : Bytes) : Prop := Digits ntime (ntimeBytes headerBin)

/-- The header goes into the work, and the merkle root in front of the ntime. -/
theorem ntimeBytes_generated (data header merkled : Buffer 128) (headerBin : Buffer 128)
    (merkleRoot : Bytes) (size : merkleRoot.length = 32)
    (first : data.store 0 (headerBin.bytes.take 112) = some header)
    (second : header.store 36 merkleRoot = some merkled) :
    ntimeBytes merkled = ntimeBytes headerBin := by
  obtain ⟨fits1, bytes1⟩ := data.store_some header 0 _ first
  obtain ⟨fits2, bytes2⟩ := header.store_some merkled 36 _ second
  have front : (headerBin.bytes.take 112).length = 112 := by
    rw [List.length_take, headerBin.length_eq]
    rfl
  have root :=
    slice_overwrite_disjoint header.bytes merkleRoot 36 68 4 (by rw [header.length_eq]; exact fits2)
    (by omega)
  have copy := slice_overwrite_within data.bytes (headerBin.bytes.take 112) 0 68 4
    (by rw [data.length_eq]; exact fits1) (by omega) (by omega)
  rw [ntimeBytes, bytes2, root, bytes1, copy, List.drop_take, List.take_take, Nat.sub_zero]
  rfl

variable (genHash : Bytes → Digest)

theorem genStratumWork_coherent (behind : Bytes) (pool next : Source.StratumTemplate.Pool)
    (work out : Work) (carries : Carries pool.headerBin pool.ntime)
    (made : genStratumWork genHash behind pool work = some (next, out)) :
    Carries next.headerBin next.ntime ∧ Coherent out := by
  unfold genStratumWork at made
  dsimp only at made
  split at made
  · split at made
    · obtain ⟨updated, _, made⟩ := Option.bind_eq_some_iff.mp made
      obtain ⟨root, _, made⟩ := Option.bind_eq_some_iff.mp made
      obtain ⟨header, first, made⟩ := Option.bind_eq_some_iff.mp made
      obtain ⟨data, second, made⟩ := Option.map_eq_some_iff.mp made
      have kept := ntimeBytes_generated work.data header data pool.headerBin _
        (by rw [length_flipWords, root.length_eq]) first second
      cases made
      refine ⟨carries, pool.ntime, rfl, ?_⟩
      rw [kept]
      exact carries
    · cases made
  · cases made

theorem genSoloWork_coherent (pool next : Source.GbtMerkle.Pool) (work out : Work)
    (carries : Carries pool.headerBin pool.ntime)
    (made : genSoloWork genHash pool work = some (next, out)) :
    Carries next.headerBin next.ntime ∧ Coherent out := by
  unfold genSoloWork at made
  split at made
  · obtain ⟨coinbase, _, made⟩ := Option.bind_eq_some_iff.mp made
    obtain ⟨header, first, made⟩ := Option.bind_eq_some_iff.mp made
    obtain ⟨data, second, made⟩ := Option.map_eq_some_iff.mp made
    have kept := ntimeBytes_generated work.data header data pool.headerBin _
      (by rw [length_flipWords, Buffer.length_eq]) first second
    cases made
    refine ⟨carries, pool.ntime, rfl, ?_⟩
    rw [kept]
    exact carries
  · cases made

/-! ## Accepted templates -/

/-- A header text with the ntime behind 136 digits, decoded as far as it goes. -/
theorem carries_of_text (headerBin old : Buffer 128) (front ntime back : Bytes)
    (decoded : headerBin.bytes = overwrite old.bytes 0 (hex2bin (front ++ (ntime ++ back)) 128).1)
    (valid : validHex (front ++ (ntime ++ back)) = true) (before : front.length = 2 * 68)
    (width : ntime.length = 2 * 4) : Carries headerBin ntime := by
  rw [validHex_append, validHex_append, Bool.and_eq_true, Bool.and_eq_true] at valid
  obtain ⟨frontValid, ntimeValid, _⟩ := valid
  have frontBytes := length_unhex front 68 frontValid before
  have four := length_unhex ntime 4 ntimeValid width
  refine ⟨width, ntimeValid, ?_⟩
  have written : (unhex front ++ (unhex ntime ++ unhex back)).take 128 =
      unhex front ++ (unhex ntime ++ (unhex back).take 56) := by
    rw [List.take_append, List.take_of_length_le (by omega), frontBytes, List.take_append,
      List.take_of_length_le (by omega), four]
  rw [ntimeBytes, decoded, overwrite, List.take_zero, List.nil_append, hex2bin_fst,
    unhex_append front _ 68 frontValid before, unhex_append ntime _ 4 ntimeValid width, written,
    List.append_assoc, List.drop_left' frontBytes, List.append_assoc, List.take_left' four]

theorem validHex_take (s : Bytes) (n : Nat) (valid : validHex s = true) :
    validHex (s.take n) = true := by
  unfold validHex at valid ⊢
  rw [List.all_eq_true] at valid ⊢
  exact fun c member => valid c (List.mem_of_mem_take member)

/-- The conversion specifiers of the header have a maximal width. -/
theorem headerText_parts (n : Notify) :
    headerText n = (n.bbversion.take 8 ++ n.prevHash.take 64 ++ blankMerkle) ++
      (n.ntime.take 8 ++ (n.nbit.take 8 ++ List.replicate 8 0x30 ++ workpadding)) := by
  have blank : blankMerkle.length = 64 := List.length_replicate
  have padding : workpadding.length = 96 := rfl
  have version := List.length_take_le 8 n.bbversion
  have prev := List.length_take_le 64 n.prevHash
  have ntime := List.length_take_le 8 n.ntime
  have nbit := List.length_take_le 8 n.nbit
  rw [headerText, List.take_of_length_le]
  · simp only [List.append_assoc]
  · simp only [List.length_append, List.length_replicate, blank, padding]
    omega

/-- The strings in front of the ntime in the header and the ntime itself have
their whole width. -/
structure WholeFront (n : Notify) : Prop where
  bbversion : 8 ≤ n.bbversion.length
  prevHash : 64 ≤ n.prevHash.length
  ntime : 8 ≤ n.ntime.length

theorem wholeFront_of_decodes (n : Notify) (decodes : Decodes n) : WholeFront n := by
  obtain ⟨length, _, _⟩ := hex2bin_success _ _ decodes.header
  have blank : blankMerkle.length = 64 := List.length_replicate
  have padding : workpadding.length = 96 := rfl
  have parts := congrArg List.length (headerText_parts n)
  simp only [List.length_append, List.length_take, List.length_replicate, length, blank,
    padding] at parts
  constructor <;> omega

theorem readNotify_valid (val : Option Json) (n : Notify) (read : readNotify val = some n) :
    validStrings n = true := by
  unfold readNotify at read
  split at read
  · dsimp only at read
    split at read
    · next valid =>
      cases read
      exact valid
    · cases read
  · cases read

theorem validHex_headerText (n : Notify) (valid : validStrings n = true) :
    validHex (headerText n) = true := by
  simp only [validStrings, Bool.and_eq_true] at valid
  obtain ⟨⟨⟨⟨⟨⟨_, prevHash⟩, _⟩, _⟩, bbversion⟩, nbit⟩, ntime⟩ := valid
  simp only [headerText_parts, validHex_append, Bool.and_eq_true]
  exact ⟨⟨⟨validHex_take _ 8 bbversion, validHex_take _ 64 prevHash⟩, by decide +kernel⟩,
    validHex_take _ 8 ntime, ⟨validHex_take _ 8 nbit, by decide⟩, by decide +kernel⟩

/-- The stores behind the merkle nodes put the header with the ntime in place,
even if a later part does not decode. -/
theorem storeTail_carries (pool next : Source.StratumTemplate.Pool) (n : Notify) (ret : Bool)
    (done : storeTail pool n = (next, ret)) (valid : validStrings n = true) (whole : WholeFront n)
    (string : pool.ntime = n.ntime.take 8) : Carries next.headerBin next.ntime := by
  obtain ⟨headerBin, stored, bytes⟩ := pool.headerBin.store_of_fits 0 (hex2bin (headerText n) 128).1
    (by rw [Nat.zero_add]; exact length_hex2bin_le _ _)
  have same : next.headerBin = headerBin ∧ next.ntime = n.ntime.take 8 := by
    simp only [storeTail, stored] at done
    split at done
    · cases done
      exact ⟨rfl, string⟩
    · split at done
      · cases done
        exact ⟨rfl, string⟩
      · split at done
        · cases done
          exact ⟨rfl, string⟩
        · cases done
          exact ⟨rfl, string⟩
  have digits := validHex_headerText n valid
  have blank : blankMerkle.length = 64 := List.length_replicate
  obtain ⟨bbversion, prevHash, ntime⟩ := whole
  rw [same.1, same.2]
  rw [headerText_parts] at digits bytes
  refine carries_of_text headerBin pool.headerBin _ _ _ bytes digits ?_ ?_
  · simp only [List.length_append, List.length_take, blank]
    omega
  · rw [List.length_take]
    omega

def MerklesDecode (n : Notify) : Prop :=
  ∀ entry ∈ n.merkleArr, ∃ merkle node,
    jsonStringValue (some entry) = some merkle ∧ decodeNode merkle = some node

/-- What keeps the header and the string together: a notify whose merkle nodes
decode has whole strings up to the ntime, and one that is given up at a merkle
node repeats the ntime of the pool. -/
structure KeepsNtime (pool : Source.StratumTemplate.Pool) (n : Notify) : Prop where
  stored : MerklesDecode n → WholeFront n
  givenUp : ¬ MerklesDecode n → n.ntime.take 8 = pool.ntime

theorem keepsNtime_of_decodes (pool : Source.StratumTemplate.Pool) (n : Notify)
    (decodes : Decodes n) :
    KeepsNtime pool n :=
  ⟨fun _ => wholeFront_of_decodes n decodes, fun fails => absurd decodes.merkles fails⟩

theorem storeNotify_carries (pool next : Source.StratumTemplate.Pool) (n : Notify) (ret : Bool)
    (done : storeNotify pool n = some (next, ret)) (valid : validStrings n = true)
    (keeps : KeepsNtime pool n) (carries : ret = true ∨ Carries pool.headerBin pool.ntime) :
    Carries next.headerBin next.ntime := by
  unfold storeNotify at done
  dsimp only at done
  split at done
  · cases done
  · next freed _ =>
    split at done
    · cases done
    · next merkleBin givenUp =>
      cases done
      have fails : ¬ MerklesDecode n := by
        intro decodes
        obtain ⟨stored, through⟩ := storeMerkles_decodes n.merkleArr 0
          (if n.merkleArr = [] then freed else reallocSlots n.merkleArr.length freed) decodes
        rw [through] at givenUp
        cases givenUp
      show Carries pool.headerBin (n.ntime.take 8)
      rw [keeps.givenUp fails]
      exact carries.resolve_left Bool.false_ne_true
    · next merkleBin through =>
      rw [Option.some.injEq] at done
      have decodes : MerklesDecode n := storeMerkles_nodes n.merkleArr 0 _ merkleBin through
      exact storeTail_carries _ next n ret done valid (keeps.stored decodes) rfl

/-- Under a guard on the notify alone, which an accepted one meets. -/
theorem parseNotify_keeps (pool next : Source.StratumTemplate.Pool) (val : Option Json) (ret : Bool)
    (parsed : parseNotify pool val = some (next, ret))
    (keeps : ∀ n, readNotify val = some n → KeepsNtime pool n)
    (carries : Carries pool.headerBin pool.ntime) :
    Carries next.headerBin next.ntime := by
  unfold parseNotify at parsed
  split at parsed
  · cases parsed
    exact carries
  · next n read =>
    obtain ⟨⟨stored, result⟩, done, same⟩ := Option.map_eq_some_iff.mp parsed
    cases same
    exact storeNotify_carries pool stored n ret done (readNotify_valid val n read) (keeps n read)
      (Or.inr carries)

theorem parseNotify_carries (before pool : Source.StratumTemplate.Pool) (val : Option Json)
    (parsed : parseNotify before val = some (pool, true)) : Carries pool.headerBin pool.ntime := by
  unfold parseNotify at parsed
  split at parsed
  · cases parsed
  · next n read =>
    obtain ⟨⟨stored, result⟩, done, same⟩ := Option.map_eq_some_iff.mp parsed
    cases same
    have decodes := storeNotify_decodes before stored n done
    exact storeNotify_carries before stored n true done (readNotify_valid val n read)
      (keepsNtime_of_decodes before n decodes) (Or.inl rfl)

variable (diffFromTarget : Buffer 32 → Double)

theorem gbtSoloDecode_carries (pool built : TemplatePool) (resVal : Option Json)
    (hashSwap : Buffer 32) (now : Time) (optBtcSig : Option Bytes) (locked : Bool)
    (accepted : gbtSoloDecode genHash diffFromTarget pool resVal hashSwap now optBtcSig =
      .returned built locked true) : Carries built.headerBin built.ntime := by
  obtain ⟨t, stored, witnessdata, next, stages⟩ :=
    gbtSoloDecode_accepted genHash diffFromTarget pool built resVal
    hashSwap now optBtcSig locked accepted
  have text := soloHeader_eq next t hashSwap (stages.strings genHash diffFromTarget)
  obtain ⟨_, ntime, _, _⟩ := stages.strings genHash diffFromTarget
  obtain ⟨before, _⟩ := headerFront_spec t hashSwap
  have valid := validHex_of_hex2bin _ 128 stages.header
  have header : built.headerBin.bytes =
      overwrite next.headerBin.bytes 0 (hex2bin (soloHeader next) 128).1 := by
    rw [stages.result]
    rfl
  have string : built.ntime = hex08 t.curtime := by
    rw [stages.result]
    exact ntime
  rw [string]
  rw [text] at header valid
  exact carries_of_text _ _ _ _ _ header valid before (length_hex08 t.curtime)

/-! ## Runs -/

/-- The functions that move an ntime. -/
inductive Op where
  | rollWork
  | rollWorkNtime (noffset : Int)
  | copyWork
  | copyWorkNoffset (noffset : Int)
  | makeClone
  | setWorkNtime (ntime : Int)

/-- The work after the call, and the copy the call made of it. -/
def apply (work : RollWork) : Op → Option (RollWork × Option RollWork)
  | .rollWork => (rollWork work).map fun rolled => (rolled, none)
  | .rollWorkNtime noffset => (rollWorkNtime work noffset).map fun rolled => (rolled, none)
  | .copyWork => (copyWork work).map fun copy => (work, some copy)
  | .copyWorkNoffset noffset => (copyWorkNoffset work noffset).map fun copy => (work, some copy)
  | .makeClone => (makeClone work).map fun clone => (work, some clone)
  | .setWorkNtime ntime => some (setWorkNtime work ntime, none)

/-- The number of rolls a call adds. -/
def rollsOf : Op → Int
  | .rollWork => 1
  | .rollWorkNtime noffset => noffset
  | .copyWork | .copyWorkNoffset _ | .makeClone | .setWorkNtime _ => 0

structure World (P : Type*) where
  pool : P
  works : List RollWork

inductive Event (υ : Type*) where
  | pool (u : υ)
  | op (i : Nat) (o : Op)

variable {P υ : Type*}

/-- `source` is what the pool does, with the work it generates. -/
def step (source : P → υ → Option (P × Option RollWork)) (s : World P) : Event υ → Option (World P)
  | .pool u => (source s.pool u).map fun (pool, made) => { pool, works := s.works ++ made.toList }
  | .op i o => s.works[i]?.bind fun work => (apply work o).map fun (after, copy) =>
      { s with works := s.works.set i after ++ copy.toList }

def AllCoherent (s : World P) : Prop := ∀ work ∈ s.works, Coherent work.toWork

theorem apply_coherent (work after : RollWork) (o : Op) (copy : Option RollWork)
    (coherent : Coherent work.toWork) (applied : apply work o = some (after, copy)) :
    Coherent after.toWork ∧ ∀ made ∈ copy, Coherent made.toWork := by
  cases o with
  | rollWork =>
    obtain ⟨rolled, taken, same⟩ := Option.map_eq_some_iff.mp applied
    cases same
    exact ⟨rollWorkNtime_coherent work after 1 coherent taken, by simp⟩
  | rollWorkNtime noffset =>
    obtain ⟨rolled, taken, same⟩ := Option.map_eq_some_iff.mp applied
    cases same
    exact ⟨rollWorkNtime_coherent work after noffset coherent taken, by simp⟩
  | copyWork =>
    rw [apply, copyWork_eq] at applied
    cases applied
    exact ⟨coherent, by simpa using coherent⟩
  | copyWorkNoffset noffset =>
    obtain ⟨made, taken, same⟩ := Option.map_eq_some_iff.mp applied
    have copied := copyWorkNoffset_coherent work made noffset coherent taken
    cases same
    exact ⟨coherent, by simpa using copied⟩
  | makeClone =>
    rw [apply] at applied
    obtain ⟨made, taken, same⟩ := Option.map_eq_some_iff.mp applied
    have cloned := makeClone_coherent work made coherent taken
    cases same
    exact ⟨coherent, by simpa using cloned⟩
  | setWorkNtime ntime =>
    cases applied
    exact ⟨setWorkNtime_coherent work ntime coherent, by simp⟩

/-- No call on a coherent work is undefined unless its counter of rolls overflows. -/
theorem apply_defined (work : RollWork) (o : Op) (coherent : Coherent work.toWork) :
    (apply work o).isSome = (work.rolls.add (rollsOf o)).isSome := by
  have adjusts : ∀ noffset, ∃ string, offsetString work.ntime noffset = some string := by
    obtain ⟨ntime, present, digits⟩ := coherent
    intro noffset
    rw [present, offsetString,
      offsetNtime_digits ntime _ noffset digits (length_ntimeBytes work.data)]
    exact ⟨_, rfl⟩
  have rolls : ∀ noffset, (rollWorkNtime work noffset).isSome =
      (work.rolls.add noffset).isSome := by
    intro noffset
    obtain ⟨string, adjusted⟩ := adjusts noffset
    unfold rollWorkNtime
    rw [adjusted]
    cases work.rolls.add noffset <;> rfl
  have still : (work.rolls.add 0).isSome = true := by
    rw [Library.SignedInt.CInt.add_zero]
    rfl
  cases o with
  | rollWork => exact (Option.isSome_map).trans (rolls 1)
  | rollWorkNtime noffset => exact (Option.isSome_map).trans (rolls noffset)
  | copyWork =>
    rw [apply, copyWork_eq, rollsOf, still]
    rfl
  | copyWorkNoffset noffset =>
    obtain ⟨string, adjusted⟩ := adjusts noffset
    rw [apply, Option.isSome_map, copyWorkNoffset, rollsOf, still]
    split
    · rfl
    · rw [adjusted]
      rfl
  | makeClone =>
    obtain ⟨made, taken, _⟩ := makeClone_spec work
    rw [apply, taken, rollsOf, still]
    rfl
  | setWorkNtime ntime =>
    rw [rollsOf, still]
    rfl

/-- A pool that keeps its own agreement only ever has coherent works. -/
theorem step_coherent (source : P → υ → Option (P × Option RollWork)) (agrees : P → Prop)
    (s next : World P) (e : Event υ)
    (kept : ∀ u pool made, e = .pool u → source s.pool u = some (pool, made) →
      agrees pool ∧ ∀ work ∈ made, Coherent work.toWork)
    (inv : agrees s.pool ∧ AllCoherent s) (taken : step source s e = some next) :
    agrees next.pool ∧ AllCoherent next := by
  obtain ⟨agreed, coherent⟩ := inv
  cases e with
  | pool u =>
    obtain ⟨⟨pool, made⟩, acted, rfl⟩ := Option.map_eq_some_iff.mp taken
    obtain ⟨agreesNext, fresh⟩ := kept u pool made rfl acted
    refine ⟨agreesNext, fun work member => ?_⟩
    rcases List.mem_append.mp member with old | new
    · exact coherent work old
    · exact fresh work (Option.mem_toList.mp new)
  | op i o =>
    obtain ⟨work, selected, rest⟩ := Option.bind_eq_some_iff.mp taken
    obtain ⟨⟨after, copy⟩, applied, rfl⟩ := Option.map_eq_some_iff.mp rest
    obtain ⟨changed, copied⟩ := apply_coherent work after o copy
      (coherent work (List.mem_of_getElem? selected)) applied
    refine ⟨agreed, fun other member => ?_⟩
    rcases List.mem_append.mp member with old | new
    · rcases List.mem_or_eq_of_mem_set old with kept | rfl
      · exact coherent other kept
      · exact changed
    · exact copied other (Option.mem_toList.mp new)

/-- Further notifies and works of a stratum pool. A notify that is given up leaves
what it has stored, and works are generated from it. -/
inductive StratumEvent where
  | notify (val : Option Json)
  | generate (behind : Bytes) (work : RollWork)

def stratumSource (pool : Source.StratumTemplate.Pool) :
    StratumEvent → Option (Source.StratumTemplate.Pool × Option RollWork)
  | .notify val => (parseNotify pool val).map fun (next, _) => (next, none)
  | .generate behind work => (genStratumWork genHash behind pool work.toWork).map fun (next, out) =>
      (next, some { work with toWork := out })

/-- Further templates and works of a solo pool. -/
inductive SoloEvent where
  | decode (resVal : Option Json) (hashSwap : Buffer 32) (now : Time) (optBtcSig : Option Bytes)
  | setup
  | generate (work : RollWork)

/-- A solo pool, and whether a decoder has returned with gbt_lock held, behind which
everything else waits for good. -/
structure SoloPool where
  pool : TemplatePool
  gbtLocked : Bool

def soloSource (s : SoloPool) (event : SoloEvent) : Option (SoloPool × Option RollWork) :=
  if s.gbtLocked then none
  else
    match event with
    | .decode resVal hashSwap now optBtcSig =>
      match gbtSoloDecode genHash diffFromTarget s.pool resVal hashSwap now optBtcSig with
      | .returned next locked _ => some (⟨next, locked⟩, none)
      | _ => none
    | .setup => (setupGbtSolo s.pool).map fun next => (⟨next, false⟩, none)
    | .generate work => (genSoloWork genHash s.pool.toPool work.toWork).map fun (next, out) =>
        (⟨{ s.pool with toPool := next }, false⟩, some { work with toWork := out })

/-- The guard of a stratum run. -/
def Keeps (s : World Source.StratumTemplate.Pool) : Event StratumEvent → Prop
  | .pool (.notify val) => ∀ n, readNotify val = some n → KeepsNtime s.pool n
  | _ => True

/-- What a solo pool agrees on while its lock can still be taken. -/
def SoloPool.Carries (s : SoloPool) : Prop :=
  s.gbtLocked = false → NtimeCoherence.Carries s.pool.headerBin s.pool.ntime

theorem stratumSource_kept (pool next : Source.StratumTemplate.Pool) (u : StratumEvent)
    (made : Option RollWork) (keeps : ∀ val n, u = .notify val → readNotify val = some n →
      KeepsNtime pool n)
    (carries : Carries pool.headerBin pool.ntime)
    (acted : stratumSource genHash pool u = some (next, made)) :
    Carries next.headerBin next.ntime ∧ ∀ work ∈ made, Coherent work.toWork := by
  cases u with
  | notify val =>
    obtain ⟨⟨parsed, ret⟩, done, same⟩ := Option.map_eq_some_iff.mp acted
    cases same
    exact ⟨parseNotify_keeps pool next val ret done (fun n => keeps val n rfl) carries, by simp⟩
  | generate behind work =>
    obtain ⟨⟨after, out⟩, generated, same⟩ := Option.map_eq_some_iff.mp acted
    cases same
    obtain ⟨kept, coherent⟩ :=
      genStratumWork_coherent genHash behind pool next work.toWork out carries generated
    exact ⟨kept, by simpa using coherent⟩

/-- A template that is not accepted either leaves the pool alone or keeps its lock. -/
theorem gbtSoloDecode_returned (pool next : TemplatePool) (resVal : Option Json)
    (hashSwap : Buffer 32) (now : Time) (optBtcSig : Option Bytes) (ret : Bool)
    (carries : Carries pool.headerBin pool.ntime)
      (decoded : gbtSoloDecode genHash diffFromTarget pool resVal hashSwap now optBtcSig =
      .returned next false ret) : Carries next.headerBin next.ntime := by
  cases ret with
  | true =>
    exact gbtSoloDecode_carries genHash diffFromTarget pool next resVal hashSwap now optBtcSig
      false decoded
  | false =>
    unfold gbtSoloDecode Source.GbtTemplate.storeHeader at decoded
    split at decoded
    · cases decoded
      exact carries
    · split at decoded
      · cases decoded
      · split at decoded
        · cases decoded
        · cases decoded
        · split at decoded
          · cases decoded
          · split at decoded
            · cases decoded
            · cases decoded

theorem soloSource_kept (s next : SoloPool) (u : SoloEvent) (made : Option RollWork)
    (carries : s.Carries) (acted : soloSource genHash diffFromTarget s u = some (next, made)) :
    next.Carries ∧ ∀ work ∈ made, Coherent work.toWork := by
  unfold soloSource at acted
  split at acted
  · cases acted
  · next free =>
    have agreed := carries (Bool.eq_false_iff.mpr free)
    cases u with
    | decode resVal hashSwap now optBtcSig =>
      dsimp only at acted
      split at acted
      · next pool locked ret decoded =>
        cases acted
        refine ⟨fun unlocked => ?_, by simp⟩
        dsimp only at unlocked
        subst unlocked
        exact gbtSoloDecode_returned genHash diffFromTarget s.pool pool resVal hashSwap now
          optBtcSig ret agreed decoded
      · cases acted
    | setup =>
      obtain ⟨ready, done, same⟩ := Option.map_eq_some_iff.mp acted
      cases same
      refine ⟨fun _ => ?_, by simp⟩
      dsimp only
      rw [(setupGbtSolo_frame s.pool ready done).1]
      exact agreed
    | generate work =>
      obtain ⟨⟨after, out⟩, generated, same⟩ := Option.map_eq_some_iff.mp acted
      cases same
      obtain ⟨kept, coherent⟩ :=
        genSoloWork_coherent genHash s.pool.toPool after work.toWork out agreed generated
      exact ⟨fun _ => kept, by simpa using coherent⟩

/-- The works of a source that starts in agreement are coherent in every run
whose steps meet the guard. -/
theorem source_always (source : P → υ → Option (P × Option RollWork)) (agrees : P → Prop)
    (guard : World P → Event υ → Prop)
    (kept : ∀ s u next made, agrees s.pool → guard s (.pool u) →
      source s.pool u = some (next, made) →
      agrees next ∧ ∀ work ∈ made, Coherent work.toWork)
    (pool : P) (start : agrees pool) (es : List (Event υ))
    (guarded : Guarded (step source) guard ⟨pool, []⟩ es) :
    Always (step source) AllCoherent ⟨pool, []⟩ es := by
  have inv : Always (step source) (fun s => agrees s.pool ∧ AllCoherent s) ⟨pool, []⟩ es := by
    refine always_of_guarded ?_ ⟨start, fun work member => absurd member List.not_mem_nil⟩ guarded
    intro s e next inv meets taken
    refine step_coherent source agrees s next e ?_ inv taken
    rintro u pool made rfl acted
    exact kept s u pool made inv.1 meets acted
  exact always_mono (fun s inv => inv.2) inv

/-- After a successful parse_notify or gbt_solo_decode all works generated, rolled
and copied are coherent, as long as every further notify keeps the header and the
string of the pool together. -/
theorem ntime_coherent :
    (∀ before pool val es, parseNotify before val = some (pool, true) →
      Guarded (step (stratumSource genHash)) Keeps ⟨pool, []⟩ es →
      Always (step (stratumSource genHash)) AllCoherent ⟨pool, []⟩ es) ∧
    (∀ before pool resVal hashSwap now optBtcSig locked es,
      gbtSoloDecode genHash diffFromTarget before resVal hashSwap now optBtcSig =
        .returned pool locked true →
      Always (step (soloSource genHash diffFromTarget)) AllCoherent ⟨⟨pool, locked⟩, []⟩ es) := by
  constructor
  · intro before pool val es parsed keeps
    refine source_always _ (fun pool => Carries pool.headerBin pool.ntime) Keeps ?_ pool
      (parseNotify_carries before pool val parsed) es keeps
    intro s u next made carries meets acted
    refine stratumSource_kept genHash s.pool next u made ?_ carries acted
    rintro val n rfl
    exact meets n
  · intro before pool resVal hashSwap now optBtcSig locked es accepted
    have carries :=
      gbtSoloDecode_carries genHash diffFromTarget before pool resVal hashSwap now optBtcSig locked
      accepted
    refine source_always _ SoloPool.Carries (fun _ _ => True) ?_ ⟨pool,
      locked⟩ (fun _ => carries) es
      (guarded_of_forall (fun _ _ => trivial) _)
    intro s u next made agreed _ acted
    exact soloSource_kept genHash diffFromTarget s.pool next u made agreed acted

/-- A subscribed pool. -/
def subscribed : Source.StratumTemplate.Pool :=
  Source.StratumTemplate.storeSubscription (Source.StratumTemplate.emptyPool 0) ⟨none,
    ascii "08000002", 4⟩

/-- A notify with the given merkle branch, second part of the coinbase and ntime. -/
def notifyOf (merkleArr : List Json) (coinbase2 ntime : String) : Option Json :=
  some (.array [.string (ascii "a"), .string (List.replicate 64 0x30),
    .string [], .string (ascii coinbase2), .array merkleArr, .string (ascii "20000000"),
    .string (ascii "1d00ffff"), .string (ascii ntime), .bool true])

def blankRoll : RollWork where
  toWork := makeWork
  rolls := .zero
  rolltime := 0
  clone := false
  mandatory := false
  tvStaged := 0

theorem plainNotify_accepted :
    ∃ stratum, parseNotify subscribed (notifyOf [] "" "6553f100") = some (stratum, true) := by
  have returns : (parseNotify subscribed (notifyOf [] "" "6553f100")).map (·.2) = some true := by
    decide +kernel
  obtain ⟨⟨stratum, ret⟩, parsed, same⟩ := Option.map_eq_some_iff.mp returns
  cases same
  exact ⟨stratum, parsed⟩

/-- Works before and after a notify that is given up at its coinbase, one of them rolled. -/
def tornRun : List (Event StratumEvent) :=
  [.pool (.generate [] blankRoll), .pool (.notify (notifyOf [] "0" "6553f200")),
    .pool (.generate [] blankRoll), .op 1 (.rollWorkNtime 5)]

theorem ntime_coherent_torn :
    ∃ stratum solo,
      parseNotify subscribed (notifyOf [] "" "6553f100") = some (stratum, true) ∧
      gbtSoloDecode (fun _ => .zero 32) (fun _ => 0) (Source.GbtTemplate.newPool 0 true)
        (some emptyTemplate)
        (.zero 32) ⟨0, 0⟩ (some (ascii "sig")) = .returned solo false true ∧
      Always (step (stratumSource fun _ => .zero 32)) AllCoherent ⟨stratum, []⟩ tornRun ∧
      (∀ es, Always (step (soloSource (fun _ => .zero 32) fun _ => 0)) AllCoherent ⟨⟨solo, false⟩,
        []⟩ es) := by
  obtain ⟨stratum, parsed⟩ := plainNotify_accepted
  obtain ⟨solo, accepted⟩ := emptyTemplate_accepted (fun _ => .zero 32) (fun _ => 0)
    (Source.GbtTemplate.newPool 0 true) (.zero 32) ⟨0, 0⟩
  obtain ⟨stratumRuns, soloRuns⟩ := ntime_coherent (fun _ => .zero 32) fun _ => 0
  refine ⟨stratum, solo, parsed, accepted, stratumRuns _ stratum _ tornRun parsed ?_,
    fun es => soloRuns _ solo _ _ _ _ _ es accepted⟩
  refine fun _ _ => ⟨trivial, fun _ _ => ⟨?_, fun _ _ => ⟨trivial, fun _ _ => ⟨trivial, trivial⟩⟩⟩⟩
  intro n read
  have sizes : (readNotify (notifyOf [] "0" "6553f200")).map (fun n =>
      (n.bbversion.length, n.prevHash.length, n.ntime.length, n.merkleArr.isEmpty)) =
        some (8, 64, 8, true) := by
    decide +kernel
  rw [read, Option.map_some, Option.some.injEq] at sizes
  simp only [Prod.mk.injEq, List.isEmpty_iff] at sizes
  obtain ⟨bbversion, prevHash, ntime, merkleArr⟩ := sizes
  have decodes : MerklesDecode n := by
    unfold MerklesDecode
    rw [merkleArr]
    exact nofun
  exact ⟨fun _ => ⟨bbversion.ge, prevHash.ge, ntime.ge⟩, fun fails => absurd decodes fails⟩

/-- A notify that is given up at its merkle node leaves its ntime beside the old header. -/
theorem given_up_ntime :
    ∃ stratum, parseNotify subscribed (notifyOf [] "" "6553f100") = some (stratum, true) ∧
      ¬ Always (step (stratumSource fun _ => .zero 32)) AllCoherent ⟨stratum, []⟩
        [.pool (.notify (notifyOf [.string (ascii "00")] "" "6553f200")),
          .pool (.generate [] blankRoll)] := by
  have ran : ((parseNotify subscribed (notifyOf [] "" "6553f100")).bind fun parsed =>
      (run (step (stratumSource fun _ => .zero 32)) ⟨parsed.1, []⟩
        [.pool (.notify (notifyOf [.string (ascii "00")] "" "6553f200")),
          .pool (.generate [] blankRoll)]).map
          fun s => s.works.map fun work => (work.ntime, ntimeBytes work.data)) =
      some [(some (ascii "6553f200"), [0x65, 0x53, 0xf1, 0x00])] := by decide +kernel
  obtain ⟨stratum, parsed⟩ := plainNotify_accepted
  rw [parsed, Option.bind_some] at ran
  obtain ⟨final, ran, works⟩ := Option.map_eq_some_iff.mp ran
  obtain ⟨work, single, fields⟩ := List.map_eq_singleton_iff.mp works
  obtain ⟨string, bytes⟩ := Prod.mk.inj fields
  refine ⟨stratum, parsed, fun coherent => ?_⟩
  obtain ⟨ntime, same, digits⟩ :=
    always_final coherent ran work (by rw [single]; exact List.mem_singleton_self work)
  rw [string, Option.some.injEq] at same
  have decoded := digits.decodes
  rw [bytes, ← same] at decoded
  exact absurd decoded (by decide +kernel)

end CgminerT4.Guarantees.NtimeCoherence
