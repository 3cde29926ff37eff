import CgminerT4.Guarantees.Sha256Digest
import CgminerT4.Source.HeaderHash

/-!
# Midstates stand for the first block of a header

gen_hash and regen_hash are SHA-256 applied twice. Each midstate that
calc_midstate writes is the hash value after the first block of every header with
its version, so that a device which continues from it finds the hash that
regen_hash computes from the whole header. The version left in the work is the
fourth, and with it the midstate that test_nonce agrees with.
-/
namespace CgminerT4.Guarantees.HeaderMidstates
open Library Library.ByteString Library.IteratedHash Source Source.Sha2 Source.HeaderHash
  Source.ShareSubmission
open Sha256Digest

/-- The words of a midstate in memory. -/
def stateWords (state : Bytes) : Sha256.Words :=
  let word (i : Nat) := UInt32.ofNat (ofLittleEndian ((state.drop (4 * i)).take 4))
  ⟨word 0, word 1, word 2, word 3, word 4, word 5, word 6, word 7⟩

/-- The digest a device finds from the state after the first block and the rest of a message. -/
def resume (state rest : Bytes) : Bytes :=
  (absorb Sha256.compress 64 (stateWords state) (rest ++ Sha256.padding (64 + rest.length))).bytes

/-- The index in `magicNum` of the version of each midstate. -/
def slotMagic : Slot → Nat
  | .midstate => 0
  | .midstate1 => 2
  | .midstate2 => 4
  | .midstate3 => 8

theorem sha256_32 (stack : Buffer (2 * 64)) (message : Bytes) :
    sha256 stack (Sha256.sha256 message) 32 = some (Sha256.sha256 (Sha256.sha256 message)) := by
  have length : (Sha256.sha256 message).length = 32 := Sha256.length_bytes _
  have digest := sha256_eq stack (Sha256.sha256 message) (by rw [length]; decide)
  rwa [length] at digest

/-- gen_hash applies SHA-256 twice. -/
theorem genHash_eq (stack : Nat → Buffer (2 * 64)) (data : Bytes) (short : data.length < 2 ^ 29) :
    genHash stack data data.length = some (Sha256.sha256 (Sha256.sha256 data)) := by
  have len : UInt32.ofInt data.length = UInt32.ofNat data.length := by
    rw [UInt32.ofInt, Int.emod_eq_of_lt (by omega) (by omega), Int.toNat_natCast]
  rw [genHash, len, sha256_eq (stack 0) data short, Option.bind_some, sha256_32]

theorem length_flip80 (data : Buffer 128) : (flip80 data).length = 80 := by
  rw [flip80, length_flipWords, List.length_take, data.length_eq]
  rfl

theorem length_flip64 (data : Buffer 128) : (flip64 data).length = 64 := by
  rw [flip64, length_flipWords, List.length_take, data.length_eq]
  rfl

theorem regenHash_eq (stack : Nat → Buffer (2 * 64)) (data : Buffer 128) :
    HeaderHash.regenHash stack data = some (Sha256.sha256 (Sha256.sha256 (flip80 data))) := by
  have digest := sha256_eq (stack 0) (flip80 data) (by rw [length_flip80]; decide)
  rw [length_flip80] at digest
  rw [HeaderHash.regenHash, show (80 : UInt32) = UInt32.ofNat 80 from rfl, digest, Option.bind_some,
    sha256_32]

theorem flipWords_append (front back : Bytes) (complete : 4 ∣ front.length) :
    flipWords (front ++ back) = flipWords front ++ flipWords back := by
  obtain ⟨n, length⟩ := complete
  induction n generalizing front with
  | zero =>
    rw [List.eq_nil_of_length_eq_zero length]
    rfl
  | succ n ih =>
    rcases front with _ | ⟨a, _ | ⟨b, _ | ⟨c, _ | ⟨d, rest⟩⟩⟩⟩
    · rfl
    · rw [List.length_singleton] at length; omega
    · simp only [List.length_cons, List.length_nil] at length; omega
    · simp only [List.length_cons, List.length_nil] at length; omega
    · simp only [List.length_cons] at length
      simp only [List.cons_append, flipWords, ih rest (by omega)]

/-- The flipped header is its first block and sixteen bytes. -/
theorem flip80_parts (data : Buffer 128) :
    flip80 data = flip64 data ++ flipWords ((data.bytes.drop 64).take 16) := by
  have size := data.length_eq
  rw [flip80, flip64, ← flipWords_append _ _ (by rw [List.length_take, size]; decide),
    ← List.take_add]

theorem length_words (l : List UInt32) :
    (l.flatMap fun word => littleEndian 4 word.toNat).length = 4 * l.length := by
  simp [List.length_flatMap, Nat.mul_comm]

/-- A word of a list of words laid out in memory. -/
theorem word_flatMap (l : List UInt32) (i : Nat) (inside : i < l.length) :
    UInt32.ofNat (ofLittleEndian
      (((l.flatMap fun word => littleEndian 4 word.toNat).drop (4 * i)).take 4)) = l[i] := by
  have parts : l = l.take i ++ [l[i]] ++ l.drop (i + 1) := by
    rw [List.append_assoc, List.singleton_append, List.getElem_cons_drop, List.take_append_drop]
  have layout : (l.flatMap fun word => littleEndian 4 word.toNat) =
      (l.take i).flatMap (fun word => littleEndian 4 word.toNat) ++ littleEndian 4 l[i].toNat ++
        (l.drop (i + 1)).flatMap (fun word => littleEndian 4 word.toNat) := by
    nth_rewrite 1 [parts]
    simp only [List.flatMap_append, List.flatMap_singleton]
  have front : ((l.take i).flatMap fun word => littleEndian 4 word.toNat).length = 4 * i := by
    rw [length_words, List.length_take, Nat.min_eq_left (Nat.le_of_lt inside)]
  rw [layout, take_drop_middle _ _ _ _ _ front (length_littleEndian _ _),
    ofLittleEndian_littleEndian, Nat.mod_eq_of_lt (show l[i].toNat < 256 ^ 4 from l[i].toNat_lt),
    UInt32.ofNat_toNat]

theorem stateWords_hashBytes (h : Hash) : stateWords (hashBytes h) = words h := by
  have word : ∀ i (inside : i < 8),
      UInt32.ofNat (ofLittleEndian (((hashBytes h).drop (4 * i)).take 4)) = h[i] := by
    intro i inside
    rw [hashBytes, word_flatMap h.toList i (by rw [Vector.length_toList]; exact inside),
      Vector.getElem_toList]
  simp only [stateWords, word 0 (by decide), word 1 (by decide), word 2 (by decide),
    word 3 (by decide), word 4 (by decide), word 5 (by decide), word 6 (by decide),
    word 7 (by decide), words]

/-- The state after the first block serves every header that begins with this block. -/
theorem firstBlock_resume (stack : Buffer (2 * 64)) (data : Buffer 128) :
    ∃ state, firstBlock stack data = some state ∧
      ∀ header : Buffer 128, header.bytes.take 64 = data.bytes.take 64 →
        Sha256.sha256 (flip80 header) =
          resume state (flipWords ((header.bytes.drop 64).take 16)) := by
  obtain ⟨ctx, made, held⟩ :=
    update_absorbed (sha256Init stack) [] (flip64 data) 64 (absorbed_init stack)
    (Nat.le_of_eq (length_flip64 data).symm) (by decide)
  have whole : (flip64 data).take (64 : UInt32).toNat = flip64 data :=
    List.take_of_length_le (Nat.le_of_eq (length_flip64 data))
  rw [whole, List.nil_append] at held
  refine ⟨hashBytes ctx.h, by rw [firstBlock, made, Option.map_some], fun header same => ?_⟩
  have block : flip64 header = flip64 data := by rw [flip64, flip64, same]
  have front := length_flip64 data
  rw [flip80_parts, block, Sha256.sha256_resume _ _ (by rw [front]), resume, stateWords_hashBytes,
    held.hash, front]

theorem buffer_ext {n : Nat} {a b : Buffer n} (same : a.bytes = b.bytes) : a = b := by
  cases a
  cases b
  cases same
  rfl

/-- A version written over the first four bytes. -/
theorem bytes_setVersion (data : Buffer 128) (i : Nat) :
    (setVersion data i).bytes = magicBytes i ++ data.bytes.drop 4 := by
  have four : (magicBytes i).length = 4 := length_littleEndian _ _
  change overwrite data.bytes 0 (magicBytes i) = _
  rw [overwrite, List.take_zero, List.nil_append, four]

theorem take_setVersion (data : Buffer 128) (i : Nat) :
    (setVersion data i).bytes.take 64 = magicBytes i ++ (data.bytes.drop 4).take 60 := by
  have four : (magicBytes i).length = 4 := length_littleEndian _ _
  rw [bytes_setVersion, List.take_append, four, List.take_of_length_le (by rw [four]; decide)]

theorem drop_setVersion (data : Buffer 128) (i : Nat) :
    (setVersion data i).bytes.drop 4 = data.bytes.drop 4 := by
  have four : (magicBytes i).length = 4 := length_littleEndian _ _
  rw [bytes_setVersion]
  exact four ▸ List.drop_left

theorem setVersion_setVersion (data : Buffer 128) (i j : Nat) :
    setVersion (setVersion data i) j = setVersion data j := by
  have bytes : (setVersion (setVersion data i) j).bytes = (setVersion data j).bytes := by
    rw [bytes_setVersion, drop_setVersion, bytes_setVersion]
  exact buffer_ext bytes

/-- What a slot promises: the digest of every header with its version. -/
def Serves (state : Bytes) (magic : Nat) (data : Buffer 128) : Prop :=
  ∀ header : Buffer 128, header.bytes.take 4 = magicBytes magic →
    (header.bytes.drop 4).take 60 = (data.bytes.drop 4).take 60 →
      Sha256.sha256 (flip80 header) = resume state (flipWords ((header.bytes.drop 64).take 16))

theorem versionMidstate_serves (stack : Buffer (2 * 64)) (work : MidstateWork) (slot : Slot)
    (magic : Nat) :
    ∃ out, versionMidstate stack work slot magic = some out ∧
      out.data = setVersion work.data magic ∧
      Serves (out.midstate slot) magic work.data ∧ ∀ other, other ≠ slot →
        out.midstate other = work.midstate other := by
  obtain ⟨state, made, serves⟩ := firstBlock_resume stack (setVersion work.data magic)
  refine ⟨⟨setVersion work.data magic, fun i => if i = slot then state else work.midstate i⟩, ?_,
    rfl, ?_, ?_⟩
  · rw [versionMidstate, made, Option.map_some]
  · intro header version rest
    have block : header.bytes.take 64 = (setVersion work.data magic).bytes.take 64 := by
      rw [take_setVersion, ← version, ← rest, ← List.take_add]
    change _ = resume (if slot = slot then state else work.midstate slot) _
    rw [if_pos rfl]
    exact serves header block
  · intro other different
    exact if_neg different

theorem serves_congr (state : Bytes) (magic i : Nat) (data : Buffer 128)
    (serves : Serves state magic (setVersion data i)) : Serves state magic data := by
  intro header version rest
  exact serves header version (by rw [drop_setVersion, rest])

/-- Each midstate of an A5 build continues to the double digest of every header with
its version, and the work is left with the version of the last: whatever nonce is
tried, the hash of the whole header is the one found from the fourth midstate. -/
theorem calcMidstate_serves (stack : Nat → Buffer (2 * 64)) (work : MidstateWork) :
    ∃ out, calcMidstate .A5 stack work = some out ∧ out.data = setVersion work.data 8 ∧
      (∀ (slot : Slot) (header : Buffer 128) (stack' : Nat → Buffer (2 * 64)),
        header.bytes.take 4 = magicBytes (slotMagic slot) →
        (header.bytes.drop 4).take 60 = (work.data.bytes.drop 4).take 60 →
          HeaderHash.regenHash stack' header =
            some (Sha256.sha256 (resume (out.midstate slot)
              (flipWords ((header.bytes.drop 64).take 16))))) ∧
      ∀ (nonce : UInt32) (stack' : Nat → Buffer (2 * 64)),
        HeaderHash.regenHash stack' (setNonce out.data nonce) =
          some (Sha256.sha256 (resume (out.midstate .midstate3)
            (flipWords ((work.data.bytes.drop 64).take 12) ++
              (littleEndian 4 nonce.toNat).reverse))) := by
  obtain ⟨w0, made0, data0, serves0, -⟩ := versionMidstate_serves (stack 0) work .midstate 0
  obtain ⟨w1, made1, data1, serves1, kept1⟩ := versionMidstate_serves (stack 1) w0 .midstate1 2
  obtain ⟨w2, made2, data2, serves2, kept2⟩ := versionMidstate_serves (stack 2) w1 .midstate2 4
  obtain ⟨w3, made3, data3, serves3, kept3⟩ := versionMidstate_serves (stack 3) w2 .midstate3 8
  have at1 : w1.data = setVersion work.data 2 := by rw [data1, data0, setVersion_setVersion]
  have at2 : w2.data = setVersion work.data 4 := by rw [data2, at1, setVersion_setVersion]
  have at3 : w3.data = setVersion work.data 8 := by rw [data3, at2, setVersion_setVersion]
  have all : ∀ slot : Slot, Serves (w3.midstate slot) (slotMagic slot) work.data
    | .midstate => by
      rw [kept3 .midstate (by decide), kept2 .midstate (by decide), kept1 .midstate (by decide)]
      exact serves0
    | .midstate1 => by
      rw [kept3 .midstate1 (by decide), kept2 .midstate1 (by decide)]
      exact serves_congr _ _ 0 _ (data0 ▸ serves1)
    | .midstate2 => by
      rw [kept3 .midstate2 (by decide)]
      exact serves_congr _ _ 2 _ (at1 ▸ serves2)
    | .midstate3 => serves_congr _ _ 4 _ (at2 ▸ serves3)
  have headers : ∀ (slot : Slot) (header : Buffer 128) (stack' : Nat → Buffer (2 * 64)),
      header.bytes.take 4 = magicBytes (slotMagic slot) →
      (header.bytes.drop 4).take 60 = (work.data.bytes.drop 4).take 60 →
        HeaderHash.regenHash stack' header =
          some (Sha256.sha256 (resume (w3.midstate slot)
            (flipWords ((header.bytes.drop 64).take 16)))) := by
    intro slot header stack' version rest
    rw [regenHash_eq, all slot header version rest]
  refine ⟨w3, ?_, at3, headers, fun nonce stack' => ?_⟩
  · simp only [calcMidstate, made0, Option.bind_some, made1, made2, made3]
  · -- a nonce is written behind the first block
    have nonceLength : (littleEndian 4 nonce.toNat).length = 4 := length_littleEndian _ _
    have inside : 76 + (littleEndian 4 nonce.toNat).length ≤ w3.data.bytes.length := by
      rw [nonceLength, w3.data.length_eq]
      decide
    have untouched : ∀ j n, j + n ≤ 76 →
        ((setNonce w3.data nonce).bytes.drop j).take n = (w3.data.bytes.drop j).take n :=
      fun j n before => slice_overwrite_disjoint _ _ _ _ _ inside (Or.inl before)
    have version : (setNonce w3.data nonce).bytes.take 4 = magicBytes (slotMagic .midstate3) := by
      have four : (magicBytes 8).length = 4 := length_littleEndian _ _
      have cut := untouched 0 4 (by decide)
      rw [List.drop_zero, List.drop_zero, at3, bytes_setVersion, List.take_left' four] at cut
      rw [at3]
      exact cut
    have middle : ((setNonce w3.data nonce).bytes.drop 4).take 60 =
        (work.data.bytes.drop 4).take 60 := by
      rw [untouched 4 60 (by decide), at3, drop_setVersion]
    have rest : ((setNonce w3.data nonce).bytes.drop 64).take 16 =
        (work.data.bytes.drop 64).take 12 ++ littleEndian 4 nonce.toNat := by
      have written := slice_overwrite_same w3.data.bytes (littleEndian 4 nonce.toNat) 76 inside
      have behind : w3.data.bytes.drop 64 = work.data.bytes.drop 64 := by
        have dropped := congrArg (List.drop 60) (drop_setVersion work.data 8)
        rw [List.drop_drop, List.drop_drop] at dropped
        rw [at3]
        exact dropped
      rw [nonceLength] at written
      rw [show 16 = 12 + 4 from rfl, List.take_add, untouched 64 12 (by decide),
        List.drop_drop, behind]
      exact congrArg _ written
    have twelve : 4 ∣ ((work.data.bytes.drop 64).take 12).length := by
      rw [List.length_take, List.length_drop, work.data.length_eq]
      decide
    rw [headers .midstate3 _ stack' version middle, rest, flipWords_append _ _ twelve]
    rfl

end CgminerT4.Guarantees.HeaderMidstates
