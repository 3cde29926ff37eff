import CgminerT4.Source.Sha2

/-!
# The digest of sha2.c is SHA-256

The macros are the functions of the standard, a turn of the loop of
sha256_transf is its compression function, and the context holds the message
hashed so far in whatever pieces it came. sha256_final writes the length in four
bytes only, so that the digest is the standard one for messages below 2^29 bytes.
-/
namespace CgminerT4.Guarantees.Sha256Digest
open Library Library.ByteString Library.IteratedHash Source.Sha2

theorem toNat_shifted (b : UInt8) (s : UInt32) (inside : s.toNat ≤ 24) :
    (b.toUInt32 <<< s).toNat = b.toNat * 2 ^ s.toNat := by
  have byte : b.toNat < 2 ^ 8 := b.toNat_lt
  have bound : b.toNat * 2 ^ s.toNat < 2 ^ 32 := by
    calc b.toNat * 2 ^ s.toNat < 2 ^ 8 * 2 ^ s.toNat :=
      Nat.mul_lt_mul_of_pos_right byte (Nat.two_pow_pos _)
      _ = 2 ^ (8 + s.toNat) := (Nat.pow_add ..).symm
      _ ≤ 2 ^ 32 := Nat.pow_le_pow_right (by decide) (by omega)
  rw [UInt32.toNat_shiftLeft, UInt8.toNat_toUInt32, Nat.mod_eq_of_lt (by omega : s.toNat < 32),
    Nat.shiftLeft_eq, Nat.mod_eq_of_lt bound]

/-- Four bytes joined by shifts. -/
theorem joined (b0 b1 b2 b3 : UInt8) :
    (b3.toUInt32 ||| b2.toUInt32 <<< 8 ||| b1.toUInt32 <<< 16 ||| b0.toUInt32 <<< 24) =
      UInt32.ofNat (ofLittleEndian [b3, b2, b1, b0]) := by
  have h0 : b0.toNat < 256 := b0.toNat_lt
  have h1 : b1.toNat < 256 := b1.toNat_lt
  have h2 : b2.toNat < 256 := b2.toNat_lt
  have h3 : b3.toNat < 256 := b3.toNat_lt
  have low : b3.toNat ||| b2.toNat * 2 ^ 8 = b3.toNat + b2.toNat * 2 ^ 8 := by
    rw [Nat.or_comm, ← Nat.shiftLeft_eq, ← Nat.shiftLeft_add_eq_or_of_lt h3, Nat.add_comm]
  have middle : (b3.toNat + b2.toNat * 2 ^ 8) ||| b1.toNat * 2 ^ 16 =
      b3.toNat + b2.toNat * 2 ^ 8 + b1.toNat * 2 ^ 16 := by
    rw [Nat.or_comm, ← Nat.shiftLeft_eq b1.toNat, ← Nat.shiftLeft_add_eq_or_of_lt (by omega),
      Nat.add_comm]
  have high : (b3.toNat + b2.toNat * 2 ^ 8 + b1.toNat * 2 ^ 16) ||| b0.toNat * 2 ^ 24 =
      b3.toNat + b2.toNat * 2 ^ 8 + b1.toNat * 2 ^ 16 + b0.toNat * 2 ^ 24 := by
    rw [Nat.or_comm, ← Nat.shiftLeft_eq b0.toNat, ← Nat.shiftLeft_add_eq_or_of_lt (by omega),
      Nat.add_comm]
  apply UInt32.toNat_inj.mp
  rw [UInt32.toNat_or, UInt32.toNat_or, UInt32.toNat_or, toNat_shifted b2 8 (by decide),
    toNat_shifted b1 16 (by decide), toNat_shifted b0 24 (by decide), UInt8.toNat_toUInt32]
  change b3.toNat ||| b2.toNat * 2 ^ 8 ||| b1.toNat * 2 ^ 16 ||| b0.toNat * 2 ^ 24 = _
  rw [low, middle, high, UInt32.toNat_ofNat_of_lt']
  · simp only [ofLittleEndian]
    omega
  · simp only [ofLittleEndian, UInt32.size]
    omega

theorem take_four (l : Bytes) (i : Nat) (inside : i + 4 ≤ l.length) :
    (l.drop i).take 4 = [l.getD i 0, l.getD (i + 1) 0, l.getD (i + 2) 0, l.getD (i + 3) 0] := by
  rw [List.drop_eq_getElem_cons (by omega), List.drop_eq_getElem_cons (by omega),
    List.drop_eq_getElem_cons (by omega), List.drop_eq_getElem_cons (by omega)]
  simp (disch := omega) only [List.take_succ_cons, List.take_zero, List.getD_eq_getElem?_getD,
    List.getElem?_eq_getElem, Option.getD_some, Nat.add_assoc, Nat.reduceAdd]

theorem pack32_eq (sub : Buffer 64) (j : Nat) (inside : j < 16) :
    pack32 sub j = Sha256.blockWord sub.bytes j := by
  have size := sub.length_eq
  rw [pack32, joined, Sha256.blockWord, take_four _ _ (by omega)]
  rfl

theorem unpack32_eq (x : UInt32) : unpack32 x = Sha256.bigEndian 4 x.toNat := by
  have shifted : ∀ s : UInt32, s.toNat < 32 →
      (x >>> s).toUInt8 = UInt8.ofNat (x.toNat / 2 ^ s.toNat) := by
    intro s small
    apply UInt8.toNat_inj.mp
    rw [UInt32.toNat_toUInt8, UInt32.toNat_shiftRight, Nat.mod_eq_of_lt small,
      Nat.shiftRight_eq_div_pow, UInt8.toNat_ofNat']
  rw [unpack32, shifted 24 (by decide), shifted 16 (by decide), shifted 8 (by decide)]
  simp only [Sha256.bigEndian, littleEndian, List.reverse_cons, List.reverse_nil, List.nil_append,
    List.cons_append, Nat.div_div_eq_div_mul]
  rfl


theorem rotr_eq (x n : UInt32) (positive : 0 < n.toNat) (small : n.toNat < 32) :
    rotr x n = Sha256.rotr n.toNat x := by
  have back : (32 - n).toNat = 32 - n.toNat := by
    rw [UInt32.toNat_sub_of_le _ _ (UInt32.le_iff_toNat_le.mpr (Nat.le_of_lt small))]
    rfl
  apply UInt32.toNat_inj.mp
  rw [rotr, Sha256.rotr, UInt32.toNat_or, UInt32.toNat_shiftRight, UInt32.toNat_shiftLeft, back,
    Nat.mod_eq_of_lt small, Nat.mod_eq_of_lt (by omega : 32 - n.toNat < 32)]
  change _ = (x.toBitVec.rotateRight n.toNat).toNat
  rw [BitVec.rotateRight_def, Nat.mod_eq_of_lt small, BitVec.toNat_or, BitVec.toNat_ushiftRight,
    BitVec.toNat_shiftLeft]
  rfl

theorem f1_eq (x : UInt32) : sha256F1 x = Sha256.bigSigma0 x := by
  rw [sha256F1, rotr_eq x 2 (by decide) (by decide), rotr_eq x 13 (by decide) (by decide),
    rotr_eq x 22 (by decide) (by decide)]
  rfl

theorem f2_eq (x : UInt32) : sha256F2 x = Sha256.bigSigma1 x := by
  rw [sha256F2, rotr_eq x 6 (by decide) (by decide), rotr_eq x 11 (by decide) (by decide),
    rotr_eq x 25 (by decide) (by decide)]
  rfl

theorem f3_eq (x : UInt32) : sha256F3 x = Sha256.smallSigma0 x := by
  rw [sha256F3, rotr_eq x 7 (by decide) (by decide), rotr_eq x 18 (by decide) (by decide)]
  rfl

theorem f4_eq (x : UInt32) : sha256F4 x = Sha256.smallSigma1 x := by
  rw [sha256F4, rotr_eq x 17 (by decide) (by decide), rotr_eq x 19 (by decide) (by decide)]
  rfl

/-- The cube root of a prime has its constant behind the whole part. -/
theorem k_root : ∀ t < 64, Sha256.primes.getD t 0 < 2 ^ 12 ∧ ∃ whole < 8,
    (whole * 2 ^ 32 + (sha256K.getD t 0).toNat) ^ 3 ≤ Sha256.primes.getD t 0 * 2 ^ (32 * 3) ∧
      Sha256.primes.getD t 0 * 2 ^ (32 * 3) <
        (whole * 2 ^ 32 + (sha256K.getD t 0).toNat + 1) ^ 3 := by
  rw [Sha256.primes_eq]
  decide +kernel

theorem k_eq (t : Nat) (inside : t < 64) : sha256K.getD t 0 = Sha256.k t := by
  obtain ⟨small, whole, -, low, high⟩ := k_root t inside
  have word : (sha256K.getD t 0).toNat < 2 ^ 32 := (sha256K.getD t 0).toNat_lt
  rw [Sha256.k, Sha256.rootWord_eq (by decide) small low high, ← UInt32.toNat_inj,
    UInt32.toNat_ofNat']
  omega

theorem words_h0 : words sha256H0 = Sha256.initial := by
  simp only [Sha256.initial, Sha256.primes_eq]
  decide +kernel

/-- The loop of SHA256_SCR up to word `16 + n`. -/
theorem scr_loop (sub : Buffer 64) (n : Nat) :
    (List.range' 16 n).foldl (fun w j => w ++ [sha256Scr w j]) ((List.range 16).map (pack32 sub)) =
      (List.range (16 + n)).map (Sha256.schedule sub.bytes) := by
  induction n with
  | zero =>
    exact List.map_congr_left fun j member => by
      rw [pack32_eq sub j (List.mem_range.mp member),
        Sha256.schedule_input _ _ (List.mem_range.mp member)]
  | succ n ih =>
    have earlier : ∀ i < 16 + n, ((List.range (16 + n)).map (Sha256.schedule sub.bytes)).getD i 0 =
        Sha256.schedule sub.bytes i := by
      intro i inside
      rw [List.getD_eq_getElem?_getD, List.getElem?_map, List.getElem?_range inside,
        Option.map_some, Option.getD_some]
    rw [List.range'_1_concat, List.foldl_append, ih, List.foldl_cons, List.foldl_nil,
      ← Nat.add_assoc, List.range_succ, List.map_append, List.map_singleton,
      Sha256.schedule_later _ _ (by omega), sha256Scr, earlier _ (by omega), earlier _ (by omega),
      earlier _ (by omega), earlier _ (by omega), f3_eq, f4_eq]

theorem messageWords_eq (sub : Buffer 64) :
    messageWords sub = (List.range 64).map (Sha256.schedule sub.bytes) :=
  scr_loop sub 48

theorem words_round (sub : Buffer 64) (wv : Hash) (t : Nat) (inside : t < 64) :
    words (round (messageWords sub) wv t) =
      Sha256.step (words wv) (Sha256.k t) (Sha256.schedule sub.bytes t) := by
  have word : (messageWords sub).getD t 0 = Sha256.schedule sub.bytes t := by
    rw [messageWords_eq, List.getD_eq_getElem?_getD, List.getElem?_map, List.getElem?_range inside,
      Option.map_some, Option.getD_some]
  simp only [Source.Sha2.round, word, k_eq t inside, f1_eq, f2_eq]
  rfl

theorem words_rounds (sub : Buffer 64) (h : Hash) (n : Nat) (inside : n ≤ 64) :
    words ((List.range n).foldl (round (messageWords sub)) h) =
      Sha256.rounds sub.bytes (words h) n := by
  induction n with
  | zero => rfl
  | succ n ih =>
    rw [List.range_succ, List.foldl_append, List.foldl_cons, List.foldl_nil,
      words_round sub _ n inside, ih (by omega), Sha256.rounds_succ]

/-- A turn of the loop of sha256_transf is the compression function. -/
theorem words_transfBlock (h : Hash) (sub : Buffer 64) :
    words (transfBlock h sub) = Sha256.compress (words h) sub.bytes := by
  rw [Sha256.compress, ← words_rounds sub h 64 (Nat.le_refl 64), transfBlock]
  simp [words, Sha256.Words.add]

/-- sha256_transf absorbs the blocks of a message that has them. -/
theorem transfFrom_eq (h : Hash) (message : Bytes) (i left : Nat)
    (inside : 64 * (i + left) ≤ message.length) (small : 64 * (i + left) ≤ 2 ^ 31) :
    ∃ out, transfFrom h message i left = some out ∧
      words out = absorbBlocks Sha256.compress 64 (words h) (message.drop (64 * i)) left := by
  induction left generalizing h i with
  | zero => exact ⟨h, rfl, rfl⟩
  | succ left ih =>
    rw [transfFrom, dif_pos ⟨by omega, by omega⟩]
    obtain ⟨out, done, value⟩ := ih (transfBlock h ⟨(message.drop (64 * i)).take 64, by
      rw [List.length_take, List.length_drop]; omega⟩) (i + 1) (by omega) (by omega)
    refine ⟨out, done, ?_⟩
    rw [value, absorbBlocks, words_transfBlock, List.drop_drop]
    rfl

theorem transf_eq (h : Hash) (message : Bytes) (blockNb : UInt32)
    (inside : 64 * blockNb.toNat ≤ message.length) (small : 64 * blockNb.toNat ≤ 2 ^ 31) :
    ∃ out, sha256Transf h message blockNb = some out ∧
      words out = absorbBlocks Sha256.compress 64 (words h) message blockNb.toNat := by
  have run := transfFrom_eq h message 0 blockNb.toNat (by omega) (by omega)
  rwa [Nat.mul_zero, List.drop_zero] at run


/-- The context has taken in a message: complete blocks in the hash value, the rest in its block. -/
structure Absorbed (ctx : Sha256Ctx) (message : Bytes) : Prop where
  hash : words ctx.h = absorb Sha256.compress 64 Sha256.initial message
  len : ctx.len.toNat = message.length % 64
  block : ctx.block.bytes.take (message.length % 64) = pending 64 message
  totLen : ctx.totLen = UInt32.ofNat (message.length / 64 * 64)

theorem absorbed_init (stack : Buffer (2 * 64)) : Absorbed (sha256Init stack) [] where
  hash := by
    rw [absorb_short _ _ _ _ (by decide)]
    exact words_h0
  len := rfl
  block := rfl
  totLen := rfl

theorem bytesAt_eq (message : Bytes) (ofs n : UInt32)
    (inside : ofs.toNat + n.toNat ≤ message.length) :
    bytesAt message ofs n = some ((message.drop ofs.toNat).take n.toNat) := if_pos inside

theorem toNat_shl6 (x : UInt32) (small : x.toNat < 2 ^ 26) : (x <<< 6).toNat = x.toNat * 64 := by
  rw [UInt32.toNat_shiftLeft, Nat.shiftLeft_eq]
  exact Nat.mod_eq_of_lt (show x.toNat * 64 < 2 ^ 32 by omega)

/-- A piece that does not complete the block. -/
theorem update_short (ctx : Sha256Ctx) (before message : Bytes) (len : UInt32)
    (held : Absorbed ctx before) (given : len.toNat ≤ message.length)
    (short : before.length % 64 + len.toNat < 64) :
    ∃ out, sha256Update ctx message len = some out ∧
      Absorbed out (before ++ message.take len.toNat) := by
  have start := held.len
  have room : (64 - ctx.len).toNat = 64 - ctx.len.toNat :=
    UInt32.toNat_sub_of_le _ _ (UInt32.le_iff_toNat_le.mpr (show ctx.len.toNat ≤ 64 by omega))
  have sum : (ctx.len + len).toNat = ctx.len.toNat + len.toNat := by
    rw [UInt32.toNat_add, Nat.mod_eq_of_lt (by omega)]
  have rem : (if len < 64 - ctx.len then len else 64 - ctx.len) = len :=
    if_pos (UInt32.lt_iff_toNat_lt.mpr (by omega))
  have early : ctx.len + len < 64 := UInt32.lt_iff_toNat_lt.mpr (by rw [sum, start]; exact short)
  have piece : (message.take len.toNat).length = len.toNat := by rw [List.length_take]; omega
  have front := bytesAt_eq message 0 len (by rw [UInt32.toNat_zero]; omega)
  rw [UInt32.toNat_zero, List.drop_zero] at front
  obtain ⟨block, stored, bytes⟩ :=
    ctx.block.store_of_fits ctx.len.toNat (message.take len.toNat) (by omega)
  have length : (before ++ message.take len.toNat).length = before.length + len.toNat := by
    rw [List.length_append, piece]
  have joined : (pending 64 before ++ message.take len.toNat).length < 64 := by
    rw [List.length_append, length_pending, piece]
    exact short
  refine ⟨{ ctx with block, len := ctx.len + len }, ?_, ?_, ?_, ?_, ?_⟩
  · simp only [sha256Update, rem, front, stored, Option.bind_some, if_pos early]
  · rw [absorb_piece _ 64 (by decide), absorb_short _ _ _ _ joined]
    exact held.hash
  · rw [sum, length]
    omega
  · have written :=
      take_overwrite ctx.block.bytes (message.take len.toNat) (pending 64 before) ctx.len.toNat
      (by rw [start]; exact held.block) (by rw [ctx.block.length_eq]; omega)
    rw [pending_piece 64 (by decide), pending_short 64 _ joined, length]
    have place : (before.length + len.toNat) % 64 =
      ctx.len.toNat + (message.take len.toNat).length := by omega
    rw [place]
    exact bytes ▸ written
  · have same : (before.length + len.toNat) / 64 = before.length / 64 := by omega
    rw [length, same]
    exact held.totLen

/-- A piece that completes the block, perhaps with further blocks behind. -/
theorem update_long (ctx : Sha256Ctx) (before message : Bytes) (len : UInt32)
    (held : Absorbed ctx before) (given : len.toNat ≤ message.length) (small : len.toNat < 2 ^ 31)
    (long : 64 ≤ before.length % 64 + len.toNat) :
    ∃ out, sha256Update ctx message len = some out ∧
      Absorbed out (before ++ message.take len.toNat) := by
  have start := held.len
  have room : (64 - ctx.len).toNat = 64 - ctx.len.toNat :=
    UInt32.toNat_sub_of_le _ _ (UInt32.le_iff_toNat_le.mpr (show ctx.len.toNat ≤ 64 by omega))
  have sum : (ctx.len + len).toNat = ctx.len.toNat + len.toNat := by
    rw [UInt32.toNat_add, Nat.mod_eq_of_lt (by omega)]
  have rem : (if len < 64 - ctx.len then len else 64 - ctx.len) = 64 - ctx.len :=
    if_neg fun less => by have := UInt32.lt_iff_toNat_lt.mp less; omega
  have full : ¬ ctx.len + len < 64 := fun less => by
    have := UInt32.lt_iff_toNat_lt.mp less
    rw [sum] at this
    exact absurd this (by change ¬ _ < 64; omega)
  -- the piece is the end of the first block, the blocks behind it and what is left over
  obtain ⟨fill, fillDef⟩ : ∃ fill, fill = 64 - before.length % 64 := ⟨_, rfl⟩
  have fillRoom : (64 - ctx.len).toNat = fill := by rw [room, start, fillDef]
  have newLen : (len - (64 - ctx.len)).toNat = len.toNat - fill := by
    rw [UInt32.toNat_sub_of_le _ _ (UInt32.le_iff_toNat_le.mpr (by omega)), fillRoom]
  have blockNb : ((len - (64 - ctx.len)) / 64).toNat = (len.toNat - fill) / 64 := by
    rw [UInt32.toNat_div, newLen]
    rfl
  have left : ((len - (64 - ctx.len)) % 64).toNat = (len.toNat - fill) % 64 := by
    rw [UInt32.toNat_mod, newLen]
    rfl
  have front := bytesAt_eq message 0 (64 - ctx.len) (by rw [UInt32.toNat_zero]; omega)
  rw [UInt32.toNat_zero, List.drop_zero, fillRoom] at front
  have frontLength : (message.take fill).length = fill := by rw [List.length_take]; omega
  obtain ⟨block, stored, bytes⟩ :=
    ctx.block.store_of_fits ctx.len.toNat (message.take fill) (by omega)
  have first : block.bytes.take 64 = pending 64 before ++ message.take fill := by
    have written :=
      take_overwrite ctx.block.bytes (message.take fill) (pending 64 before) ctx.len.toNat
      (by rw [start]; exact held.block) (by rw [ctx.block.length_eq]; omega)
    rw [frontLength, show ctx.len.toNat + fill = 64 by omega] at written
    exact bytes ▸ written
  obtain ⟨h, once, onceValue⟩ := transf_eq ctx.h block.bytes 1
    (by rw [block.length_eq]; decide) (by decide)
  obtain ⟨h', rest, restValue⟩ := transf_eq h (message.drop fill) ((len - (64 - ctx.len)) / 64)
    (by rw [blockNb, List.length_drop]; omega) (by rw [blockNb]; omega)
  have shift := toNat_shl6 ((len - (64 - ctx.len)) / 64) (by rw [blockNb]; omega)
  have behind :=
    bytesAt_eq (message.drop fill) (((len - (64 - ctx.len)) / 64) <<< 6)
      ((len - (64 - ctx.len)) % 64)
    (by rw [shift, blockNb, left, List.length_drop]; omega)
  rw [shift, blockNb, left] at behind
  have behindLength :
      (((message.drop fill).drop ((len.toNat - fill) / 64 * 64)).take
      ((len.toNat - fill) % 64)).length =
      (len.toNat - fill) % 64 := by
    rw [List.length_take, List.length_drop, List.length_drop]
    omega
  obtain ⟨final, kept, finalBytes⟩ := block.store_of_fits 0
    (((message.drop fill).drop ((len.toNat - fill) / 64 * 64)).take ((len.toNat - fill) % 64))
      (by omega)
  have parts : message.take len.toNat =
      message.take fill ++ (message.drop fill).take (len.toNat - fill) := by
    rw [← List.take_add, show fill + (len.toNat - fill) = len.toNat by omega]
  have tailLength : ((message.drop fill).take (len.toNat - fill)).length = len.toNat - fill := by
    rw [List.length_take, List.length_drop]
    omega
  have blockLength : (pending 64 before ++ message.take fill).length = 64 := by
    rw [List.length_append, length_pending, frontLength]
    omega
  have length : (before ++ message.take len.toNat).length = before.length + len.toNat := by
    rw [List.length_append, List.length_take, Nat.min_eq_left given]
  have tailPending : pending 64 (before ++ message.take len.toNat) =
      ((message.drop fill).drop ((len.toNat - fill) / 64 * 64)).take ((len.toNat - fill) % 64) := by
    rw [pending_piece 64 (by decide), parts, ← List.append_assoc, pending_append 64 (by decide) _ _
      (by rw [blockLength]), pending, tailLength, List.drop_take, Nat.mod_eq_sub_div_mul]
  refine ⟨{
      totLen := ctx.totLen + ((len - (64 - ctx.len)) / 64 + 1) <<< 6
      len := (len - (64 - ctx.len)) % 64
      block := final
      h := h' }, ?_, ?_, ?_, ?_, ?_⟩
  · simp only [sha256Update, rem, front, stored, Option.bind_some, if_neg full, once, fillRoom,
      rest, behind, kept, Option.map_some]
  · have absorbed :
        absorbBlocks Sha256.compress 64 (words h) (message.drop fill) ((len.toNat - fill) / 64) =
        absorb Sha256.compress 64 (words h) ((message.drop fill).take (len.toNat - fill)) := by
      have inFront :=
        absorbBlocks_append Sha256.compress 64 (words h)
          ((message.drop fill).take (len.toNat - fill))
        ((message.drop fill).drop (len.toNat - fill)) ((len.toNat - fill) / 64)
        (by rw [tailLength]; exact Nat.div_mul_le_self _ _)
      rw [List.take_append_drop] at inFront
      rw [inFront, absorb, tailLength]
    have one :
        words h = Sha256.compress (words ctx.h) (pending 64 before ++ message.take fill) := by
      rw [onceValue, ← first]
      rfl
    rw [restValue, blockNb, absorbed, one, held.hash, absorb_piece _ 64 (by decide),
      parts, ← List.append_assoc, absorb_append _ 64 (by decide) _ _ _ (by rw [blockLength]),
      absorb_block _ 64 _ _ (by decide) blockLength]
  · rw [left, length]
    omega
  · have place : (before.length + len.toNat) % 64 = 0 + (((message.drop fill).drop
        ((len.toNat - fill) / 64 * 64)).take ((len.toNat - fill) % 64)).length := by
      rw [behindLength]
      omega
    have written := take_overwrite block.bytes (((message.drop fill).drop
      ((len.toNat - fill) / 64 * 64)).take ((len.toNat - fill) % 64)) [] 0 rfl (Nat.zero_le _)
    rw [length, place, tailPending]
    exact finalBytes ▸ written
  · have count : (before.length + len.toNat) / 64 * 64 =
        before.length / 64 * 64 + ((len.toNat - fill) / 64 + 1) * 64 := by
      omega
    have shifted : ((len - (64 - ctx.len)) / 64 + 1) <<< 6 =
        UInt32.ofNat (((len.toNat - fill) / 64 + 1) * 64) := by
      have next : ((len - (64 - ctx.len)) / 64 + 1).toNat = (len.toNat - fill) / 64 + 1 := by
        rw [UInt32.toNat_add, blockNb]
        exact Nat.mod_eq_of_lt (show (len.toNat - fill) / 64 + 1 < 2 ^ 32 by omega)
      apply UInt32.toNat_inj.mp
      rw [toNat_shl6 _ (by rw [next]; omega),
        next, UInt32.toNat_ofNat_of_lt' (show _ < 2 ^ 32 by omega)]
    rw [length, count, UInt32.ofNat_add, ← held.totLen, shifted]


theorem update_absorbed (ctx : Sha256Ctx) (before message : Bytes) (len : UInt32)
    (held : Absorbed ctx before) (given : len.toNat ≤ message.length) (small : len.toNat < 2 ^ 31) :
    ∃ out, sha256Update ctx message len = some out ∧
      Absorbed out (before ++ message.take len.toNat) := by
  by_cases short : before.length % 64 + len.toNat < 64
  · exact update_short ctx before message len held given short
  · exact update_long ctx before message len held given small (not_lt.mp short)

/-- A number that fits four bytes, in eight. -/
theorem bigEndian_eight (x : Nat) (small : x < 2 ^ 32) :
    Sha256.bigEndian 8 x = List.replicate 4 0 ++ Sha256.bigEndian 4 x := by
  have top : x / 256 / 256 / 256 / 256 = 0 := by omega
  simp only [Sha256.bigEndian, littleEndian, top]
  rfl

theorem digest_eq (h : Hash) : h.toList.flatMap unpack32 = (words h).bytes := by
  have list : h.toList = [h[0], h[1], h[2], h[3], h[4], h[5], h[6], h[7]] := by
    apply List.ext_getElem (by simp)
    intro i _ inside
    have small : i < 8 := inside
    have cases : i = 0 ∨ i = 1 ∨ i = 2 ∨ i = 3 ∨ i = 4 ∨ i = 5 ∨ i = 6 ∨ i = 7 := by omega
    rcases cases with rfl | rfl | rfl | rfl | rfl | rfl | rfl | rfl <;> simp
  rw [list, Sha256.Words.bytes]
  simp only [List.flatMap_cons, List.flatMap_nil, unpack32_eq]
  rfl

theorem toNat_bits (ctx : Sha256Ctx) (message : Bytes) (held : Absorbed ctx message) :
    ((ctx.totLen + ctx.len) <<< 3).toNat = 8 * message.length % 2 ^ 32 := by
  have len : ctx.len = UInt32.ofNat (message.length % 64) := by rw [← held.len, UInt32.ofNat_toNat]
  have total : message.length / 64 * 64 + message.length % 64 = message.length :=
    Nat.div_add_mod' _ _
  rw [held.totLen, len, ← UInt32.ofNat_add, total, UInt32.toNat_shiftLeft, Nat.shiftLeft_eq,
    UInt32.toNat_ofNat', Nat.mod_mul_mod, Nat.mul_comm]
  rfl

/-- What sha256_final writes behind the pending bytes. -/
theorem final_layout (block : Buffer (2 * 64)) (tail bits : Bytes) (zeros : Nat)
    (held : block.bytes.take tail.length = tail) (size : bits.length = 4)
    (room : tail.length + 9 + zeros ≤ 128) :
    ∃ out, block.storeAll [(tail.length, List.replicate (9 + zeros) 0), (tail.length, [0x80]),
        (tail.length + 9 + zeros - 4, bits)] = some out ∧
      out.bytes.take (tail.length + 9 + zeros) =
        tail ++ (0x80 :: List.replicate zeros 0 ++ (List.replicate 4 0 ++ bits)) := by
  have some :=
    (Buffer.storeAll_isSome block [(tail.length, List.replicate (9 + zeros) 0),
      (tail.length, [0x80]),
    (tail.length + 9 + zeros - 4, bits)]).mpr (by
      intro write member
      simp only [List.mem_cons, List.not_mem_nil, or_false] at member
      rcases member with rfl | rfl | rfl
      · rw [List.length_replicate]; omega
      · rw [List.length_singleton]; omega
      · rw [size]; omega)
  obtain ⟨out, stored⟩ := Option.isSome_iff_exists.mp some
  refine ⟨out, stored, ?_⟩
  have bytes := Buffer.storeAll_bytes block out _ stored
  simp only [List.foldl_cons, List.foldl_nil] at bytes
  obtain ⟨back, backDef⟩ : ∃ back, back = block.bytes.drop (tail.length + 9 + zeros) := ⟨_, rfl⟩
  have cleared : overwrite block.bytes tail.length (List.replicate (9 + zeros) 0) =
      tail ++ [0] ++ (List.replicate zeros 0 ++ List.replicate 4 0 ++ List.replicate 4 0 ++
        back) := by
    rw [overwrite, held, List.length_replicate, ← Nat.add_assoc, ← backDef,
      show 9 + zeros =
      1 + (zeros +
      (4 + 4)) by omega, ← List.replicate_append_replicate, ← List.replicate_append_replicate,
      ← List.replicate_append_replicate]
    simp only [List.append_assoc, List.replicate_one]
  have marked := overwrite_middle tail [0] [0x80]
    (List.replicate zeros 0 ++ List.replicate 4 0 ++ List.replicate 4 0 ++ back) rfl
  have front : (tail ++ [0x80] ++ List.replicate zeros 0 ++ List.replicate 4 0).length =
      tail.length + 9 + zeros - 4 := by
    simp only [List.length_append, List.length_replicate, List.length_singleton]
    omega
  have measured := overwrite_middle (tail ++ [0x80] ++ List.replicate zeros 0 ++ List.replicate 4 0)
    (List.replicate 4 0) bits back (by rw [size, List.length_replicate])
  have regroup :
      tail ++ [0x80] ++ (List.replicate zeros 0 ++ List.replicate 4 0 ++
      List.replicate 4 0 ++ back) =
      tail ++ [0x80] ++ List.replicate zeros 0 ++ List.replicate 4 0 ++ List.replicate 4 0 ++
        back := by
    simp only [List.append_assoc]
  rw [front] at measured
  rw [bytes, cleared, marked, regroup, measured]
  have length : (tail ++ [0x80] ++ List.replicate zeros 0 ++ List.replicate 4 0 ++ bits).length =
      tail.length + 9 + zeros := by
    rw [List.length_append, front, size]
    omega
  rw [← length, List.take_left]
  simp only [List.append_assoc, List.cons_append, List.nil_append]

/-- The digest is that of the message with its length in bits modulo 2^32. -/
theorem final_absorbed (ctx : Sha256Ctx) (message : Bytes) (held : Absorbed ctx message) :
    sha256Final ctx = some (absorb Sha256.compress 64 Sha256.initial
      (message ++ Sha256.paddingWith message.length (8 * message.length % 2 ^ 32))).bytes := by
  have start := held.len
  have tail := length_pending 64 message
  have remainder : (ctx.len % 64).toNat = message.length % 64 := by
    rw [UInt32.toNat_mod, start]
    exact Nat.mod_mod _ _
  obtain ⟨n, nDef⟩ : ∃ n : Nat, n = if 55 < message.length % 64 then 2 else 1 := ⟨_, rfl⟩
  have fill : message.length % 64 + 9 + Sha256.zeros message.length = 64 * n := by
    rw [Sha256.zeros, nDef]
    split <;> omega
  obtain ⟨blockNb, blockDef⟩ : ∃ b : UInt32, b = if 64 - 9 < ctx.len % 64 then 2 else 1 := ⟨_, rfl⟩
  have blocks : blockNb.toNat = n := by
    have same : (64 - 9 : UInt32) < ctx.len % 64 ↔ 55 < message.length % 64 := by
      rw [UInt32.lt_iff_toNat_lt, remainder]
      exact Iff.rfl
    rw [blockDef, nDef]
    by_cases two : 55 < message.length % 64
    · rw [if_pos two, if_pos (same.mpr two)]; rfl
    · rw [if_neg two, if_neg (fun less => two (same.mp less))]; rfl
  have few : n ≤ 2 := by rw [nDef]; split <;> decide
  have some : 1 ≤ n := by rw [nDef]; split <;> decide
  have pmLen : (blockNb <<< 6).toNat = 64 * n := by
    rw [toNat_shl6 _ (by omega), blocks, Nat.mul_comm]
  have cleared : (blockNb <<< 6 - ctx.len).toNat = 9 + Sha256.zeros message.length := by
    rw [UInt32.toNat_sub_of_le _ _ (UInt32.le_iff_toNat_le.mpr (by omega)), pmLen, start]
    omega
  have four : (4 : UInt32).toNat ≤ 64 * n := (show 4 ≤ 64 * n by omega)
  have place : (blockNb <<< 6 - 4).toNat =
      message.length % 64 + 9 + Sha256.zeros message.length - 4 := by
    rw [UInt32.toNat_sub_of_le _ _ (UInt32.le_iff_toNat_le.mpr (by rw [pmLen]; exact four)),
      pmLen, fill]
    rfl
  obtain ⟨out, stored, layout⟩ :=
    final_layout ctx.block (pending 64 message) (unpack32 ((ctx.totLen + ctx.len) <<< 3))
    (Sha256.zeros message.length) (by rw [tail]; exact held.block) rfl (by rw [tail]; omega)
  rw [tail, fill] at layout
  obtain ⟨h, run, value⟩ := transf_eq ctx.h out.bytes blockNb (by rw [out.length_eq, blocks]; omega)
    (by rw [blocks]; omega)
  have padded :
      pending 64 message ++ Sha256.paddingWith message.length (8 * message.length % 2 ^ 32) =
      out.bytes.take (64 * n) := by
    rw [layout, Sha256.paddingWith, bigEndian_eight _ (Nat.mod_lt _ (by decide)),
      unpack32_eq, toNat_bits ctx message held]
  have length : (out.bytes.take (64 * n)).length = 64 * n := by
    rw [List.length_take, out.length_eq]
    omega
  have all : absorbBlocks Sha256.compress 64 (words ctx.h) out.bytes n =
      absorb Sha256.compress 64 (words ctx.h) (out.bytes.take (64 * n)) := by
    have inFront := absorbBlocks_append Sha256.compress 64 (words ctx.h) (out.bytes.take (64 * n))
      (out.bytes.drop (64 * n)) n (by omega)
    rw [List.take_append_drop] at inFront
    rw [inFront, absorb, length, Nat.mul_div_cancel_left n (by decide)]
  rw [sha256Final, ← blockDef, cleared, place, start, ← tail]
  rw [tail] at stored ⊢
  simp only [stored, Option.bind_some, run, Option.map_some]
  rw [digest_eq, value, blocks, all, ← padded, held.hash, ← absorb_piece _ 64 (by decide)]

/-- sha256_update on one piece after the other. -/
def updates (ctx : Sha256Ctx) : List Bytes → Option Sha256Ctx
  | [] => some ctx
  | piece :: rest =>
    (sha256Update ctx piece (UInt32.ofNat piece.length)).bind fun ctx => updates ctx rest

theorem updates_absorbed (ctx : Sha256Ctx) (before : Bytes) (pieces : List Bytes)
    (held : Absorbed ctx before) (small : ∀ piece ∈ pieces, piece.length < 2 ^ 31) :
    ∃ out, updates ctx pieces = some out ∧ Absorbed out (before ++ pieces.flatten) := by
  induction pieces generalizing ctx before with
  | nil => exact ⟨ctx, rfl, by rwa [List.flatten_nil, List.append_nil]⟩
  | cons piece rest ih =>
    have bound := small piece List.mem_cons_self
    have len : (UInt32.ofNat piece.length).toNat = piece.length :=
      UInt32.toNat_ofNat_of_lt' (show piece.length < 2 ^ 32 by omega)
    obtain ⟨next, made, heldNext⟩ :=
      update_absorbed ctx before piece (UInt32.ofNat piece.length) held
      (Nat.le_of_eq len) (by rw [len]; exact bound)
    rw [len, List.take_length] at heldNext
    obtain ⟨out, run, heldOut⟩ :=
      ih next _ heldNext fun p member => small p (List.mem_cons_of_mem _ member)
    refine ⟨out, ?_, by rwa [List.flatten_cons, ← List.append_assoc]⟩
    rw [updates, made, Option.bind_some, run]

/-- However a message is cut into pieces and whatever the block holds at first, the
digest is that of the whole message with its length in bits modulo 2^32, and the
standard one below 2^29 bytes. -/
theorem sha256_stream (stack : Buffer (2 * 64)) (pieces : List Bytes)
    (small : ∀ piece ∈ pieces, piece.length < 2 ^ 31) :
    (updates (sha256Init stack) pieces).bind sha256Final =
        some (absorb Sha256.compress 64 Sha256.initial (pieces.flatten ++
          Sha256.paddingWith pieces.flatten.length (8 * pieces.flatten.length % 2 ^ 32))).bytes ∧
      (pieces.flatten.length < 2 ^ 29 →
        (updates (sha256Init stack) pieces).bind sha256Final =
          some (Sha256.sha256 pieces.flatten)) := by
  obtain ⟨out, run, held⟩ :=
    updates_absorbed (sha256Init stack) [] pieces (absorbed_init stack) small
  have final := final_absorbed out _ held
  rw [List.nil_append] at final
  rw [run, Option.bind_some, final]
  refine ⟨rfl, fun short => ?_⟩
  rw [Nat.mod_eq_of_lt (by omega)]
  rfl

/-- Two pieces hashed from a block full of another message. -/
theorem sha256_stream_pieces :
    (updates (sha256Init ⟨List.replicate 128 7, List.length_replicate⟩) [[1, 2], [3]]).bind
      sha256Final =
      some (Sha256.sha256 [1, 2, 3]) :=
  (sha256_stream ⟨List.replicate 128 7, List.length_replicate⟩ [[1, 2], [3]] (by decide)).2
    (by decide)

/-- sha256 on a message that is given whole. -/
theorem sha256_eq (stack : Buffer (2 * 64)) (message : Bytes) (short : message.length < 2 ^ 29) :
    sha256 stack message (UInt32.ofNat message.length) = some (Sha256.sha256 message) := by
  have len : (UInt32.ofNat message.length).toNat = message.length :=
    UInt32.toNat_ofNat_of_lt' (show message.length < 2 ^ 32 by omega)
  obtain ⟨out, made, held⟩ :=
    update_absorbed (sha256Init stack) [] message (UInt32.ofNat message.length)
    (absorbed_init stack) (Nat.le_of_eq len) (by rw [len]; omega)
  rw [len, List.take_length, List.nil_append] at held
  rw [sha256, made, Option.bind_some, final_absorbed out message held, Nat.mod_eq_of_lt (by omega)]
  rfl

end CgminerT4.Guarantees.Sha256Digest
