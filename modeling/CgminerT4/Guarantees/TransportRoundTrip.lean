import CgminerT4.Source.GetworkTransport

/-!
# Obfuscated frames and their C-string delimiters

A frame survives the trip exactly when its header bytes are nonzero, since both
ends cut it at the first NUL. For a message of up to 2043 bytes that holds
unless the length is 203 modulo 256, where the low header byte is zero and only
three bytes are sent.
-/
namespace CgminerT4.Guarantees.TransportRoundTrip
open Library.ByteString Source.GetworkTransport

/-- stratum_send stops at the first NUL of the frame. -/
theorem stratumSend_eq (s : Bytes) (bound : s.length ≤ 2043) :
    stratumSend s = some (cString (genGetworkSendata s)) := by
  have size := length_genGetworkSendata s
  obtain ⟨sendStr, stored, bytes⟩ :=
    (Buffer.zero 2048).store_of_fits 0 (genGetworkSendata s) (by omega)
  obtain ⟨spare, room⟩ : ∃ spare, 2048 - (genGetworkSendata s).length = spare + 1 :=
    ⟨2043 - s.length, by omega⟩
  have frame : sendStr.bytes = genGetworkSendata s ++ 0 :: List.replicate spare 0 := by
    rw [bytes, Buffer.zero, overwrite_replicate, room, List.replicate_succ]
  have terminated : (0 : UInt8) ∈ sendStr.bytes := by simp [frame]
  rw [stratumSend, stored, Option.bind_some, if_pos terminated, frame, cString_append_zero]

/-- The receiver cuts what follows the header at the first NUL. -/
theorem genGetworkRevdata_receiveBuffer (high low : UInt8) (body : Bytes)
    (bound : body.length < 8188) :
    genGetworkRevdata (receiveBuffer (0xFE :: 0x7C :: high :: low :: body)) =
      (1, (cString body).map (~~~ ·)) := by
  obtain ⟨spare, room⟩ : ∃ spare, 8192 - (body.length + 4) = spare + 1 :=
    ⟨8187 - body.length, by omega⟩
  have buffer : receiveBuffer (0xFE :: 0x7C :: high :: low :: body) =
      0xFE :: 0x7C :: high :: low :: (body ++ 0 :: List.replicate spare 0) := by
    rw [receiveBuffer, overwrite_replicate]
    simp only [List.length_cons, List.cons_append, room, List.replicate_succ]
  rw [buffer, genGetworkRevdata, if_neg (by decide), cString_append_zero]

/-- A NUL behind the received bytes is there already. -/
theorem receiveBuffer_zero (wire : Bytes) (room : wire.length < 8192) :
    receiveBuffer wire = receiveBuffer (wire ++ [0]) := by
  obtain ⟨spare, rest⟩ : ∃ spare, 8192 - wire.length = spare + 1 := ⟨8191 - wire.length, by omega⟩
  have less : 8192 - (wire.length + 1) = spare := by omega
  rw [receiveBuffer, receiveBuffer, overwrite_replicate, overwrite_replicate, rest,
    List.replicate_succ, List.length_append, List.length_singleton, less, List.append_assoc,
    List.singleton_append]

theorem complement_plain (m : Bytes) (plain : ∀ b ∈ m, b ≠ 0xFF) :
    ∀ b ∈ m.map (~~~ ·), b ≠ 0 := by
  intro b member
  obtain ⟨c, source, rfl⟩ := List.mem_map.mp member
  intro zero
  have full : c = 0xFF := by rw [← UInt8.not_not (a := c), zero]; rfl
  exact plain c source full

/-- A frame whose header is free of NULs is sent whole and read back. -/
theorem frame_survives (m : Bytes) (high low : UInt8) (header : lengthField m.length = [high, low])
    (plain : ∀ b ∈ m, b ≠ 0xFF) (bound : m.length ≤ 2043) (highNonzero : high ≠ 0)
    (lowNonzero : low ≠ 0) :
    ∃ wire, stratumSend m = some wire ∧ genGetworkRevdata (receiveBuffer wire) = (1, m) := by
  have body := complement_plain m plain
  have whole : cString (genGetworkSendata m) = 0xFE :: 0x7C :: high :: low :: m.map (~~~ ·) := by
    rw [cString_of_plain]
    · simp [genGetworkSendata, header]
    · intro b member
      simp only [genGetworkSendata, header, List.cons_append, List.nil_append,
        List.mem_cons] at member
      rcases member with rfl | rfl | rfl | rfl | inside
      · decide
      · decide
      · exact highNonzero
      · exact lowNonzero
      · exact body b inside
  refine ⟨_, stratumSend_eq m bound, ?_⟩
  rw [whole, genGetworkRevdata_receiveBuffer _ _ _ (by rw [List.length_map]; omega),
    cString_of_plain _ body, List.map_map]
  simp [Function.comp_def]

/-- A frame with a zero low header byte arrives as an empty message. -/
theorem frame_lost (m : Bytes) (high : UInt8) (header : lengthField m.length = [high, 0])
    (bound : m.length ≤ 2043) (highNonzero : high ≠ 0) :
    ∃ wire, stratumSend m = some wire ∧ genGetworkRevdata (receiveBuffer wire) = (1, []) := by
  have cut : cString (genGetworkSendata m) = [0xFE, 0x7C, high] := by
    simp only [genGetworkSendata, header, List.cons_append, List.nil_append]
    rw [cString_cons _ _ (by decide), cString_cons _ _ (by decide), cString_cons _ _ highNonzero,
      cString_cons_zero]
  refine ⟨_, stratumSend_eq m bound, ?_⟩
  have padded := receiveBuffer_zero [0xFE, 0x7C, high] (by simp)
  rw [cut, padded]
  exact genGetworkRevdata_receiveBuffer high 0 [] (by simp)

/-- For messages the send buffer holds, the frame is read back exactly when the
length is not 203 modulo 256. -/
theorem transport_round_trip_iff (m : Bytes) (plain : ∀ b ∈ m, b ≠ 0 ∧ b ≠ 0xFF)
    (bound : m.length ≤ 2043) :
    (∃ wire, stratumSend m = some wire ∧ genGetworkRevdata (receiveBuffer wire) = (1, m)) ↔
      m.length % 256 ≠ 203 := by
  have header := lengthField_eq m.length
  have highNonzero : UInt8.ofNat (255 - m.length * 29 / 256 % 256) ≠ 0 := by
    have small : m.length * 29 / 256 < 255 := by omega
    rw [ne_eq, ← UInt8.toNat_inj]
    simp
    omega
  have lowZero : UInt8.ofNat (255 - m.length * 29 % 256) = 0 ↔ m.length % 256 = 203 := by
    rw [← UInt8.toNat_inj]
    simp
    omega
  constructor
  · rintro ⟨wire, sent, received⟩ unlucky
    rw [lowZero.mpr unlucky] at header
    obtain ⟨lost, sentLost, empty⟩ := frame_lost m _ header bound highNonzero
    rw [sent, Option.some.injEq] at sentLost
    rw [← sentLost, received, Prod.mk.injEq] at empty
    rw [empty.2] at unlucky
    simp at unlucky
  · intro lucky
    have lowNonzero := fun zero => lucky (lowZero.mp zero)
    exact frame_survives m _ _ header (fun b member => (plain b member).2)
      bound highNonzero lowNonzero

/-- A whole object of 300 bytes, whose frame has a length of two bytes, is read back. -/
theorem transport_round_trip_brace :
    ∃ wire, stratumSend (0x7B :: List.replicate 298 0x61 ++ [0x7D]) = some wire ∧
      genGetworkRevdata (receiveBuffer wire) = (1, 0x7B :: List.replicate 298 0x61 ++ [0x7D]) := by
  have size : (0x7B :: List.replicate 298 (0x61 : UInt8) ++ [0x7D]).length = 300 := by
    rw [List.length_append, List.length_cons, List.length_replicate, List.length_singleton]
  refine (transport_round_trip_iff (0x7B :: List.replicate 298 0x61 ++ [0x7D]) ?_ ?_).mpr ?_
  · simp only [List.cons_append, List.forall_mem_cons, List.forall_mem_append,
      List.forall_mem_replicate]
    exact ⟨by decide, .inr (by decide), by decide, List.forall_mem_nil _⟩
  · rw [size]
    decide
  · rw [size]
    decide

/-- Of 203 letters only three header bytes are sent and nothing is read back. -/
theorem frame_of_203_lost :
    ¬ ∃ wire, stratumSend (List.replicate 203 0x61) = some wire ∧
      genGetworkRevdata (receiveBuffer wire) = (1, List.replicate 203 0x61) := by
  rintro ⟨wire, sent, received⟩
  obtain ⟨lost, sentLost, empty⟩ :=
    frame_lost (List.replicate 203 0x61) 0xE9 (by rw [List.length_replicate]; rfl)
      (by rw [List.length_replicate]; omega) (by decide)
  rw [sent, Option.some.injEq] at sentLost
  rw [← sentLost, received] at empty
  simp at empty

end CgminerT4.Guarantees.TransportRoundTrip
