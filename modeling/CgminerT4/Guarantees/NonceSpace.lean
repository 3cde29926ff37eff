import CgminerT4.Library.CyclicWindow
import CgminerT4.Source.CreateJob
import CgminerT4.Source.GetworkJob

/-!
# How devices and chips share the nonce space

gen_getwork_work gives each device its own value of one nonce byte and
create_job gives each chip of a device its own offset. Outside nicehash mode the
windows of `nonce_step` nonces are disjoint on the ring of 32-bit words. In
nicehash mode a chip is given an inclusive range of 24-bit nonces. A device has
32 * 2^16 of them when there are eight, while 80 chips need 24 more than that.
-/
namespace CgminerT4.Guarantees.NonceSpace
open Library.ByteString Library.CyclicWindow Source.WorkItem Source.GetworkJob Source.CreateJob

/-- A numbered chip of one of `n` devices, with `chips` active chips each. -/
structure Place (n chips : Nat) where
  device : Nat
  chipId : UInt8
  deviceBound : device < n
  numbered : 1 ≤ chipId.toNat
  chipBound : chipId.toNat ≤ chips

variable {n chips : Nat}

/-- Two places differ in the device or in the chip number. -/
theorem Place.different {p q : Place n chips} (different : p ≠ q) :
    p.device ≠ q.device ∨ p.chipId.toNat ≠ q.chipId.toNat := by
  by_contra same
  simp only [not_or, ne_eq, not_not] at same
  apply different
  obtain ⟨device, chipId, _, _, _⟩ := p
  obtain ⟨device', chipId', _, _, _⟩ := q
  obtain rfl : device = device' := same.1
  obtain rfl : chipId = chipId' := UInt8.toNat_inj.mp same.2
  rfl

/-- The packet create_job builds for this chip from the device's copy of the work. -/
def packet (cmd jobId : UInt8) (nicehash : Bool) (work : Work) (p : Place n chips) : Bytes :=
  createJob cmd nicehash p.chipId jobId (deviceWork nicehash n work p.device)

/-- Rounding `256 / n` up leaves each device 32 values of the byte and does not
overflow it. -/
theorem startNonceGap_bounds (several : 1 ≤ n) (few : n ≤ asicChainNum) :
    32 ≤ startNonceGap n ∧ startNonceGap n * (n - 1) ≤ 224 := by
  have table : ∀ m < 9, 1 ≤ m → 32 ≤ startNonceGap m ∧ startNonceGap m * (m - 1) ≤ 224 := by decide
  exact table n (Nat.lt_succ_of_le few) several

/-- With fewer than eight devices each has at least 37 of them. -/
theorem startNonceGap_seven (several : 1 ≤ n) (few : n ≤ 7) :
    37 ≤ startNonceGap n ∧ startNonceGap n * (n - 1) ≤ 222 := by
  have table : ∀ m < 8, 1 ≤ m → 37 ≤ startNonceGap m ∧ startNonceGap m * (m - 1) ≤ 222 := by decide
  exact table n (Nat.lt_succ_of_le few) several

theorem device_gap (p : Place n chips) (few : n ≤ asicChainNum) :
    startNonceGap n * p.device ≤ 224 := by
  have inside := p.deviceBound
  have bounds := startNonceGap_bounds (Nat.one_le_of_lt inside) few
  exact Nat.le_trans (Nat.mul_le_mul_left _ (by omega)) bounds.2

/-- The nonce byte of a device. -/
theorem device_byte (p : Place n chips) (few : n ≤ asicChainNum) :
    (UInt8.ofNat (startNonceGap n * p.device)).toNat = startNonceGap n * p.device := by
  have gap := device_gap p few
  rw [UInt8.toNat_ofNat', Nat.mod_eq_of_lt (by omega)]

/-- The three low bytes of the blob's nonce field. -/
def blobBase (work : Work) : Nat :=
  (work.data.get 41).toNat * 2 ^ 16 + (work.data.get 40).toNat * 2 ^ 8 + (work.data.get 39).toNat

theorem blobBase_lt (work : Work) : blobBase work < 2 ^ 24 := by
  have := (work.data.get 41).toNat_lt
  have := (work.data.get 40).toNat_lt
  have := (work.data.get 39).toNat_lt
  unfold blobBase
  omega

/-- The start nonce of a chip: the blob, the device and the chip add up without
a wrap. -/
theorem packet_start (cmd jobId : UInt8) (work : Work) (p : Place n chips)
    (few : n ≤ asicChainNum) (active : chips ≤ asicChipNum) :
    (packetStart (packet cmd jobId false work p)).toNat =
        startNonceGap n * p.device * 2 ^ 24 + blobBase work + 0x100000 * (p.chipId.toNat - 1) ∧
      startNonceGap n * p.device * 2 ^ 24 + blobBase work + 0x100000 * (p.chipId.toNat - 1) +
        0x100000 ≤ 2 ^ 32 := by
  have top : (deviceWork false n work p.device).data.get 42 =
      UInt8.ofNat (startNonceGap n * p.device) := Buffer.get_set_self _ _ _ (by decide)
  have kept : ∀ i, i ≠ 42 → (deviceWork false n work p.device).data.get i = work.data.get i :=
    fun i other => Buffer.get_set_ne _ _ _ _ other.symm
  have gap := device_gap p few
  have base := blobBase_lt work
  have chip := p.chipBound
  unfold asicChipNum at active
  have room : startNonceGap n * p.device * 2 ^ 24 + blobBase work +
      0x100000 * (p.chipId.toNat - 1) + 0x100000 ≤ 2 ^ 32 := by omega
  refine ⟨?_, room⟩
  rw [packet, packetStart_createJob, startNonce_toNat _ _ p.numbered, top, kept 41 (by decide),
    kept 40 (by decide), kept 39 (by decide), device_byte p few]
  unfold blobBase at room ⊢
  omega

/-- The devices are a whole gap apart. -/
theorem device_jump (p q : Place n chips) (before : p.device < q.device) :
    startNonceGap n * p.device + startNonceGap n ≤ startNonceGap n * q.device := by
  rw [← Nat.mul_succ]
  exact Nat.mul_le_mul_left _ before

/-- Of two places one comes a whole step before the other. -/
theorem places_ordered (p q : Place n chips) (base : Nat) (few : n ≤ asicChainNum)
    (active : chips ≤ asicChipNum) (different : p ≠ q) :
    startNonceGap n * p.device * 2 ^ 24 + base + 0x100000 * (p.chipId.toNat - 1) + 0x100000 ≤
        startNonceGap n * q.device * 2 ^ 24 + base + 0x100000 * (q.chipId.toNat - 1) ∨
      startNonceGap n * q.device * 2 ^ 24 + base + 0x100000 * (q.chipId.toNat - 1) + 0x100000 ≤
        startNonceGap n * p.device * 2 ^ 24 + base + 0x100000 * (p.chipId.toNat - 1) := by
  have gap := (startNonceGap_bounds (Nat.one_le_of_lt p.deviceBound) few).1
  have pLow := p.numbered
  have qLow := q.numbered
  have pHigh := p.chipBound
  have qHigh := q.chipBound
  unfold asicChipNum at active
  rcases Nat.lt_trichotomy p.device q.device with before | same | after
  · have jump := device_jump p q before
    exact Or.inl (by omega)
  · have chip := (Place.different different).resolve_left (not_not_intro same)
    rw [same]
    omega
  · have jump := device_jump q p after
    exact Or.inr (by omega)

/-- The windows of `nonce_step` nonces of any two chips are disjoint on the ring
of 32-bit words, for every blob and every number of devices and active chips. -/
theorem nonce_windows_disjoint (cmd jobId : UInt8) (work : Work) (p q : Place n chips)
    (few : n ≤ asicChainNum) (active : chips ≤ asicChipNum) (different : p ≠ q) :
    let a := packetStart (packet cmd jobId false work p)
    let b := packetStart (packet cmd jobId false work q)
    nonceStep ≤ a - b ∧ nonceStep ≤ b - a ∧
      ∀ k l, k < nonceStep → l < nonceStep → a + k ≠ b + l := by
  intro a b
  obtain ⟨startA, roomA⟩ : a.toBitVec.toNat = _ ∧ _ := packet_start cmd jobId work p few active
  obtain ⟨startB, roomB⟩ : b.toBitVec.toNat = _ ∧ _ := packet_start cmd jobId work q few active
  have step : nonceStep.toBitVec.toNat = 0x100000 := rfl
  have apart : Apart nonceStep.toBitVec a.toBitVec b.toBitVec := by
    rcases places_ordered p q (blobBase work) few active different with before | after
    · exact apart_of_ordered (by rw [step]; omega) (by rw [step]; omega)
    · have reversed : Apart nonceStep.toBitVec b.toBitVec a.toBitVec :=
        apart_of_ordered (by rw [step]; omega) (by rw [step]; omega)
      exact reversed.symm
  refine ⟨apart.1, apart.2, ?_⟩
  intro k l first second meet
  exact windows_disjoint apart first second (congrArg UInt32.toBitVec meet)

/-- The last chip of a device and the first chip of the next. -/
theorem nonce_windows_disjoint_full :
    let a :=
  packetStart (packet 7 1 false makeWork (⟨0, 80, by decide, by decide, by decide⟩ : Place 8 80))
    let b :=
      packetStart (packet 7 1 false makeWork (⟨1, 1, by decide, by decide, by decide⟩ : Place 8 80))
    nonceStep ≤ a - b ∧ nonceStep ≤ b - a ∧
      ∀ k l, k < nonceStep → l < nonceStep → a + k ≠ b + l :=
  nonce_windows_disjoint 7 1 makeWork _ _ (by decide) (by decide) (by simp)

/-- The low 24 bits of the nonces in a packet. -/
def start24 (job : Bytes) : Nat := (packetStart job).toNat % 2 ^ 24

def end24 (job : Bytes) : Nat := (packetEnd job).toNat % 2 ^ 24

/-- In nicehash mode the packets of all places keep the pool's byte, give their
chip a range of nonces and share no nonce. -/
structure Partitioned (cmd jobId : UInt8) (work : Work) (n chips : Nat) : Prop where
  topByte : ∀ p : Place n chips,
    (packet cmd jobId true work p).getD 51 0 = work.data.get 42 ∧
      (packet cmd jobId true work p).getD 2 0 = work.data.get 42
  ordered : ∀ p : Place n chips,
    start24 (packet cmd jobId true work p) ≤ end24 (packet cmd jobId true work p)
  disjoint : ∀ p q : Place n chips, p ≠ q → ∀ nonce,
    ¬ (start24 (packet cmd jobId true work p) ≤ nonce ∧
      nonce ≤ end24 (packet cmd jobId true work p) ∧
      start24 (packet cmd jobId true work q) ≤ nonce ∧ nonce ≤ end24 (packet cmd jobId true work q))

/-- The range of a chip before it is cut to 24 bits. -/
theorem packet_range (cmd jobId : UInt8) (work : Work) (p : Place n chips)
    (few : n ≤ asicChainNum) (active : chips ≤ asicChipNum) (low : work.data.get 39 = 0)
    (mid : work.data.get 40 = 0) :
    start24 (packet cmd jobId true work p) =
        startNonceGap n * p.device * 2 ^ 16 + 0x6667 * (p.chipId.toNat - 1) ∧
      end24 (packet cmd jobId true work p) =
        (startNonceGap n * p.device * 2 ^ 16 + 0x6667 * (p.chipId.toNat - 1) + 26191) % 2 ^ 24 := by
  have kept : ∀ i, i ≠ 41 → (deviceWork true n work p.device).data.get i = work.data.get i :=
    fun i other => Buffer.get_set_ne _ _ _ _ other.symm
  have high : (deviceWork true n work p.device).data.get 41 =
      UInt8.ofNat (startNonceGap n * p.device) := Buffer.get_set_self _ _ _ (by decide)
  have start := startNonce_nicehash_toNat (deviceWork true n work p.device).data p.chipId p.numbered
    (by rw [kept 39 (by decide), low]) (by rw [kept 40 (by decide), mid])
  rw [high, device_byte p few] at start
  obtain ⟨_, _, starts, ends⟩ :=
    nicehash_packet cmd p.chipId jobId (deviceWork true n work p.device)
  have gap := device_gap p few
  have chip := p.chipBound
  have step : nonceStepNicehash.toNat = 0x6667 := rfl
  have margin : endNonceA8Gap.toNat = 24 := rfl
  unfold asicChipNum at active
  constructor
  · rw [start24, packet, starts, start]
    omega
  · rw [end24, packet, ends, UInt32.toNat_sub, UInt32.toNat_add, start, step, margin]
    omega

/-- With fewer than eight devices or fewer than 80 chips the ranges of a device
end before the next device begins, and the last one below 2^24. -/
theorem device_room (several : 1 ≤ n) (few : n ≤ asicChainNum) (active : chips ≤ asicChipNum)
    (spare : n ≤ 7 ∨ chips ≤ 79) :
    0x6667 * (chips - 1) + 26191 < startNonceGap n * 2 ^ 16 ∧
      startNonceGap n * (n - 1) * 2 ^ 16 + 0x6667 * (chips - 1) + 26191 < 2 ^ 24 := by
  unfold asicChipNum at active
  rcases spare with seven | short
  · have gap := startNonceGap_seven several seven
    omega
  · have gap := startNonceGap_bounds several few
    omega

theorem partitioned_of_room (cmd jobId : UInt8) (work : Work) (several : 1 ≤ n)
    (few : n ≤ asicChainNum) (active : chips ≤ asicChipNum) (low : work.data.get 39 = 0)
    (mid : work.data.get 40 = 0) (spare : n ≤ 7 ∨ chips ≤ 79) :
    Partitioned cmd jobId work n chips := by
  obtain ⟨device, last⟩ := device_room several few active spare
  have range := fun p : Place n chips => packet_range cmd jobId work p few active low mid
  have below : ∀ p : Place n chips,
      startNonceGap n * p.device * 2 ^ 16 + 0x6667 * (p.chipId.toNat - 1) + 26191 < 2 ^ 24 := by
    intro p
    have chip := p.chipBound
    have inside := p.deviceBound
    have most : startNonceGap n * p.device ≤ startNonceGap n * (n - 1) :=
      Nat.mul_le_mul_left _ (by omega)
    have part : 0x6667 * (p.chipId.toNat - 1) ≤ 0x6667 * (chips - 1) := by omega
    calc
      _ ≤ startNonceGap n * (n - 1) * 2 ^ 16 + 0x6667 * (chips - 1) + 26191 :=
        Nat.add_le_add_right (Nat.add_le_add (Nat.mul_le_mul_right _ most) part) _
      _ < 2 ^ 24 := last
  refine ⟨?_, ?_, ?_⟩
  · intro p
    obtain ⟨top, topEnd, _⟩ := nicehash_packet cmd p.chipId jobId (deviceWork true n work p.device)
    have kept : (deviceWork true n work p.device).data.get 42 = work.data.get 42 :=
      Buffer.get_set_ne _ _ _ _ (by decide)
    exact ⟨top.trans kept, topEnd.trans kept⟩
  · intro p
    obtain ⟨starts, ends⟩ := range p
    rw [starts, ends, Nat.mod_eq_of_lt (below p)]
    omega
  · intro p q different nonce shared
    obtain ⟨startP, endP⟩ := range p
    obtain ⟨startQ, endQ⟩ := range q
    rw [startP, endP, startQ, endQ, Nat.mod_eq_of_lt (below p),
      Nat.mod_eq_of_lt (below q)] at shared
    have pLow := p.numbered
    have qLow := q.numbered
    have pHigh := p.chipBound
    have qHigh := q.chipBound
    rcases Nat.lt_trichotomy p.device q.device with before | same | after
    · have jump := device_jump p q before
      omega
    · have chip := (Place.different different).resolve_left (not_not_intro same)
      rw [same] at shared
      omega
    · have jump := device_jump q p after
      omega

/-- In nicehash mode the nonce space is partitioned unless there are eight
devices with 80 chips each. -/
theorem nicehash_partition_iff (cmd jobId : UInt8) (work : Work) (n chips : Nat) (several : 1 ≤ n)
    (few : n ≤ asicChainNum) (active : chips ≤ asicChipNum) (low : work.data.get 39 = 0)
    (mid : work.data.get 40 = 0) :
    Partitioned cmd jobId work n chips ↔ n ≤ 7 ∨ chips ≤ 79 := by
  constructor
  · intro partitioned
    by_contra full
    unfold asicChainNum at few
    unfold asicChipNum at active
    obtain ⟨rfl, rfl⟩ : n = 8 ∧ chips = 80 := by omega
    -- the last chip of the last device wraps past 24 bits
    let p : Place 8 80 := ⟨7, 80, by decide, by decide, by decide⟩
    have ordered := partitioned.ordered p
    obtain ⟨starts, ends⟩ := packet_range cmd jobId work p (Nat.le_refl 8) (Nat.le_refl 80) low mid
    rw [starts, ends] at ordered
    exact absurd ordered (by decide)
  · exact partitioned_of_room cmd jobId work several few active low mid

theorem nicehash_partition_seven : Partitioned 7 1 makeWork 7 80 ↔ 7 ≤ 7 ∨ 80 ≤ 79 :=
  nicehash_partition_iff 7 1 makeWork 7 80 (by decide) (by decide) (by decide) (by decide)
    (by decide)

/-- Eight devices with 80 chips: the last chip of device 0 shares nonces with the
first chip of device 1, and the range of the very last chip ends before it starts. -/
theorem nicehash_chips_collide : ¬ Partitioned 7 1 makeWork 8 80 := by
  intro partitioned
  let p : Place 8 80 := ⟨0, 80, by decide, by decide, by decide⟩
  let q : Place 8 80 := ⟨1, 1, by decide, by decide, by decide⟩
  have disjoint := partitioned.disjoint p q (by simp [p, q]) 0x200000
  exact disjoint (by decide)

end CgminerT4.Guarantees.NonceSpace
