import CgminerT4.Library.ByteString

/-!
# Serialised transactions and blocks

Readers that take a value from the front of a byte string and hand on the rest.
`Reads p bytes a` says that `p` reads exactly `bytes` as `a`, whatever follows;
it composes along the sections of a format. On top of it the variable-length
counts, transactions without witness data, and blocks over any transaction
format.
-/
namespace CgminerT4.Library.Transaction
open Library.ByteString

abbrev Reader (α : Type*) := Bytes → Option (α × Bytes)

def Reads (p : Reader α) (bytes : Bytes) (a : α) : Prop :=
  ∀ rest, p (bytes ++ rest) = some (a, rest)

/-- Nothing is left when the bytes are the whole input. -/
theorem Reads.whole {p : Reader α} {bytes : Bytes} {a : α} (reads : Reads p bytes a) :
    p bytes = some (a, []) := by
  have all := reads []
  rwa [List.append_nil] at all

def value (a : α) : Reader α := fun s => some (a, s)

def andThen (p : Reader α) (next : α → Reader β) : Reader β :=
  fun s => (p s).bind fun read => next read.1 read.2

theorem reads_value (a : α) : Reads (value a) [] a := fun _ => rfl

theorem Reads.andThen {p : Reader α} {k : α → Reader β} {xs ys : Bytes} {a : α} {b : β}
    (first : Reads p xs a) (second : Reads (k a) ys b) : Reads (andThen p k) (xs ++ ys) b := by
  intro rest
  unfold Transaction.andThen
  rw [List.append_assoc, first, Option.bind_some, second]

/-! ## Fields of fixed and of variable size -/

def readBytes (n : Nat) : Reader Bytes :=
  fun s => if n ≤ s.length then some (s.take n, s.drop n) else none

def readNumber (k : Nat) : Reader Nat :=
  andThen (readBytes k) fun bytes => value (ofLittleEndian bytes)

theorem reads_bytes (bytes : Bytes) : Reads (readBytes bytes.length) bytes bytes := by
  intro rest
  unfold readBytes
  rw [if_pos (by rw [List.length_append]; omega), List.take_left, List.drop_left]

theorem reads_number (k n : Nat) (fits : n < 256 ^ k) :
    Reads (readNumber k) (littleEndian k n) n := by
  have field := reads_bytes (littleEndian k n)
  rw [length_littleEndian] at field
  have number : ofLittleEndian (littleEndian k n) = n := by
    rw [ofLittleEndian_littleEndian, Nat.mod_eq_of_lt fits]
  have read := field.andThen (k := fun bytes => value (ofLittleEndian bytes)) (reads_value _)
  rwa [List.append_nil, number] at read

/-- The shortest of the four forms of a count. -/
def compactSize (n : Nat) : Bytes :=
  if n < 0xfd then [UInt8.ofNat n]
  else if n ≤ 0xffff then 0xfd :: littleEndian 2 n
  else if n ≤ 0xffffffff then 0xfe :: littleEndian 4 n
  else 0xff :: littleEndian 8 n

/-- A number of `k` bytes, refused when a shorter form would do. -/
def readWide (k least : Nat) : Reader Nat :=
  andThen (readNumber k) fun n => if least ≤ n then value n else fun _ => none

def readCompactSize : Reader Nat :=
  andThen (readNumber 1) fun head =>
    if head < 0xfd then value head
    else if head = 0xfd then readWide 2 0xfd
    else if head = 0xfe then readWide 4 0x10000
    else readWide 8 0x100000000

theorem reads_wide (k least n : Nat) (fits : n < 256 ^ k) (shortest : least ≤ n) :
    Reads (readWide k least) (littleEndian k n) n := by
  have tail : Reads (if least ≤ n then value n else fun _ => none) [] n := by
    rw [if_pos shortest]
    exact reads_value n
  have read := (reads_number k n fits).andThen
    (k := fun n => if least ≤ n then value n else fun _ => none) tail
  rwa [List.append_nil] at read

/-- A first byte with what it announces. -/
theorem reads_marker (head : Nat) (tail : Bytes) (n : Nat) (byte : head < 256)
    (rest : Reads (if head < 0xfd then value head else if head = 0xfd then readWide 2 0xfd
      else if head = 0xfe then readWide 4 0x10000 else readWide 8 0x100000000) tail n) :
    Reads readCompactSize (UInt8.ofNat head :: tail) n := by
  have first := reads_number 1 head (by omega)
  exact first.andThen rest

theorem reads_compactSize (n : Nat) (fits : n < 2 ^ 64) :
    Reads readCompactSize (compactSize n) n := by
  unfold compactSize
  split
  · next small =>
    apply reads_marker n [] n (by omega)
    rw [if_pos small]
    exact reads_value n
  · split
    · exact reads_marker 0xfd _ n (by decide) (reads_wide 2 0xfd n (by omega) (by omega))
    · split
      · exact reads_marker 0xfe _ n (by decide) (reads_wide 4 0x10000 n (by omega) (by omega))
      · exact reads_marker 0xff _ n (by decide) (reads_wide 8 0x100000000 n (by omega) (by omega))

/-- A string behind its size. -/
def varBytes (bytes : Bytes) : Bytes := compactSize bytes.length ++ bytes

def readVarBytes : Reader Bytes := andThen readCompactSize readBytes

theorem reads_varBytes (bytes : Bytes) (fits : bytes.length < 2 ^ 64) :
    Reads readVarBytes (varBytes bytes) bytes :=
  (reads_compactSize bytes.length fits).andThen (reads_bytes bytes)

/-! ## Lists behind their count -/

def readMany (p : Reader α) : Nat → Reader (List α)
  | 0 => value []
  | n + 1 => andThen p fun a => andThen (readMany p n) fun rest => value (a :: rest)

theorem reads_many (p : Reader α) (items : List (Bytes × α))
    (each : ∀ item ∈ items, Reads p item.1 item.2) :
    Reads (readMany p items.length) (items.flatMap Prod.fst) (items.map Prod.snd) := by
  induction items with
  | nil => exact reads_value []
  | cons item items ih =>
    have head := each item List.mem_cons_self
    have tail := ih fun other member => each other (List.mem_cons_of_mem item member)
    have joined := head.andThen
      (k := fun a => andThen (readMany p items.length) fun rest => value (a :: rest))
      (tail.andThen (k := fun rest => value (item.2 :: rest)) (reads_value _))
    rwa [List.append_nil] at joined

def readCounted (p : Reader α) : Reader (List α) := andThen readCompactSize (readMany p)

theorem reads_counted (p : Reader α) (items : List (Bytes × α)) (fits : items.length < 2 ^ 64)
    (each : ∀ item ∈ items, Reads p item.1 item.2) :
    Reads (readCounted p) (compactSize items.length ++ items.flatMap Prod.fst)
      (items.map Prod.snd) :=
  (reads_compactSize items.length fits).andThen (reads_many p items each)

/-! ## Transactions -/

structure TxIn where
  prevHash : Buffer 32
  prevIndex : UInt32
  script : Bytes
  sequence : UInt32
  deriving DecidableEq

structure TxOut where
  value : UInt64
  script : Bytes
  deriving DecidableEq

structure Tx where
  version : UInt32
  inputs : List TxIn
  outputs : List TxOut
  locktime : UInt32
  deriving DecidableEq

def TxIn.serialize (i : TxIn) : Bytes :=
  i.prevHash.bytes ++ (littleEndian 4 i.prevIndex.toNat ++
    (varBytes i.script ++ littleEndian 4 i.sequence.toNat))

def TxOut.serialize (o : TxOut) : Bytes := littleEndian 8 o.value.toNat ++ varBytes o.script

def Tx.serialize (t : Tx) : Bytes :=
  littleEndian 4 t.version.toNat ++
    ((compactSize t.inputs.length ++ t.inputs.flatMap TxIn.serialize) ++
      ((compactSize t.outputs.length ++ t.outputs.flatMap TxOut.serialize) ++
        littleEndian 4 t.locktime.toNat))

/-- The sizes that a count can express. -/
def Tx.Countable (t : Tx) : Prop :=
  t.inputs.length < 2 ^ 64 ∧ t.outputs.length < 2 ^ 64 ∧
    (∀ i ∈ t.inputs, i.script.length < 2 ^ 64) ∧ ∀ o ∈ t.outputs, o.script.length < 2 ^ 64

def readWord32 : Reader UInt32 := andThen (readNumber 4) fun n => value (UInt32.ofNat n)

def readWord64 : Reader UInt64 := andThen (readNumber 8) fun n => value (UInt64.ofNat n)

def readHash : Reader (Buffer 32) :=
  andThen (readBytes 32) fun bytes =>
    if size : bytes.length = 32 then value ⟨bytes, size⟩ else fun _ => none

def readTxIn : Reader TxIn :=
  andThen readHash fun prevHash => andThen readWord32 fun prevIndex =>
    andThen readVarBytes fun script => andThen readWord32 fun sequence =>
      value { prevHash, prevIndex, script, sequence }

def readTxOut : Reader TxOut :=
  andThen readWord64 fun amount => andThen readVarBytes fun script =>
    value { value := amount, script }

def readTx : Reader Tx :=
  andThen readWord32 fun version => andThen (readCounted readTxIn) fun inputs =>
    andThen (readCounted readTxOut) fun outputs => andThen readWord32 fun locktime =>
      value { version, inputs, outputs, locktime }

theorem reads_word32 (n : UInt32) : Reads readWord32 (littleEndian 4 n.toNat) n := by
  have read := (reads_number 4 n.toNat n.toNat_lt).andThen
    (k := fun n => value (UInt32.ofNat n)) (reads_value _)
  rwa [List.append_nil, UInt32.ofNat_toNat] at read

theorem reads_word64 (n : UInt64) : Reads readWord64 (littleEndian 8 n.toNat) n := by
  have read := (reads_number 8 n.toNat n.toNat_lt).andThen
    (k := fun n => value (UInt64.ofNat n)) (reads_value _)
  rwa [List.append_nil, UInt64.ofNat_toNat] at read

theorem reads_hash (b : Buffer 32) : Reads readHash b.bytes b := by
  have field := reads_bytes b.bytes
  rw [b.length_eq] at field
  have tail :
    Reads (if size : b.bytes.length = 32 then value (⟨b.bytes, size⟩ : Buffer 32) else
    fun _ => none)
      [] b := by
    rw [dif_pos b.length_eq]
    exact reads_value b
  have read := field.andThen (k := fun bytes => if size : bytes.length = 32 then
    value (⟨bytes, size⟩ : Buffer 32) else fun _ => none) tail
  rwa [List.append_nil] at read

theorem reads_txIn (i : TxIn) (fits : i.script.length < 2 ^ 64) : Reads readTxIn i.serialize i := by
  unfold TxIn.serialize
  apply (reads_hash i.prevHash).andThen
  apply (reads_word32 i.prevIndex).andThen
  apply (reads_varBytes i.script fits).andThen
  rw [← List.append_nil (littleEndian 4 i.sequence.toNat)]
  exact (reads_word32 i.sequence).andThen (reads_value _)

theorem reads_txOut (o : TxOut) (fits : o.script.length < 2 ^ 64) :
    Reads readTxOut o.serialize o := by
  unfold TxOut.serialize
  apply (reads_word64 o.value).andThen
  rw [← List.append_nil (varBytes o.script)]
  exact (reads_varBytes o.script fits).andThen (reads_value _)

/-- A list of values that are each read back from their own serialisation. -/
theorem reads_serialized (p : Reader α) (serialize : α → Bytes) (l : List α)
    (fits : l.length < 2 ^ 64) (each : ∀ a ∈ l, Reads p (serialize a) a) :
    Reads (readCounted p) (compactSize l.length ++ l.flatMap serialize) l := by
  have items := reads_counted p (l.map fun a => (serialize a, a)) (by rwa [List.length_map])
  have read := items fun item member => by
    obtain ⟨a, inside, rfl⟩ := List.mem_map.mp member
    exact each a inside
  simpa [List.flatMap_map, List.map_map, Function.comp_def] using read

theorem reads_tx (t : Tx) (fits : t.Countable) : Reads readTx t.serialize t := by
  obtain ⟨inputs, outputs, ins, outs⟩ := fits
  unfold Tx.serialize
  apply (reads_word32 t.version).andThen
  apply (reads_serialized readTxIn TxIn.serialize t.inputs inputs fun i member =>
    reads_txIn i (ins i member)).andThen
  apply (reads_serialized readTxOut TxOut.serialize t.outputs outputs fun o member =>
    reads_txOut o (outs o member)).andThen
  rw [← List.append_nil (littleEndian 4 t.locktime.toNat)]
  exact (reads_word32 t.locktime).andThen (reads_value _)

/-! ## Blocks -/

/-- A header of 80 bytes and the transactions behind their count. -/
def readBlock (p : Reader α) : Reader (Bytes × List α) :=
  andThen (readBytes 80) fun header => andThen (readCounted p) fun txs => value (header, txs)

theorem reads_block (p : Reader α) (header : Bytes) (size : header.length = 80)
    (items : List (Bytes × α)) (fits : items.length < 2 ^ 64)
    (each : ∀ item ∈ items, Reads p item.1 item.2) :
    Reads (readBlock p) (header ++ (compactSize items.length ++ items.flatMap Prod.fst))
      (header, items.map Prod.snd) := by
  have field := reads_bytes header
  rw [size] at field
  apply field.andThen
  rw [← List.append_nil (compactSize items.length ++ items.flatMap Prod.fst)]
  exact (reads_counted p items fits each).andThen (reads_value _)

end CgminerT4.Library.Transaction
