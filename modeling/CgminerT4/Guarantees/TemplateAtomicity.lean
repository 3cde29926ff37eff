import CgminerT4.Guarantees.SoloTemplate

/-!
# Rejected templates

gbt_solo_decode rejects a template in two places. Without a required member it
returns before it takes gbt_lock, and nothing has changed. When the witness
commitment fails it returns from inside the locked section, after it has
replaced the header fields, the transactions and the merkle branch of the pool.
-/
namespace CgminerT4.Guarantees.TemplateAtomicity
open Library.ByteString Source.Jansson Source.GbtMerkle Source.GbtWitness Source.GbtTemplate
  SoloTemplate

/-- The template fields of two pools agree; coinbase_len is the length of `coinbase`. -/
structure SameTemplate (before after : TemplatePool) : Prop where
  previousblockhash : after.previousblockhash = before.previousblockhash
  gbtTarget : after.gbtTarget = before.gbtTarget
  gbtVersion : after.gbtVersion = before.gbtVersion
  bbversion : after.bbversion = before.bbversion
  curtime : after.curtime = before.curtime
  ntime : after.ntime = before.ntime
  nbit : after.nbit = before.nbit
  txnData : after.txnData = before.txnData
  transactions : after.transactions = before.transactions
  merklebin : after.merklebin = before.merklebin
  merkles : after.merkles = before.merkles
  coinbase : after.coinbase = before.coinbase
  nonce2Offset : after.nonce2Offset = before.nonce2Offset
  headerBin : after.headerBin = before.headerBin

/-- On return the lock is free, and after a failure the template is the old one.
A call without a defined result promises neither. -/
def Atomic (pool : TemplatePool) : Decoded → Prop
  | .quit => True
  | .undefined => False
  | .returned after locked ret => locked = false ∧ (ret = false → SameTemplate pool after)

variable (genHash : Bytes → Digest) (diffFromTarget : Buffer 32 → Double)

/-- The branch and the script fit their arrays, and no commitment fails. -/
structure Decodable (t : SoloFields) (optBtcSig : Option Bytes) : Prop where
  merkle : MerkleFits (arrayItems t.transactionArr)
  witness : WitnessAccepted genHash t
  script : ScriptFits t optBtcSig

/-- A failing commitment is found with the lock held and the fields replaced. -/
theorem gbtSoloDecode_rejected (pool : TemplatePool) (resVal : Option Json) (hashSwap : Buffer 32)
    (now : Time) (optBtcSig : Option Bytes) (t : SoloFields) (read : readSolo resVal = some t)
    (merkle : MerkleFits (arrayItems t.transactionArr))
    (rejected : checkWitness genHash t = .rejected) :
    ∃ stored, buildGbtTxns genHash (storeSolo diffFromTarget pool t hashSwap) t.transactionArr =
      some stored ∧
      gbtSoloDecode genHash diffFromTarget pool resVal hashSwap now optBtcSig =
        .returned stored true false := by
  have built :=
    (buildGbtTxns_defined genHash (storeSolo diffFromTarget pool t hashSwap)
      t.transactionArr).mpr merkle
  obtain ⟨stored, built⟩ := Option.isSome_iff_exists.mp built
  refine ⟨stored, built, ?_⟩
  unfold gbtSoloDecode
  rw [read]
  dsimp only
  rw [built]
  dsimp only
  rw [rejected]

/-- The result without the lock, which the header decides. -/
theorem storeHeader_atomic (pool built : TemplatePool) : Atomic pool (storeHeader built) := by
  unfold storeHeader
  split
  · exact ⟨rfl, fun never => absurd never (by simp)⟩
  · trivial

theorem gbtSoloDecode_atomic (pool : TemplatePool) (resVal : Option Json) (hashSwap : Buffer 32)
    (now : Time) (optBtcSig : Option Bytes) (t : SoloFields) (read : readSolo resVal = some t) :
    Atomic pool (gbtSoloDecode genHash diffFromTarget pool resVal hashSwap now optBtcSig) ↔
      Decodable genHash t optBtcSig := by
  have merkle :=
    buildGbtTxns_defined genHash (storeSolo diffFromTarget pool t hashSwap) t.transactionArr
  have witness := checkWitness_spec genHash t
  unfold gbtSoloDecode
  rw [read]
  dsimp only
  cases built :
    buildGbtTxns genHash (storeSolo diffFromTarget pool t hashSwap) t.transactionArr with
  | none =>
    rw [built] at merkle
    exact iff_of_false id fun decodable => absurd (merkle.mpr decodable.merkle) (by simp)
  | some stored =>
    rw [built] at merkle
    dsimp only
    cases checked : checkWitness genHash t with
    | undefined =>
      rw [checked] at witness
      refine iff_of_false id fun decodable => ?_
      obtain ⟨_, never⟩ := witness.mpr decodable.witness
      cases never
    | rejected =>
      rw [checked] at witness
      refine iff_of_false (fun atomic => ?_) fun decodable => ?_
      · cases atomic.1
      · obtain ⟨_, never⟩ := witness.mpr decodable.witness
        cases never
    | data witnessdata =>
      have size := checkWitness_length genHash t witnessdata checked
      have script := storeCoinbase_defined stored t witnessdata now optBtcSig size
      rw [checked] at witness
      dsimp only
      cases coinbase : storeCoinbase stored t witnessdata now optBtcSig with
      | none =>
        rw [coinbase] at script
        exact iff_of_false id fun decodable => absurd (script.mpr decodable.script) (by simp)
      | some next =>
        rw [coinbase] at script
        refine iff_of_true (storeHeader_atomic pool next) ?_
        exact ⟨merkle.mp rfl, witness.mp ⟨witnessdata, rfl⟩, script.mp rfl⟩

theorem template_atomic_iff (pool : TemplatePool) (resVal : Option Json) (hashSwap : Buffer 32)
    (now : Time) (optBtcSig : Option Bytes) :
    Atomic pool (gbtSoloDecode genHash diffFromTarget pool resVal hashSwap now optBtcSig) ↔
      ∀ t ∈ readSolo resVal, Decodable genHash t optBtcSig := by
  cases read : readSolo resVal with
  | none =>
    refine iff_of_true ?_ fun _ never => absurd never (by simp)
    unfold gbtSoloDecode
    rw [read]
    exact ⟨rfl, fun _ => ⟨rfl, rfl, rfl, rfl, rfl, rfl, rfl, rfl, rfl, rfl, rfl, rfl, rfl, rfl⟩⟩
  | some t =>
    rw [gbtSoloDecode_atomic genHash diffFromTarget pool resVal hashSwap now optBtcSig t read]
    constructor
    · intro decodable other same
      cases same
      exact decodable
    · exact fun all => all t rfl

/-- The members of a template, with a rule that is not segwit and one
transaction without a hash. -/
def unhashedTemplate : Json :=
  .object
    [("previousblockhash", .string (List.replicate 64 0x30)),
      ("target", .string (List.replicate 64 0x30)),
      ("version", .integer 536870912),
      ("curtime", .integer 1700000000),
      ("bits", .string (ascii "1d00ffff")),
      ("height", .integer 800000),
      ("coinbasevalue", .integer 625000000),
      ("coinbaseaux", .object [("flags", .string [])]),
      ("rules", .array [.string (ascii "csv")]),
      ("transactions", .array
        [.object [("data", .string (ascii "00")), ("txid", .string (List.replicate 64 0x30))]])]

/-- A transaction without a hash leaves the lock held. -/
theorem unhashed_template_keeps_lock :
    ¬∀ (pool : TemplatePool) (resVal : Option Json) (hashSwap : Buffer 32) (now : Time)
      (optBtcSig : Option Bytes),
      Atomic pool (gbtSoloDecode (fun _ => .zero 32)
        (fun _ => 0) pool resVal hashSwap now optBtcSig) := by
  intro all
  obtain ⟨t, read, inserted, arr⟩ : ∃ t, readSolo (some unhashedTemplate) = some t ∧
      t.insertWitness = true ∧
      t.transactionArr = some (.array
        [.object [("data", .string (ascii "00")), ("txid", .string (List.replicate 64 0x30))]]) :=
    ⟨_, rfl, by decide +kernel, rfl⟩
  have rejected : checkWitness (fun _ => .zero 32) t = .rejected := by
    have calculated := (gbtWitnessData_spec (fun _ => .zero 32) t.transactionArr).1
    have missing : ¬∀ txn ∈ arrayItems t.transactionArr, (storedHash txn).isSome = true := by
      rw [arr]
      intro hashes
      exact absurd (hashes _ List.mem_cons_self) (by decide +kernel)
    unfold checkWitness
    dsimp only
    rw [if_neg (by simp [inserted]),
      if_pos (by simpa using fun done => missing (calculated.mp done))]
  have few : MerkleFits (arrayItems t.transactionArr) := by
    rw [arr]
    exact fun _ => by decide
  obtain ⟨stored, _, returned⟩ :=
    gbtSoloDecode_rejected (fun _ => .zero 32) (fun _ => 0) (newPool 0 true) _
    (.zero 32) ⟨0, 0⟩ none t read few rejected
  have atomic := all (newPool 0 true) (some unhashedTemplate) (.zero 32) ⟨0, 0⟩ none
  rw [returned] at atomic
  cases atomic.1

end CgminerT4.Guarantees.TemplateAtomicity
