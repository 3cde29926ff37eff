import CgminerT4.Guarantees.SoloTemplate
import CgminerT4.Library.Runs
import CgminerT4.Library.Transaction
import CgminerT4.Source.BlockSubmit

/-!
# Submitted blocks

A work keeps the count of transactions and the coinbase; the transactions are
appended from the pool when it is submitted. Works are followed while their
template is current. For solo pools the three parts agree unless the copy of the
transactions ended early; for pools that provide the coinbase the count is
always one.
-/
namespace CgminerT4.Guarantees.BlockSubmission
open Library.ByteString Library.Runs Library.SignedInt Library.Transaction
open Source.Jansson Source.Hex Source.GbtMerkle Source.GbtTemplate Source.BlockSubmit SoloTemplate

/-! ## The system -/

/-- The pool, the transactions of the template it has accepted last, and the
works generated from that. -/
structure World where
  pool : TemplatePool
  template : Option (List Json)
  works : List GbtWork

/-- A pool before its first template. -/
def start (poolNo : Source.WorkItem.PoolNo) (gbtSolo : Bool) (scriptPubkey : Buffer 28) :
    World where
  pool := { newPool poolNo gbtSolo with scriptPubkey }
  template := none
  works := []

inductive Event where
  | decode (resVal : Option Json) (hashSwap : Buffer 32) (now : Time) (optBtcSig : Option Bytes)
  | setup
  | generate (work : GbtWork)
  /-- Rolling a work and a nonce found for it change the header only. -/
  | adjust (i : Nat) (data : Buffer 128)

variable (genHash : Bytes → Digest) (diffFromTarget : Buffer 32 → Double)

/-- A template that is rejected under the lock ends the run: nothing gets
gbt_lock any more. -/
def decode (pool : TemplatePool) (resVal : Option Json) (hashSwap : Buffer 32) (now : Time)
    (optBtcSig : Option Bytes) : Option (TemplatePool × Bool) :=
  if hasGbt pool then gbtDecode genHash pool resVal hashSwap
  else
    match gbtSoloDecode genHash diffFromTarget pool resVal hashSwap now optBtcSig with
    | .returned next false ret => some (next, ret)
    | _ => none

def generate (pool : TemplatePool) (work : GbtWork) : Option (TemplatePool × GbtWork) :=
  if hasGbt pool then genGbtWork genHash pool work else genSoloWork genHash pool work

def step (s : World) : Event → Option World
  | .decode resVal hashSwap now optBtcSig =>
    (decode genHash diffFromTarget s.pool resVal hashSwap now optBtcSig).map fun (pool, ret) =>
      if ret then
        { pool, template := some (arrayItems (jsonObjectGet resVal "transactions")), works := [] }
      else { s with pool }
  | .setup => (setupGbtSolo s.pool).map fun pool => { s with pool }
  | .generate work =>
    if s.template.isSome then
      (generate genHash s.pool work).map fun (pool, made) =>
        { s with pool, works := s.works ++ [made] }
    else none
  | .adjust i data =>
    s.works[i]?.map fun work => { s with works := s.works.set i { work with data } }

/-! ## What a submission has to be -/

/-- The transactions that belong behind the coinbase: none when the pool has
submit/coinbase support. -/
def Appended (pool : TemplatePool) (txns : List Json) (appended : List Bytes) : Prop :=
  if hasGbt pool then appended = [] else txns.map transactionData = appended.map some

def blockHex (work : GbtWork) (txns : List Json) (coinbase : Bytes) (appended : List Bytes) :
    Bytes :=
  bin2hex (flip80 work.data) ++
    (bin2hex (compactSize (txns.length + 1)) ++ (coinbase ++ appended.flatten))

/-- The hex strings are those of the items' bytes. -/
def Encodes (hexes : List Bytes) (items : List (Bytes × α)) : Prop :=
  List.Forall₂ (fun hex item => validHex hex = true ∧ hex.length = 2 * item.1.length ∧
    unhex hex = item.1)
    hexes items

/-- Any parser of transactions that reads the coinbase and the appended ones
reads one more than the template has from the block. -/
def ReadsBack (work : GbtWork) (txns : List Json) (coinbase : Bytes)
    (appended : List Bytes) : Prop :=
  ∀ (α : Type) (p : Reader α) (items : List (Bytes × α)), appended.length = txns.length →
    Encodes (coinbase :: appended) items → (∀ item ∈ items, Reads p item.1 item.2) →
    readBlock p (unhex (blockHex work txns coinbase appended)) =
      some ((flip80 work.data, items.map Prod.snd), []) ∧ items.length = txns.length + 1

def Submits (s : World) (work : GbtWork) : Prop :=
  ∃ txns coinbase appended, s.template = some txns ∧ work.coinbase = some coinbase ∧
    Appended s.pool txns appended ∧
    submitUpstreamWork s.pool work =
      some (submitPrefix ++ blockHex work txns coinbase appended ++ submitSuffix work.jobId) ∧
    ReadsBack work txns coinbase appended

/-- The current template can be submitted as it should be: without transactions
and with a coinbase that fits the buffers, or with data that was copied whole. -/
def Encodable (s : World) : Prop :=
  ∀ txns ∈ s.template,
    if hasGbt s.pool then txns = [] ∧ s.pool.coinbase.length ≤ 407
    else (∀ txn ∈ txns, (transactionData txn).isSome = true) ∧
      txns.Pairwise fun txn later => storedTxid txn = none → transactionData later = some []

/-! ## The count -/

theorem varint_eq (gbtTxns : CInt) (n : Nat) (counted : gbtTxns.val = n) :
    varint gbtTxns = bin2hex (compactSize n) := by
  have bound := gbtTxns.upper
  have fd : bin2hex [0xfd] = ascii "fd" := by decide +kernel
  have fe : bin2hex [0xfe] = ascii "fe" := by decide +kernel
  unfold varint compactSize
  rw [counted]
  by_cases byte : n < 0xfd
  · have narrow : UInt8.ofInt n = UInt8.ofNat n := by
      rw [UInt8.ofInt]
      congr 1
      omega
    rw [if_pos (by omega), if_pos byte, narrow]
  · rw [if_neg (by omega), if_neg byte]
    by_cases short : n ≤ 0xffff
    · have narrow : (UInt16.ofInt n).toNat = n := by
        rw [UInt16.ofInt, UInt16.toNat_ofNat']
        omega
      rw [if_pos (by omega), if_pos short, narrow, ← fd]
      rfl
    · have narrow : (UInt32.ofInt n).toNat = n := by
        rw [UInt32.ofInt, UInt32.toNat_ofNat']
        omega
      rw [if_neg (by omega), if_neg short, if_pos (by omega), narrow, ← fe]
      rfl

theorem length_varint_le (gbtTxns : CInt) : (varint gbtTxns).length ≤ 10 := by
  have fd : (ascii "fd").length = 2 := by decide +kernel
  have fe : (ascii "fe").length = 2 := by decide +kernel
  unfold varint
  split
  · simp [length_bin2hex]
  · split
    · rw [List.length_append, fd, length_bin2hex, length_littleEndian]
      decide
    · rw [List.length_append, fe, length_bin2hex, length_littleEndian]

theorem compactSize_eq_one (n : Nat) (single : compactSize n = compactSize 1) : n = 1 := by
  unfold compactSize at single
  rw [if_pos (by decide : 1 < 0xfd)] at single
  split at single
  · next small =>
    have byte := congrArg UInt8.toNat (List.singleton_inj.mp single)
    simp at byte
    omega
  · split at single
    · exact absurd (List.cons.inj single).1 (by decide)
    · split at single
      · exact absurd (List.cons.inj single).1 (by decide)
      · exact absurd (List.cons.inj single).1 (by decide)

theorem bin2hex_inj (a b : Bytes) (same : bin2hex a = bin2hex b) : a = b := by
  have decoded := congrArg unhex same
  rwa [unhex_bin2hex, unhex_bin2hex] at decoded

/-! ## The transactions -/

/-- Every transaction has one of the strings. -/
theorem transactionData_mem (txns : List Json) (appended : List Bytes)
    (data : txns.map transactionData = appended.map some) (txn : Json) (member : txn ∈ txns) :
    ∃ hex ∈ appended, transactionData txn = some hex := by
  have listed : transactionData txn ∈ appended.map some := by
    rw [← data]
    exact List.mem_map_of_mem member
  obtain ⟨hex, among, same⟩ := List.mem_map.mp listed
  exact ⟨hex, among, same.symm⟩

theorem transactionData_listed (txns : List Json) :
    (∃ appended : List Bytes, txns.map transactionData = appended.map some) ↔
      ∀ txn ∈ txns, (transactionData txn).isSome = true := by
  constructor
  · rintro ⟨appended, data⟩ txn member
    obtain ⟨hex, _, given⟩ := transactionData_mem txns appended data txn member
    rw [given]
    rfl
  · intro present
    refine ⟨txns.map fun txn => (transactionData txn).getD [], ?_⟩
    rw [List.map_map]
    apply List.map_congr_left
    intro txn member
    obtain ⟨hex, given⟩ := Option.isSome_iff_exists.mp (present txn member)
    rw [Function.comp_apply, given, Option.getD_some]

/-- The copy holds all data exactly when no data lies behind a transaction
without an id. -/
theorem copyTxnData_complete (txns : List Json) (appended : List Bytes)
    (data : txns.map transactionData = appended.map some)
    (ids : txns.Pairwise fun txn later => storedTxid txn = none → transactionData later = some []) :
    copyTxnData txns = appended.flatten := by
  induction txns generalizing appended with
  | nil =>
    rw [List.map_nil, eq_comm, List.map_eq_nil_iff] at data
    rw [data]
    rfl
  | cons txn rest ih =>
    cases appended with
    | nil => cases data
    | cons hex others =>
      rw [List.map_cons, List.map_cons] at data
      obtain ⟨first, later⟩ := List.cons.inj data
      obtain ⟨head, tail⟩ := List.pairwise_cons.mp ids
      rw [copyTxnData, first, List.flatten_cons]
      split
      · next missing =>
        have empty : others.flatten = [] := by
          rw [List.flatten_eq_nil_iff]
          intro other member
          have listed : some other ∈ rest.map transactionData := by
            rw [later]
            exact List.mem_map_of_mem member
          obtain ⟨owner, inside, owned⟩ := List.mem_map.mp listed
          rw [head owner inside missing] at owned
          exact (Option.some.inj owned).symm
        rw [empty, List.append_nil]
        rfl
      · rw [ih others later tail]
        rfl

theorem length_copyTxnData (txns : List Json) (appended : List Bytes)
    (data : txns.map transactionData = appended.map some) :
    (copyTxnData txns).length ≤ appended.flatten.length ∧
      ((copyTxnData txns).length = appended.flatten.length →
        txns.Pairwise fun txn later => storedTxid txn = none →
          transactionData later = some []) := by
  induction txns generalizing appended with
  | nil => exact ⟨Nat.zero_le _, fun _ => List.Pairwise.nil⟩
  | cons txn rest ih =>
    cases appended with
    | nil => cases data
    | cons hex others =>
      rw [List.map_cons, List.map_cons] at data
      obtain ⟨first, later⟩ := List.cons.inj data
      obtain ⟨shorter, complete⟩ := ih others later
      rw [copyTxnData, first, List.flatten_cons, List.length_append, Option.getD_some]
      split
      · next missing =>
        refine ⟨by omega, fun same => ?_⟩
        have empty : others.flatten = [] := List.eq_nil_of_length_eq_zero (by omega)
        have none_left : ∀ owner ∈ rest, transactionData owner = some [] := by
          intro owner inside
          obtain ⟨other, member, given⟩ := transactionData_mem rest others later owner inside
          rw [given, List.flatten_eq_nil_iff.mp empty other member]
        refine List.pairwise_cons.mpr ⟨fun owner inside _ => none_left owner inside, ?_⟩
        exact List.pairwise_of_forall_mem_list fun _ _ owner inside _ => none_left owner inside
      · next txid named =>
        rw [List.length_append]
        refine ⟨by omega, fun same => ?_⟩
        refine List.pairwise_cons.mpr ⟨fun _ _ missing => ?_, complete (by omega)⟩
        rw [named] at missing
        cases missing

/-! ## Reading a block back -/

theorem unhex_bin2hex_append (bytes rest : Bytes) :
    unhex (bin2hex bytes ++ rest) = bytes ++ unhex rest := by
  rw [unhex_append _ rest bytes.length (validHex_bin2hex bytes) (length_bin2hex bytes),
    unhex_bin2hex]

theorem unhex_flatten (hexes : List Bytes) (items : List (Bytes × α))
    (encodes : Encodes hexes items) :
    unhex hexes.flatten = items.flatMap Prod.fst := by
  induction encodes with
  | nil => rfl
  | @cons hex item hexes items decodes _ ih =>
    obtain ⟨valid, pairs, bytes⟩ := decodes
    rw [List.flatten_cons, List.flatMap_cons, unhex_append hex _ item.1.length valid pairs,
      bytes, ih]

theorem length_flip80 (data : Buffer 128) : (flip80 data).length = 80 := by
  rw [flip80, length_flipWords, List.length_take, data.length_eq]
  rfl

theorem readsBack (work : GbtWork) (txns : List Json) (coinbase : Bytes) (appended : List Bytes)
    (countable : txns.length + 1 < 2 ^ 64) : ReadsBack work txns coinbase appended := by
  intro α p items all encodes each
  have size : items.length = txns.length + 1 := by
    rw [← List.Forall₂.length_eq encodes, List.length_cons, all]
  have block : unhex (blockHex work txns coinbase appended) =
      flip80 work.data ++ (compactSize items.length ++ items.flatMap Prod.fst) := by
    rw [blockHex, unhex_bin2hex_append, unhex_bin2hex_append, size, ← List.flatten_cons,
      unhex_flatten _ items encodes]
  refine ⟨?_, size⟩
  rw [block]
  exact (reads_block p _ (length_flip80 work.data) items (by omega) each).whole

/-! ## Works of the current template -/

/-- What a work keeps of the template it was generated from. -/
structure Made (s : World) (txns : List Json) (work : GbtWork) : Prop where
  coinbase : ∃ bytes, work.coinbase = some (bin2hex bytes) ∧ bytes.length = s.pool.coinbase.length
  counted : work.gbtTxns.val = if hasGbt s.pool then 1 else (txns.length + 1 : Nat)

/-- What a solo pool keeps of it. -/
structure Kept (pool : TemplatePool) (txns : List Json) : Prop where
  transactions : pool.transactions = txns.length
  txnData : pool.txnData = storeTxnData txns
  coinbase : pool.coinbase.length ≤ 259

structure Inv (s : World) : Prop where
  uncounted : s.pool.gbtTxns = 0
  kept : ∀ txns ∈ s.template, hasGbt s.pool = false → Kept s.pool txns
  made : ∀ work ∈ s.works, ∃ txns, s.template = some txns ∧ Made s txns work

/-- The request for a work whose parts fit the buffers. -/
theorem submitUpstreamWork_eq (pool : TemplatePool) (work : GbtWork) (bytes : Bytes)
    (kept : work.coinbase = some (bin2hex bytes)) :
    submitUpstreamWork pool work =
      if 207 + (varint work.gbtTxns).length + 2 * bytes.length < 1024 then
        (blockTxns pool).map fun txns =>
          submitPrefix ++ (bin2hex (flip80 work.data) ++
            (varint work.gbtTxns ++ (bin2hex bytes ++ txns))) ++
            submitSuffix work.jobId
      else none := by
  have front : submitPrefix.length = 47 := by decide +kernel
  have header : (bin2hex (flip80 work.data)).length = 160 := by rw [length_bin2hex, length_flip80]
  have size : (bin2hex (flip80 work.data) ++ varint work.gbtTxns ++ bin2hex bytes).length =
      160 + (varint work.gbtTxns).length + 2 * bytes.length := by
    rw [List.length_append, List.length_append, header, length_bin2hex]
  unfold submitUpstreamWork gbtBlock
  rw [kept, Option.bind_some]
  dsimp only
  rw [size]
  by_cases block : 160 + (varint work.gbtTxns).length + 2 * bytes.length < 1024
  · rw [if_pos block, Option.bind_some, List.length_append, front, size]
    by_cases fits : 207 + (varint work.gbtTxns).length + 2 * bytes.length < 1024
    · rw [if_pos fits, if_pos (by omega)]
      simp only [List.append_assoc]
    · rw [if_neg fits, if_neg (by omega)]
  · rw [if_neg block, if_neg (by omega)]
    rfl

/-- The parts in front of and behind the block do not depend on it. -/
theorem request_inj (jobId : Option Bytes) (header a b : Bytes)
    (same : submitPrefix ++ (header ++ a) ++ submitSuffix jobId =
      submitPrefix ++ (header ++ b) ++ submitSuffix jobId) :
    a = b :=
  List.append_cancel_left (List.append_cancel_left (List.append_cancel_right same))

/-- A pool with submit/coinbase support: every work says that it has one transaction. -/
theorem submits_gbt (s : World) (txns : List Json) (work : GbtWork) (gbt : hasGbt s.pool = true)
    (template : s.template = some txns) (made : Made s txns work) :
    Submits s work ↔ txns = [] ∧ s.pool.coinbase.length ≤ 407 := by
  obtain ⟨bytes, string, size⟩ := made.coinbase
  have counted := made.counted
  rw [if_pos gbt] at counted
  have count := varint_eq work.gbtTxns 1 counted
  have width : (varint work.gbtTxns).length = 2 := by
    rw [count, length_bin2hex]
    rfl
  have nothing : blockTxns s.pool = some [] := by
    rw [blockTxns, if_pos gbt]
  have request := submitUpstreamWork_eq s.pool work bytes string
  rw [width, nothing, size] at request
  constructor
  · rintro ⟨others, coinbase, appended, current, same, listed, submitted, _⟩
    rw [template] at current
    cases current
    rw [string] at same
    cases same
    rw [Appended, if_pos gbt] at listed
    rw [request] at submitted
    split at submitted
    · next fits =>
      refine ⟨?_, by omega⟩
      have block := request_inj _ _ _ _ (Option.some.inj submitted)
      rw [listed] at block
      rw [count] at block
      have counts := bin2hex_inj _ _ (List.append_cancel_right block)
      have one := compactSize_eq_one _ counts.symm
      exact List.eq_nil_of_length_eq_zero (by omega)
    · cases submitted
  · rintro ⟨empty, fits⟩
    refine ⟨txns, bin2hex bytes, [], template, string, by rw [Appended, if_pos gbt], ?_,
      readsBack work txns _ _ (by rw [empty]; decide)⟩
    rw [request, if_pos (by omega), empty, count]
    rfl

theorem storeTxnData_eq (txns : List Json) (appended : List Bytes)
    (data : txns.map transactionData = appended.map some) :
    storeTxnData txns =
      if txns = [] then none else
        some { copied := copyTxnData txns, size := appended.flatten.length } := by
  have present : (txns.all fun txn => (transactionData txn).isSome) = true := by
    rw [List.all_eq_true]
    exact (transactionData_listed txns).mp ⟨appended, data⟩
  have sizes : txns.map (fun txn => ((transactionData txn).getD []).length) =
      appended.map List.length := by
    have lengths := congrArg (List.map fun hex : Option Bytes => (hex.getD []).length) data
    rwa [List.map_map, List.map_map] at lengths
  unfold storeTxnData
  rw [present, sizes, ← List.length_flatten]
  cases txns with
  | nil => rfl
  | cons txn rest => rfl

/-- What a solo pool appends is the data of all transactions, or is not defined. -/
theorem blockTxns_solo_eq (pool : TemplatePool) (txns : List Json) (appended : List Bytes)
    (solo : hasGbt pool = false) (kept : Kept pool txns)
    (data : txns.map transactionData = appended.map some)
    (ids : txns.Pairwise fun txn later => storedTxid txn = none → transactionData later = some []) :
    blockTxns pool = some appended.flatten := by
  have stored := storeTxnData_eq txns appended data
  have copied := copyTxnData_complete txns appended data ids
  unfold blockTxns
  rw [solo, if_neg (by decide), kept.txnData, stored]
  cases txns with
  | nil =>
    rw [← copied]
    rfl
  | cons txn rest =>
    rw [if_neg (by simp), copied]
    exact if_pos rfl

theorem blockTxns_solo_complete (pool : TemplatePool) (txns : List Json) (appended : List Bytes)
    (tail : Bytes) (solo : hasGbt pool = false) (kept : Kept pool txns)
    (data : txns.map transactionData = appended.map some) (defined : blockTxns pool = some tail) :
    txns.Pairwise fun txn later => storedTxid txn = none → transactionData later = some [] := by
  have stored := storeTxnData_eq txns appended data
  have sizes := length_copyTxnData txns appended data
  unfold blockTxns at defined
  rw [solo, if_neg (by decide), kept.txnData, stored] at defined
  cases txns with
  | nil => exact List.Pairwise.nil
  | cons txn rest =>
    rw [if_neg (by simp)] at defined
    dsimp only at defined
    split at defined
    · next same => exact sizes.2 same
    · cases defined

/-- A solo pool: the count is that of the template, and the copy decides. -/
theorem submits_solo (s : World) (txns : List Json) (work : GbtWork) (solo : hasGbt s.pool = false)
    (template : s.template = some txns) (kept : Kept s.pool txns) (made : Made s txns work) :
    Submits s work ↔ (∀ txn ∈ txns, (transactionData txn).isSome = true) ∧
      txns.Pairwise fun txn later => storedTxid txn = none → transactionData later = some [] := by
  obtain ⟨bytes, string, size⟩ := made.coinbase
  have counted := made.counted
  rw [solo, if_neg (by decide)] at counted
  have count := varint_eq work.gbtTxns (txns.length + 1) counted
  have width := length_varint_le work.gbtTxns
  have short := kept.coinbase
  have bound := work.gbtTxns.upper
  have request := submitUpstreamWork_eq s.pool work bytes string
  rw [if_pos (by omega)] at request
  have lists : ∀ appended, Appended s.pool txns appended ↔
      txns.map transactionData = appended.map some := by
    intro appended
    rw [Appended, solo, if_neg (by decide)]
  constructor
  · rintro ⟨others, coinbase, appended, current, same, listed, submitted, _⟩
    rw [template] at current
    cases current
    have data := (lists appended).mp listed
    rw [request] at submitted
    obtain ⟨tail, defined, _⟩ := Option.map_eq_some_iff.mp submitted
    exact ⟨(transactionData_listed txns).mp ⟨appended, data⟩,
      blockTxns_solo_complete s.pool txns appended tail solo kept data defined⟩
  · rintro ⟨present, ids⟩
    obtain ⟨appended, data⟩ := (transactionData_listed txns).mpr present
    have whole := blockTxns_solo_eq s.pool txns appended solo kept data ids
    refine ⟨txns, bin2hex bytes, appended, template, string, (lists appended).mpr data, ?_,
      readsBack work txns _ _ (by omega)⟩
    rw [request, whole, count]
    rfl

theorem submits_iff (s : World) (work : GbtWork) (inv : Inv s) (member : work ∈ s.works) :
    Submits s work ↔ Encodable s := by
  obtain ⟨txns, template, made⟩ := inv.made work member
  unfold Encodable
  rw [template]
  simp only [Option.mem_def, Option.some.injEq, forall_eq']
  cases mode : hasGbt s.pool with
  | true =>
    rw [if_pos rfl]
    exact submits_gbt s txns work mode template made
  | false =>
    rw [if_neg (by decide)]
    exact submits_solo s txns work mode template (inv.kept txns template mode) made

/-! ## Steps -/

/-- Only the coinbase and the counter in it change while a template is current. -/
structure SameTemplate (before next : TemplatePool) : Prop where
  gbtSolo : next.gbtSolo = before.gbtSolo
  gbtTxns : next.gbtTxns = before.gbtTxns
  transactions : next.transactions = before.transactions
  txnData : next.txnData = before.txnData
  coinbase : next.coinbase.length = before.coinbase.length

theorem SameTemplate.hasGbt {before next : TemplatePool} (same : SameTemplate before next) :
    hasGbt next = hasGbt before := by
  rw [Source.GbtTemplate.hasGbt, same.gbtSolo]
  rfl

theorem SameTemplate.kept {before next : TemplatePool} (same : SameTemplate before next)
    (txns : List Json) (kept : Kept before txns) : Kept next txns := by
  refine ⟨?_, ?_, ?_⟩
  · rw [same.transactions, kept.transactions]
  · rw [same.txnData, kept.txnData]
  · rw [same.coinbase]
    exact kept.coinbase

theorem setupGbtSolo_same (pool next : TemplatePool) (ready : setupGbtSolo pool = some next) :
    SameTemplate pool next := by
  obtain ⟨frame, size⟩ := setupGbtSolo_frame pool next ready
  refine ⟨?_, ?_, ?_, ?_, size⟩ <;> rw [frame]

theorem genGbtWork_spec (pool next : TemplatePool) (work made : GbtWork)
    (generated : genGbtWork genHash pool work = some (next, made)) :
    SameTemplate pool next ∧ made.coinbase = some (bin2hex next.coinbase) ∧
      made.gbtTxns.val = pool.gbtTxns + 1 := by
  unfold genGbtWork at generated
  split at generated
  · obtain ⟨coinbase, copied, generated⟩ := Option.bind_eq_some_iff.mp generated
    obtain ⟨data, _, generated⟩ := Option.bind_eq_some_iff.mp generated
    obtain ⟨gbtTxns, counted, same⟩ := Option.map_eq_some_iff.mp generated
    cases same
    have size := length_blit _ _ _ _ copied
    exact ⟨⟨rfl, rfl, rfl, rfl, size⟩, rfl, CInt.ofInt_eq_some _ _ counted⟩
  · cases generated

theorem genSoloWork_frame (pool next : Source.GbtMerkle.Pool) (work made : Source.WorkItem.Work)
    (generated : Source.GbtMerkle.genSoloWork genHash pool work = some (next, made)) :
    next = { pool with coinbase := next.coinbase, nonce2 := next.nonce2 } ∧
      next.coinbase.length = pool.coinbase.length := by
  unfold Source.GbtMerkle.genSoloWork at generated
  split at generated
  · obtain ⟨coinbase, copied, generated⟩ := Option.bind_eq_some_iff.mp generated
    obtain ⟨header, _, generated⟩ := Option.bind_eq_some_iff.mp generated
    obtain ⟨data, _, same⟩ := Option.map_eq_some_iff.mp generated
    cases same
    exact ⟨rfl, length_blit _ _ _ _ copied⟩
  · cases generated

theorem genSoloWork_spec (pool next : TemplatePool) (work made : GbtWork)
    (generated : genSoloWork genHash pool work = some (next, made)) :
    SameTemplate pool next ∧ made.coinbase = some (bin2hex next.coinbase) ∧
      made.gbtTxns.val = pool.transactions + 1 := by
  obtain ⟨⟨base, out⟩, stored, generated⟩ := Option.bind_eq_some_iff.mp generated
  obtain ⟨gbtTxns, counted, same⟩ := Option.map_eq_some_iff.mp generated
  cases same
  obtain ⟨frame, size⟩ := genSoloWork_frame genHash pool.toPool base work.toWork out stored
  refine ⟨⟨rfl, rfl, ?_, rfl, size⟩, rfl, CInt.ofInt_eq_some _ _ counted⟩
  show base.transactions = pool.transactions
  rw [frame]

/-- A generated work is one of the current template. -/
theorem generate_spec (s : World) (txns : List Json) (next : TemplatePool) (work made : GbtWork)
    (inv : Inv s) (template : s.template = some txns)
    (generated : generate genHash s.pool work = some (next, made)) :
    SameTemplate s.pool next ∧ made.coinbase = some (bin2hex next.coinbase) ∧
      made.gbtTxns.val = if hasGbt s.pool then 1 else (txns.length + 1 : Nat) := by
  unfold generate at generated
  split at generated
  · next gbt =>
    obtain ⟨same, coinbase, counted⟩ := genGbtWork_spec genHash s.pool next work made generated
    refine ⟨same, coinbase, ?_⟩
    rw [counted, inv.uncounted, if_pos gbt]
    rfl
  · next solo =>
    obtain ⟨same, coinbase, counted⟩ := genSoloWork_spec genHash s.pool next work made generated
    refine ⟨same, coinbase, ?_⟩
    have kept := inv.kept txns template (by simpa using solo)
    rw [counted, kept.transactions, if_neg solo]
    rfl

theorem readSolo_transactions (resVal : Option Json) (t : SoloFields)
    (read : readSolo resVal = some t) :
    t.transactionArr = jsonObjectGet resVal "transactions" := by
  unfold readSolo at read
  split at read
  · dsimp only at read
    split at read
    · cases read
    · cases read
      rfl
  · cases read

/-- An accepted solo template. -/
theorem gbtSoloDecode_kept (pool built : TemplatePool) (resVal : Option Json) (hashSwap : Buffer 32)
    (now : Time) (optBtcSig : Option Bytes) (locked : Bool)
    (accepted : gbtSoloDecode genHash diffFromTarget pool resVal hashSwap now optBtcSig =
      .returned built locked true) :
    built.gbtSolo = pool.gbtSolo ∧ built.gbtTxns = pool.gbtTxns ∧
      Kept built (arrayItems (jsonObjectGet resVal "transactions")) := by
  obtain ⟨t, stored, witnessdata, next, stages⟩ :=
    gbtSoloDecode_accepted genHash diffFromTarget pool built resVal
    hashSwap now optBtcSig locked accepted
  obtain ⟨scriptsigBase, coinbase, _, readable, _, same⟩ :=
    storeCoinbase_spec stored next t witnessdata now optBtcSig stages.coinbase
  have frame := buildGbtTxns_frame genHash _ stored _ stages.transactions
  rw [readSolo_transactions resVal t stages.read] at frame
  have size : built.coinbase.length ≤
      coinbaseSize t.insertWitness (scriptLength t optBtcSig + 1) := by
    rw [coinbaseSize_eq t.insertWitness witnessdata (scriptLength t optBtcSig + 1)
      (checkWitness_length genHash t witnessdata stages.witness), stages.result, same]
    exact List.length_take_le _ _
  have room : coinbaseSize t.insertWitness (scriptLength t optBtcSig + 1) ≤ 259 := by
    unfold coinbaseSize witnessdataSize
    split <;> omega
  refine ⟨?_, ?_, ?_, ?_, by omega⟩
  · rw [stages.result, same, frame]
    rfl
  · rw [stages.result, same, frame]
    rfl
  · rw [stages.result, same, frame]
  · rw [stages.result, same, frame]

theorem gbtDecode_kept (pool next : TemplatePool) (resVal : Option Json) (hashSwap : Buffer 32)
    (ret : Bool) (decoded : gbtDecode genHash pool resVal hashSwap = some (next, ret)) :
    next.gbtSolo = pool.gbtSolo ∧ next.gbtTxns = pool.gbtTxns ∧ (ret = false → next = pool) := by
  unfold gbtDecode at decoded
  split at decoded
  · cases decoded
    exact ⟨rfl, rfl, fun _ => rfl⟩
  · next t read =>
    obtain ⟨⟨coinbase, nonce2Offset⟩, _, decoded⟩ := Option.bind_eq_some_iff.mp decoded
    obtain ⟨built, transactions, same⟩ := Option.map_eq_some_iff.mp decoded
    cases same
    rw [buildGbtTxns_frame genHash _ built _ transactions]
    exact ⟨rfl, rfl, fun never => by cases never⟩

/-- A rejected template leaves the pool alone or keeps the lock. -/
theorem gbtSoloDecode_rejected (pool next : TemplatePool) (resVal : Option Json)
    (hashSwap : Buffer 32) (now : Time) (optBtcSig : Option Bytes)
    (rejected : gbtSoloDecode genHash diffFromTarget pool resVal hashSwap now optBtcSig =
      .returned next false false) : next = pool := by
  unfold gbtSoloDecode at rejected
  split at rejected
  · cases rejected
    rfl
  · split at rejected
    · cases rejected
    · split at rejected
      · cases rejected
      · cases rejected
      · split at rejected
        · cases rejected
        · unfold storeHeader at rejected
          split at rejected
          · cases rejected
          · cases rejected

/-- Decoding starts a new template or changes nothing. -/
theorem decode_spec (pool next : TemplatePool) (resVal : Option Json) (hashSwap : Buffer 32)
    (now : Time) (optBtcSig : Option Bytes) (ret : Bool)
    (decoded : decode genHash diffFromTarget pool resVal hashSwap now optBtcSig =
      some (next, ret)) :
    next.gbtSolo = pool.gbtSolo ∧ next.gbtTxns = pool.gbtTxns ∧ (ret = false → next = pool) ∧
      (ret = true → hasGbt next = false →
        Kept next (arrayItems (jsonObjectGet resVal "transactions"))) := by
  unfold decode at decoded
  split at decoded
  · next gbt =>
    obtain ⟨gbtSolo, gbtTxns, rejected⟩ :=
      gbtDecode_kept genHash pool next resVal hashSwap ret decoded
    refine ⟨gbtSolo, gbtTxns, rejected, fun _ solo => ?_⟩
    rw [hasGbt, gbtSolo] at solo
    rw [hasGbt, solo] at gbt
    cases gbt
  · split at decoded
    · next built result accepted =>
      cases decoded
      cases ret with
      | true =>
        obtain ⟨gbtSolo, gbtTxns, kept⟩ :=
          gbtSoloDecode_kept genHash diffFromTarget pool next resVal hashSwap now
          optBtcSig false accepted
        exact ⟨gbtSolo, gbtTxns, fun never => (by cases never), fun _ _ => kept⟩
      | false =>
        have same :=
          gbtSoloDecode_rejected genHash diffFromTarget pool next resVal hashSwap now optBtcSig
            accepted
        rw [same]
        exact ⟨rfl, rfl, fun _ => rfl, fun never => by cases never⟩
    · cases decoded

/-- What was known of a work stays true while its template is current. -/
theorem Made.same {s next : World} {txns : List Json} {work : GbtWork}
    (same : SameTemplate s.pool next.pool) (made : Made s txns work) : Made next txns work := by
  obtain ⟨⟨bytes, string, size⟩, counted⟩ := made
  refine ⟨⟨bytes, string, ?_⟩, ?_⟩
  · rw [size, same.coinbase]
  · rw [counted, same.hasGbt]

theorem Inv.same {s : World} (inv : Inv s) (next : World) (same : SameTemplate s.pool next.pool)
    (template : next.template = s.template)
    (works : ∀ work ∈ next.works, ∃ txns, next.template = some txns ∧
      Made next txns work) : Inv next := by
  refine ⟨?_, ?_, works⟩
  · rw [same.gbtTxns, inv.uncounted]
  · intro txns current solo
    rw [template] at current
    rw [same.hasGbt] at solo
    exact same.kept txns (inv.kept txns current solo)

theorem Inv.known {s next : World} (inv : Inv s) (same : SameTemplate s.pool next.pool)
    (work : GbtWork) (member : work ∈ s.works) :
    ∃ txns, s.template = some txns ∧ Made next txns work := by
  obtain ⟨txns, current, made⟩ := inv.made work member
  exact ⟨txns, current, made.same same⟩

theorem step_generate (s next : World) (work : GbtWork)
    (taken : step genHash diffFromTarget s (.generate work) = some next) :
    ∃ txns pool made, s.template = some txns ∧ generate genHash s.pool work = some (pool, made) ∧
      next = { s with pool, works := s.works ++ [made] } := by
  unfold step at taken
  dsimp only at taken
  split at taken
  · next current =>
    obtain ⟨txns, template⟩ := Option.isSome_iff_exists.mp current
    obtain ⟨⟨pool, made⟩, generated, rfl⟩ := Option.map_eq_some_iff.mp taken
    exact ⟨txns, pool, made, template, generated, rfl⟩
  · cases taken

theorem step_inv (s : World) (e : Event) (next : World) (inv : Inv s)
    (taken : step genHash diffFromTarget s e = some next) :
    Inv next := by
  cases e with
  | decode resVal hashSwap now optBtcSig =>
    obtain ⟨⟨pool, ret⟩, decoded, rfl⟩ := Option.map_eq_some_iff.mp taken
    obtain ⟨_, gbtTxns, rejected, kept⟩ :=
      decode_spec genHash diffFromTarget s.pool pool resVal hashSwap now
      optBtcSig ret decoded
    cases ret with
    | true =>
      refine ⟨gbtTxns.trans inv.uncounted, ?_, fun work member => absurd member List.not_mem_nil⟩
      intro txns current solo
      cases current
      exact kept rfl solo
    | false =>
      rw [rejected rfl]
      exact inv
  | setup =>
    obtain ⟨pool, ready, rfl⟩ := Option.map_eq_some_iff.mp taken
    have same := setupGbtSolo_same s.pool pool ready
    exact inv.same _ same rfl (inv.known same)
  | generate work =>
    obtain ⟨txns, pool, made, template, generated, rfl⟩ :=
      step_generate genHash diffFromTarget s next work taken
    obtain ⟨same, coinbase, counted⟩ :=
      generate_spec genHash s txns pool work made inv template generated
    refine inv.same _ same rfl fun other member => ?_
    rcases List.mem_append.mp member with old | new
    · exact inv.known same other old
    · rw [List.mem_singleton.mp new]
      refine ⟨txns, template, ⟨_, coinbase, rfl⟩, ?_⟩
      rw [counted]
      dsimp only
      rw [same.hasGbt]
  | adjust i data =>
    obtain ⟨work, selected, rfl⟩ := Option.map_eq_some_iff.mp taken
    refine inv.same _ ⟨rfl, rfl, rfl, rfl, rfl⟩ rfl fun other member => ?_
    rcases List.mem_or_eq_of_mem_set member with old | rfl
    · obtain ⟨txns, current, made⟩ := inv.made other old
      exact ⟨txns, current, made.1, made.2⟩
    · obtain ⟨txns, current, made⟩ := inv.made work (List.mem_of_getElem? selected)
      exact ⟨txns, current, made.1, made.2⟩

def AllSubmit (s : World) : Prop := ∀ work ∈ s.works, Submits s work

/-- Works are only generated from templates that can be submitted as they should be. -/
def GeneratesEncodable (s : World) : Event → Prop
  | .generate _ => Encodable s
  | .decode .. | .setup | .adjust .. => True

theorem allSubmit_iff (s : World) (inv : Inv s) : AllSubmit s ↔ s.works = [] ∨ Encodable s := by
  constructor
  · intro all
    cases works : s.works with
    | nil => exact Or.inl rfl
    | cons work rest =>
      have member : work ∈ s.works := by
        rw [works]
        exact List.mem_cons_self
      exact Or.inr ((submits_iff s work inv member).mp (all work member))
  · rintro (empty | encodable) work member
    · rw [empty] at member
      cases member
    · exact (submits_iff s work inv member).mpr encodable

theorem encodable_same (s next : World) (same : SameTemplate s.pool next.pool)
    (template : next.template = s.template) : Encodable next ↔ Encodable s := by
  unfold Encodable
  rw [template, same.hasGbt, same.coinbase]

theorem step_exact (s : World) (e : Event) (next : World) (inv : Inv s) (all : AllSubmit s)
    (taken : step genHash diffFromTarget s e = some next) :
    AllSubmit next ↔ GeneratesEncodable s e := by
  have after := step_inv genHash diffFromTarget s e next inv taken
  rw [allSubmit_iff next after]
  rw [allSubmit_iff s inv] at all
  cases e with
  | decode resVal hashSwap now optBtcSig =>
    obtain ⟨⟨pool, ret⟩, decoded, rfl⟩ := Option.map_eq_some_iff.mp taken
    refine iff_of_true ?_ trivial
    cases ret with
    | true => exact Or.inl rfl
    | false =>
      rw [(decode_spec genHash diffFromTarget s.pool pool resVal hashSwap now optBtcSig false
        decoded).2.2.1 rfl]
      exact all
  | setup =>
    obtain ⟨pool, ready, rfl⟩ := Option.map_eq_some_iff.mp taken
    have same := setupGbtSolo_same s.pool pool ready
    refine iff_of_true ?_ trivial
    rwa [encodable_same s { s with pool } same rfl]
  | generate work =>
    obtain ⟨txns, pool, made, template, generated, rfl⟩ :=
      step_generate genHash diffFromTarget s next work taken
    obtain ⟨same, _, _⟩ := generate_spec genHash s txns pool work made inv template generated
    have kept := encodable_same s { s with pool, works := s.works ++ [made] } same rfl
    have nonempty : s.works ++ [made] ≠ [] := by simp
    exact (or_iff_right nonempty).trans kept
  | adjust i data =>
    obtain ⟨work, selected, rfl⟩ := Option.map_eq_some_iff.mp taken
    refine iff_of_true (Or.inr ?_) trivial
    rcases all with empty | encodable
    · rw [empty] at selected
      cases selected
    · exact encodable

theorem start_inv (poolNo : Source.WorkItem.PoolNo) (gbtSolo : Bool) (scriptPubkey : Buffer 28) :
    Inv (start poolNo gbtSolo scriptPubkey) :=
  ⟨rfl, fun txns never => (by cases never), fun work member => absurd member List.not_mem_nil⟩

/-- Exactly while works are generated from such templates are all of them
submitted as complete blocks. -/
theorem blocks_submitted_iff (poolNo : Source.WorkItem.PoolNo) (gbtSolo : Bool)
    (scriptPubkey : Buffer 28) (es : List Event) :
    Always (step genHash diffFromTarget) AllSubmit (start poolNo gbtSolo scriptPubkey) es ↔
      Guarded (step genHash diffFromTarget) GeneratesEncodable (start poolNo gbtSolo scriptPubkey)
        es := by
  apply always_iff_guarded_of_invariant (step_inv genHash diffFromTarget)
  · exact step_exact genHash diffFromTarget
  · exact start_inv poolNo gbtSolo scriptPubkey
  · exact fun work member => absurd member List.not_mem_nil

/-- A template with a coinbase of 50 bytes and one transaction. -/
def oneTransaction : Json :=
  .object
    [("previousblockhash", .string (List.replicate 64 0x30)),
      ("target", .string (List.replicate 64 0x30)),
      ("coinbasetxn", .object [("data", .string (List.replicate 100 0x30))]),
      ("longpollid", .string (ascii "a")),
      ("expires", .integer 120),
      ("version", .integer 536870912),
      ("curtime", .integer 1700000000),
      ("bits", .string (ascii "1d00ffff")),
      ("transactions",
      .array [.object [("data", .string (ascii "00")),
      ("txid", .string (List.replicate 64 0x30))]])]

def blankWork : GbtWork :=
  { toWork := Source.WorkItem.makeWork, coinbase := none, gbtTxns := .zero }

/-- The block of a template with a transaction says that it has one in all. -/
theorem transaction_not_counted :
    ¬ Always (step (fun _ => .zero 32) fun _ => 0) AllSubmit (start 0 false (.zero 28))
      [.decode (some oneTransaction) (.zero 32) ⟨0, 0⟩ none, .generate blankWork] := by
  intro all
  have ran : (run (step (fun _ => .zero 32) fun _ => 0) (start 0 false (.zero 28))
      [.decode (some oneTransaction) (.zero 32) ⟨0, 0⟩ none, .generate blankWork]).map
        (fun s => (s.template.map List.length, s.works.length, hasGbt s.pool)) =
          some (some 1, 1, true) := by
    decide +kernel
  obtain ⟨final, reached, shape⟩ := Option.map_eq_some_iff.mp ran
  have inv := always_final (always_of_invariant (step_inv (fun _ => .zero 32) fun _ => 0)
    (start_inv 0 false (.zero 28)) _) reached
  obtain ⟨template, rest⟩ := Prod.mk.inj shape
  obtain ⟨works, gbt⟩ := Prod.mk.inj rest
  obtain ⟨txns, current, size⟩ := Option.map_eq_some_iff.mp template
  rcases (allSubmit_iff final inv).mp (always_final all reached) with empty | encodable
  · rw [empty] at works
    cases works
  · have small := encodable txns current
    rw [if_pos gbt] at small
    rw [small.1] at size
    cases size

end CgminerT4.Guarantees.BlockSubmission
