import CgminerT4.Guarantees.SoloCoinbase

/-!
# The rules of a template and the witness commitment

The loop over the rules looks for one whose name does not start with segwit, so
the coinbase has the commitment exactly if there is such a rule.
-/
namespace CgminerT4.Guarantees.WitnessRule
open Library.ByteString Library.Transaction Source.Jansson Source.GbtMerkle Source.GbtTemplate
  SoloTemplate SoloCoinbase

/-- A rule of the template by its text, without the mark of a mandatory rule. -/
def Names (resVal : Option Json) (rule : Bytes) : Prop :=
  ∃ text, .string text ∈ arrayItems (jsonObjectGet resVal "rules") ∧ skipMark text = rule

def segwit : Bytes := ascii "segwit"

/-- A rule whose name does not start with segwit. -/
def NamesOther (resVal : Option Json) : Prop := ∃ rule, Names resVal rule ∧ ¬ segwit <+: rule

/-- An output whose script is OP_RETURN and a push of 36 bytes. -/
def Commits (tx : Tx) : Prop :=
  ∃ output ∈ tx.outputs, ∃ commitment, commitment.length = 36 ∧
    output.script = 0x6a :: 36 :: commitment

/-- The coinbase that __setup_gbt_solo completes, as a transaction. -/
def coinbaseTransaction (built : TemplatePool) : Option Tx :=
  (setupGbtSolo built).bind fun ready =>
    ((readTx ready.coinbase).filter fun read => read.2 = []).map Prod.fst

/-- The outputs of the coinbase are those that the rules ask for. -/
structure FollowsRules (resVal : Option Json) (tx : Tx) : Prop where
  commits : Commits tx ↔ Names resVal segwit
  single : ¬ Names resVal segwit → tx.outputs.length = 1

theorem prefix_take (rule : Bytes) : rule.take 6 = ascii "segwit" ↔ segwit <+: rule := by
  have size : segwit.length = 6 := by decide +kernel
  rw [List.prefix_iff_eq_take, size]
  exact eq_comm

theorem insertWitness_iff (resVal : Option Json) :
    insertWitness (jsonObjectGet resVal "rules") = true ↔ NamesOther resVal := by
  unfold insertWitness
  rw [List.any_eq_true]
  constructor
  · rintro ⟨rule, member, other⟩
    cases rule with
    | string text =>
      have differs := of_decide_eq_true other
      rw [ne_eq, prefix_take] at differs
      exact ⟨skipMark text, ⟨text, member, rfl⟩, differs⟩
    | _ => exact nomatch other
  · rintro ⟨rule, ⟨text, member, rfl⟩, differs⟩
    rw [← prefix_take] at differs
    exact ⟨.string text, member, decide_eq_true differs⟩

theorem readSolo_insertWitness (resVal : Option Json) (t : SoloFields)
    (read : readSolo resVal = some t) :
    t.insertWitness = insertWitness (jsonObjectGet resVal "rules") := by
  unfold readSolo at read
  split at read
  · dsimp only at read
    split at read
    · cases read
    · cases read
      rfl
  · cases read

theorem commits_coinbaseTx (t : SoloFields) (witnessdata script pubkey : Bytes)
    (size : witnessdata.length = 36) (key : pubkey.length = 25) :
    (Commits (coinbaseTx t witnessdata script pubkey) ↔ t.insertWitness = true) ∧
      ((coinbaseTx t witnessdata script pubkey).outputs.length = 1 ↔ t.insertWitness = false) := by
  unfold Commits coinbaseTx
  cases t.insertWitness with
  | true =>
    refine ⟨iff_of_true ⟨_, List.mem_cons_of_mem _ (List.mem_singleton_self _),
      witnessdata, size, rfl⟩ rfl, ?_⟩
    exact iff_of_false (by simp) (by decide)
  | false =>
    refine ⟨iff_of_false ?_ (by decide), iff_of_true rfl rfl⟩
    rintro ⟨output, member, commitment, pushed, script⟩
    obtain rfl := List.mem_singleton.mp member
    have lengths := congrArg List.length script
    rw [key, List.length_cons, List.length_cons, pushed] at lengths
    omega

/-- What an accepted template builds. -/
theorem coinbase_outputs (genHash : Bytes → Digest) (diffFromTarget : Buffer 32 → Double)
    (pool built : TemplatePool) (resVal : Option Json) (hashSwap : Buffer 32) (now : Time)
    (optBtcSig : Option Bytes) (locked : Bool)
      (accepted : gbtSoloDecode genHash diffFromTarget pool resVal hashSwap now optBtcSig =
      .returned built locked true) :
    ∃ tx, coinbaseTransaction built = some tx ∧ (Commits tx ↔ NamesOther resVal) ∧
      (tx.outputs.length = 1 ↔ ¬ NamesOther resVal) := by
  obtain ⟨t, witnessdata, ready, front, extranonce, back, read, witness, setup, _, _, layout⟩ :=
    accepted_layout genHash diffFromTarget pool built resVal hashSwap now optBtcSig locked accepted
  have size := checkWitness_length genHash t witnessdata witness
  have key := length_pubkey built
  have parsed :=
    (reads_tx _ (coinbaseTx_countable t witnessdata (front ++ 8 :: extranonce ++ back)
      _ size layout.short
    key)).whole
  rw [← finalSections_serialize t witnessdata _ _ size layout.short key,
    ← layout.coinbase] at parsed
  obtain ⟨commits, single⟩ :=
    commits_coinbaseTx t witnessdata (front ++ 8 :: extranonce ++ back) _ size key
  have inserted := insertWitness_iff resVal
  rw [← readSolo_insertWitness resVal t read] at inserted
  refine ⟨_, ?_, commits.trans inserted, ?_⟩
  · unfold coinbaseTransaction
    rw [setup, Option.bind_some, parsed]
    rfl
  · rw [single, ← inserted, Bool.not_eq_true]

/-- The outputs are right exactly if the rules name segwit and another rule, or
neither. -/
theorem witness_rule_iff (genHash : Bytes → Digest) (diffFromTarget : Buffer 32 → Double)
    (pool built : TemplatePool) (resVal : Option Json) (hashSwap : Buffer 32) (now : Time)
    (optBtcSig : Option Bytes) (locked : Bool)
      (accepted : gbtSoloDecode genHash diffFromTarget pool resVal hashSwap now optBtcSig =
      .returned built locked true) :
    ∃ tx, coinbaseTransaction built = some tx ∧
      (FollowsRules resVal tx ↔ (Names resVal segwit ↔ NamesOther resVal)) := by
  obtain ⟨tx, parsed, commits, single⟩ :=
    coinbase_outputs genHash diffFromTarget pool built resVal hashSwap now optBtcSig locked accepted
  refine ⟨tx, parsed, ?_⟩
  constructor
  · rintro ⟨follows, _⟩
    exact follows.symm.trans commits
  · intro both
    refine ⟨commits.trans both.symm, fun without => single.mpr ?_⟩
    rw [← both]
    exact without

theorem witness_rule_csv :
    ∃ built tx, gbtSoloDecode (fun _ => .zero 32) (fun _ => 0) (newPool 0 true) (some emptyTemplate)
      (.zero 32) ⟨0, 0⟩
      (some (ascii "sig")) = .returned built false true ∧ coinbaseTransaction built = some tx ∧
      (FollowsRules (some emptyTemplate) tx ↔
        (Names (some emptyTemplate) segwit ↔ NamesOther (some emptyTemplate))) := by
  obtain ⟨built, accepted⟩ :=
    emptyTemplate_accepted (fun _ => .zero 32) (fun _ => 0) (newPool 0 true) (.zero 32)
    ⟨0, 0⟩
  obtain ⟨tx, parsed, follows⟩ :=
    witness_rule_iff (fun _ => .zero 32) (fun _ => 0) (newPool 0 true) built
    (some emptyTemplate) (.zero 32) ⟨0, 0⟩ (some (ascii "sig")) false accepted
  exact ⟨built, tx, accepted, parsed, follows⟩

theorem csv_names (rule : Bytes) : Names (some emptyTemplate) rule ↔ rule = ascii "csv" := by
  have plain : skipMark (ascii "csv") = ascii "csv" := by decide +kernel
  constructor
  · rintro ⟨text, member, rfl⟩
    have only : Json.string text ∈ [Json.string (ascii "csv")] := member
    rw [List.mem_singleton, Json.string.injEq] at only
    rw [only, plain]
  · rintro rfl
    exact ⟨ascii "csv", List.mem_singleton_self _, plain⟩

/-- The only rule is csv, and the coinbase has a commitment. -/
theorem commitment_without_segwit :
    ∃ built tx, gbtSoloDecode (fun _ => .zero 32) (fun _ => 0) (newPool 0 true) (some emptyTemplate)
      (.zero 32) ⟨0, 0⟩
      (some (ascii "sig")) = .returned built false true ∧ coinbaseTransaction built = some tx ∧
      ¬ FollowsRules (some emptyTemplate) tx := by
  obtain ⟨built, accepted⟩ :=
    emptyTemplate_accepted (fun _ => .zero 32) (fun _ => 0) (newPool 0 true) (.zero 32)
    ⟨0, 0⟩
  obtain ⟨tx, parsed, commits, _⟩ :=
    coinbase_outputs (fun _ => .zero 32) (fun _ => 0) (newPool 0 true) built
    (some emptyTemplate) (.zero 32) ⟨0, 0⟩ (some (ascii "sig")) false accepted
  refine ⟨built, tx, accepted, parsed, fun follows => ?_⟩
  have other : NamesOther (some emptyTemplate) :=
    ⟨ascii "csv", (csv_names _).mpr rfl, by decide +kernel⟩
  have named := (csv_names segwit).mp (follows.commits.mp (commits.mpr other))
  exact absurd named (by decide +kernel)

end CgminerT4.Guarantees.WitnessRule
