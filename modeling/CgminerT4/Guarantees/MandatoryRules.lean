import CgminerT4.Source.PoolProbe

/-!
# Mandatory rules that the miner does not understand

pool_active looks for the rules in the answer itself, the template is its
result. An answer is only safe when both agree or when its template offers no
protocol.
-/
namespace CgminerT4.Guarantees.MandatoryRules
open Library.ByteString Source.Jansson Source.GbtTemplate Source.PoolProbe

/-- Among these rules is a mandatory one that is not understood. -/
def Unknown (understood : List Bytes) (rules : List Json) : Prop :=
  ∃ rule, Json.string (bang :: rule) ∈ rules ∧ rule ∉ understood

/-- The template that an answer carries has an unknown mandatory rule. -/
def TemplateUnknown (request : Request) (val : Json) : Prop :=
  Unknown (understoodRules request)
    (arrayItems (jsonObjectGet (jsonObjectGet (some val) "result") "rules"))

/-- The answer has a member rules of its own with an unknown mandatory rule. -/
def EnvelopeUnknown (request : Request) (val : Json) : Prop :=
  Unknown (understoodRules request) (countedItems (jsonObjectGet (some val) "rules"))

/-- The mutable strings of the template are enough for one of the protocols. -/
def Offers (val : Json) : Prop :=
  (readMutables val).append = true ∧ (readMutables val).submit = true ∨
    (readMutables val).transactions = true

/-- An answer whose template has an unknown mandatory rule sets no protocol. -/
def Refuses (answers : Request → Option Json) : Prop :=
  ∀ request val, probed answers = some (request, val) → TemplateUnknown request val →
    ∀ optGetwork curl gbtCurl s after, poolActive optGetwork curl gbtCurl answers s = some after →
      after.pool.hasGbt = s.pool.hasGbt ∧ after.pool.gbtSolo = s.pool.gbtSolo

/-- An unknown mandatory rule of the template stands in the answer as well, or
the template offers nothing. -/
def Harmless (request : Request) (val : Json) : Prop :=
  TemplateUnknown request val → EnvelopeUnknown request val ∨ ¬ Offers val

/-- The answers that the probe reads are harmless: the one to gbt_req, and the
one to gbt_solo_req if the first is missing or refused. -/
structure HarmlessAnswers (answers : Request → Option Json) : Prop where
  gbt : ∀ val, jsonRpcCall (answers .gbt) = some val → Harmless .gbt val
  gbtSolo : (∀ val, jsonRpcCall (answers .gbt) = some val → EnvelopeUnknown .gbt val) →
    ∀ val, jsonRpcCall (answers .gbtSolo) = some val → Harmless .gbtSolo val

theorem ruleUnderstood_eq_false (understood : List Bytes) (rule : Json) :
    ruleUnderstood understood rule = false ↔
      ∃ name, rule = .string (bang :: name) ∧ name ∉ understood := by
  unfold ruleUnderstood gbtCheckRequiredRule
  cases rule with
  | string text =>
    cases text with
    | nil => simp [jsonStringValue]
    | cons c name => simp [jsonStringValue]
  | _ => simp [jsonStringValue]

theorem gbtCheckRules_eq_false (rules : Option Json) (understood : List Bytes) :
    gbtCheckRules rules understood = false ↔ Unknown understood (countedItems rules) := by
  unfold gbtCheckRules Unknown
  rw [List.all_eq_false]
  constructor
  · rintro ⟨rule, member, unknown⟩
    obtain ⟨name, rfl, missing⟩ :=
      (ruleUnderstood_eq_false understood rule).mp (Bool.not_eq_true _ ▸ unknown)
    exact ⟨name, member, missing⟩
  · rintro ⟨name, member, missing⟩
    refine ⟨_, member, ?_⟩
    rw [Bool.not_eq_true]
    exact (ruleUnderstood_eq_false understood _).mpr ⟨name, rfl, missing⟩

theorem gbtCheckRules_eq_true (request : Request) (val : Json) :
    gbtCheckRules (jsonObjectGet (some val) "rules") (understoodRules request) = true ↔
      ¬ EnvelopeUnknown request val := by
  rw [EnvelopeUnknown, ← gbtCheckRules_eq_false, Bool.not_eq_false]

/-- The answers that the probe goes on with. -/
theorem probed_eq_some (answers : Request → Option Json) (request : Request) (val : Json) :
    probed answers = some (request, val) ↔
      jsonRpcCall (answers request) = some val ∧ ¬ EnvelopeUnknown request val ∧
        (request = .gbtSolo → ∀ other, jsonRpcCall (answers .gbt) = some other →
          EnvelopeUnknown .gbt other) := by
  have accepted : ∀ request val, ((jsonRpcCall (answers request)).filter fun val =>
      gbtCheckRules (jsonObjectGet (some val) "rules") (understoodRules request)) = some val ↔
        jsonRpcCall (answers request) = some val ∧ ¬ EnvelopeUnknown request val := by
    intro request val
    rw [Option.filter_eq_some_iff, gbtCheckRules_eq_true]
  unfold probed
  dsimp only
  split
  · next first chosen =>
    obtain ⟨called, known⟩ := (accepted .gbt first).mp chosen
    constructor
    · intro same
      cases same
      exact ⟨called, known, fun other => nomatch other⟩
    · rintro ⟨answered, _, earlier⟩
      cases request with
      | gbt =>
        rw [called] at answered
        rw [Option.some.inj answered]
      | gbtSolo => exact absurd (earlier rfl first called) known
  · next refused =>
    have missing : ∀ other, jsonRpcCall (answers .gbt) = some other →
        EnvelopeUnknown .gbt other := by
      intro other called
      by_contra known
      have chosen := (accepted .gbt other).mpr ⟨called, known⟩
      rw [refused] at chosen
      cases chosen
    rw [Option.map_eq_some_iff]
    constructor
    · rintro ⟨second, chosen, same⟩
      cases same
      obtain ⟨called, known⟩ := (accepted .gbtSolo val).mp chosen
      exact ⟨called, known, fun _ => missing⟩
    · rintro ⟨called, known, _⟩
      cases request with
      | gbt => exact absurd (missing val called) known
      | gbtSolo => exact ⟨val, (accepted .gbtSolo val).mpr ⟨called, known⟩, rfl⟩

/-- An answer that offers nothing changes nothing. -/
theorem setProtocol_of_not_offers (s : State) (gbtCurl : Bool) (val : Json)
    (nothing : ¬ Offers val) :
    setProtocol s gbtCurl val = some s := by
  unfold Offers at nothing
  push Not at nothing
  obtain ⟨noGbt, noSolo⟩ := nothing
  unfold setProtocol
  rw [if_neg (by rw [Bool.and_eq_true]; exact fun both => noGbt both.1 both.2), if_neg noSolo]

/-- An answer that offers something switches one of the protocols on. -/
theorem setProtocol_of_offers (s : State) (val : Json) (offers : Offers val) :
    ∃ after, setProtocol s true val = some after ∧
      (after.pool.hasGbt = true ∨ after.pool.gbtSolo = true) := by
  unfold setProtocol
  by_cases both : ((readMutables val).append && (readMutables val).submit) = true
  · exact ⟨_, if_pos both, .inl rfl⟩
  · rcases offers with ⟨append, submit⟩ | transactions
    · rw [append, submit] at both
      exact absurd rfl both
    · dsimp only
      rw [if_neg both, if_pos transactions, if_pos rfl]
      exact ⟨_, rfl, .inr rfl⟩

theorem refuses_of_harmless (answers : Request → Option Json) (harmless : HarmlessAnswers answers) :
    Refuses answers := by
  intro request val chosen unknown optGetwork curl gbtCurl s after active
  obtain ⟨called, known, earlier⟩ := (probed_eq_some answers request val).mp chosen
  have safe : Harmless request val := by
    cases request with
    | gbt => exact harmless.gbt val called
    | gbtSolo => exact harmless.gbtSolo (earlier rfl) val called
  have nothing := (safe unknown).resolve_left known
  unfold poolActive at active
  rw [chosen] at active
  split at active
  · cases active
    exact ⟨rfl, rfl⟩
  · dsimp only at active
    rw [setProtocol_of_not_offers s gbtCurl val nothing] at active
    cases active
    exact ⟨rfl, rfl⟩

/-- A pool that has not been probed. -/
def newState : State := ⟨⟨0, false, false, false, false, .gbt, false⟩, none⟩

theorem harmless_of_refuses (answers : Request → Option Json) (refuses : Refuses answers)
    (request : Request) (val : Json) (chosen : probed answers = some (request, val)) :
    TemplateUnknown request val → ¬ Offers val := by
  intro unknown offers
  obtain ⟨after, set, on⟩ := setProtocol_of_offers newState val offers
  have active : poolActive false true true answers newState =
      some { after with pool := { after.pool with probed := false } } := by
    unfold poolActive
    rw [if_neg (by decide), chosen]
    dsimp only
    rw [set]
    rfl
  obtain ⟨gbt, solo⟩ := refuses request val chosen unknown false true true newState _ active
  rcases on with on | on
  · exact absurd (on.symm.trans gbt) (by decide)
  · exact absurd (on.symm.trans solo) (by decide)

/-- Unknown mandatory rules are refused exactly if the answers are harmless. -/
theorem mandatory_rules_iff (answers : Request → Option Json) :
    Refuses answers ↔ HarmlessAnswers answers := by
  refine ⟨fun refuses => ⟨?_, ?_⟩, refuses_of_harmless answers⟩
  · intro val called unknown
    by_cases known : EnvelopeUnknown .gbt val
    · exact .inl known
    · have chosen :=
        (probed_eq_some answers .gbt val).mpr ⟨called, known, fun other => nomatch other⟩
      exact .inr (harmless_of_refuses answers refuses .gbt val chosen unknown)
  · intro earlier val called unknown
    by_cases known : EnvelopeUnknown .gbtSolo val
    · exact .inl known
    · have chosen := (probed_eq_some answers .gbtSolo val).mpr ⟨called, known, fun _ => earlier⟩
      exact .inr (harmless_of_refuses answers refuses .gbtSolo val chosen unknown)

/-- A template with the mandatory rule segwit, for a miner that asked for gbt. -/
def segwitAnswer : Json :=
  .object [("result",
    .object [("mutable", .array [.string (ascii "coinbase/append"),
    .string (ascii "submit/coinbase")]), ("rules", .array [.string (ascii "!segwit")])]),
    ("error", .null)]

/-- The template asks for segwit and the pool is used with gbt. -/
theorem segwit_not_refused : ¬ Refuses fun _ => some segwitAnswer := by
  intro refuses
  have rule : bang :: ascii "segwit" = ascii "!segwit" := by decide +kernel
  have unknown : TemplateUnknown .gbt segwitAnswer :=
    ⟨ascii "segwit", rule ▸ List.mem_singleton_self _, List.not_mem_nil⟩
  have offers : Offers segwitAnswer := .inl (by decide +kernel)
  have chosen : probed (fun _ => some segwitAnswer) = some (.gbt, segwitAnswer) := by rfl
  exact harmless_of_refuses _ refuses .gbt segwitAnswer chosen unknown offers

end CgminerT4.Guarantees.MandatoryRules
