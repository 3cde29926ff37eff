import Mathlib.Data.List.Basic

/-!
# Runs of a partial step function

Every source of nondeterminism is part of the event, so a system is one partial
function from states and events to states and a run is a list of events. An
event that is not enabled ends the run. `Always` speaks about every state a run
passes through, `Guarded` about every step it actually takes.
-/
namespace CgminerT4.Library.Runs

variable {σ ε : Type*} (step : σ → ε → Option σ)

/-- Execute the events in order. -/
def run : σ → List ε → Option σ
  | s, [] => some s
  | s, e :: es => (step s e).bind fun next => run next es

/-- `P` holds in every state the run passes through, its first and last included. -/
def Always (P : σ → Prop) : σ → List ε → Prop
  | s, [] => P s
  | s, e :: es => P s ∧ ∀ next, step s e = some next → Always P next es

/-- Every step the run takes meets `G` in the state it is taken from. -/
def Guarded (G : σ → ε → Prop) : σ → List ε → Prop
  | _, [] => True
  | s, e :: es => ∀ next, step s e = some next → G s e ∧ Guarded G next es

/-- Every event that the run comes to meets `Q`, also one that ends the run. -/
def Every (Q : σ → ε → Prop) : σ → List ε → Prop
  | _, [] => True
  | s, e :: es => Q s e ∧ ∀ next, step s e = some next → Every Q next es

variable {step}

theorem run_cons_some {s out : σ} {e : ε} {es : List ε} (h : run step s (e :: es) = some out) :
    ∃ next, step s e = some next ∧ run step next es = some out :=
  Option.bind_eq_some_iff.mp h

theorem always_start {P : σ → Prop} {s : σ} {es : List ε} (h : Always step P s es) : P s := by
  cases es with
  | nil => exact h
  | cons e es => exact h.1

/-- The final state of a run is one of the states it passes through. -/
theorem always_final {P : σ → Prop} {s out : σ} {es : List ε}
    (h : Always step P s es) (ran : run step s es = some out) : P out := by
  induction es generalizing s with
  | nil => exact Option.some.inj ran ▸ h
  | cons e es ih =>
    obtain ⟨next, taken, rest⟩ := run_cons_some ran
    exact ih (h.2 next taken) rest

theorem always_mono {P Q : σ → Prop} (implies : ∀ s, P s → Q s) {s : σ} {es : List ε}
    (h : Always step P s es) : Always step Q s es := by
  induction es generalizing s with
  | nil => exact implies s h
  | cons e es ih => exact ⟨implies s h.1, fun next taken => ih (h.2 next taken)⟩

/-- Run rule for a guarded invariant: preserved by the steps that meet the
guard, it holds throughout every run all of whose steps meet the guard. -/
theorem always_of_guarded {P : σ → Prop} {G : σ → ε → Prop}
    (preserved : ∀ s e next, P s → G s e → step s e = some next → P next)
    {s : σ} {es : List ε} (start : P s) (guarded : Guarded step G s es) : Always step P s es := by
  induction es generalizing s with
  | nil => exact start
  | cons e es ih =>
    refine ⟨start, fun next taken => ?_⟩
    obtain ⟨meets, rest⟩ := guarded next taken
    exact ih (preserved s e next start meets taken) rest

/-- Guards are checked by running: one step of a given run. -/
theorem guarded_cons {G : σ → ε → Prop} {s next : σ} {e : ε} {es : List ε}
    (taken : step s e = some next) :
    Guarded step G s (e :: es) ↔ G s e ∧ Guarded step G next es := by
  constructor
  · intro guarded
    exact guarded next taken
  · rintro ⟨meets, rest⟩ other same
    rw [taken] at same
    cases same
    exact ⟨meets, rest⟩

theorem guarded_of_stuck {G : σ → ε → Prop} {s : σ} {e : ε} {es : List ε}
    (stuck : step s e = none) :
    Guarded step G s (e :: es) := by
  intro next taken
  rw [stuck] at taken
  cases taken

instance decidableGuarded {G : σ → ε → Prop} [∀ s e, Decidable (G s e)] :
    ∀ (s : σ) (es : List ε), Decidable (Guarded step G s es)
  | _, [] => isTrue trivial
  | s, e :: es =>
    match taken : step s e with
    | none => isTrue (guarded_of_stuck taken)
    | some next =>
      have := decidableGuarded (G := G) next es
      decidable_of_iff (G s e ∧ Guarded step G next es) (guarded_cons taken).symm

instance decidableEvery {Q : σ → ε → Prop} [∀ s e, Decidable (Q s e)] :
    ∀ (s : σ) (es : List ε), Decidable (Every step Q s es)
  | _, [] => isTrue trivial
  | s, e :: es =>
    match taken : step s e with
    | none =>
      decidable_of_iff (Q s e) ⟨fun meets =>
        ⟨meets, fun next other => by rw [taken] at other; cases other⟩, And.left⟩
    | some next =>
      have := decidableEvery (Q := Q) next es
      decidable_of_iff (Q s e ∧ Every step Q next es)
        ⟨fun ⟨meets, rest⟩ => ⟨meets,
          fun other same => by rw [taken] at same; cases same; exact rest⟩,
          fun ⟨meets, rest⟩ => ⟨meets, rest next taken⟩⟩

/-- A guard on the events alone. -/
theorem guarded_of_forall {G : ε → Prop} {es : List ε} (meets : ∀ e ∈ es, G e) (s : σ) :
    Guarded step (fun _ e => G e) s es := by
  induction es generalizing s with
  | nil => exact trivial
  | cons e es ih =>
    intro next _
    exact ⟨meets e List.mem_cons_self,
      ih (fun e' member => meets e' (List.mem_cons_of_mem _ member)) next⟩

/-- Run rule without a guard. -/
theorem always_of_invariant {P : σ → Prop}
    (preserved : ∀ s e next, P s → step s e = some next → P next)
    {s : σ} (start : P s) (es : List ε) : Always step P s es := by
  induction es generalizing s with
  | nil => exact start
  | cons e es ih => exact ⟨start, fun next taken => ih (preserved s e next start taken)⟩

/-- A property of the states and one of the steps may be replaced together: the first by one
that agrees with it under an invariant, the second by one that agrees where the first holds. -/
theorem always_guarded_congr {P Q Inv : σ → Prop} {G H : σ → ε → Prop}
    (preserved : ∀ s e next, Inv s → step s e = some next → Inv next)
    (same_state : ∀ s, Inv s → (P s ↔ Q s))
    (same_step : ∀ s e next, Inv s → Q s → step s e = some next → (G s e ↔ H s e)) {s : σ}
    (inv : Inv s) (es : List ε) :
    Always step P s es ∧ Guarded step G s es ↔ Always step Q s es ∧ Guarded step H s es := by
  induction es generalizing s with
  | nil => exact and_congr (same_state s inv) Iff.rfl
  | cons e es ih =>
    constructor
    · rintro ⟨⟨holds, states⟩, steps⟩
      have new := (same_state s inv).mp holds
      have rest (next : σ) (taken : step s e = some next) :=
        (ih (preserved s e next inv taken)).mp ⟨states next taken, (steps next taken).2⟩
      exact ⟨⟨new, fun next taken => (rest next taken).1⟩,
        fun next taken => ⟨(same_step s e next inv new taken).mp (steps next taken).1,
        (rest next taken).2⟩⟩
    · rintro ⟨⟨holds, states⟩, steps⟩
      have rest (next : σ) (taken : step s e = some next) :=
        (ih (preserved s e next inv taken)).mpr ⟨states next taken, (steps next taken).2⟩
      exact ⟨⟨(same_state s inv).mpr holds, fun next taken => (rest next taken).1⟩,
        fun next taken => ⟨(same_step s e next inv holds taken).mpr (steps next taken).1,
        (rest next taken).2⟩⟩

/-- Run rule for what holds of every event: it follows from a guard under an
invariant that guarded steps keep. -/
theorem every_of_invariant {P : σ → Prop} {G Q : σ → ε → Prop} (holds : ∀ s e, P s → G s e → Q s e)
    (kept : ∀ s e next, P s → G s e → step s e = some next → P next)
    {s : σ} {es : List ε} (start : P s) (guarded : Every step G s es) : Every step Q s es := by
  induction es generalizing s with
  | nil => exact trivial
  | cons e es ih =>
    obtain ⟨meets, rest⟩ := guarded
    exact ⟨holds s e start meets,
      fun next taken => ih (kept s e next start meets taken) (rest next taken)⟩

theorem guarded_of_every {G : σ → ε → Prop} {s : σ} {es : List ε} (every : Every step G s es) :
    Guarded step G s es := by
  induction es generalizing s with
  | nil => exact trivial
  | cons e es ih =>
    intro next taken
    exact ⟨every.1, ih (every.2 next taken)⟩

/-- A run gets through when, under an invariant that guarded steps keep, every
event that meets the guard has a next state. -/
theorem run_isSome_of_every {P : σ → Prop} {G : σ → ε → Prop}
    (defined : ∀ s e, P s → G s e → (step s e).isSome = true)
    (kept : ∀ s e next, P s → G s e → step s e = some next → P next)
    {s : σ} {es : List ε} (start : P s) (guarded : Every step G s es) :
    (run step s es).isSome = true := by
  induction es generalizing s with
  | nil => rfl
  | cons e es ih =>
    obtain ⟨meets, rest⟩ := guarded
    obtain ⟨next, taken⟩ := Option.isSome_iff_exists.mp (defined s e start meets)
    rw [run, taken, Option.bind_some]
    exact ih (kept s e next start meets taken) (rest next taken)

/-- When, under an invariant that good steps keep, a step out of a good state
ends in a good state exactly if it meets the guard, the good runs are exactly
the guarded ones. -/
theorem always_iff_guarded_of_kept {P Inv : σ → Prop} {G : σ → ε → Prop}
    (kept : ∀ s e next, Inv s → P s → G s e → step s e = some next → Inv next)
    (exact_step : ∀ s e next, Inv s → P s → step s e = some next → (P next ↔ G s e))
    {s : σ} {es : List ε} (inv : Inv s) (start : P s) :
    Always step P s es ↔ Guarded step G s es := by
  induction es generalizing s with
  | nil => exact iff_of_true start trivial
  | cons e es ih =>
    constructor
    · rintro ⟨_, rest⟩ next taken
      have good := always_start (rest next taken)
      have meets := (exact_step s e next inv start taken).mp good
      have holds := kept s e next inv start meets taken
      exact ⟨meets, (ih holds good).mp (rest next taken)⟩
    · intro guarded
      refine ⟨start, fun next taken => ?_⟩
      obtain ⟨meets, rest⟩ := guarded next taken
      have good := (exact_step s e next inv start taken).mpr meets
      exact (ih (kept s e next inv start meets taken) good).mpr rest

theorem always_iff_guarded_of_invariant {P Inv : σ → Prop} {G : σ → ε → Prop}
    (preserved : ∀ s e next, Inv s → step s e = some next → Inv next)
    (exact_step : ∀ s e next, Inv s → P s → step s e = some next → (P next ↔ G s e))
    {s : σ} {es : List ε} (inv : Inv s) (start : P s) : Always step P s es ↔ Guarded step G s es :=
  always_iff_guarded_of_kept (fun s e next holds _ _ taken => preserved s e next holds taken)
    exact_step inv start

theorem always_iff_guarded {P : σ → Prop} {G : σ → ε → Prop}
    (exact_step : ∀ s e next, P s → step s e = some next → (P next ↔ G s e))
    {s : σ} {es : List ε} (start : P s) : Always step P s es ↔ Guarded step G s es :=
  always_iff_guarded_of_invariant (fun _ _ _ _ _ => trivial) (fun s e next _ => exact_step s e next)
    (trivial : True) start

end CgminerT4.Library.Runs
