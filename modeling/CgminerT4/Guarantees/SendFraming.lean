import CgminerT4.Library.Lines
import CgminerT4.Library.Runs
import CgminerT4.Source.StratumSend

/-!
# Messages on the wire of one connection

A write holds the stratum lock, so writes of different threads do not mix; the
suspend_stratum after a failed write takes the lock again, and other threads may
write in between. The wire is a sequence of terminated messages as long as
every message that is written completely has its newline from the caller, and
nothing is written behind a message that was cut half way.
-/
namespace CgminerT4.Guarantees.SendFraming
open Library.ByteString Library.Lines Library.Runs Source.StratumSend

variable (userAgent : Bytes)

/-- A message without embedded newline. -/
structure Outgoing where
  message : Message
  plain : newline ∉ message.json userAgent

namespace Outgoing

variable {userAgent}

def json (m : Outgoing userAgent) : Bytes := m.message.json userAgent

def text (m : Outgoing userAgent) : Bytes := m.message.text userAgent

end Outgoing

inductive Phase where
  | connecting
  | subscribed
  /-- `stratum_active` is set. -/
  | active
  | closed
  deriving DecidableEq

structure Connection where
  phase : Phase
  wire : Bytes
  /-- The messages whose send returned SEND_OK. -/
  sent : List (Outgoing userAgent)
  /-- What was written of the first message that was cut half way. -/
  cut : Bytes

inductive Event where
  /-- initiate_stratum writes before `stratum_active` is set. -/
  | subscribe (m : Outgoing userAgent) (writes : List Write)
  | activate
  /-- The locked section of stratum_send. -/
  | send (m : Outgoing userAgent) (writes : List Write)
  /-- suspend_stratum, after a failed write or for another reason. -/
  | suspend

variable {userAgent}

def deliver (s : Connection userAgent) (m : Outgoing userAgent) (writes : List Write) :
    Connection userAgent :=
  match stratumSend m.text writes with
  | (written, .ok) => { s with wire := s.wire ++ written, sent := s.sent ++ [m] }
  | (written, _) =>
    { s with wire := s.wire ++ written, cut := if s.cut = [] then written else s.cut }

def step (s : Connection userAgent) : Event userAgent → Option (Connection userAgent)
  | .subscribe m writes =>
    match s.phase with
    | .connecting =>
      let phase := if (stratumSend m.text writes).2 = .ok then .subscribed else .closed
      some { deliver s m writes with phase }
    | _ => none
  | .activate =>
    match s.phase with
    | .connecting | .subscribed => some { s with phase := .active }
    | _ => none
  | .send m writes =>
    match s.phase with
    | .active => some (deliver s m writes)
    | _ => some s
  | .suspend => some { s with phase := .closed }

def start : Connection userAgent := ⟨.connecting, [], [], []⟩

/-- The wire carries the sent messages, each followed by one newline, and then
at most a part of one message; splitting at newlines gives back the messages. -/
structure Framed (s : Connection userAgent) : Prop where
  wire : s.wire = unlines newline (s.sent.map Outgoing.json) ++ s.cut
  cut : newline ∉ s.cut
  recovered : lines newline s.wire = s.sent.map Outgoing.json

/-- A message that the socket takes completely is terminated by its caller, and
behind a message cut half way the socket takes nothing. -/
def Admissible (s : Connection userAgent) (m : Outgoing userAgent) (writes : List Write) : Prop :=
  (m.text.length ≤ accepted writes → m.message.terminated = true) ∧
    (s.cut ≠ [] → accepted writes = 0)

def Disciplined (s : Connection userAgent) : Event userAgent → Prop
  | .subscribe m writes => Admissible s m writes
  | .send m writes => s.phase = .active → Admissible s m writes
  | _ => True

/-- The peer's reading follows from the layout of the wire. -/
theorem framed_of_wire (s : Connection userAgent)
    (wire : s.wire = unlines newline (s.sent.map Outgoing.json) ++ s.cut) (cut : newline ∉ s.cut) :
    Framed s := by
  refine ⟨wire, cut, ?_⟩
  rw [wire]
  refine (lines_unlines _ _ ?_ cut).1
  intro line member
  obtain ⟨m, _, rfl⟩ := List.mem_map.mp member
  exact m.plain

/-- The phase does not matter. -/
theorem framed_phase (s : Connection userAgent) (phase : Phase) :
    Framed { s with phase } ↔ Framed s :=
  ⟨fun framed => ⟨framed.wire, framed.cut, framed.recovered⟩,
    fun framed => ⟨framed.wire, framed.cut, framed.recovered⟩⟩

theorem deliver_complete (s : Connection userAgent) (m : Outgoing userAgent) (writes : List Write)
    (complete : m.text.length ≤ accepted writes) :
    deliver s m writes = { s with wire := s.wire ++ m.text, sent := s.sent ++ [m] } := by
  have ret := (stratumSend_ok m.text writes).mpr complete
  have written := stratumSend_written m.text writes
  rw [List.take_of_length_le complete] at written
  have result : stratumSend m.text writes = (m.text, .ok) := Prod.ext written ret
  simp only [deliver, result]

theorem deliver_cut (s : Connection userAgent) (m : Outgoing userAgent) (writes : List Write)
    (failed : ¬ m.text.length ≤ accepted writes) :
    deliver s m writes =
      { s with
        wire := s.wire ++ m.text.take (accepted writes)
        cut := if s.cut = [] then m.text.take (accepted writes) else s.cut } := by
  have ret : (stratumSend m.text writes).2 ≠ .ok := fun ok =>
    failed ((stratumSend_ok m.text writes).mp ok)
  unfold deliver
  rw [← stratumSend_written]
  split
  · next written result => exact absurd (congrArg Prod.snd result) ret
  · next written ret result => rw [result]

theorem text_of_terminated (m : Outgoing userAgent) (terminated : m.message.terminated = true) :
    m.text = m.json ++ [newline] := by
  rw [Outgoing.text, Message.text, if_pos terminated]
  rfl

theorem text_of_not_terminated (m : Outgoing userAgent) (bare : ¬ m.message.terminated = true) :
    m.text = m.json := by
  rw [Outgoing.text, Message.text, if_neg bare, List.append_nil]
  rfl

/-- What is written of a message that is not written completely. -/
theorem newline_not_mem_take (m : Outgoing userAgent) (n : Nat) (short : n < m.text.length) :
    newline ∉ m.text.take n := by
  intro member
  have inside : m.text.take n = m.json.take n := by
    by_cases terminated : m.message.terminated = true
    · rw [text_of_terminated m terminated] at short ⊢
      rw [List.length_append, List.length_singleton] at short
      exact List.take_append_of_le_length (by omega)
    · rw [text_of_not_terminated m terminated]
  rw [inside] at member
  exact m.plain (List.mem_of_mem_take member)

/-- A whole message keeps the framing if it is terminated and no part of
another stands before it. -/
theorem framed_whole (s : Connection userAgent) (m : Outgoing userAgent) (framed : Framed s) :
    Framed { s with wire := s.wire ++ m.text, sent := s.sent ++ [m] } ↔
      m.message.terminated = true ∧ s.cut = [] := by
  constructor
  · intro after
    have wire := after.wire
    dsimp only at wire
    rw [framed.wire, List.map_append, unlines_append, List.append_assoc, List.append_assoc] at wire
    have tail := List.append_cancel_left wire
    rw [List.map_singleton, unlines_cons, unlines_nil, List.append_assoc,
      List.singleton_append] at tail
    have terminated : m.message.terminated = true := by
      by_contra bare
      have size := congrArg List.length tail
      rw [text_of_not_terminated m bare] at size
      simp only [List.length_append, List.length_cons] at size
      omega
    rw [text_of_terminated m terminated, ← List.append_assoc] at tail
    have joined : newline ∉ s.cut ++ m.json := by
      rw [List.mem_append, not_or]
      exact ⟨framed.cut, m.plain⟩
    obtain ⟨same, _⟩ := first_line_unique _ _ _ _ joined m.plain tail
    exact ⟨terminated, List.append_left_eq_self.mp same⟩
  · rintro ⟨terminated, whole⟩
    refine framed_of_wire _ ?_ framed.cut
    dsimp only
    rw [framed.wire, whole, text_of_terminated m terminated, List.map_append, unlines_append]
    simp

/-- A part of a message keeps the framing unless it stands behind another part. -/
theorem framed_part (s : Connection userAgent) (part : Bytes) (open_end : newline ∉ part)
    (framed : Framed s) :
    Framed { s with wire := s.wire ++ part, cut := if s.cut = [] then part else s.cut } ↔
      (s.cut ≠ [] → part = []) := by
  by_cases whole : s.cut = []
  · rw [if_pos whole]
    apply iff_of_true
    · apply framed_of_wire _ _ open_end
      dsimp only
      rw [framed.wire, whole, List.append_nil]
    · exact fun half => absurd whole half
  · rw [if_neg whole]
    constructor
    · intro after _
      have wire := after.wire
      dsimp only at wire
      rw [framed.wire] at wire
      exact List.append_right_eq_self.mp wire
    · intro nothing
      refine framed_of_wire _ ?_ framed.cut
      dsimp only
      rw [nothing whole, List.append_nil]
      exact framed.wire

/-- One write keeps the framing if and only if it is admissible. -/
theorem framed_deliver (s : Connection userAgent) (m : Outgoing userAgent) (writes : List Write)
    (framed : Framed s) : Framed (deliver s m writes) ↔ Admissible s m writes := by
  by_cases complete : m.text.length ≤ accepted writes
  · rw [deliver_complete s m writes complete, framed_whole s m framed]
    constructor
    · rintro ⟨terminated, whole⟩
      exact ⟨fun _ => terminated, fun half => absurd whole half⟩
    · rintro ⟨terminated, stopped⟩
      have text := text_of_terminated m (terminated complete)
      refine ⟨terminated complete, ?_⟩
      by_contra half
      rw [stopped half, text, List.length_append, List.length_singleton] at complete
      omega
  · have open_end := newline_not_mem_take m (accepted writes) (by omega)
    have nothing : m.text.take (accepted writes) = [] ↔ accepted writes = 0 := by
      rw [List.take_eq_nil_iff]
      apply or_iff_left
      intro empty
      apply complete
      simp [empty]
    rw [deliver_cut s m writes complete, framed_part s _ open_end framed, nothing]
    exact ⟨fun stopped => ⟨fun all => absurd all complete, stopped⟩, fun admissible => admissible.2⟩

theorem framed_step (s : Connection userAgent) (e : Event userAgent) (after : Connection userAgent)
    (framed : Framed s) (taken : step s e = some after) : Framed after ↔ Disciplined s e := by
  cases e with
  | subscribe m writes =>
    simp only [step] at taken
    split at taken
    · cases taken
      exact (framed_phase _ _).trans (framed_deliver s m writes framed)
    · cases taken
  | activate =>
    simp only [step] at taken
    split at taken
    · cases taken
      exact iff_of_true ((framed_phase _ _).mpr framed) trivial
    · cases taken
      exact iff_of_true ((framed_phase _ _).mpr framed) trivial
    · cases taken
  | send m writes =>
    simp only [step] at taken
    split at taken
    · next active =>
      cases taken
      exact (framed_deliver s m writes framed).trans ⟨fun admissible _ => admissible,
        fun guard => guard active⟩
    · next inactive =>
      cases taken
      exact iff_of_true framed fun active => absurd active inactive
  | suspend =>
    cases taken
    exact iff_of_true ((framed_phase _ _).mpr framed) trivial

theorem framed_start : Framed (start : Connection userAgent) :=
  framed_of_wire _ rfl (by simp [start])

/-- The wire of a connection is well framed throughout a run exactly when every
write of the run is admissible. -/
theorem send_framing_iff (es : List (Event userAgent)) :
    Always step Framed start es ↔ Guarded step Disciplined start es :=
  always_iff_guarded framed_step framed_start

def authorizeUser : Outgoing [] := ⟨.authorize 1 (ascii "user") (ascii "x"), by decide +kernel⟩

def suggestDifficulty : Outgoing [] := ⟨.suggestDifficulty 2 1024, by decide +kernel⟩

/-- Authorisation and the suggested difficulty go out as one line without end. -/
theorem authorize_runs_into_next :
    ∃ (es : List (Event [])) (s : Connection []), run step start es = some s ∧ s.sent.length = 2 ∧
      lines newline s.wire = [] ∧ ¬ Always step Framed start es := by
  have reached : (run step start
      [.activate, .send authorizeUser [.sent 100], .send suggestDifficulty [.sent 100]]).map
        (fun s => (s.sent.length, lines newline s.wire)) = some (2, []) := by decide +kernel
  obtain ⟨s, ran, fields⟩ := Option.map_eq_some_iff.mp reached
  obtain ⟨two, none⟩ := Prod.mk.inj fields
  refine ⟨_, s, ran, two, none, fun framed => ?_⟩
  have recovered := congrArg List.length (always_final framed ran).recovered
  rw [none, List.length_map, two] at recovered
  cases recovered

end CgminerT4.Guarantees.SendFraming
