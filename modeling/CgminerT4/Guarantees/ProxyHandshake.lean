import CgminerT4.Library.Pattern
import CgminerT4.Source.HttpProxy

/-!
# The answer of an HTTP proxy

The first recv has to bring the whole status, a byte 0xff in the headers is
taken for an error, and at the end of the stream the loop goes on with what the
stack holds. Everywhere else the handshake ends behind the first empty line.
-/
namespace CgminerT4.Guarantees.ProxyHandshake
open Library.ByteString Library.Pattern Source.HttpProxy

/-- The stream starts with a status of 200. -/
def Starts (stream : Bytes) : Prop :=
  ascii "HTTP/1.0 200" <+: stream ∨ ascii "HTTP/1.1 200" <+: stream

/-- It has an empty line later. -/
def Agrees (stream : Bytes) : Prop := Starts stream ∧ emptyLine <:+: stream.drop 12

/-- The handshake ends, it succeeds when the proxy agrees, and then the stream is
left behind the first empty line. -/
def Negotiates (sockd : Socket) : Prop :=
  ∀ stack, ∃ fuel ret left, httpNegotiate stack fuel sockd = some (ret, left) ∧
    (ret = true ↔ Agrees sockd.stream) ∧
    (ret = true → ∃ front, (sockd.stream.drop 12).dropInfix? emptyLine = some (front, left.stream))

/-- What the first recv brings. -/
def firstLength (sockd : Socket) : Nat := (sockd.pieces.head?.getD []).length

/-- The status comes whole and no 0xff stands in front of the empty line; without
an empty line, the status does not come whole or a 0xff follows it. -/
def Decided (sockd : Socket) : Prop :=
  Starts sockd.stream →
    match (sockd.stream.drop 12).dropInfix? emptyLine with
    | some (front, _) => 12 ≤ firstLength sockd ∧ minusOne ∉ front
    | none => firstLength sockd < 12 ∨ minusOne ∈ sockd.stream.drop 12

/-! ## Receiving -/

theorem recv_one (sock : Socket) (c : UInt8) (rest : Bytes) (next : sock.stream = c :: rest) :
    ∃ left, recv 1 sock = some ([c], left) ∧ left.stream = rest ∧ left.broken = sock.broken := by
  obtain ⟨pieces, filled, broken⟩ := sock
  match pieces, filled, next with
  | [] :: _, filled, _ => exact absurd rfl (filled [] List.mem_cons_self)
  | (a :: piece) :: pieces, filled, next =>
    have joined : a :: (piece ++ pieces.flatten) = c :: rest := next
    obtain ⟨rfl, rfl⟩ := List.cons.inj joined
    unfold recv
    dsimp only
    split
    · exact ⟨_, rfl, rfl, rfl⟩
    · next single =>
      have empty : piece = [] := by
        rw [List.length_cons] at single
        exact List.length_eq_zero_iff.mp (by omega)
      subst empty
      exact ⟨_, rfl, rfl, rfl⟩

theorem recv_end (sock : Socket) (ends : sock.stream = []) (eof : sock.broken = false) :
    recv 1 sock = some ([], sock) := by
  obtain ⟨pieces, filled, broken⟩ := sock
  cases pieces with
  | nil =>
    unfold recv
    dsimp only at eof ⊢
    rw [eof]
    rfl
  | cons piece pieces =>
    have empty : piece = [] := (List.append_eq_nil_iff.mp ends).1
    exact absurd empty (filled piece List.mem_cons_self)

variable {stack : Nat → UInt8}

theorem recvByte_cons (r : Reader) (c : UInt8) (rest : Bytes) (next : r.sock.stream = c :: rest) :
    ∃ later : Reader, recvByte stack r = (c, later) ∧ later.sock.stream = rest ∧
      later.sock.broken = r.sock.broken := by
  obtain ⟨left, received, stream, broken⟩ := recv_one r.sock c rest next
  unfold recvByte
  rw [received]
  exact ⟨{ r with sock := left }, rfl, stream, broken⟩

theorem recvByte_end (r : Reader) (ends : r.sock.stream = []) (eof : r.sock.broken = false) :
    recvByte stack r = (stack r.ended, ⟨r.sock, r.ended + 1⟩) := by
  unfold recvByte
  rw [recv_end r.sock ends eof]

/-! ## The headers -/

theorem skipHeaders_found (fuel : Nat) (r : Reader) :
    skipHeaders stack (fuel + 1) emptyLine r = some (true, r.sock) := by
  rw [skipHeaders, if_pos rfl]

/-- More fuel changes no result. -/
theorem skipHeaders_more (fuel more : Nat) (buf : Bytes) (r : Reader) (result : Bool × Socket)
    (done : skipHeaders stack fuel buf r = some result) :
    skipHeaders stack (fuel + more) buf r = some result := by
  induction fuel generalizing buf r with
  | zero => cases done
  | succ fuel ih =>
    rw [Nat.succ_add]
    rw [skipHeaders] at done ⊢
    dsimp only at done ⊢
    split
    · next found => rwa [if_pos found] at done
    · next other =>
      rw [if_neg other] at done
      split
      · next stop => rwa [if_pos stop] at done
      · next data =>
        rw [if_neg data] at done
        exact ih _ _ done

/-- At the end of the stream a stack of zeros never makes an empty line. -/
theorem skipHeaders_endless (zeros : ∀ i, stack i = 0) (fuel : Nat) (buf : Bytes) (r : Reader)
    (other : buf ≠ emptyLine) (ends : r.sock.stream = []) (eof : r.sock.broken = false) :
    skipHeaders stack fuel buf r = none := by
  induction fuel generalizing buf r with
  | zero => rfl
  | succ fuel ih =>
    rw [skipHeaders, if_neg other, recvByte_end r ends eof, zeros]
    dsimp only
    rw [if_neg (by decide)]
    refine ih _ ⟨r.sock, r.ended + 1⟩ ?_ ends eof
    intro same
    have last := congrArg List.getLast? same
    rw [List.getLast?_append] at last
    cases last

/-- What comes of the headers `text`, of which `ran` is the rest of the function. -/
def Outcome (stack : Nat → UInt8) (text : Bytes) (ran : Nat → Option (Bool × Socket)) : Prop :=
  match text.dropInfix? emptyLine with
  | some (front, behind) =>
    if minusOne ∈ front then ∃ fuel left, ran fuel = some (false, left)
    else ∃ fuel left, ran fuel = some (true, left) ∧ left.stream = behind
  | none =>
    if minusOne ∈ text then ∃ fuel left, ran fuel = some (false, left)
    else (∀ i, stack i = 0) → ∀ fuel, ran fuel = none

/-- A byte 0xff that comes early stops the function. -/
theorem outcome_stopped (early rest : Bytes) (near : early.length < 4)
    (ran : Nat → Option (Bool × Socket))
    (stopped : ∃ fuel left, ran fuel =
      some (false, left)) : Outcome stack (early ++ minusOne :: rest) ran := by
  unfold Outcome
  split
  · next front behind found =>
    rw [if_pos (dropInfix?_front emptyLine early rest minusOne (by decide) near found)]
    exact stopped
  · rw [if_pos (List.mem_append_right early List.mem_cons_self)]
    exact stopped

theorem stopped_later {ran later : Nat → Option (Bool × Socket)}
    (next : ∀ fuel, ran (fuel + 1) = later fuel)
    (stopped : ∃ fuel left, later fuel = some (false, left)) : ∃ fuel left, ran fuel =
      some (false, left) := by
  obtain ⟨fuel, left, done⟩ := stopped
  exact ⟨fuel + 1, left, (next fuel).trans done⟩

/-- One byte that is neither a 0xff nor the start of the empty line. -/
theorem outcome_skip (a : UInt8) (text : Bytes) (ran later : Nat → Option (Bool × Socket))
    (data : a ≠ minusOne) (skipped : (a :: text).dropInfix? emptyLine =
      (text.dropInfix? emptyLine).map fun found => (a :: found.1, found.2))
    (start : ran 0 = none) (next : ∀ fuel, ran (fuel + 1) = later fuel)
    (outcome : Outcome stack text later) :
    Outcome stack (a :: text) ran := by
  unfold Outcome at outcome ⊢
  rw [skipped]
  have front (l : Bytes) : minusOne ∈ a :: l ↔ minusOne ∈ l := by
    rw [List.mem_cons]
    exact or_iff_right (Ne.symm data)
  cases found : text.dropInfix? emptyLine with
  | some place =>
    rw [found] at outcome
    simp only [Option.map_some, front] at outcome ⊢
    split
    · next inside =>
      rw [if_pos inside] at outcome
      exact stopped_later next outcome
    · next outside =>
      rw [if_neg outside] at outcome
      obtain ⟨fuel, left, done, behind⟩ := outcome
      exact ⟨fuel + 1, left, (next fuel).trans done, behind⟩
  | none =>
    rw [found] at outcome
    simp only [Option.map_none, front] at outcome ⊢
    split
    · next inside =>
      rw [if_pos inside] at outcome
      exact stopped_later next outcome
    · next outside =>
      rw [if_neg outside] at outcome
      intro zeros fuel
      cases fuel with
      | zero => exact start
      | succ fuel => exact (next fuel).trans (outcome zeros fuel)

/-- The second loop with a full window: by induction on the bytes that are still to come. -/
theorem skipHeaders_outcome (rest buf : Bytes) (r : Reader) (full : buf.length = 4)
    (data : minusOne ∉ buf) (stream : r.sock.stream = rest) (eof : r.sock.broken = false) :
    Outcome stack (buf ++ rest) fun fuel => skipHeaders stack fuel buf r := by
  induction rest generalizing buf r with
  | nil =>
    by_cases done : buf = emptyLine
    · unfold Outcome
      rw [done, dropInfix?_here]
      exact ⟨0 + 1, r.sock, skipHeaders_found 0 r, stream⟩
    · unfold Outcome
      rw [List.append_nil, dropInfix?_short emptyLine buf (le_of_eq full) done]
      dsimp only
      rw [if_neg data]
      exact fun zeros fuel => skipHeaders_endless zeros fuel buf r done stream eof
  | cons c rest ih =>
    by_cases done : buf = emptyLine
    · unfold Outcome
      rw [done, dropInfix?_here]
      exact ⟨0 + 1, r.sock, skipHeaders_found 0 r, stream⟩
    · obtain ⟨later, received, left, broken⟩ := @recvByte_cons stack r c rest stream
      match buf, full, data, done with
      | a :: window, full, data, done =>
        rw [List.mem_cons, not_or] at data
        rw [List.length_cons] at full
        by_cases stop : c = minusOne
        · subst stop
          have stopped :=
            @outcome_stopped stack window rest (by omega) (fun _ => some (false, later.sock))
            ⟨0, later.sock, rfl⟩
          apply outcome_skip a (window ++ minusOne :: rest) _ _ (Ne.symm data.1)
            (dropInfix?_slide emptyLine window (minusOne :: rest) a full done) rfl _ stopped
          intro fuel
          rw [skipHeaders, if_neg done, received]
          rfl
        · have moved :=
            ih (window ++ [c]) later
            (by simp only [List.length_append, List.length_singleton]; omega)
            (by simp only [List.mem_append, List.mem_singleton, not_or]; exact ⟨data.2, Ne.symm stop⟩)
            left (broken.trans eof)
          rw [List.append_assoc, List.singleton_append] at moved
          apply outcome_skip a (window ++ c :: rest) _ _ (Ne.symm data.1)
            (dropInfix?_slide emptyLine window (c :: rest) a full done) rfl _ moved
          intro fuel
          rw [skipHeaders, if_neg done, received]
          dsimp only
          rw [if_neg stop]
          rfl

/-- Both loops, with `n` bytes of the window to come. -/
def negotiated (stack : Nat → UInt8) (n : Nat) (buf : Bytes) (r : Reader) (fuel : Nat) :
    Option (Bool × Socket) :=
  match fillBuf stack n buf r with
  | (none, r) => some (false, r.sock)
  | (some buf, r) => skipHeaders stack fuel buf r

theorem negotiated_data (n : Nat) (buf : Bytes) (r later : Reader) (c : UInt8) (data : c ≠ minusOne)
    (received : recvByte stack r = (c, later)) :
    negotiated stack (n + 1) buf r = negotiated stack n (buf ++ [c]) later := by
  funext fuel
  unfold negotiated
  rw [fillBuf, received]
  dsimp only
  rw [if_neg data]

theorem negotiated_stopped (n : Nat) (buf : Bytes) (r later : Reader)
    (received : recvByte stack r = (minusOne, later)) :
    negotiated stack (n + 1) buf r = fun _ => some (false, later.sock) := by
  funext fuel
  unfold negotiated
  rw [fillBuf, received]
  rfl

theorem negotiated_endless (zeros : ∀ i, stack i = 0) (n fuel : Nat) (buf : Bytes) (r : Reader)
    (other : 0 < n ∨ buf.getLast? = some 0) (ends : r.sock.stream = [])
    (eof : r.sock.broken = false) :
    negotiated stack n buf r fuel = none := by
  induction n generalizing buf r with
  | zero =>
    apply skipHeaders_endless zeros fuel buf r _ ends eof
    rintro rfl
    rcases other with never | never <;> cases never
  | succ n ih =>
    have received := @recvByte_end stack r ends eof
    rw [zeros] at received
    rw [negotiated_data n buf r ⟨r.sock, r.ended + 1⟩ 0 (by decide) received]
    exact ih _ ⟨r.sock, r.ended + 1⟩ (Or.inr (by rw [List.getLast?_append]; rfl)) ends eof

theorem negotiated_outcome (n : Nat) (buf rest : Bytes) (r : Reader) (room : buf.length + n = 4)
    (data : minusOne ∉ buf) (stream : r.sock.stream = rest) (eof : r.sock.broken = false) :
    Outcome stack (buf ++ rest) (negotiated stack n buf r) := by
  induction n generalizing buf rest r with
  | zero => exact skipHeaders_outcome rest buf r room data stream eof
  | succ n ih =>
    cases rest with
    | nil =>
      unfold Outcome
      rw [List.append_nil,
        dropInfix?_short emptyLine buf (by rw [emptyLine, List.length_cons]; simp; omega)
        (by rintro rfl; rw [emptyLine] at room; simp at room)]
      dsimp only
      rw [if_neg data]
      exact fun zeros fuel => negotiated_endless zeros (n + 1) fuel buf r
        (Or.inl n.succ_pos) stream eof
    | cons c rest =>
      obtain ⟨later, received, left, broken⟩ := @recvByte_cons stack r c rest stream
      by_cases stop : c = minusOne
      · subst stop
        rw [negotiated_stopped n buf r later received]
        exact outcome_stopped buf rest (by omega) _ ⟨0, later.sock, rfl⟩
      · rw [negotiated_data n buf r later c stop received]
        have moved :=
          ih (buf ++ [c]) rest later (by rw [List.length_append, List.length_singleton]; omega)
          (by simp only [List.mem_append, List.mem_singleton, not_or]; exact ⟨data,
            Ne.symm stop⟩) left
          (broken.trans eof)
        rw [List.append_assoc, List.singleton_append] at moved
        exact moved

/-! ## The status -/

/-- The first recv brings the front of the stream. -/
theorem recv_first (sockd : Socket) (eof : sockd.broken = false) :
    ∃ buf left, recv 12 sockd = some (buf, left) ∧ sockd.stream = buf ++ left.stream ∧
      buf.length = min 12 (firstLength sockd) ∧ left.broken = false := by
  obtain ⟨pieces, filled, broken⟩ := sockd
  dsimp only at eof
  subst eof
  cases pieces with
  | nil => exact ⟨[], _, rfl, rfl, rfl, rfl⟩
  | cons piece pieces =>
    unfold recv firstLength
    dsimp only [List.head?_cons, Option.getD_some]
    split
    · next more =>
      refine ⟨_, _, rfl, ?_, ?_, rfl⟩
      · simp only [Socket.stream, List.flatten_cons, ← List.append_assoc, List.take_append_drop]
      · exact List.length_take
    · exact ⟨_, _, rfl, rfl, by omega, rfl⟩

/-- A text of twelve characters in a buffer of at most twelve bytes. -/
theorem cString_eq_iff (buf text : Bytes) (size : text.length = 12) (plain : 0 ∉ text)
    (short : buf.length ≤ 12) :
    cString buf = text ↔ buf = text := by
  constructor
  · intro same
    have whole := (List.takeWhile_prefix (p := fun b : UInt8 => b ≠ 0) (l := buf)).eq_of_length_le
    unfold cString at same
    rw [same] at whole
    exact (whole (by omega)).symm
  · rintro rfl
    exact cString_of_plain buf fun b member zero => plain (zero ▸ member)

theorem prefix_iff (buf rest text : Bytes) (size : text.length = 12) :
    buf = text ↔ buf.length = 12 ∧ text <+: buf ++ rest := by
  constructor
  · rintro rfl
    exact ⟨size, List.prefix_append _ _⟩
  · rintro ⟨full, front⟩
    exact ((List.prefix_of_prefix_length_le front (List.prefix_append _ _) (by omega)).eq_of_length
      (by omega)).symm

theorem statusOk_iff (buf rest : Bytes) (short : buf.length ≤ 12) :
    statusOk buf = true ↔ buf.length = 12 ∧ Starts (buf ++ rest) := by
  have size : (ascii "HTTP/1.1 200").length = 12 ∧ (ascii "HTTP/1.0 200").length = 12 := by
    rw [ascii_eq, ascii_eq]
    exact ⟨rfl, rfl⟩
  have plain : 0 ∉ ascii "HTTP/1.1 200" ∧ 0 ∉ ascii "HTTP/1.0 200" := by
    rw [ascii_eq, ascii_eq]
    decide
  unfold statusOk Starts
  rw [Bool.or_eq_true, decide_eq_true_iff, decide_eq_true_iff,
    cString_eq_iff buf _ size.1 plain.1 short, cString_eq_iff buf _ size.2 plain.2 short,
    prefix_iff buf rest _ size.1, prefix_iff buf rest _ size.2, ← and_or_left, Or.comm]

/-- Behind a good status the function is its two loops. -/
theorem httpNegotiate_status (sockd left : Socket) (buf : Bytes)
    (received : recv 12 sockd = some (buf, left)) (status : statusOk buf = true) (fuel : Nat) :
    httpNegotiate stack fuel sockd = negotiated stack 4 [] ⟨left, 0⟩ fuel := by
  have filled : buf ≠ [] := by
    rintro rfl
    exact absurd status (by decide +kernel)
  unfold httpNegotiate negotiated
  rw [received]
  dsimp only
  rw [if_neg filled, status]
  rfl

theorem negotiated_more (n fuel more : Nat) (buf : Bytes) (r : Reader) (result : Bool × Socket)
    (done : negotiated stack n buf r fuel = some result) :
    negotiated stack n buf r (fuel + more) = some result := by
  unfold negotiated at done ⊢
  generalize fillBuf stack n buf r = filled at done ⊢
  obtain ⟨window, later⟩ := filled
  cases window with
  | none => exact done
  | some window => exact skipHeaders_more fuel more window later result done

/-- Runs that end, end alike. -/
theorem negotiated_unique (n fuel other : Nat) (buf : Bytes) (r : Reader)
    (first second : Bool × Socket) (done : negotiated stack n buf r fuel = some first)
    (again : negotiated stack n buf r other = some second) :
    first = second := by
  have longer := negotiated_more n fuel other buf r first done
  rw [Nat.add_comm, negotiated_more n other fuel buf r second again] at longer
  exact (Option.some.inj longer).symm

theorem httpNegotiate_refused (sockd left : Socket) (buf : Bytes)
    (received : recv 12 sockd = some (buf, left)) (status : statusOk buf = false) (fuel : Nat) :
    httpNegotiate stack fuel sockd = some (false, left) := by
  unfold httpNegotiate
  rw [received]
  dsimp only
  rw [status]
  split <;> rfl

/-! ## The handshake -/

/-- Without the whole status the result is false. -/
theorem negotiates_refused (sockd : Socket)
    (refused : ∀ stack : Nat →
      UInt8, ∃ left, ∀ fuel, httpNegotiate stack fuel sockd = some (false, left)) :
    Negotiates sockd ↔ ¬ Agrees sockd.stream := by
  constructor
  · intro negotiates agrees
    obtain ⟨fuel, ret, left, result, answers, _⟩ := negotiates fun _ => 0
    obtain ⟨other, failed⟩ := refused fun _ => 0
    rw [failed fuel] at result
    cases result
    cases answers.mpr agrees
  · intro other stack
    obtain ⟨left, failed⟩ := refused stack
    exact ⟨0, false, left, failed 0, iff_of_false Bool.false_ne_true other,
      fun never => by cases never⟩

/-- Behind a whole status the headers decide. -/
theorem negotiates_headers (sockd : Socket) (ran : (Nat → UInt8) → Nat → Option (Bool × Socket))
    (starts : Starts sockd.stream)
    (runs : ∀ stack fuel, httpNegotiate stack fuel sockd = ran stack fuel)
    (unique : ∀ stack fuel other first second, ran stack fuel = some first →
      ran stack other = some second →
      first = second)
    (outcome : ∀ stack, Outcome stack (sockd.stream.drop 12) (ran stack)) :
    Negotiates sockd ↔
      match (sockd.stream.drop 12).dropInfix? emptyLine with
      | some (front, _) => minusOne ∉ front
      | none => minusOne ∈ sockd.stream.drop 12 := by
  have agrees : Agrees sockd.stream ↔
      ((sockd.stream.drop 12).dropInfix? emptyLine).isSome = true := by
    rw [dropInfix?_isSome]
    exact and_iff_right starts
  unfold Negotiates
  rw [agrees]
  unfold Outcome at outcome
  simp only [runs]
  cases place : (sockd.stream.drop 12).dropInfix? emptyLine with
  | some found =>
    obtain ⟨front, behind⟩ := found
    simp only [place] at outcome
    dsimp only
    constructor
    · intro negotiates stop
      obtain ⟨fuel, ret, left, result, answers, _⟩ := negotiates fun _ => 0
      have failed := outcome fun _ => 0
      rw [if_pos stop] at failed
      obtain ⟨other, again, failed⟩ := failed
      cases unique _ fuel other _ _ result failed
      cases answers.mpr rfl
    · intro clear stack
      have done := outcome stack
      rw [if_neg clear] at done
      obtain ⟨fuel, left, result, stream⟩ := done
      exact ⟨fuel, true, left, result, iff_of_true rfl rfl, fun _ => ⟨front, by rw [stream]⟩⟩
  | none =>
    simp only [place] at outcome
    dsimp only
    constructor
    · intro negotiates
      by_contra clear
      obtain ⟨fuel, ret, left, result, _⟩ := negotiates fun _ => 0
      have endless := outcome fun _ => 0
      rw [if_neg clear] at endless
      rw [endless (fun _ => rfl) fuel] at result
      cases result
    · intro stop stack
      have done := outcome stack
      rw [if_pos stop] at done
      obtain ⟨fuel, left, result⟩ := done
      exact ⟨fuel, false, left, result, iff_of_false Bool.false_ne_true Bool.false_ne_true,
        fun never => by cases never⟩

theorem negotiates_iff (sockd : Socket) (eof : sockd.broken = false) :
    Negotiates sockd ↔ Decided sockd := by
  obtain ⟨buf, left, received, stream, size, leftEof⟩ := recv_first sockd eof
  have short : buf.length ≤ 12 := by omega
  have status := statusOk_iff buf left.stream short
  rw [← stream] at status
  unfold Decided
  cases ok : statusOk buf with
  | true =>
    obtain ⟨full, starts⟩ := status.mp ok
    have whole : 12 ≤ firstLength sockd := by omega
    have headers : sockd.stream.drop 12 = left.stream := by rw [stream, ← full, List.drop_left]
    rw [negotiates_headers sockd (fun stack => negotiated stack 4 [] ⟨left, 0⟩) starts
      (fun stack fuel => httpNegotiate_status sockd left buf received ok fuel)
      (fun stack fuel other first second =>
        negotiated_unique 4 fuel other [] ⟨left, 0⟩ first second)
      (fun stack =>
        headers ▸ negotiated_outcome 4 [] left.stream ⟨left, 0⟩ rfl List.not_mem_nil rfl leftEof)]
    cases (sockd.stream.drop 12).dropInfix? emptyLine with
    | some found => exact ⟨fun clear _ => ⟨whole, clear⟩, fun decided => (decided starts).2⟩
    | none =>
      exact ⟨fun stop _ => Or.inr stop,
        fun decided => (decided starts).resolve_left (Nat.not_lt.mpr whole)⟩
  | false =>
    rw [negotiates_refused sockd fun stack =>
      ⟨left, httpNegotiate_refused sockd left buf received ok⟩]
    have partly : Starts sockd.stream → firstLength sockd < 12 := by
      intro starts
      by_contra whole
      rw [status.mpr ⟨by omega, starts⟩] at ok
      cases ok
    unfold Agrees
    rw [← dropInfix?_isSome]
    cases (sockd.stream.drop 12).dropInfix? emptyLine with
    | some found =>
      constructor
      · exact fun refused starts => absurd ⟨starts, rfl⟩ refused
      · exact fun decided agrees => absurd (decided agrees.1).1 (Nat.not_le.mpr (partly agrees.1))
    | none => exact ⟨fun _ starts => Or.inl (partly starts), fun _ agrees => by cases agrees.2⟩

/-- One piece, then the end of the stream. -/
def proxyAnswer (text : Bytes) (filled : text ≠ []) : Socket :=
  ⟨[text], List.forall_mem_singleton.mpr filled, false⟩

/-- A status, an empty line and one byte of the protocol behind it. -/
def agreement : Bytes := [72, 84, 84, 80, 47, 49, 46, 49, 32, 50, 48, 48, 13, 10, 13, 10, 123]

theorem negotiates_agreement : Negotiates (proxyAnswer agreement (List.cons_ne_nil _ _)) :=
  (negotiates_iff (proxyAnswer agreement (List.cons_ne_nil _ _)) rfl).mpr fun _ => by
    have found :
        ((proxyAnswer agreement (List.cons_ne_nil _ _)).stream.drop 12).dropInfix? emptyLine =
        some ([], [123]) :=
      dropInfix?_here emptyLine [123]
    rw [found]
    exact ⟨by decide, List.not_mem_nil⟩

/-- A proxy that closes the connection behind its status. -/
theorem negotiates_closed :
    ¬ Negotiates (proxyAnswer (agreement.take 12) (List.cons_ne_nil _ _)) := by
  intro negotiates
  obtain ⟨fuel, ret, left, result, _⟩ := negotiates fun _ => 0
  rw [httpNegotiate_status _ ⟨[], List.forall_mem_nil _, false⟩ (agreement.take 12) rfl
    (by decide +kernel),
    negotiated_endless (fun _ => rfl) 4 fuel [] _ (Or.inl (by decide)) rfl rfl] at result
  cases result

end CgminerT4.Guarantees.ProxyHandshake
