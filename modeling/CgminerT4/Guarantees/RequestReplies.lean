import CgminerT4.Guarantees.ControlReplies
import CgminerT4.Library.Runs

/-!
# Requests and their replies

Between two joined commands the buffer holds an object that is open behind the
frames of the commands so far. A joined command leaves the miner as it is up to
what reports refresh, so its conditions can be read off the miner at the start.
-/
namespace CgminerT4.Guarantees.RequestReplies
open Library Library.ByteString Library.JsonForm Library.Runs Source Source.Jansson
open Source.ApiReply Source.ApiReports Source.ApiServer
open Library.JsonText (quote comma colon openBracket closeBracket openBrace closeBrace)
open ReadOnlyAccess (control Keeps readers keeps_perform keeps_fanspd keeps_powerdown
  findCommand_listed asked_invalid denial_speakable message_spoken
  speakable_stringless stringless)
open ReplyForm ReportReplies ControlReplies PoolCommands

variable {R : Type} [Floating R]

variable (behind : Nat → Option SessionTable.PoolId) (opens : Bytes →
  Bool) (defaultSaveFile : Bytes)

/-- What a command that is granted needs for its answer: it says something, the
records it reports are printable, and its messages have their strings. -/
structure Ready (group : Group) (m : Miner R) (param : Option Bytes) (isjson : Bool) (func : Func) :
    Prop where
  loud : isjson = true → silent func param = false
  printed : isjson = true → ∀ root ∈ reported group m param func, root.all printable
  spoken : Spoken behind opens defaultSaveFile m param isjson func

/-! ## Single commands -/

theorem pools_of_control {m m' : Miner R} (same : control m' = control m) : m'.pools = m.pools := by
  show (control m').pools = (control m).pools
  rw [same]

omit [Floating R] in
/-- An answer that leaves everything but the output alone. -/
theorem pools_of_answer {α : Type} {m m' : Miner R} {io : Option α} {made : α → Io} {io' : Io}
    (answer : io.map (fun out => (m, made out)) = some (m', io')) : m'.pools = m.pools := by
  obtain ⟨_, _, same⟩ := Option.map_eq_some_iff.mp answer
  cases same
  rfl

theorem pools_fanspd (m m' : Miner R) (param : Option Bytes) (isjson : Bool) (io io' : Io)
    (answer : fanspd m param isjson io = some (m', io')) : m'.pools = m.pools := by
  unfold fanspd at answer
  split at answer
  · exact pools_of_answer answer
  · exact pools_of_answer answer
  · cases answer
    split <;> rfl

theorem pools_powerdown (m m' : Miner R) (param : Option Bytes) (isjson : Bool) (io io' : Io)
    (answer : powerdown m param isjson io = some (m', io')) : m'.pools = m.pools := by
  unfold powerdown at answer
  split at answer
  · exact pools_of_answer answer
  · exact pools_of_answer answer
  · cases answer
    rfl

/-- A command that is not in write mode leaves the pools alone. -/
theorem pools_perform (writeHandler : Func → Handler R) (group : Group) (func : Func)
    (reader : func ∈ readers) (m m' : Miner R) (param : Option Bytes) (isjson : Bool) (io io' : Io)
    (answer : perform writeHandler group func m param isjson io = some (m', io')) :
    m'.pools = m.pools := by
  by_cases fan : func = .fanspd
  · rw [fan] at answer
    exact pools_fanspd m m' param isjson io io' answer
  by_cases reset : func = .powerdown
  · rw [reset] at answer
    exact pools_powerdown m m' param isjson io io' answer
  obtain ⟨other, _, same, kept⟩ := keeps_perform writeHandler group func reader m param isjson io
    (fun is => absurd is fan) fun is => absurd is reset
  rw [answer] at same
  cases same
  exact pools_of_control kept

theorem perform_writer (writeHandler : Func → Handler R) (group : Group) (func : Func)
    (writer : func ∈ writers) :
    perform writeHandler group func = writeHandler func := by
  simp only [writers, List.mem_cons, List.not_mem_nil, or_false] at writer
  rcases writer with rfl | rfl | rfl | rfl | rfl | rfl | rfl | rfl | rfl | rfl | rfl | rfl | rfl | rfl | rfl | rfl | rfl |
    rfl | rfl | rfl | rfl <;> rfl

theorem reader_or_writer (cmd : CMDS) (listed : cmd ∈ cmds) :
    cmd.func ∈ readers ∨ cmd.func ∈ writers := by
  have all : cmds.all fun cmd => decide (cmd.func ∈ readers) || decide (cmd.func ∈ writers) := by
    decide
  have one := List.all_eq_true.mp all cmd listed
  rwa [Bool.or_eq_true, decide_eq_true_iff, decide_eq_true_iff] at one

theorem settles_runCommand (group : Group) (cmd : CMDS) (listed : cmd ∈ cmds) (m : Miner R)
    (sound : Sound m.pools) (param : Option Bytes) (isjson : Bool)
    (ready : access group cmd.name = true →
      Ready behind opens defaultSaveFile group m param isjson cmd.func) :
    Settles isjson
      (runCommand (ApiControl.writeHandler behind opens defaultSaveFile) group cmd m param isjson
        ioReinit) := by
  unfold runCommand
  split
  · rename_i granted
    obtain ⟨loud, printed, spoken⟩ := ready granted
    rcases reader_or_writer cmd listed with reader | writer
    · obtain ⟨after, io, answer, opened⟩ :=
        answers_perform (ApiControl.writeHandler behind opens defaultSaveFile) group
        cmd.func reader m param isjson ioReinit rfl sound.intact loud printed
      refine ⟨after, io, answer, ?_, opened⟩
      rw [pools_perform _ group cmd.func reader m after param isjson ioReinit io answer]
      exact sound
    · rw [perform_writer _ group cmd.func writer]
      exact settles_write behind opens defaultSaveFile cmd.func writer m sound param isjson spoken
  · exact settles_answer m sound msgAccdeny 0 _ isjson (denial_speakable (desk m) cmd listed)

theorem settles_single (group : Group) (name : Bytes) (m : Miner R) (sound : Sound m.pools)
    (param : Option Bytes) (isjson : Bool)
    (ready : ∀ cmd, findCommand name = some cmd → access group cmd.name = true →
      Ready behind opens defaultSaveFile group m param isjson cmd.func) :
    Settles isjson (single (ApiControl.writeHandler behind opens defaultSaveFile)
      group name m param isjson ioReinit) := by
  unfold single
  split
  · rename_i cmd found
    exact settles_runCommand behind opens defaultSaveFile group cmd
      (findCommand_listed name cmd found).1 m sound param
      isjson (ready cmd found)
  · exact settles_plain m sound msgInvcmd 0 none isjson rfl

/-! ## Joined commands -/

/-- The state between two joined commands of a request to the miner `m`. -/
structure Between (m : Miner R) (isjson : Bool) (s : Joining R) : Prop where
  miner : control s.miner = control m
  closed : s.io.close = false
  unused : s.firstjoin = true → s.cmdsbuf = [separator]
  text : isjson = true → if s.firstjoin then s.io.text = [] else Opened [] s.io

theorem joinable_listed (cmd : CMDS) (listed : cmd ∈ cmds) (joinable : cmd.joinable = true) :
    cmd.func ∈ readers ∨ cmd.func = .lockstats := by
  have all : cmds.all fun cmd => !cmd.joinable || (decide (cmd.func ∈ readers) ||
      decide (cmd.func = .lockstats)) := by
    decide
  have one := List.all_eq_true.mp all cmd listed
  rwa [joinable, Bool.not_true, Bool.false_or, Bool.or_eq_true, decide_eq_true_iff,
    decide_eq_true_iff] at one

/-- The conditions of a joined command survive the commands before it. -/
theorem joined_command (group : Group) (cmd : CMDS) (listed : cmd ∈ cmds)
    (joinable : cmd.joinable = true) (m before : Miner R) (sound : Sound m.pools)
    (same : control before = control m) (isjson : Bool) (io : Io) (closed : io.close = false)
    (ready : access group cmd.name = true →
      Ready behind opens defaultSaveFile group m none isjson cmd.func) :
    ∃ after out, runCommand (ApiControl.writeHandler behind opens defaultSaveFile)
      group cmd before none isjson io =
      some (after, out) ∧ control after = control m ∧ (isjson = true → Opened io.text out) := by
  have intact : ∀ id ∈ before.pools.table.pools, (before.pools.table.pool id).removed = false := by
    rw [pools_of_control same]
    exact sound.intact
  unfold runCommand
  split
  · rename_i granted
    obtain ⟨loud, printed, _⟩ := ready granted
    rw [← reported_control, ← same, reported_control] at printed
    rcases joinable_listed cmd listed joinable with reader | locks
    · obtain ⟨after, out, answer, opened⟩ :=
        answers_perform (ApiControl.writeHandler behind opens defaultSaveFile) group
        cmd.func reader before none isjson io closed intact loud printed
      obtain ⟨_, _, again, kept⟩ :=
        keeps_perform (ApiControl.writeHandler behind opens defaultSaveFile) group cmd.func
        reader before none isjson io (fun _ =>
          (keeps_fanspd before none isjson io).mpr fun _ never => nomatch never)
        fun _ => (keeps_powerdown before none isjson io).mpr fun _ never => nomatch never
      rw [answer] at again
      cases again
      exact ⟨after, out, answer, kept.trans same, opened⟩
    · rw [locks]
      obtain ⟨after, out, answer, opened⟩ :=
        answers_alone before (desk before) io msgLockdis 0 none isjson closed
        (speakable_stringless _ _ _ _ rfl)
      obtain ⟨_, _, kept⟩ := Option.map_eq_some_iff.mp answer
      cases kept
      exact ⟨before, out, answer, same, opened⟩
  · obtain ⟨after, out, answer, opened⟩ :=
      answers_alone before (desk before) io msgAccdeny 0 (some cmd.name) isjson closed
      (denial_speakable (desk before) cmd listed)
    obtain ⟨_, _, kept⟩ := Option.map_eq_some_iff.mp answer
    cases kept
    exact ⟨before, out, answer, same, opened⟩

/-- The frame of a command is closed behind its answer. -/
theorem Between.framed {m : Miner R} {isjson : Bool} {s : Joining R} (between : Between m isjson s)
    (name : Bytes) (after : Miner R) (out : Io) (cmdsbuf : Bytes) (same : control after = control m)
    (opened : isjson = true → Opened (headJoin s.io name isjson s.firstjoin).text out) :
    Between m isjson ⟨after, tailJoin out isjson, cmdsbuf, false⟩ := by
  refine ⟨same, tailJoin_close out isjson, (fun never => nomatch never), fun json => ?_⟩
  subst json
  rw [if_neg Bool.false_ne_true]
  have front := opened rfl
  rw [headJoin_text] at front
  exact tailJoin_opened (chars_escapeString name) between.closed (between.text rfl) front

theorem joinStep_between (group : Group) (m : Miner R) (sound : Sound m.pools) (isjson : Bool)
    (s : Joining R) (between : Between m isjson s) (name : Bytes)
    (ready : ∀ cmd, findCommand name = some cmd → cmd.joinable = true →
      access group cmd.name = true →
      Ready behind opens defaultSaveFile group m none isjson cmd.func) :
    ∃ next, joinStep (ApiControl.writeHandler behind opens defaultSaveFile) group isjson s name =
      some next ∧
      Between m isjson next ∧ (next.firstjoin = true → s.firstjoin = true ∧ name = []) := by
  have closed : (headJoin s.io name isjson s.firstjoin).close = false :=
    (headJoin_close _ _ _ _).trans between.closed
  unfold joinStep
  split
  · rename_i empty
    exact ⟨s, rfl, between, fun first => ⟨first, empty⟩⟩
  split
  · rename_i named cmd found
    obtain ⟨listed, _⟩ := findCommand_listed name cmd found
    split
    · rename_i repeated
      refine ⟨s, rfl, between, fun first => ?_⟩
      rw [between.unused first] at repeated
      have short := repeated.length_le
      unfold cmdbuf at short
      rw [List.length_cons, List.length_append, List.length_singleton] at short
      omega
    dsimp only
    have answered : ∃ after out,
        (if cmd.joinable then runCommand (ApiControl.writeHandler behind opens defaultSaveFile)
          group cmd s.miner none
            isjson (headJoin s.io name isjson s.firstjoin)
          else (message R (desk s.miner) (headJoin s.io name isjson s.firstjoin)
            msgAccdeny 0 cmd.name isjson).map
            fun io => (s.miner, io)) = some (after, out) ∧
        control after = control m ∧
          (isjson = true → Opened (headJoin s.io name isjson s.firstjoin).text out) := by
      split
      · rename_i joinable
        exact joined_command behind opens defaultSaveFile group cmd listed joinable m s.miner sound
          between.miner isjson _
          closed (ready cmd found joinable)
      · obtain ⟨after, out, answer, opened⟩ :=
          answers_alone s.miner (desk s.miner) _ msgAccdeny 0 (some cmd.name) isjson
          closed (denial_speakable (desk s.miner) cmd listed)
        obtain ⟨_, _, kept⟩ := Option.map_eq_some_iff.mp answer
        cases kept
        exact ⟨s.miner, out, answer, between.miner, opened⟩
    obtain ⟨after, out, answer, same, opened⟩ := answered
    rw [answer]
    exact ⟨_, rfl, between.framed name after out _ same opened, fun never => nomatch never⟩
  · obtain ⟨out, sent⟩ :=
      message_spoken R (desk s.miner) (headJoin s.io name isjson s.firstjoin)
        msgInvcmd 0 none isjson
      (speakable_stringless _ _ _ _ rfl)
    rw [sent]
    refine ⟨_, rfl, between.framed name s.miner out s.cmdsbuf between.miner fun json => ?_,
      fun never => nomatch never⟩
    rw [json] at sent closed ⊢
    exact (message_stated (desk s.miner) _ out msgInvcmd 0 none sent).opened closed

theorem joined_between (group : Group) (m : Miner R) (sound : Sound m.pools) (isjson : Bool)
    (names : List Bytes) (s : Joining R) (between : Between m isjson s)
    (ready : ∀ name ∈ names, ∀ cmd, findCommand name = some cmd → cmd.joinable = true →
      access group cmd.name = true →
      Ready behind opens defaultSaveFile group m none isjson cmd.func) :
    ∃ last, names.foldlM (joinStep (ApiControl.writeHandler behind opens defaultSaveFile)
      group isjson) s = some last ∧
      Between m isjson last ∧ (last.firstjoin = true →
        s.firstjoin = true ∧ ∀ name ∈ names, name = []) := by
  induction names generalizing s with
  | nil => exact ⟨s, rfl, between, fun first => ⟨first, fun _ never => nomatch never⟩⟩
  | cons name names ih =>
    obtain ⟨next, step, after, first⟩ :=
      joinStep_between behind opens defaultSaveFile group m sound isjson s between name
      (ready name List.mem_cons_self)
    obtain ⟨last, rest, done, still⟩ :=
      ih next after fun other inside => ready other (List.mem_cons_of_mem name inside)
    refine ⟨last, ?_, done, fun never => ?_⟩
    · rw [List.foldlM_cons, step]
      exact rest
    · obtain ⟨nextFirst, empty⟩ := still never
      obtain ⟨start, here⟩ := first nextFirst
      refine ⟨start, fun other inside => ?_⟩
      rcases List.mem_cons.mp inside with rfl | within
      · exact here
      · exact empty other within

theorem settles_joined (group : Group) (cmd : Bytes) (m : Miner R) (sound : Sound m.pools)
    (isjson : Bool) (several : isjson = true → ∃ name ∈ joinedNames cmd, name ≠ [])
    (ready : ∀ name ∈ joinedNames cmd, ∀ cmd, findCommand name = some cmd → cmd.joinable = true →
      access group cmd.name = true →
        Ready behind opens defaultSaveFile group m none isjson cmd.func) :
    Settles isjson (joined (ApiControl.writeHandler behind opens defaultSaveFile)
      group cmd m isjson ioReinit) := by
  obtain ⟨last, all, between, empty⟩ :=
    joined_between behind opens defaultSaveFile group m sound isjson (joinedNames cmd)
    ⟨m, ioReinit, [separator], true⟩ ⟨rfl, rfl, fun _ => rfl, fun _ => rfl⟩ ready
  unfold joined
  rw [all]
  refine ⟨last.miner, last.io, rfl, ?_, fun json => ?_⟩
  · rw [pools_of_control between.miner]
    exact sound
  · have used : ¬ last.firstjoin = true := by
      intro first
      obtain ⟨name, inside, named⟩ := several json
      exact named ((empty first).2 name inside)
    have text := between.text json
    rwa [if_neg used] at text

/-! ## Requests -/

variable (jsonLoadb : Bytes → Option Json)

/-- What a request needs: one that names no command does not follow a joined one,
and the commands it names are ready, of which in JSON there is one at least. -/
structure Met (s : Server R) (request : Request) : Prop where
  fresh : ∀ messageid, asked jsonLoadb request.buf = .invalid messageid → s.isjoin = false
  single : ∀ name param, asked jsonLoadb request.buf = .command name param → cmdjoin ∉ name →
    ∀ cmd, findCommand name = some cmd → access request.group cmd.name = true →
      Ready behind opens defaultSaveFile request.group s.miner param (isjson request.buf) cmd.func
  several : ∀ names param, asked jsonLoadb request.buf = .command names param → cmdjoin ∈ names →
    isjson request.buf = true → ∃ name ∈ joinedNames names, name ≠ []
  joined : ∀ names param, asked jsonLoadb request.buf = .command names param → cmdjoin ∈ names →
    ∀ name ∈ joinedNames names, ∀ cmd, findCommand name = some cmd → cmd.joinable = true →
      access request.group cmd.name = true →
      Ready behind opens defaultSaveFile request.group s.miner none (isjson request.buf) cmd.func

/-- One reply is sent, in JSON it is one object, and it is what the request would
get as the first one. -/
def Answered (s : Server R) (request : Request) : Prop :=
  ∃ next reply, serve (ApiControl.writeHandler behind opens defaultSaveFile) jsonLoadb s request =
    some (next, [reply]) ∧
    (isjson request.buf = true → IsObject reply) ∧
    (serve (ApiControl.writeHandler behind opens defaultSaveFile) jsonLoadb ⟨s.miner,
      false⟩ request).map Prod.snd =
      some [reply]

theorem asked_plain (buf : Bytes) (messageid : Nat)
    (request : asked jsonLoadb buf = .invalid messageid) :
    (codes.find? fun code => code.code = messageid).all fun code => stringless code.params := by
  rcases asked_invalid jsonLoadb buf messageid request with rfl | rfl | rfl <;> rfl

omit [Floating R] in
/-- A settled answer is sent once. -/
theorem settled_sent {isjson : Bool} {answer : Option (Miner R × Io)}
    (settled : Settles isjson answer) (isjoin : Bool) :
    ∃ next reply,
      answer.map (fun (m, io) => ((⟨m, isjoin⟩ : Server R), [(sendResult io isjson).text])) =
      some (next, [reply]) ∧ Sound next.miner.pools ∧ (isjson = true → IsObject reply) := by
  obtain ⟨after, io, rfl, kept, opened⟩ := settled
  refine ⟨⟨after, isjoin⟩, _, rfl, kept, fun json => ?_⟩
  subst json
  exact sendResult_object (opened rfl)

theorem request_answered (s : Server R) (sound : Sound s.miner.pools) (request : Request)
    (met : Met behind opens defaultSaveFile jsonLoadb s request) :
    Answered behind opens defaultSaveFile jsonLoadb s request ∧
      ∀ next replies, serve (ApiControl.writeHandler behind opens defaultSaveFile)
        jsonLoadb s request =
        some (next, replies) → Sound next.miner.pools := by
  unfold Answered serve
  dsimp only
  cases wanted : asked jsonLoadb request.buf with
  | invalid messageid =>
    have spoken :=
      speakable_stringless (desk s.miner) messageid 0 none
        (asked_plain jsonLoadb request.buf messageid wanted)
    obtain ⟨out, sent⟩ :=
      message_spoken R (desk s.miner) ioReinit messageid 0 none (isjson request.buf) spoken
    simp only [sent, Option.map_some, met.fresh messageid wanted, if_neg Bool.false_ne_true]
    refine ⟨⟨s, _, rfl, fun json => ?_, rfl⟩, fun next replies taken => ?_⟩
    · rw [json] at sent ⊢
      exact sendResult_object
        ((message_stated (desk s.miner) ioReinit out messageid 0 none sent).opened rfl)
    · cases taken
      exact sound
  | command cmd param =>
    dsimp only
    by_cases joins : cmdjoin ∈ cmd
    · have settled :=
        settles_joined behind opens defaultSaveFile request.group cmd s.miner sound
          (isjson request.buf)
        (met.several cmd param wanted joins) (met.joined cmd param wanted joins)
      obtain ⟨next, reply, answer, kept, object⟩ := settled_sent settled true
      simp only [if_pos joins, answer]
      refine ⟨⟨next, reply, rfl, object, rfl⟩, fun _ _ taken => ?_⟩
      cases taken
      exact kept
    · have settled :=
        settles_single behind opens defaultSaveFile request.group cmd s.miner sound param
          (isjson request.buf)
        (met.single cmd param wanted joins)
      obtain ⟨next, reply, answer, kept, object⟩ := settled_sent settled false
      simp only [if_neg joins, answer]
      refine ⟨⟨next, reply, rfl, object, rfl⟩, fun _ _ taken => ?_⟩
      cases taken
      exact kept

/-! ## Where the conditions fail -/

/-- After a joined request, one that names no command is answered twice. -/
theorem answered_twice (s : Server R) (request : Request) (messageid : Nat)
    (invalid : asked jsonLoadb request.buf = .invalid messageid) (joinedBefore : s.isjoin = true) :
    ∃ reply again, serve (ApiControl.writeHandler behind opens defaultSaveFile)
      jsonLoadb s request =
      some (s, [reply, again]) := by
  obtain ⟨out, sent⟩ :=
    message_spoken R (desk s.miner) ioReinit messageid 0 none (isjson request.buf)
    (speakable_stringless (desk s.miner) messageid 0 none
      (asked_plain jsonLoadb request.buf messageid invalid))
  unfold serve
  simp only [invalid, sent, Option.map_some, joinedBefore, if_pos]
  exact ⟨_, _, rfl⟩

/-- A command that is silent leaves only the end of an object. -/
theorem silent_reply (s : Server R) (request : Request) (name : Bytes) (param : Option Bytes)
    (cmd : CMDS) (wanted : asked jsonLoadb request.buf = .command name param)
    (alone : cmdjoin ∉ name) (found : findCommand name = some cmd)
    (granted : access request.group cmd.name = true) (mute : silent cmd.func param = true)
    (json : isjson request.buf = true) :
    ∃ next, serve (ApiControl.writeHandler behind opens defaultSaveFile) jsonLoadb s request =
      some (next, [jsonEnd]) := by
  unfold silent at mute
  rw [Bool.and_eq_true, decide_eq_true_iff, decide_eq_true_iff] at mute
  obtain ⟨func, given⟩ := mute
  have empty :
    ∃ after, perform (ApiControl.writeHandler behind opens defaultSaveFile) request.group cmd.func
    s.miner param
      true ioReinit = some (after, ioReinit) := by
    match param, given with
    | some (c :: text), _ =>
      simp only [List.mem_cons, List.not_mem_nil, or_false] at func
      rcases func with func | func | func <;> (rw [func]; exact ⟨_, rfl⟩)
    | none, given => exact absurd rfl given
    | some [], given => exact absurd rfl given
  obtain ⟨after, answer⟩ := empty
  unfold serve single runCommand
  simp only [wanted, json, if_neg alone, found, if_pos granted, answer, Option.map_some]
  exact ⟨_, rfl⟩

/-! ## Runs -/

/-- A request arrives on a connection, or other threads change the miner. -/
inductive Event (R : Type) where
  | request (request : Request)
  | work (miner : Miner R)

/-- No request is read once the miner is to end. -/
def step (s : Server R) : Event R → Option (Server R)
  | .request request =>
    if s.miner.bye then none
    else (serve (ApiControl.writeHandler behind opens defaultSaveFile) jsonLoadb s request).map
      Prod.fst
  | .work miner => some { s with miner }

def Meets (s : Server R) : Event R → Prop
  | .request request => s.miner.bye = false → Met behind opens defaultSaveFile jsonLoadb s request
  | .work miner => Sound miner.pools

def Serves (s : Server R) : Event R → Prop
  | .request request =>
    s.miner.bye = false → Answered behind opens defaultSaveFile jsonLoadb s request
  | .work _ => True

theorem step_sound (s next : Server R) (e : Event R) (sound : Sound s.miner.pools)
    (meets : Meets behind opens defaultSaveFile jsonLoadb s e)
    (taken : step behind opens defaultSaveFile jsonLoadb s e = some next) :
    Sound next.miner.pools := by
  cases e with
  | work miner =>
    cases taken
    exact meets
  | request request =>
    rw [step] at taken
    split at taken
    · cases taken
    · rename_i here
      rw [Bool.not_eq_true] at here
      obtain ⟨⟨_, replies⟩, served, rfl⟩ := Option.map_eq_some_iff.mp taken
      exact (request_answered behind opens defaultSaveFile jsonLoadb s sound request (meets here)).2
        _ replies served

/-- Every request of a run whose requests meet their conditions is answered. -/
theorem requests_answered (s : Server R) (sound : Sound s.miner.pools) (events : List (Event R))
    (met : Every (step behind opens defaultSaveFile jsonLoadb)
      (Meets behind opens defaultSaveFile jsonLoadb) s events) :
    Every (step behind opens defaultSaveFile jsonLoadb)
      (Serves behind opens defaultSaveFile jsonLoadb) s events := by
  refine every_of_invariant (P := fun s : Server R => Sound s.miner.pools) ?_ ?_ sound met
  · intro s e sound meets
    cases e with
    | work miner => exact trivial
    | request request =>
      exact fun here =>
        (request_answered behind opens defaultSaveFile jsonLoadb s sound request (meets here)).1
  · exact fun s e next sound meets taken =>
      step_sound behind opens defaultSaveFile jsonLoadb s next e sound meets taken

/-- One pool, which is the current one. -/
def onePool : Server ℚ :=
  ⟨{ (default : Miner ℚ) with
      pools := EnabledPools.start
      options := { (default : Options) with version := ascii "4.10.0" } },
    false⟩

theorem onePool_sound : Sound onePool.miner.pools := by
  refine ⟨⟨?_, by decide, by decide, by decide⟩, ⟨0, by decide, rfl⟩, by decide⟩
  intro i pool found
  match i, found with
  | 0, found => exact (Option.some.inj found) ▸ rfl

def versionRequest : Bytes := ascii "\x7b\"command\":\"version\"\x7d"
def joinedRequest : Bytes := ascii "\x7b\"command\":\"config++nope\"\x7d"
def fanRequest : Bytes := ascii "\x7b\"command\":\"fanspd\",\"parameter\":\"3\"\x7d"

/-- The values of these texts. -/
def loads (buf : Bytes) : Option Json :=
  if buf = versionRequest then some (.object [("command", .string (ascii "version"))])
  else if buf = joinedRequest then some (.object [("command", .string (ascii "config++nope"))])
  else if buf = fanRequest then
    some (.object [("command", .string (ascii "fanspd")), ("parameter", .string (ascii "3"))])
  else none

/-- A request for the version needs that of the miner, which has no quotes. -/
theorem version_met (isjoin : Bool) :
    Met (fun _ => none) (fun _ => true) [] loads ⟨onePool.miner, isjoin⟩
    ⟨versionRequest, .privgroup⟩ := by
  have wanted : asked loads versionRequest = .command (ascii "version") none := by decide +kernel
  have joins : cmdjoin ∉ ascii "version" := by decide +kernel
  have found : findCommand (ascii "version") =
    some ⟨ascii "version", .apiversion, false, true⟩ := by decide +kernel
  have printed : ∀ root ∈ reported .privgroup onePool.miner none .apiversion,
    root.all printable := by decide +kernel
  constructor
  · intro messageid invalid
    rw [wanted] at invalid
    cases invalid
  · intro name param command _ cmd named _
    rw [wanted] at command
    cases command
    rw [found] at named
    cases named
    exact ⟨fun _ => rfl, fun _ => printed, trivial⟩
  · intro names param command inside
    rw [wanted] at command
    cases command
    exact absurd inside joins
  · intro names param command inside
    rw [wanted] at command
    cases command
    exact absurd inside joins

theorem joined_met (isjoin : Bool) :
    Met (fun _ => none) (fun _ => true) [] loads ⟨onePool.miner, isjoin⟩
    ⟨joinedRequest, .privgroup⟩ := by
  have wanted : asked loads joinedRequest = .command (ascii "config++nope") none := by
    decide +kernel
  have joins : cmdjoin ∈ ascii "config++nope" := by decide +kernel
  have pieces : joinedNames (ascii "config++nope") = [ascii "config", [], ascii "nope"] := by
    decide +kernel
  have commands : [ascii "config", [], ascii "nope"].map findCommand =
      [some ⟨ascii "config", .minerconfig, false, true⟩, none, none] := by
    decide +kernel
  have printed : ∀ root ∈ reported .privgroup onePool.miner none .minerconfig,
    root.all printable := by decide +kernel
  rw [List.map_cons, List.map_cons, List.map_cons, List.map_nil, List.cons.injEq, List.cons.injEq,
    List.cons.injEq]
    at commands
  obtain ⟨config, nothing, unknown, _⟩ := commands
  constructor
  · intro messageid invalid
    rw [wanted] at invalid
    cases invalid
  · intro name param command absent
    rw [wanted] at command
    cases command
    exact absurd joins absent
  · intro names param command _ _
    rw [wanted] at command
    cases command
    rw [pieces]
    exact ⟨ascii "config", List.mem_cons_self, by decide +kernel⟩
  · intro names param command _ name inside cmd found _ _
    rw [wanted] at command
    cases command
    rw [pieces, List.mem_cons, List.mem_cons, List.mem_singleton] at inside
    rcases inside with rfl | rfl | rfl
    · rw [config] at found
      cases found
      exact ⟨fun _ => rfl, fun _ => printed, trivial⟩
    · rw [nothing] at found
      cases found
    · rw [unknown] at found
      cases found

/-- A joined request and one for the version are answered. -/
theorem requests_answered_version :
    Every (step (fun _ => none) (fun _ => true) [] loads)
      (Serves (fun _ => none) (fun _ => true) [] loads) onePool
      [.request ⟨joinedRequest, .privgroup⟩, .work onePool.miner,
        .request ⟨versionRequest, .privgroup⟩] := by
  refine requests_answered (fun _ => none) (fun _ => true) [] loads onePool onePool_sound _
    ⟨fun _ => joined_met false,
      fun next _ => ⟨onePool_sound, fun after taken => ⟨fun _ => ?_, fun _ _ => trivial⟩⟩⟩
  cases taken
  exact version_met next.isjoin

/-- The reply to a JSON request for a fan speed is the end of an object only. -/
theorem fan_unanswered :
    ¬ Every (step (fun _ => none) (fun _ => true) [] loads)
      (Serves (fun _ => none) (fun _ => true) [] loads) onePool
      [.request ⟨fanRequest, .privgroup⟩] := by
  have served : (serve (ApiControl.writeHandler (fun _ => none) (fun _ => true) []) loads onePool
      ⟨fanRequest, .privgroup⟩).map Prod.snd = some [jsonEnd] := by
    decide +kernel
  rintro ⟨answered, _⟩
  obtain ⟨next, reply, answer, object, _⟩ := answered rfl
  rw [answer, Option.map_some, Option.some.injEq, List.cons.injEq] at served
  obtain ⟨members, _, text⟩ := object (by decide +kernel)
  have first : (jsonEnd.head? = some openBrace) := by
    rw [← served.1, text]
    rfl
  exact absurd first (by decide +kernel)

end CgminerT4.Guarantees.RequestReplies
