import CgminerT4.Source.ApiServer

/-!
# Requests of read-only clients

A client of group R reaches the handlers that are not in write mode. All but two
of them leave the miner as it is up to the rates and debug requests that a report
refreshes; `fanspd` and `powerdown` store their parameter, so their requests are
harmless exactly when nothing new is stored. A joined command has no parameter.
-/
namespace CgminerT4.Guarantees.ReadOnlyAccess
open Library Library.ByteString Source Source.Jansson Source.ApiReply Source.ApiReports
  Source.ApiServer
open Source.PoolControl (atoi)

variable {R : Type} [Floating R]

/-- The miner without the utility rates, which a report computes anew, and the
debug requests to the chains. -/
def control (m : Miner R) : Miner R :=
  { m with
    devices := m.devices.map fun cgpu => { cgpu with utility := Floating.ofInt 0 }
    debugStats := fun _ => false }

/-- A request that stores nothing new. -/
structure Harmless (jsonLoadb : Bytes → Option Json) (m : Miner R) (buf : Bytes) : Prop where
  fan : ∀ param, asked jsonLoadb buf = .command (ascii "fanspd") (some param) → param ≠ [] →
    0 ≤ atoi param → atoi param ≤ 5 → atoi param = m.fanSpeed
  reset : ∀ param, asked jsonLoadb buf = .command (ascii "powerdown") (some param) → param ≠ [] →
    atoi param = m.resetDelay

/-- An answer that keeps the control state. -/
def Keeps (m : Miner R) (answer : Option (Miner R × Io)) : Prop :=
  ∃ m' io', answer = some (m', io') ∧ control m' = control m

/-! ## Messages -/

/-- A text that has no string in it. -/
def stringless : Params → Bool
  | .pool | .str | .both | .set => false
  | _ => true

/-- The text of the message exists: its string is not NULL and the buffer holds it. -/
def Speakable (desk : Desk) (id : Nat) (paramid : Int) (param2 : Option Bytes) : Prop :=
  (codes.find? fun code => code.code = id).all fun code =>
    (messageText desk code paramid param2).isSome

theorem message_spoken (R : Type) [Floating R] (desk : Desk) (io : Io) (id : Nat) (paramid : Int)
    (param2 : Option Bytes) (isjson : Bool) (spoken : Speakable desk id paramid param2) :
    ∃ out, message R desk io id paramid param2 isjson = some out := by
  unfold Speakable at spoken
  unfold message
  cases found : codes.find? fun code => code.code = id with
  | none => exact ⟨_, rfl⟩
  | some code =>
    rw [found, Option.all_some] at spoken
    obtain ⟨buf, text⟩ := Option.isSome_iff_exists.mp spoken
    simp only [text, Option.map_some]
    exact ⟨_, rfl⟩

theorem speakable_stringless (desk : Desk) (id : Nat) (paramid : Int) (param2 : Option Bytes)
    (plain : (codes.find? fun code => code.code = id).all fun code => stringless code.params) :
    Speakable desk id paramid param2 := by
  unfold Speakable
  cases found : codes.find? fun code => code.code = id with
  | none => rfl
  | some code =>
    rw [found, Option.all_some] at plain
    rw [Option.all_some]
    unfold messageText
    cases params : code.params <;> rw [params] at plain
    all_goals first
      | rfl
      | exact nomatch plain

theorem message_total (R : Type) [Floating R] (desk : Desk) (io : Io) (id : Nat) (paramid : Int)
    (param2 : Option Bytes) (isjson : Bool)
    (plain : (codes.find? fun code => code.code = id).all fun code => stringless code.params) :
    ∃ out, message R desk io id paramid param2 isjson = some out :=
  message_spoken R desk io id paramid param2 isjson
    (speakable_stringless desk id paramid param2 plain)

/-- The denial of a command that is in the table. -/
theorem denial_speakable (desk : Desk) (cmd : CMDS) (listed : cmd ∈ cmds) :
    Speakable desk msgAccdeny 0 cmd.name := by
  have found : codes.find? (fun code => code.code = msgAccdeny) =
      some ⟨.err, msgAccdeny, .str, ascii "Access denied to '%s' command"⟩ := rfl
  have short :
      cmds.all fun cmd => (sprintf (ascii "Access denied to '%s' command") [cmd.name]).length <
      tmpbufsiz := by
    decide +kernel
  have fits := List.all_eq_true.mp short cmd listed
  unfold Speakable
  rw [found, Option.all_some]
  show (Option.filter (fun buf => decide (List.length buf < tmpbufsiz)) (some _)).isSome
  rw [Option.filter_some, if_pos fits]
  rfl

theorem denial_total (R : Type) [Floating R] (desk : Desk) (io : Io) (cmd : CMDS)
    (listed : cmd ∈ cmds) (isjson : Bool) :
    ∃ out, message R desk io msgAccdeny 0 cmd.name isjson = some out :=
  message_spoken R desk io msgAccdeny 0 cmd.name isjson (denial_speakable desk cmd listed)

theorem keeps_message (m : Miner R) (desk : Desk) (io : Io) (id : Nat) (paramid : Int)
    (isjson : Bool) (finish : Io → Miner R × Io)
    (plain : (codes.find? fun code => code.code = id).all fun code => stringless code.params)
    (same : ∀ out, control (finish out).1 = control m) :
    Keeps m ((message R desk io id paramid none isjson).map finish) := by
  obtain ⟨out, sent⟩ := message_total R desk io id paramid none isjson plain
  rw [sent]
  exact ⟨_, _, rfl, same out⟩

theorem keeps_report (m m' : Miner R) (io : Io) (id : Nat) (name : Bytes) (root : List (ApiData R))
    (isjson : Bool)
    (plain : (codes.find? fun code => code.code = id).all fun code => stringless code.params)
    (same : control m' = control m) :
    Keeps m ((report m' io id name root isjson).map fun io => (m', io)) := by
  unfold report
  rw [Option.map_map]
  exact keeps_message m (desk m') io id 0 isjson _ plain fun _ => same

theorem keeps_reportAll (m m' : Miner R) (io : Io) (id : Nat) (name : Bytes)
    (records : List (List (ApiData R))) (isjson : Bool)
    (plain : (codes.find? fun code => code.code = id).all fun code => stringless code.params)
    (same : control m' = control m) :
    Keeps m ((reportAll m' io id name records isjson).map fun io => (m', io)) := by
  unfold reportAll
  rw [Option.map_map]
  exact keeps_message m (desk m') io id 0 isjson _ plain fun _ => same

/-! ## The handlers that only report -/

/-- An item whose image stays can be replaced. -/
theorem map_set_same {α β : Type} (f : α → β) (l : List α) (i : Nat) (a b : α)
    (found : l[i]? = some a) (same : f b = f a) :
    (l.set i b).map f = l.map f := by
  induction l generalizing i with
  | nil => rfl
  | cons c l ih =>
    cases i with
    | zero =>
      cases found
      rw [List.set_cons_zero, List.map_cons, List.map_cons, same]
    | succ i =>
      rw [List.getElem?_cons_succ] at found
      rw [List.set_cons_succ, List.map_cons, List.map_cons, ih i found]

theorem control_ascstatus (m : Miner R) (asc : Nat) (isjson precom : Bool) (io : Io) :
    control (ascstatus m asc isjson precom io).1 = control m := by
  unfold ascstatus
  cases found : m.devices[asc]? with
  | none => rfl
  | some cgpu =>
    have devices :=
      map_set_same (fun cgpu : Device R => { cgpu with utility := Floating.ofInt 0 })
        m.devices asc cgpu
      { cgpu with utility := perMinute cgpu.accepted (cgpuRuntime m cgpu) } found rfl
    exact congrArg (fun devices =>
      { m with devices := devices, debugStats := fun _ => false }) devices

theorem control_ascstatuses (isjson : Bool) (m : Miner R) (io : Io) :
    control (ascstatuses isjson m io).1 = control m := by
  unfold ascstatuses
  generalize List.range (numascs m) = l
  induction l generalizing m io with
  | nil => rfl
  | cons i l ih => exact (ih _ _).trans (control_ascstatus m i isjson (isjson && decide (i > 0)) io)

theorem control_debug (devices : List (Device R)) (m : Miner R) :
    control (devices.foldl a1ApiDebug m) = control m := by
  induction devices generalizing m with
  | nil => rfl
  | cons cgpu devices ih => exact ih _

theorem keeps_devstatus (m : Miner R) (param : Option Bytes) (isjson : Bool) (io : Io) :
    Keeps m (devstatus m param isjson io) := by
  unfold devstatus
  split
  · exact keeps_message m _ io _ 0 isjson _ rfl fun _ => rfl
  · exact keeps_message m _ io _ 0 isjson _ rfl fun out => control_ascstatuses isjson m _

theorem keeps_ascdev (m : Miner R) (param : Option Bytes) (isjson : Bool) (io : Io) :
    Keeps m (ascdev m param isjson io) := by
  unfold ascdev
  split
  · exact keeps_message m _ io _ 0 isjson _ rfl fun _ => rfl
  split
  · exact keeps_message m _ io _ 0 isjson _ rfl fun _ => rfl
  · exact keeps_message m _ io _ 0 isjson _ rfl fun _ => rfl
  · rename_i param _
    dsimp only
    split
    · exact keeps_message m _ io _ (atoi param) isjson _ rfl fun _ => rfl
    · exact keeps_message m _ io _ (atoi param) isjson _ rfl fun out =>
        control_ascstatus m _ isjson false _

theorem keeps_poolstatus (m : Miner R) (param : Option Bytes) (isjson : Bool) (io : Io) :
    Keeps m (poolstatus m param isjson io) := by
  unfold poolstatus
  split
  · exact keeps_message m _ io _ 0 isjson _ rfl fun _ => rfl
  · exact keeps_message m _ io _ 0 isjson _ rfl fun _ => rfl

theorem keeps_notify (m : Miner R) (param : Option Bytes) (isjson : Bool) (io : Io) :
    Keeps m (notify m param isjson io) := by
  unfold notify
  split
  · exact keeps_message m _ io _ 0 isjson _ rfl fun _ => rfl
  · exact keeps_reportAll m m io _ _ _ isjson rfl rfl

theorem keeps_devdetails (m : Miner R) (param : Option Bytes) (isjson : Bool) (io : Io) :
    Keeps m (devdetails m param isjson io) := by
  unfold devdetails
  split
  · exact keeps_message m _ io _ 0 isjson _ rfl fun _ => rfl
  · exact keeps_reportAll m m io _ _ _ isjson rfl rfl

theorem keeps_minerdebug (m : Miner R) (param : Option Bytes) (isjson : Bool) (io : Io) :
    Keeps m (minerdebug m param isjson io) := by
  unfold minerdebug
  exact keeps_reportAll m _ io _ _ _ isjson rfl (control_debug m.devices m)

theorem keeps_checkcommand (group : Group) (m : Miner R) (param : Option Bytes) (isjson : Bool)
    (io : Io) :
    Keeps m (checkcommand group m param isjson io) := by
  unfold checkcommand
  split
  · exact keeps_message m _ io _ 0 isjson _ rfl fun _ => rfl
  · exact keeps_message m _ io _ 0 isjson _ rfl fun _ => rfl
  · exact keeps_report m m io _ _ _ isjson rfl rfl

/-- What fanmode, fanspd and powerdown do without a parameter. -/
theorem keeps_missing (m : Miner R) (isjson : Bool) (io : Io) :
    Keeps m ((message R (desk m) io msgMispdp 0 none isjson).map fun io => (m, io)) :=
  keeps_message m _ io _ 0 isjson _ rfl fun _ => rfl

theorem keeps_fanmode (m : Miner R) (param : Option Bytes) (isjson : Bool) (io : Io) :
    Keeps m (fanmode m param isjson io) := by
  unfold fanmode
  split
  · exact keeps_missing m isjson io
  · exact keeps_missing m isjson io
  · exact ⟨m, io, rfl, rfl⟩

theorem control_fanSpeed (m : Miner R) (speed : Int) :
    control { m with fanSpeed := speed } = control m ↔ speed = m.fanSpeed := by
  constructor
  · intro same
    exact congrArg Miner.fanSpeed same
  · rintro rfl
    rfl

theorem control_resetDelay (m : Miner R) (delay : Int) :
    control { m with resetDelay := delay } = control m ↔ delay = m.resetDelay := by
  constructor
  · intro same
    exact congrArg Miner.resetDelay same
  · rintro rfl
    rfl

/-- fanspd keeps the control state unless it stores another speed. -/
theorem keeps_fanspd (m : Miner R) (param : Option Bytes) (isjson : Bool) (io : Io) :
    Keeps m (fanspd m param isjson io) ↔
      ∀ p, param = some p → p ≠ [] → 0 ≤ atoi p → atoi p ≤ 5 → atoi p = m.fanSpeed := by
  unfold fanspd
  split
  · exact ⟨fun _ p given => (nomatch given), fun _ => keeps_missing m isjson io⟩
  · refine ⟨fun _ p given named => ?_, fun _ => keeps_missing m isjson io⟩
    cases given
    exact (named rfl).elim
  · rename_i param named
    dsimp only
    constructor
    · rintro ⟨m', io', answer, same⟩ p given _ low high
      cases given
      rw [if_pos ⟨low, high⟩] at answer
      cases answer
      exact (control_fanSpeed m _).mp same
    · intro kept
      refine ⟨_, _, rfl, ?_⟩
      split
      · rename_i range
        exact (control_fanSpeed m _).mpr
          (kept param rfl (fun empty => named (by rw [empty])) range.1 range.2)
      · rfl

theorem keeps_powerdown (m : Miner R) (param : Option Bytes) (isjson : Bool) (io : Io) :
    Keeps m (powerdown m param isjson io) ↔
      ∀ p, param = some p → p ≠ [] → atoi p = m.resetDelay := by
  unfold powerdown
  split
  · exact ⟨fun _ p given => (nomatch given), fun _ => keeps_missing m isjson io⟩
  · refine ⟨fun _ p given named => ?_, fun _ => keeps_missing m isjson io⟩
    cases given
    exact (named rfl).elim
  · rename_i param named
    constructor
    · rintro ⟨m', io', answer, same⟩ p given _
      cases given
      cases answer
      exact (control_resetDelay m _).mp same
    · intro kept
      exact ⟨_, _, rfl,
        (control_resetDelay m _).mpr (kept param rfl fun empty => named (by rw [empty]))⟩

/-! ## The commands of group R -/

theorem readable_listed :
    cmds.all (fun cmd => access noprivgroup cmd.name == !cmd.iswritemode) = true := by
      decide +kernel

/-- The handlers that are not in write mode. -/
def readers : List Func :=
  [.apiversion, .minerconfig, .devstatus, .edevstatus, .poolstatus, .summary, .pgacount, .notify,
    .devdetails, .minerstats, .minerdebug, .minerestats, .checkcommand, .minecoin, .usbstats,
    .ascdev, .asccount, .lcddata, .fanmode, .fanspd, .powerdown]

theorem reader_listed (cmd : CMDS) (listed : cmd ∈ cmds) (mode : cmd.iswritemode = false) :
    cmd.func ∈ readers := by
  have all : cmds.all fun cmd => cmd.iswritemode || cmd.func ∈ readers := by decide
  have reader := List.all_eq_true.mp all cmd listed
  rw [mode, Bool.false_or, decide_eq_true_iff] at reader
  exact reader

variable (writeHandler : Func → Handler R)

/-- The handlers that are not in write mode, apart from fanspd and powerdown. -/
theorem keeps_perform (group : Group) (func : Func) (reader : func ∈ readers) (m : Miner R)
    (param : Option Bytes) (isjson : Bool) (io : Io)
    (fan : func = .fanspd → Keeps m (fanspd m param isjson io))
    (reset : func = .powerdown → Keeps m (powerdown m param isjson io)) :
    Keeps m (perform writeHandler group func m param isjson io) := by
  have plain : ∀ id name root,
      (codes.find? fun code => code.code = id).all (fun code => stringless code.params) →
      Keeps m ((report m io id name root isjson).map fun io => (m, io)) :=
    fun id name root plain => keeps_report m m io id name root isjson plain rfl
  have plainAll : ∀ id name records,
      (codes.find? fun code => code.code = id).all (fun code => stringless code.params) →
      Keeps m ((reportAll m io id name records isjson).map fun io => (m, io)) :=
    fun id name records plain => keeps_reportAll m m io id name records isjson plain rfl
  simp only [readers, List.mem_cons, List.not_mem_nil, or_false] at reader
  rcases reader with rfl | rfl | rfl | rfl | rfl | rfl | rfl | rfl | rfl | rfl | rfl | rfl | rfl | rfl | rfl | rfl | rfl |
    rfl | rfl | rfl | rfl
  · exact plain msgVersion _ _ rfl
  · exact plain msgMineconfig _ _ rfl
  · exact keeps_devstatus m param isjson io
  · exact keeps_devstatus m param isjson io
  · exact keeps_poolstatus m param isjson io
  · exact plain msgSumm _ _ rfl
  · exact plain msgNumpga _ _ rfl
  · exact keeps_notify m param isjson io
  · exact keeps_devdetails m param isjson io
  · exact plainAll msgMinestats _ _ rfl
  · exact keeps_minerdebug m param isjson io
  · exact plainAll msgMinestats _ _ rfl
  · exact keeps_checkcommand group m param isjson io
  · exact plain msgMinecoin _ _ rfl
  · exact keeps_message m (desk m) io msgNousta 0 isjson (fun io => (m, io)) rfl fun _ => rfl
  · exact keeps_ascdev m param isjson io
  · exact plain msgNumasc _ _ rfl
  · exact plain msgLcd _ _ rfl
  · exact keeps_fanmode m param isjson io
  · exact fan rfl
  · exact reset rfl

/-- A command that a client of group R asks for: its handler runs or it is denied. -/
theorem keeps_runCommand (cmd : CMDS) (listed : cmd ∈ cmds) (m : Miner R) (param : Option Bytes)
    (isjson : Bool) (io : Io) (fan : cmd.func = .fanspd → Keeps m (fanspd m param isjson io))
    (reset : cmd.func = .powerdown → Keeps m (powerdown m param isjson io)) :
    Keeps m (runCommand writeHandler noprivgroup cmd m param isjson io) := by
  have mode := List.all_eq_true.mp readable_listed cmd listed
  rw [beq_iff_eq] at mode
  unfold runCommand
  rw [mode]
  by_cases write : cmd.iswritemode
  · rw [write]
    obtain ⟨out, sent⟩ := denial_total R (desk m) io cmd listed isjson
    exact ⟨m, out, by rw [sent]; rfl, rfl⟩
  · rw [Bool.not_eq_true] at write
    rw [write]
    exact keeps_perform writeHandler noprivgroup cmd.func (reader_listed cmd listed write)
      m param isjson io fan reset

theorem findCommand_listed (name : Bytes) (cmd : CMDS) (found : findCommand name = some cmd) :
    cmd ∈ cmds ∧ cmd.name = name :=
  ⟨List.mem_of_find?_eq_some found, by simpa [findCommand] using List.find?_some found⟩

/-! ## Joined commands -/

/-- Joined commands run without a parameter. -/
theorem keeps_joinStep (isjson : Bool) (s : Joining R) (name : Bytes) :
    ∃ s', joinStep writeHandler noprivgroup isjson s name = some s' ∧
      control s'.miner = control s.miner := by
  unfold joinStep
  split
  · exact ⟨s, rfl, rfl⟩
  split
  · rename_i cmd found
    obtain ⟨listed, _⟩ := findCommand_listed name cmd found
    split
    · exact ⟨s, rfl, rfl⟩
    dsimp only
    split
    · obtain ⟨m, io, answer, same⟩ := keeps_runCommand writeHandler cmd listed s.miner none isjson
        (headJoin s.io name isjson s.firstjoin)
        (fun _ => (keeps_fanspd s.miner none isjson _).mpr fun p given => nomatch given)
        (fun _ => (keeps_powerdown s.miner none isjson _).mpr fun p given => nomatch given)
      rw [answer]
      exact ⟨_, rfl, same⟩
    · obtain ⟨out, sent⟩ :=
        denial_total R (desk s.miner) (headJoin s.io name isjson s.firstjoin) cmd listed isjson
      rw [sent]
      exact ⟨_, rfl, rfl⟩
  · obtain ⟨out, sent⟩ :=
      message_total R (desk s.miner) (headJoin s.io name isjson s.firstjoin) msgInvcmd 0 none isjson
      rfl
    rw [sent]
    exact ⟨_, rfl, rfl⟩

theorem keeps_joined (cmd : Bytes) (m : Miner R) (isjson : Bool) (io : Io) :
    Keeps m (joined writeHandler noprivgroup cmd m isjson io) := by
  have run : ∀ (names : List Bytes) (s : Joining R), ∃ s',
      names.foldlM (joinStep writeHandler noprivgroup isjson) s = some s' ∧
        control s'.miner = control s.miner := by
    intro names
    induction names with
    | nil => exact fun s => ⟨s, rfl, rfl⟩
    | cons name names ih =>
      intro s
      obtain ⟨next, step, kept⟩ := keeps_joinStep writeHandler isjson s name
      obtain ⟨last, rest, same⟩ := ih next
      refine ⟨last, ?_, same.trans kept⟩
      rw [List.foldlM_cons, step]
      exact rest
  obtain ⟨last, all, same⟩ := run (joinedNames cmd) ⟨m, io, [separator], true⟩
  unfold joined
  rw [all]
  exact ⟨_, _, rfl, same⟩

/-! ## Single commands and requests -/

/-- The two commands that store something run under their names. -/
theorem single_stores (name : Bytes) (func : Func) (m : Miner R) (param : Option Bytes)
    (isjson : Bool) (io : Io) (found : findCommand name = some ⟨name, func, false, true⟩)
    (granted : access noprivgroup name = true) :
    single writeHandler noprivgroup name m param isjson io =
      perform writeHandler noprivgroup func m param isjson io := by
  unfold single runCommand
  rw [found]
  exact if_pos granted

/-- The commands outside write mode that store their parameter. -/
theorem stores_listed :
    (findCommand (ascii "fanspd") = some ⟨ascii "fanspd", .fanspd, false, true⟩ ∧
      access noprivgroup (ascii "fanspd") = true) ∧
    (findCommand (ascii "powerdown") = some ⟨ascii "powerdown", .powerdown, false, true⟩ ∧
      access noprivgroup (ascii "powerdown") = true) ∧
    cmds.all fun cmd => (cmd.func != .fanspd || cmd.name == ascii "fanspd") &&
      (cmd.func != .powerdown || cmd.name == ascii "powerdown") := by
  decide +kernel

theorem keeps_single (name : Bytes) (m : Miner R) (param : Option Bytes) (isjson : Bool) (io : Io) :
    Keeps m (single writeHandler noprivgroup name m param isjson io) ↔
      (name = ascii "fanspd" → Keeps m (fanspd m param isjson io)) ∧
        (name = ascii "powerdown" → Keeps m (powerdown m param isjson io)) := by
  obtain ⟨⟨fanspd_found, fanspd_granted⟩, ⟨powerdown_found, powerdown_granted⟩, names⟩ :=
    stores_listed
  constructor
  · intro keeps
    constructor
    · rintro rfl
      rwa [single_stores writeHandler (ascii "fanspd") .fanspd m param isjson io fanspd_found
        fanspd_granted] at keeps
    · rintro rfl
      rwa [single_stores writeHandler (ascii "powerdown") .powerdown m param isjson io
        powerdown_found powerdown_granted] at keeps
  · rintro ⟨fan, reset⟩
    unfold single
    split
    · rename_i cmd found
      obtain ⟨listed, named⟩ := findCommand_listed name cmd found
      have own := List.all_eq_true.mp names cmd listed
      rw [Bool.and_eq_true] at own
      refine keeps_runCommand writeHandler cmd listed m param isjson io
        (fun func => fan ?_) fun func => reset ?_
      · have named' := own.1
        rw [func] at named'
        exact named.symm.trans (beq_iff_eq.mp named')
      · have named' := own.2
        rw [func] at named'
        exact named.symm.trans (beq_iff_eq.mp named')
    · exact keeps_message m _ io _ 0 isjson _ rfl fun _ => rfl

theorem asked_invalid (jsonLoadb : Bytes → Option Json) (buf : Bytes) (id : Nat)
    (request : asked jsonLoadb buf = .invalid id) :
    id = msgMiscmd ∨ id = msgInvcmd ∨ id = msgInvjson := by
  unfold asked at request
  split at request
  · split at request
    · split at request
      · cases request
        exact .inl rfl
      · exact nomatch request
      · cases request
        exact .inr (.inl rfl)
    · cases request
      exact .inr (.inr rfl)
  · exact nomatch request

theorem harmless_command (jsonLoadb : Bytes → Option Json) (m : Miner R) (buf cmd : Bytes)
    (param : Option Bytes) (request : asked jsonLoadb buf = .command cmd param) (isjson : Bool)
    (io : Io) :
    Harmless jsonLoadb m buf ↔ (cmd = ascii "fanspd" → Keeps m (fanspd m param isjson io)) ∧
      (cmd = ascii "powerdown" → Keeps m (powerdown m param isjson io)) := by
  rw [keeps_fanspd, keeps_powerdown]
  constructor
  · rintro ⟨fan, reset⟩
    exact ⟨fun name p given => fan p (by rw [request, name, given]),
      fun name p given => reset p (by rw [request, name, given])⟩
  · rintro ⟨fan, reset⟩
    refine ⟨fun p asks => ?_, fun p asks => ?_⟩
    · rw [request] at asks
      cases asks
      exact fan rfl p rfl
    · rw [request] at asks
      cases asks
      exact reset rfl p rfl

/-- A request of a client of group R keeps the control state exactly if it is harmless. -/
theorem read_only_iff (jsonLoadb : Bytes → Option Json) (s : Server R) (buf : Bytes) :
    (∃ s' replies, serve writeHandler jsonLoadb s ⟨buf, noprivgroup⟩ = some (s', replies) ∧
      control s'.miner = control s.miner) ↔ Harmless jsonLoadb s.miner buf := by
  unfold serve
  dsimp only
  cases request : asked jsonLoadb buf with
  | invalid messageid =>
    have plain : (codes.find? fun code => code.code = messageid).all fun code =>
        stringless code.params := by
      rcases asked_invalid jsonLoadb buf messageid request with rfl | rfl | rfl <;> rfl
    obtain ⟨out, sent⟩ :=
      message_total R (desk s.miner) ioReinit messageid 0 none (isjson buf) plain
    have harmless : Harmless jsonLoadb s.miner buf := by
      refine ⟨fun p asks => ?_, fun p asks => ?_⟩ <;>
        (rw [request] at asks; exact nomatch asks)
    simp only [sent, Option.map_some]
    exact iff_of_true ⟨s, _, rfl, rfl⟩ harmless
  | command cmd param =>
    have named := harmless_command jsonLoadb s.miner buf cmd param request (isjson buf) ioReinit
    dsimp only
    by_cases joins : cmdjoin ∈ cmd
    · have other : ∀ name : String, name = "fanspd" ∨ name = "powerdown" → cmd ≠ ascii name := by
        rintro name either rfl
        rw [ascii_eq] at joins
        rcases either with rfl | rfl <;> exact absurd joins (by decide)
      obtain ⟨m, io, answer, same⟩ := keeps_joined writeHandler cmd s.miner (isjson buf) ioReinit
      rw [if_pos joins, answer]
      exact iff_of_true ⟨_, _, rfl, same⟩
        (named.mpr ⟨fun fan => (other _ (.inl rfl) fan).elim,
          fun reset => (other _ (.inr rfl) reset).elim⟩)
    · rw [if_neg joins, named, ← keeps_single writeHandler cmd s.miner param (isjson buf) ioReinit]
      constructor
      · rintro ⟨s', replies, answer, same⟩
        obtain ⟨⟨m, io⟩, alone, made⟩ := Option.map_eq_some_iff.mp answer
        cases made
        exact ⟨m, io, alone, same⟩
      · rintro ⟨m, io, alone, same⟩
        rw [alone]
        exact ⟨_, _, rfl, same⟩

/-- A miner that has just started. -/
def started : Miner ℚ := { (default : Miner ℚ) with fanSpeed := 1, resetDelay := 0xffff }

/-- A client of group R sets the speed of the fan. -/
theorem fan_speed_stored :
    ¬ ∃ s' replies, serve (fun _ _ _ _ _ => none) (fun _ => none) ⟨started, false⟩
    ⟨ascii "fanspd|3", noprivgroup⟩ = some (s', replies) ∧ control s'.miner = control started := by
  have stored :
    (serve (fun _ _ _ _ _ => none) (fun _ => none) ⟨started, false⟩ ⟨ascii "fanspd|3",
    noprivgroup⟩).map
      (fun result => result.1.miner.fanSpeed) = some 3 := by
    decide +kernel
  rintro ⟨s', replies, answer, same⟩
  rw [answer, Option.map_some, Option.some.injEq] at stored
  have speed : s'.miner.fanSpeed = 1 := congrArg Miner.fanSpeed same
  rw [speed] at stored
  exact absurd stored (by decide)

end CgminerT4.Guarantees.ReadOnlyAccess
