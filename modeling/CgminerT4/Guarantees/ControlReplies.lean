import CgminerT4.Guarantees.PoolCommands
import CgminerT4.Guarantees.ReportReplies
import CgminerT4.Source.ApiControl

/-!
# Replies of the commands in write mode

A handler in write mode answers with one message, when the strings in the message
are there and fit the buffer. setconfig needs a parameter, and a deprecated option
gets two messages; addpool needs a url that can be taken apart.
-/
namespace CgminerT4.Guarantees.ControlReplies
open Library Library.ByteString Library.JsonForm Source Source.ApiReply Source.ApiReports
  Source.ApiServer Source.ApiControl
open Source.PoolControl (Pools Reply atoi)
open Source.PoolConfig (detectStratum lower)
open Source.SessionTable (PoolId)
open ReadOnlyAccess (Speakable message_spoken speakable_stringless stringless)
open ReplyForm ReportReplies PoolCommands

variable {R : Type} [Floating R]

/-- An answer into the empty buffer, with the pools in order. -/
def Settles (isjson : Bool) (answer : Option (Miner R × Io)) : Prop :=
  ∃ m io, answer = some (m, io) ∧ Sound m.pools ∧ (isjson = true → Opened [] io)

theorem settles_answer (m : Miner R) (sound : Sound m.pools) (id : Nat) (paramid : Int)
    (param2 : Option Bytes) (isjson : Bool) (spoken : Speakable (desk m) id paramid param2) :
    Settles isjson (answer m ioReinit id paramid param2 isjson) := by
  obtain ⟨out, sent⟩ := message_spoken R (desk m) ioReinit id paramid param2 isjson spoken
  unfold answer
  rw [sent]
  refine ⟨m, out, rfl, sound, fun json => ?_⟩
  rw [json] at sent
  exact (message_stated (desk m) ioReinit out id paramid param2 sent).opened rfl

theorem settles_plain (m : Miner R) (sound : Sound m.pools) (id : Nat) (paramid : Int)
    (param2 : Option Bytes) (isjson : Bool)
    (plain : (codes.find? fun code => code.code = id).all fun code => stringless code.params) :
    Settles isjson (answer m ioReinit id paramid param2 isjson) :=
  settles_answer m sound id paramid param2 isjson
    (speakable_stringless (desk m) id paramid param2 plain)

theorem settles_report (m : Miner R) (sound : Sound m.pools) (id : Nat) (name : Bytes)
    (root : List (ApiData R)) (isjson : Bool)
    (plain : (codes.find? fun code => code.code = id).all fun code => stringless code.params)
    (named : chars name) (printed : root.all printable) :
    Settles isjson ((report m ioReinit id name root isjson).map fun io => (m, io)) := by
  have printed : isjson = true → ∀ record ∈ [root], record.all printable := by
    intro _ record single
    rw [List.mem_singleton] at single
    rwa [single]
  obtain ⟨after, io, answer, opened⟩ :=
    answers_report m m ioReinit id name root isjson plain named printed
  obtain ⟨_, _, same⟩ := Option.map_eq_some_iff.mp answer
  cases same
  exact ⟨m, io, answer, sound, opened⟩

/-! ## What the commands say -/

/-- The message that a command on pools answers with. -/
def PoolSpoken (m : Miner R) (param param2 : Option Bytes)
    (result : Option (Reply × Pools)) : Prop :=
  ∀ reply next, result = some (reply, next) →
    Speakable (desk { m with pools := next }) (replyMessage (named param) reply).1
      (replyMessage (named param) reply).2 param2

/-- The url of a new pool can be taken apart, and it fits the message. -/
def AddpoolSpoken (m : Miner R) (text : Bytes) (isjson : Bool) : Prop :=
  match pooldetails text with
  | none => Speakable (desk m) msgInvpdp 0 (escapeString text isjson)
  | some (url, _, _) => (detectStratum url).isSome ∧
      (sprintf (ascii "Added pool %d: '%s'") [decimal (PoolControl.totalPools m.pools),
        url]).length < tmpbufsiz

def PoolquotaSpoken (m : Miner R) (text : Bytes) : Prop :=
  let id := atoi (text.takeWhile (· ≠ JsonText.comma))
  let quota := atoi ((text.dropWhile (· ≠ JsonText.comma)).drop 1)
  (JsonText.comma ∉ text → Speakable (desk m) msgConval 0 text) ∧
    (JsonText.comma ∈ text → 0 ≤ id → ∀ pool, m.pools.table.pools[id.toNat]? = some pool →
      Speakable (desk m) (if quota < 0 then msgInvneg else msgSetquota) quota (m.pool pool).rpcUrl)

/-- A deprecated option gets two messages, which is not one object. -/
def SetconfigSpoken (m : Miner R) (text : Bytes) (isjson : Bool) : Prop :=
  Speakable (desk m) msgUnkcon 0 text ∧
    (deprecated text = true → isjson = false ∧ Speakable (desk m) msgDeprecated 0 text)

variable (behind : Nat → Option PoolId) (opens : Bytes → Bool) (defaultSaveFile : Bytes)

def savefile (param : Option Bytes) : Bytes :=
  if param.getD [] = [] then defaultSaveFile else param.getD []

/-- The strings that a command in write mode puts into its message are there and
fit the buffer. -/
def Spoken (m : Miner R) (param : Option Bytes) (isjson : Bool) : Func → Prop
  | .switchpool =>
    PoolSpoken m param none (PoolControl.switchpool m.options.poolStrategy behind m.pools param)
  | .enablepool =>
    PoolSpoken m param none (PoolControl.enablepool m.options.poolStrategy behind m.pools param)
  | .disablepool =>
    PoolSpoken m param none (PoolControl.disablepool m.options.poolStrategy behind m.pools param)
  | .poolpriority =>
    PoolSpoken m param none (PoolControl.poolpriority m.options.poolStrategy behind m.pools param)
  | .removepool =>
    PoolSpoken m param (((desk m).poolUrl (named param)).map fun url => escapeString url isjson)
      (PoolControl.removepool m.options.poolStrategy behind m.pools param)
  | .addpool => ∀ text, param = some text → AddpoolSpoken m text isjson
  | .poolquota => ∀ text, param = some text → PoolquotaSpoken m text
  | .dosave =>
    let file := savefile defaultSaveFile param
    Speakable (desk m) (if opens file then msgSaved else msgBadfn) 0 (escapeString file isjson)
  | .failoveronly => Speakable (desk m) msgDeprecated 0 param
  | .setconfig => ∃ text, param = some text ∧ SetconfigSpoken m text isjson
  | .dozero => ∀ text, param = some text → (text.dropWhile (· ≠ JsonText.comma)).drop 1 ≠ [] →
      Speakable (desk m) msgZerinv 0 (text.takeWhile (· ≠ JsonText.comma))
  | _ => True

/-! ## Texts -/

/-- A text made of the parameters of the message alone. -/
def selfContained : Params → Bool
  | .str | .both | .set => true
  | _ => false

theorem speakable_desk (desk desk' : Desk) (id : Nat) (paramid : Int) (param2 : Option Bytes)
    (own : (codes.find? fun code => code.code = id).all fun code => selfContained code.params)
    (spoken : Speakable desk id paramid param2) : Speakable desk' id paramid param2 := by
  unfold Speakable at spoken ⊢
  cases found : codes.find? fun code => code.code = id with
  | none => rfl
  | some code =>
    rw [found, Option.all_some] at own spoken
    rw [Option.all_some]
    unfold messageText at spoken ⊢
    cases kind : code.params <;> rw [kind] at own spoken
    all_goals first
      | exact spoken
      | cases own

theorem settles_pool (m : Miner R) (param param2 : Option Bytes) (isjson : Bool)
    (result : Option (Reply × Pools))
    (answered : ∃ reply next, result = some (reply, next) ∧ Sound next)
    (spoken : PoolSpoken m param param2 result) :
    Settles isjson (poolAnswer m param isjson ioReinit param2 result) := by
  obtain ⟨reply, next, answer, sound⟩ := answered
  rw [answer]
  exact settles_answer { m with pools := next } sound _ _ param2 isjson (spoken reply next answer)

/-! ## The commands -/

theorem settles_addpool (m : Miner R) (sound : Sound m.pools) (param : Option Bytes) (isjson : Bool)
    (spoken : ∀ text, param = some text → AddpoolSpoken m text isjson) :
    Settles isjson (addpool m param isjson ioReinit) := by
  unfold addpool
  split
  · exact settles_plain m sound msgMispdp 0 none isjson rfl
  · exact settles_plain m sound msgMispdp 0 none isjson rfl
  · rename_i text _
    have spoken := spoken text rfl
    unfold AddpoolSpoken at spoken
    split
    · rename_i refused
      rw [refused] at spoken
      exact settles_answer m sound msgInvpdp 0 _ isjson spoken
    · rename_i url user pass details
      rw [details] at spoken
      obtain ⟨reached, fits⟩ := spoken
      obtain ⟨stratumUrl, detected⟩ := Option.isSome_iff_exists.mp reached
      rw [detected, Option.bind_some]
      refine settles_answer _ (addpool_sound m.pools sound stratumUrl.isSome)
        msgAddpool _ _ isjson ?_
      obtain ⟨table, _⟩ := addpool_table m.pools stratumUrl.isSome
      have number :
          ((PoolControl.addpool m.pools stratumUrl.isSome).table.pool
          m.pools.table.allocated).poolNo =
          m.pools.table.pools.length := by
        rw [table]
        exact congrArg _ (Function.update_self _ _ _)
      have place :
          (PoolControl.addpool m.pools stratumUrl.isSome).table.pools[m.pools.table.pools.length]? =
          some m.pools.table.allocated := by
        rw [table]
        exact List.getElem?_concat_length
      have found : codes.find? (fun code => code.code = msgAddpool) =
          some ⟨.succ, msgAddpool, .pool, ascii "Added pool %d: '%s'"⟩ := rfl
      unfold Speakable
      rw [found, Option.all_some]
      unfold messageText stringText desk
      dsimp only
      rw [number, Int.toNat_natCast, place, Option.bind_some, Function.update_self, Option.map_some,
        Option.filter_some, show m.pools.table.pools.length =
        PoolControl.totalPools m.pools from rfl, if_pos (decide_eq_true fits)]
      rfl

theorem settles_poolquota (m : Miner R) (sound : Sound m.pools) (param : Option Bytes)
    (isjson : Bool) (spoken : ∀ text, param = some text →
      PoolquotaSpoken m text) : Settles isjson (poolquota m param isjson ioReinit) := by
  unfold poolquota
  split
  · exact settles_plain m sound msgNopool 0 none isjson rfl
  split
  · exact settles_plain m sound msgMispid 0 none isjson rfl
  · exact settles_plain m sound msgMispid 0 none isjson rfl
  · rename_i text _
    obtain ⟨unlisted, listed⟩ := spoken text rfl
    split
    · rename_i single
      exact settles_answer m sound msgConval 0 _ isjson (unlisted single)
    · rename_i several
      rw [Classical.not_not] at several
      dsimp only
      split
      · exact settles_plain m sound msgInvpid _ none isjson rfl
      · rename_i pool named
        split at named
        · exact nomatch named
        · rename_i positive
          have spoken := listed several (by omega) pool named
          split
          · rename_i negative
            rw [if_pos negative] at spoken
            exact settles_answer m sound msgInvneg _ _ isjson spoken
          · rename_i enough
            rw [if_neg enough] at spoken
            refine settles_answer _ ?_ msgSetquota _ _ isjson ?_
            · exact sound
            · exact speakable_desk (desk m) _ msgSetquota _ _ rfl spoken

omit [Floating R] in
/-- A parameter that names no ASC. -/
theorem namedAsc_plain (m : Miner R) (param : Option Bytes) (id : Nat) (paramid : Int)
    (failed : namedAsc m param = .error (id, paramid)) :
    (codes.find? fun code => code.code = id).all fun code => stringless code.params := by
  unfold namedAsc at failed
  split at failed
  · cases failed
    rfl
  split at failed
  · cases failed
    rfl
  · cases failed
    rfl
  · dsimp only at failed
    split at failed
    · cases failed
      rfl
    · cases failed

theorem settles_ascenable (m : Miner R) (sound : Sound m.pools) (param : Option Bytes)
    (isjson : Bool) :
    Settles isjson (ascenable m param isjson ioReinit) := by
  unfold ascenable
  split
  · rename_i id paramid failed
    exact settles_plain m sound id paramid none isjson (namedAsc_plain m param id paramid failed)
  · rename_i asc _
    split
    · exact settles_plain m sound msgAsclrena asc none isjson rfl
    · exact settles_plain (setDeven m asc .enabled) sound msgAscena asc none isjson rfl

theorem settles_ascdisable (m : Miner R) (sound : Sound m.pools) (param : Option Bytes)
    (isjson : Bool) :
    Settles isjson (ascdisable m param isjson ioReinit) := by
  unfold ascdisable
  split
  · rename_i id paramid failed
    exact settles_plain m sound id paramid none isjson (namedAsc_plain m param id paramid failed)
  · rename_i asc _
    split
    · exact settles_plain m sound msgAsclrdis asc none isjson rfl
    · exact settles_plain (setDeven m asc .disabled) sound msgAscdis asc none isjson rfl

theorem settles_ascidentify (m : Miner R) (sound : Sound m.pools) (param : Option Bytes)
    (isjson : Bool) :
    Settles isjson (ascidentify m param isjson ioReinit) := by
  unfold ascidentify
  split
  · rename_i id paramid failed
    exact settles_plain m sound id paramid none isjson (namedAsc_plain m param id paramid failed)
  · exact settles_plain m sound msgAscnoid _ none isjson rfl

theorem settles_ascset (m : Miner R) (sound : Sound m.pools) (param : Option Bytes)
    (isjson : Bool) :
    Settles isjson (ascset m param isjson ioReinit) := by
  unfold ascset
  split
  · exact settles_plain m sound msgAscnon 0 none isjson rfl
  split
  · exact settles_plain m sound msgMisid 0 none isjson rfl
  · exact settles_plain m sound msgMisid 0 none isjson rfl
  · split
    · exact settles_plain m sound msgMisascopt 0 none isjson rfl
    · dsimp only
      split
      · exact settles_plain m sound msgInvasc _ none isjson rfl
      · exact settles_plain m sound msgAscnoset _ none isjson rfl

theorem settles_dosave (m : Miner R) (sound : Sound m.pools) (param : Option Bytes) (isjson : Bool)
    (spoken : Speakable (desk m) (if opens (savefile defaultSaveFile param) then msgSaved else
      msgBadfn) 0
      (escapeString (savefile defaultSaveFile param) isjson)) :
    Settles isjson (dosave opens defaultSaveFile m param isjson ioReinit) := by
  unfold dosave
  split
  · exact settles_answer m sound _ 0 _ isjson spoken
  · exact settles_answer m sound _ 0 _ isjson spoken
  · rename_i file given
    have named : savefile defaultSaveFile (some file) = file := if_neg given
    rw [named] at spoken
    exact settles_answer m sound _ 0 _ isjson spoken

/-- What quit and restart leave in the buffer. -/
theorem jsonAction_opened (name : Bytes) (inside : chars name) :
    Opened [] (ioPut (jsonAction name)) := by
  refine ⟨[(ascii "STATUS", JsonText.quote :: (name ++ [JsonText.quote]))],
    List.cons_ne_nil _ _, ?_, ?_⟩
  · intro member single
    rw [List.mem_singleton] at single
    rw [single]
    exact ⟨status_chars, .string name inside⟩
  · rw [List.map_cons, List.map_nil, listed_single]
    unfold ioPut ioReinit ioAdd jsonAction memberText
    simp

theorem debugRecord_printable (R : Type) [Floating R] (o : Options) :
    (debugRecord R o).all printable := by
  have bool : ∀ (name : String) (data : Bool), name.toList.all plainChar →
      printable (R := R) (apiAddBool name data) := by
    intro name data plain
    unfold printable printableData apiAddBool
    rw [chars_ascii name plain]
    rfl
  refine List.all_eq_true.mpr fun field inside => ?_
  simp only [debugRecord, List.mem_cons, List.not_mem_nil, or_false] at inside
  rcases inside with rfl | rfl | rfl | rfl | rfl | rfl | rfl <;> exact bool _ _ (by decide)

theorem settles_debugstate (m : Miner R) (sound : Sound m.pools) (param : Option Bytes)
    (isjson : Bool) :
    Settles isjson (debugstate m param isjson ioReinit) := by
  have named : chars (ascii "DEBUG") := chars_ascii _ (by decide)
  exact settles_report
    { m with options := debugOptions m.options (lower ((param.getD []).headD 0)) } sound msgDebugset
    (ascii "DEBUG") _ isjson rfl named (debugRecord_printable R _)

theorem settles_setconfig (m : Miner R) (sound : Sound m.pools) (param : Option Bytes)
    (isjson : Bool) (spoken : ∃ text, param = some text ∧ SetconfigSpoken m text isjson) :
    Settles isjson (setconfig m param isjson ioReinit) := by
  obtain ⟨text, rfl, unknown, old⟩ := spoken
  unfold setconfig
  rw [Option.bind_some]
  by_cases gone : deprecated text = true
  · obtain ⟨plain, spoken⟩ := old gone
    obtain ⟨out, sent⟩ := message_spoken R (desk m) ioReinit msgDeprecated 0 text isjson spoken
    obtain ⟨last, second⟩ := message_spoken R (desk m) out msgUnkcon 0 text isjson unknown
    rw [if_pos gone, sent, Option.bind_some]
    unfold answer
    rw [second]
    refine ⟨m, last, rfl, sound, fun json => ?_⟩
    rw [plain] at json
    cases json
  · rw [if_neg gone, Option.bind_some]
    exact settles_answer m sound msgUnkcon 0 text isjson unknown

theorem zeroed_speakable (desk : Desk) (summary all : Bool) :
    Speakable desk (if summary then msgZersum else msgZernosum) 0 (if all then ascii "All" else
      ascii "BestShare") := by
  have fits : ∀ summary all : Bool,
    Speakable ⟨0, 0, 0, fun _ => none, none⟩ (if summary then msgZersum else msgZernosum) 0
      (if all then ascii "All" else ascii "BestShare") := by
    unfold Speakable
    decide +kernel
  refine speakable_desk ⟨0, 0, 0, fun _ => none, none⟩ desk _ 0 _ ?_ (fits summary all)
  cases summary <;> rfl

theorem settles_dozero (m : Miner R) (sound : Sound m.pools) (param : Option Bytes) (isjson : Bool)
    (spoken : ∀ text, param = some text → (text.dropWhile (· ≠ JsonText.comma)).drop 1 ≠ [] →
      Speakable (desk m) msgZerinv 0 (text.takeWhile (· ≠ JsonText.comma))) :
    Settles isjson (dozero m param isjson ioReinit) := by
  unfold dozero
  split
  · exact settles_plain m sound msgZermis 0 none isjson rfl
  · exact settles_plain m sound msgZermis 0 none isjson rfl
  · rename_i text _
    dsimp only
    split
    · exact settles_plain m sound msgMisbool 0 none isjson rfl
    · rename_i c rest found
      split
      · exact settles_answer m sound msgZerinv 0 _ isjson
          (spoken text rfl (by rw [found]; exact List.cons_ne_nil c rest))
      split
      · exact settles_plain m sound msgInvbool 0 none isjson rfl
      · have spoken := fun desk => zeroed_speakable desk (lower c = 0x74)
          (sameIgnoringCase (text.takeWhile (· ≠ JsonText.comma)) (ascii "all"))
        simp only [decide_eq_true_iff] at spoken
        refine settles_answer _ ?_ _ 0 _ isjson (spoken _)
        split <;> exact sound

/-! ## All of them -/

/-- The handlers in write mode. -/
def writers : List Func :=
  [.switchpool, .addpool, .poolpriority, .poolquota, .enablepool, .disablepool, .removepool,
    .dosave, .doquit, .privileged, .dorestart, .failoveronly, .debugstate, .setconfig, .dozero,
    .dohotplug, .ascenable, .ascdisable, .ascidentify, .ascset, .lockstats]

theorem settles_write (func : Func) (writer : func ∈ writers) (m : Miner R) (sound : Sound m.pools)
    (param : Option Bytes) (isjson : Bool)
    (spoken : Spoken behind opens defaultSaveFile m param isjson func) :
    Settles isjson (writeHandler behind opens defaultSaveFile func m param isjson ioReinit) := by
  simp only [writers, List.mem_cons, List.not_mem_nil, or_false] at writer
  rcases writer with rfl | rfl | rfl | rfl | rfl | rfl | rfl | rfl | rfl | rfl | rfl | rfl | rfl | rfl | rfl | rfl | rfl |
    rfl | rfl | rfl | rfl
  · exact settles_pool m param none isjson _ (switchpool_sound _ behind m.pools sound param) spoken
  · exact settles_addpool m sound param isjson spoken
  · exact settles_pool m param none isjson _
      (poolpriority_sound _ behind m.pools sound param) spoken
  · exact settles_poolquota m sound param isjson spoken
  · exact settles_pool m param none isjson _ (enablepool_sound _ behind m.pools sound param) spoken
  · exact settles_pool m param none isjson _ (disablepool_sound _ behind m.pools sound param) spoken
  · exact settles_pool m param _ isjson _ (removepool_sound _ behind m.pools sound param) spoken
  · exact settles_dosave opens defaultSaveFile m sound param isjson spoken
  · refine ⟨_, _, rfl, sound, fun json => ?_⟩
    rw [json, if_pos rfl]
    exact jsonAction_opened (ascii "BYE") (chars_ascii _ (by decide))
  · exact settles_plain m sound msgAccok 0 none isjson rfl
  · refine ⟨_, _, rfl, sound, fun json => ?_⟩
    rw [json, if_pos rfl]
    exact jsonAction_opened (ascii "RESTART") (chars_ascii _ (by decide))
  · exact settles_answer m sound msgDeprecated 0 param isjson spoken
  · exact settles_debugstate m sound param isjson
  · exact settles_setconfig m sound param isjson spoken
  · exact settles_dozero m sound param isjson spoken
  · exact settles_plain m sound msgNohplg 0 none isjson rfl
  · exact settles_ascenable m sound param isjson
  · exact settles_ascdisable m sound param isjson
  · exact settles_ascidentify m sound param isjson
  · exact settles_ascset m sound param isjson
  · exact settles_plain m sound msgLockdis 0 none isjson rfl

end CgminerT4.Guarantees.ControlReplies
