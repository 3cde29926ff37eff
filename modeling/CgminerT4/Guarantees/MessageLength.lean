import CgminerT4.Guarantees.ControlReplies

/-!
# The room for a message

message() copies a description, its numbers and a string from the request or the pool
table into a buffer of fixed size, and escape_string may have made the string longer.
A handler goes on exactly when its text leaves room for a terminator. Reports, denials
and joined commands always have that room.
-/
namespace CgminerT4.Guarantees.MessageLength
open Library Library.ByteString Source Source.ApiReply Source.ApiReports Source.ApiServer
  Source.ApiControl
open Source.PoolControl (Pools Reply atoi)
open Source.PoolConfig (detectStratum lower)
open Source.SessionTable (PoolId)
open ReadOnlyAccess (Speakable message_spoken speakable_stringless stringless)

/-! ## Texts and their lengths -/

/-- What sprintf copies of a format. -/
def bare : Bytes → Nat
  | [] => 0
  | [_] => 1
  | c :: d :: format => if c = 0x25 then bare format else bare (d :: format) + 1

/-- How many arguments it takes. -/
def slots : Bytes → Nat
  | [] => 0
  | [_] => 0
  | c :: d :: format => if c = 0x25 then slots format + 1 else slots (d :: format)

theorem sprintf_length (format : Bytes) (args : List Bytes) :
    (sprintf format args).length =
      bare format + ((args.take (slots format)).map List.length).sum := by
  fun_induction sprintf format args with
  | case1 => simp [bare, slots]
  | case2 => simp [bare, slots]
  | case3 d format args ih =>
    rw [List.length_append, ih, bare, slots, if_pos rfl, if_pos rfl]
    cases args with
    | nil => simp
    | cons arg args =>
      simp only [List.headD_cons, List.tail_cons, List.take_succ_cons, List.map_cons, List.sum_cons]
      omega
  | case4 c d format args plain ih =>
    rw [List.length_cons, ih, bare, slots, if_neg plain, if_neg plain]
    omega

/-- The characters that escape_string puts a backslash before. -/
def special (isjson : Bool) (c : UInt8) : Bool :=
  c = JsonText.backslash || if isjson then c = JsonText.quote else c = JsonText.comma ||
    c = separator || c = equals

def escapes (isjson : Bool) (str : Bytes) : Nat := (str.filter (special isjson)).length

theorem escapeString_cons (c : UInt8) (str : Bytes) (isjson : Bool) :
    escapeString (c :: str) isjson =
      (if special isjson c then [JsonText.backslash, c] else [c]) ++ escapeString str isjson := by
  rw [escapeString]
  refine congrArg (· ++ escapeString str isjson) ?_
  have apart : JsonText.comma ≠ JsonText.backslash ∧ separator ≠ JsonText.backslash ∧
      equals ≠ JsonText.backslash ∧
      JsonText.quote ≠ JsonText.backslash ∧ JsonText.comma ≠ JsonText.quote ∧
        separator ≠ JsonText.quote ∧
      equals ≠ JsonText.quote := by decide
  unfold special
  cases isjson <;> grind

theorem escapeString_length (str : Bytes) (isjson : Bool) :
    (escapeString str isjson).length = str.length + escapes isjson str := by
  induction str with
  | nil => rfl
  | cons c str ih =>
    unfold escapes at ih ⊢
    rw [escapeString_cons, List.length_append, ih, List.filter_cons]
    split
    · simp only [List.length_cons, List.length_nil]
      omega
    · simp only [List.length_cons, List.length_nil]
      omega

/-- What a text of this description takes, with so many characters for its conversions, is
smaller than the buffer of message(). -/
def Holds (description : String) (filled : Nat) : Prop :=
  bare (ascii description) + filled < tmpbufsiz

instance (description : String) (filled : Nat) : Decidable (Holds description filled) :=
  inferInstanceAs (Decidable (_ < _))

/-- The characters of %d. -/
def width (n : Int) : Nat := (decimal n).length

/-! ## Messages -/

/-- The arguments that message() passes with a string of this kind. -/
def stringSlots : Params → Nat
  | .str => 1
  | _ => 2

/-- A description without a string: its kind has none, or it is that of ascset, which drops it. -/
def leavesOut (code : CODE) : Bool :=
  match code.params with
  | .both => code.code == msgAscsetok
  | params => stringless params

/-- Every other description takes what message() passes. -/
theorem codes_slots {code : CODE} (listed : code ∈ codes) (shows : leavesOut code = false) :
    slots code.description = stringSlots code.params := by
  have all : codes.all fun code => leavesOut code ||
      slots code.description == stringSlots code.params := by decide +kernel
  have one := List.all_eq_true.mp all code listed
  rw [shows] at one
  exact beq_iff_eq.mp one

/-- A message with a string is there when the text fits. -/
theorem speakable_text {desk : Desk} {id : Nat} {paramid : Int} {param2 : Option Bytes}
    {code : CODE} (args : Bytes → List Bytes) {str : Bytes}
    (found : codes.find? (fun code => code.code = id) = some code)
    (text : messageText desk code paramid param2 = stringText code.description args (some str)) :
    Speakable desk id paramid param2 ↔
      (sprintf code.description (args str)).length < tmpbufsiz := by
  unfold Speakable
  rw [found, Option.all_some, text, stringText, Option.map_some, Option.filter_some]
  by_cases fits : (sprintf code.description (args str)).length < tmpbufsiz
  · rw [if_pos (decide_eq_true fits)]
    exact iff_of_true rfl fits
  · rw [if_neg (by rw [decide_eq_false fits]; decide)]
    exact iff_of_false Bool.false_ne_true fits

section
variable (desk : Desk) {id : Nat} (paramid : Int) (param2 : Option Bytes) {severity : Severity}
  {description : String} (str : Bytes)

theorem speakable_str (found : codes.find? (fun code => code.code = id) =
      some ⟨severity, id, .str, ascii description⟩) :
    Speakable desk id paramid (some str) ↔ Holds description str.length := by
  have single : slots (ascii description) = 1 :=
    codes_slots (List.mem_of_find?_eq_some found) rfl
  rw [speakable_text (fun str => [str]) found rfl, sprintf_length, single]
  rfl

theorem speakable_pool (found : codes.find? (fun code => code.code = id) =
      some ⟨severity, id, .pool, ascii description⟩)
    (url : desk.poolUrl paramid = some str) :
    Speakable desk id paramid param2 ↔ Holds description (width paramid + str.length) := by
  have double : slots (ascii description) = 2 :=
    codes_slots (List.mem_of_find?_eq_some found) rfl
  have text : messageText desk ⟨severity, id, .pool, ascii description⟩ paramid param2 =
      stringText (ascii description) (fun url => [decimal paramid, url]) (some str) := by
    rw [← url]
    rfl
  rw [speakable_text _ found text, sprintf_length, double]
  rfl

theorem speakable_both (found : codes.find? (fun code => code.code = id) =
      some ⟨severity, id, .both, ascii description⟩)
    (other : id ≠ msgAscsetok) :
    Speakable desk id paramid (some str) ↔ Holds description (width paramid + str.length) := by
  have double : slots (ascii description) = 2 :=
    codes_slots (List.mem_of_find?_eq_some found) (beq_eq_false_iff_ne.mpr other)
  rw [speakable_text (fun str => [decimal paramid, str]) found rfl, sprintf_length, double]
  rfl

theorem speakable_set (found : codes.find? (fun code => code.code = id) =
      some ⟨severity, id, .set, ascii description⟩) :
    Speakable desk id paramid (some str) ↔ Holds description (width paramid + str.length) := by
  have double : slots (ascii description) = 2 :=
    codes_slots (List.mem_of_find?_eq_some found) rfl
  rw [speakable_text (fun str => [str, decimal paramid]) found rfl, sprintf_length, double]
  show _ + (str.length + (width paramid + 0)) < _ ↔ _
  rw [Nat.add_zero, Nat.add_comm str.length]
  rfl

end

variable {R : Type} [Floating R]

theorem answer_isSome (m : Miner R) (io : Io) (id : Nat) (paramid : Int) (param2 : Option Bytes)
    (isjson : Bool) :
    (answer m io id paramid param2 isjson).isSome = true ↔
      Speakable (desk m) id paramid param2 := by
  unfold answer
  constructor
  · intro answered
    rw [Option.isSome_map] at answered
    unfold Speakable
    unfold message at answered
    cases found : codes.find? fun code => code.code = id with
    | none => rfl
    | some code =>
      rw [found, Option.isSome_map] at answered
      rw [Option.all_some, ← Option.isSome_map]
      exact answered
  · intro spoken
    obtain ⟨out, sent⟩ := message_spoken R (desk m) io id paramid param2 isjson spoken
    rw [sent]
    rfl

/-- A message without a string is always there. -/
theorem answer_plain (m : Miner R) (io : Io) (id : Nat) (paramid : Int) (param2 : Option Bytes)
    (isjson : Bool)
    (plain : (codes.find? fun code => code.code = id).all fun code => stringless code.params) :
    (answer m io id paramid param2 isjson).isSome = true :=
  (answer_isSome m io id paramid param2 isjson).mpr
    (speakable_stringless (desk m) id paramid param2 plain)

/-! ## What the commands need -/

omit [Floating R] in
/-- The pool in front of the comma of poolquota. -/
def quotaPool (m : Miner R) (text : Bytes) : Option PoolId :=
  let id := atoi (text.takeWhile (· ≠ JsonText.comma))
  if id < 0 then none else m.pools.table.pools[id.toNat]?

/-- The number behind the comma. -/
def quotaOf (text : Bytes) : Int := atoi ((text.dropWhile (· ≠ JsonText.comma)).drop 1)

variable (behind : Nat → Option PoolId) (opens : Bytes → Bool) (defaultSaveFile : Bytes)

/-- The pool is still the current one after removepool has tried to leave it. -/
def stays (m : Miner R) (pool : PoolId) : Bool :=
  (if m.pools.currentpool = some pool then
      PoolControl.switchPools m.options.poolStrategy behind m.pools none
    else some m.pools).any fun pools => pools.currentpool = some pool

/-- What the size of the buffer has no part in: a pool command finds a pool to switch to, the
pool it names has a url, addpool can take its url apart, and a parameter that is echoed or
compared without a check is there. -/
def Defined (m : Miner R) (param : Option Bytes) : Func → Prop
  | .switchpool =>
    (PoolControl.switchpool m.options.poolStrategy behind m.pools param).isSome ∧ HasUrl
  | .enablepool =>
    (PoolControl.enablepool m.options.poolStrategy behind m.pools param).isSome ∧ HasUrl
  | .disablepool =>
    (PoolControl.disablepool m.options.poolStrategy behind m.pools param).isSome ∧ HasUrl
  | .removepool =>
    (PoolControl.removepool m.options.poolStrategy behind m.pools param).isSome ∧ HasUrl
  | .poolpriority => (PoolControl.poolpriority m.options.poolStrategy behind m.pools param).isSome
  | .addpool =>
    ∀ text url user pass, param = some text → pooldetails text = some (url, user, pass) →
      (detectStratum url).isSome
  | .poolquota =>
    ∀ text pool, param = some text → quotaPool m text = some pool → (m.pool pool).rpcUrl ≠ none
  | .failoveronly | .setconfig => param ≠ none
  | _ => True
where
  HasUrl : Prop := ∀ pool, PoolControl.namedPool m.pools param = .ok pool →
    (m.pool pool).rpcUrl ≠ none

/-- What the string of a named pool needs. -/
def Named (m : Miner R) (param : Option Bytes) (room : PoolId → Bytes → Prop) : Prop :=
  ∀ pool url, PoolControl.namedPool m.pools param = .ok pool → (m.pool pool).rpcUrl = some url →
    room pool url

/-- The room that the message of a command needs, by the lengths of the parameter and of the
pool url and the characters to escape in them. -/
def Room (m : Miner R) (param : Option Bytes) (isjson : Bool) : Func → Prop
  | .switchpool =>
    Named m param fun _ url => Holds "Switching to pool %d:'%s'" (width (named param) + url.length)
  | .enablepool => Named m param fun pool url =>
      Holds (if (m.pools.status pool).enabled = .enabled then "Pool %d:'%s' already enabled"
        else "Enabling pool %d:'%s'") (width (named param) + url.length)
  | .disablepool => Named m param fun pool url =>
      Holds (if (m.pools.status pool).enabled = .disabled then "Pool %d:'%s' already disabled"
        else if m.pools.enabledPools ≤ 1 then "Cannot disable last active pool %d:'%s'"
        else "Disabling pool %d:'%s'") (width (named param) + url.length)
  | .removepool => Named m param fun pool url =>
      if PoolControl.totalPools m.pools ≤ 1 then
        Holds "Cannot remove last pool %d:'%s'" (width (named param) + url.length)
      else if stays behind m pool then
        Holds "Cannot remove active pool %d:'%s'" (width (named param) + url.length)
      else Holds "Removed pool %d:'%s'" (width (named param) + (url.length + escapes isjson url))
  | .addpool => ∀ text, param = some text →
      match pooldetails text with
      | none => Holds "Invalid addpool details '%s'" (text.length + escapes isjson text)
      | some (url, _, _) =>
        Holds "Added pool %d: '%s'" (width (PoolControl.totalPools m.pools) + url.length)
  | .poolquota => ∀ text, param = some text → 0 < PoolControl.totalPools m.pools →
      (JsonText.comma ∉ text → Holds "Missing config value N for '%s,N'" text.length) ∧
      ∀ pool url, JsonText.comma ∈ text → quotaPool m text = some pool →
        (m.pool pool).rpcUrl = some url →
        Holds (if quotaOf text < 0 then "Invalid negative number (%d) for '%s'" else
          "Set pool '%s' to quota %d'")
          (width (quotaOf text) + url.length)
  | .dosave =>
    let file := ControlReplies.savefile defaultSaveFile param
    Holds (if opens file then "Configuration saved to file '%s'" else
      "Can't open or create save file '%s'")
      (file.length + escapes isjson file)
  | .failoveronly => ∀ text, param = some text → Holds "Deprecated config option '%s'" text.length
  | .setconfig => ∀ text, param = some text → Holds "Unknown config '%s'" text.length
  | .dozero => ∀ text, param = some text → (text.dropWhile (· ≠ JsonText.comma)).drop 1 ≠ [] →
      Holds "Invalid zero parameter '%s'" (text.takeWhile (· ≠ JsonText.comma)).length
  | _ => True

/-! ## Commands on pools -/

omit [Floating R] in
/-- Whether the message of a reply has no string. -/
def bareReply : Reply → Bool
  | .noPool | .missingId | .invalidId _ | .duplicateId _ | .priorities => true
  | _ => false

theorem bareReply_plain (id : Int) (reply : Reply) (plain : bareReply reply = true) :
    (codes.find? fun code => code.code = (replyMessage id reply).1).all fun code =>
      stringless code.params := by
  cases reply <;> first | rfl | cases plain

theorem namedPool_error {s : Pools} {param : Option Bytes} {reply : Reply}
    (failed : PoolControl.namedPool s param = .error reply) : bareReply reply = true := by
  unfold PoolControl.namedPool PoolControl.checkParam at failed
  split at failed
  · cases failed
    rfl
  split at failed
  · cases failed
    rfl
  · cases failed
    rfl
  · dsimp only [Except.bind] at failed
    split at failed
    · cases failed
      rfl
    split at failed
    · cases failed
    · cases failed
      rfl

/-- The pool that is named stands at its number in the table. -/
theorem namedPool_place {s : Pools} {param : Option Bytes} {pool : PoolId}
    (found : PoolControl.namedPool s param = .ok pool) :
    s.table.pools[(named param).toNat]? = some pool := by
  unfold PoolControl.namedPool PoolControl.checkParam at found
  split at found
  · cases found
  split at found
  · cases found
  · cases found
  · dsimp only [Except.bind] at found
    split at found
    · cases found
    split at found
    · next place =>
      cases found
      exact place
    · cases found

theorem switchPools_pools {strategy : PoolSwitch.PoolStrategy} {s next : Pools}
    {selected : Option PoolId}
    (switched : PoolControl.switchPools strategy behind s selected = some next) :
    next.table.pools = s.table.pools := by
  unfold PoolControl.switchPools at switched
  obtain ⟨current, _, switched⟩ := Option.bind_eq_some_iff.mp switched
  obtain ⟨pool, _, rfl⟩ := Option.map_eq_some_iff.mp switched
  cases selected with
  | none => rfl
  | some selected =>
    show (PoolControl.promote s.table selected).pools = _
    unfold PoolControl.promote
    split <;> rfl

theorem poolAnswer_isSome (m : Miner R) (param : Option Bytes) (isjson : Bool) (io : Io)
    (param2 : Option Bytes) {reply : Reply} {next : Pools} :
    (poolAnswer m param isjson io param2 (some (reply, next))).isSome = true ↔
      Speakable (desk { m with pools := next }) (replyMessage (named param) reply).1
        (replyMessage (named param) reply).2
        param2 := answer_isSome ..

/-- A pool command that names no pool says so. -/
theorem unnamed_fits {m : Miner R} {param : Option Bytes} {reply : Reply}
    (failed : PoolControl.namedPool m.pools param = .error reply) (isjson : Bool) (io : Io)
    (param2 : Option Bytes) (room : PoolId → Bytes → Prop) :
    (poolAnswer m param isjson io param2 (some (reply, m.pools))).isSome = true ↔
      Named m param room := by
  refine iff_of_true ?_ fun pool url named => ?_
  · exact (poolAnswer_isSome ..).mpr
      (speakable_stringless _ _ _ _ (bareReply_plain _ reply (namedPool_error failed)))
  · rw [failed] at named
    cases named

omit [Floating R] in
/-- The only pool and the only url in question. -/
theorem named_iff {m : Miner R} {param : Option Bytes} {pool : PoolId} {url : Bytes}
    (found : PoolControl.namedPool m.pools param = .ok pool)
    (address : (m.pool pool).rpcUrl = some url) (room : PoolId → Bytes → Prop) :
    Named m param room ↔ room pool url := by
  constructor
  · exact fun all => all pool url found address
  · intro fits other address' found' same
    rw [found] at found'
    cases found'
    rw [address] at same
    cases same
    exact fits

/-- A reply that shows the number and the url of the pool. -/
theorem pool_fits {m : Miner R} {param : Option Bytes} {pool : PoolId} {url : Bytes}
    (found : PoolControl.namedPool m.pools param = .ok pool)
    (address : (m.pool pool).rpcUrl = some url) (isjson : Bool)
    (io : Io) (param2 : Option Bytes) {reply : Reply} {next : Pools}
    (kept : next.table.pools = m.pools.table.pools) {severity : Severity} {description : String}
    (listed : codes.find? (fun code => code.code = (replyMessage (named param) reply).1) =
      some ⟨severity, (replyMessage (named param) reply).1, .pool, ascii description⟩)
    (numbered : (replyMessage (named param) reply).2 = named param) :
    (poolAnswer m param isjson io param2 (some (reply, next))).isSome = true ↔
      Holds description (width (named param) + url.length) := by
  have shown : (desk { m with pools := next }).poolUrl (named param) = some url := by
    show (next.table.pools[(named param).toNat]?).bind (fun pool => (m.pool pool).rpcUrl) = some url
    rw [kept, namedPool_place found, Option.bind_some, address]
  rw [poolAnswer_isSome, numbered]
  exact speakable_pool _ _ param2 url listed shown

omit [Floating R] in
theorem has_url {m : Miner R} {param : Option Bytes} (urls : Defined.HasUrl m param) {pool : PoolId}
    (found : PoolControl.namedPool m.pools param = .ok pool) :
    ∃ url, (m.pool pool).rpcUrl = some url :=
  Option.ne_none_iff_exists'.mp (urls pool found)

theorem switchpool_fits (m : Miner R) (param : Option Bytes) (isjson : Bool) (io : Io)
    (defined : Defined behind m param .switchpool) :
    (switchpool behind m param isjson io).isSome = true ↔
      Room behind opens defaultSaveFile m param isjson .switchpool := by
  obtain ⟨answered, urls⟩ := defined
  unfold switchpool
  unfold PoolControl.switchpool at answered ⊢
  cases found : PoolControl.namedPool m.pools param with
  | error reply => exact unnamed_fits found isjson io none _
  | ok pool =>
    obtain ⟨url, address⟩ := has_url urls found
    rw [found] at answered
    refine Iff.trans ?_ (named_iff found address _).symm
    dsimp only at answered ⊢
    rw [Option.isSome_map] at answered
    obtain ⟨next, switched⟩ := Option.isSome_iff_exists.mp answered
    have kept := switchPools_pools behind switched
    rw [switched, Option.map_some]
    exact pool_fits found address isjson io none kept (by rfl) rfl

theorem enablepool_fits (m : Miner R) (param : Option Bytes) (isjson : Bool) (io : Io)
    (defined : Defined behind m param .enablepool) :
    (enablepool behind m param isjson io).isSome = true ↔
      Room behind opens defaultSaveFile m param isjson .enablepool := by
  obtain ⟨answered, urls⟩ := defined
  unfold enablepool
  unfold PoolControl.enablepool at answered ⊢
  cases found : PoolControl.namedPool m.pools param with
  | error reply => exact unnamed_fits found isjson io none _
  | ok pool =>
    obtain ⟨url, address⟩ := has_url urls found
    rw [found] at answered
    refine Iff.trans ?_ (named_iff found address _).symm
    dsimp only at answered ⊢
    by_cases already : (m.pools.status pool).enabled = .enabled
    · rw [if_pos already, if_pos already]
      exact pool_fits found address isjson io none rfl (by rfl) rfl
    · rw [if_neg already] at answered
      rw [if_neg already, if_neg already]
      obtain ⟨⟨reply, next⟩, done⟩ := Option.isSome_iff_exists.mp answered
      rw [done]
      obtain ⟨current, _, done⟩ := Option.bind_eq_some_iff.mp done
      split at done
      · obtain ⟨after, switched, same⟩ := Option.map_eq_some_iff.mp done
        have kept := switchPools_pools behind switched
        cases same
        exact pool_fits found address isjson io none kept (by rfl) rfl
      · have kept : (PoolControl.setEnabled m.pools pool .enabled).table.pools =
          m.pools.table.pools := rfl
        cases done
        exact pool_fits found address isjson io none kept (by rfl) rfl

theorem disablepool_fits (m : Miner R) (param : Option Bytes) (isjson : Bool) (io : Io)
    (defined : Defined behind m param .disablepool) :
    (disablepool behind m param isjson io).isSome = true ↔
      Room behind opens defaultSaveFile m param isjson .disablepool := by
  obtain ⟨answered, urls⟩ := defined
  unfold disablepool
  unfold PoolControl.disablepool at answered ⊢
  cases found : PoolControl.namedPool m.pools param with
  | error reply => exact unnamed_fits found isjson io none _
  | ok pool =>
    obtain ⟨url, address⟩ := has_url urls found
    rw [found] at answered
    refine Iff.trans ?_ (named_iff found address _).symm
    dsimp only at answered ⊢
    by_cases already : (m.pools.status pool).enabled = .disabled
    · rw [if_pos already, if_pos already]
      exact pool_fits found address isjson io none rfl (by rfl) rfl
    by_cases last : m.pools.enabledPools ≤ 1
    · rw [if_neg already, if_pos last, if_neg already, if_pos last]
      exact pool_fits found address isjson io none rfl (by rfl) rfl
    · rw [if_neg already, if_neg last] at answered
      rw [if_neg already, if_neg last, if_neg already, if_neg last]
      split at answered
      · next current =>
        rw [Option.isSome_map] at answered
        obtain ⟨next, switched⟩ := Option.isSome_iff_exists.mp answered
        have kept := switchPools_pools behind switched
        rw [if_pos current, switched, Option.map_some]
        exact pool_fits found address isjson io none kept (by rfl) rfl
      · next other =>
        have kept : (PoolControl.setEnabled m.pools pool .disabled).table.pools =
          m.pools.table.pools := rfl
        rw [if_neg other]
        exact pool_fits found address isjson io none kept (by rfl) rfl

theorem removepool_fits (m : Miner R) (param : Option Bytes) (isjson : Bool) (io : Io)
    (defined : Defined behind m param .removepool) :
    (removepool behind m param isjson io).isSome = true ↔
      Room behind opens defaultSaveFile m param isjson .removepool := by
  obtain ⟨answered, urls⟩ := defined
  unfold removepool
  unfold PoolControl.removepool at answered ⊢
  cases found : PoolControl.namedPool m.pools param with
  | error reply => exact unnamed_fits found isjson io _ _
  | ok pool =>
    obtain ⟨url, address⟩ := has_url urls found
    have shown : (desk m).poolUrl (named param) = some url := by
      show (m.pools.table.pools[(named param).toNat]?).bind (fun pool => (m.pool pool).rpcUrl) =
        some url
      rw [namedPool_place found, Option.bind_some, address]
    rw [found] at answered
    refine Iff.trans ?_ (named_iff found address _).symm
    dsimp only at answered ⊢
    by_cases last : PoolControl.totalPools m.pools ≤ 1
    · rw [if_pos last, if_pos last]
      exact pool_fits found address isjson io _ rfl (by rfl) rfl
    · rw [if_neg last] at answered
      rw [if_neg last, if_neg last]
      rw [Option.isSome_map] at answered
      obtain ⟨left, tried⟩ := Option.isSome_iff_exists.mp answered
      have kept : left.table.pools = m.pools.table.pools := by
        split at tried
        · exact switchPools_pools behind tried
        · cases tried
          rfl
      unfold stays
      rw [tried, Option.map_some, Option.any_some]
      by_cases active : left.currentpool = some pool
      · rw [if_pos active, if_pos (decide_eq_true active)]
        exact pool_fits found address isjson io _ kept (by rfl) rfl
      · rw [if_neg active, if_neg (by rw [decide_eq_false active]; decide), shown, Option.map_some,
          poolAnswer_isSome, ← escapeString_length]
        exact speakable_both _ _ _ (by rfl) (show msgRempool ≠ msgAscsetok by decide)

theorem mention_plain (total : Nat) (m : PoolControl.Mentions) (ids : List Int) (reply : Reply)
    (failed : PoolControl.mention total m ids = .error reply) : bareReply reply = true := by
  induction ids generalizing m with
  | nil => cases failed
  | cons i rest ih =>
    unfold PoolControl.mention at failed
    split at failed
    · cases failed
      rfl
    split at failed
    · cases failed
      rfl
    · exact ih _ failed

theorem poolpriority_reply (strategy : PoolSwitch.PoolStrategy) (s : Pools) (param : Option Bytes)
    (reply : Reply) (next : Pools)
    (answered : PoolControl.poolpriority strategy behind s param = some (reply, next)) :
    bareReply reply = true := by
  unfold PoolControl.poolpriority at answered
  dsimp only at answered
  split at answered
  · next failed =>
    cases answered
    unfold PoolControl.checkParam at failed
    split at failed
    · cases failed
      rfl
    split at failed
    · cases failed
      rfl
    · cases failed
      rfl
    · exact mention_plain _ _ _ _ failed
  · obtain ⟨current, _, answered⟩ := Option.bind_eq_some_iff.mp answered
    split at answered
    · obtain ⟨_, _, same⟩ := Option.map_eq_some_iff.mp answered
      cases same
      rfl
    · cases answered
      rfl

theorem poolpriority_total (m : Miner R) (param : Option Bytes) (isjson : Bool) (io : Io)
    (defined : Defined behind m param .poolpriority) :
    (poolpriority behind m param isjson io).isSome = true := by
  obtain ⟨⟨reply, next⟩, answered⟩ := Option.isSome_iff_exists.mp defined
  unfold poolpriority
  rw [answered, poolAnswer_isSome]
  exact speakable_stringless _ _ _ _
    (bareReply_plain _ reply (poolpriority_reply behind _ _ _ _ _ answered))

theorem details_size : bare (ascii "Invalid addpool details '%s'") = 26 ∧
    slots (ascii "Invalid addpool details '%s'") = 1 := by
  rw [ascii_eq]
  decide

theorem holds_details (filled : Nat) :
    Holds "Invalid addpool details '%s'" filled ↔ filled ≤ 8165 := by
  unfold Holds tmpbufsiz
  rw [details_size.1]
  omega

theorem addpool_fits (m : Miner R) (param : Option Bytes) (isjson : Bool) (io : Io)
    (defined : Defined behind m param .addpool) :
    (addpool m param isjson io).isSome = true ↔
      Room behind opens defaultSaveFile m param isjson .addpool := by
  match param with
  | none =>
    exact iff_of_true (answer_plain m io msgMispdp 0 none isjson rfl) fun text nothing =>
      nomatch nothing
  | some [] =>
    refine iff_of_true (answer_plain m io msgMispdp 0 none isjson rfl) fun text same => ?_
    cases same
    exact (holds_details 0).mpr (by decide)
  | some (c :: text) =>
    unfold addpool
    dsimp only
    cases details : pooldetails (c :: text) with
    | none =>
      have needs : Room behind opens defaultSaveFile m (some (c :: text)) isjson .addpool ↔
          Holds "Invalid addpool details '%s'"
            ((c :: text).length + escapes isjson (c :: text)) := by
        constructor
        · intro room
          have fits := room (c :: text) rfl
          rw [details] at fits
          exact fits
        · intro fits other same
          cases same
          rw [details]
          exact fits
      rw [needs, answer_isSome, ← escapeString_length]
      exact speakable_str _ 0 _ (by rfl)
    | some details' =>
      obtain ⟨url, user, pass⟩ := details'
      have needs : Room behind opens defaultSaveFile m (some (c :: text)) isjson .addpool ↔
          Holds "Added pool %d: '%s'" (width (PoolControl.totalPools m.pools) + url.length) := by
        constructor
        · intro room
          have fits := room (c :: text) rfl
          rw [details] at fits
          exact fits
        · intro fits other same
          cases same
          rw [details]
          exact fits
      obtain ⟨stratumUrl, reached⟩ :=
        Option.isSome_iff_exists.mp (defined _ url user pass rfl details)
      obtain ⟨table, _⟩ := PoolCommands.addpool_table m.pools stratumUrl.isSome
      have number :
          ((PoolControl.addpool m.pools stratumUrl.isSome).table.pool
          m.pools.table.allocated).poolNo =
          PoolControl.totalPools m.pools := by
        rw [table]
        exact congrArg _ (Function.update_self _ _ _)
      have place :
          (PoolControl.addpool m.pools stratumUrl.isSome).table.pools[PoolControl.totalPools
          m.pools]? =
          some m.pools.table.allocated := by
        rw [table]
        exact List.getElem?_concat_length
      rw [needs]
      dsimp only
      rw [reached, Option.bind_some, answer_isSome, number]
      refine speakable_pool _ _ _ url (by rfl) ?_
      unfold desk
      dsimp only
      rw [Int.toNat_natCast, place, Option.bind_some, Function.update_self]

theorem poolquota_fits (m : Miner R) (param : Option Bytes) (isjson : Bool) (io : Io)
    (defined : Defined behind m param .poolquota) :
    (poolquota m param isjson io).isSome = true ↔
      Room behind opens defaultSaveFile m param isjson .poolquota := by
  unfold poolquota
  by_cases empty : PoolControl.totalPools m.pools = 0
  · rw [if_pos empty]
    exact iff_of_true (answer_plain m io msgNopool 0 none isjson rfl) fun _ _ filled =>
      absurd empty (by omega)
  rw [if_neg empty]
  match param with
  | none =>
    exact iff_of_true (answer_plain m io msgMispid 0 none isjson rfl) fun text nothing =>
      nomatch nothing
  | some [] =>
    refine iff_of_true (answer_plain m io msgMispid 0 none isjson rfl) fun text same _ => ?_
    cases same
    refine ⟨fun _ => ?_, fun _ _ listed => absurd listed List.not_mem_nil⟩
    unfold Holds
    rw [ascii_eq]
    decide
  | some (c :: text) =>
    dsimp only
    by_cases listed : JsonText.comma ∈ c :: text
    · rw [if_neg (not_not_intro listed)]
      split
      · next missing =>
        have found : quotaPool m (c :: text) = none := missing
        refine iff_of_true (answer_plain m io msgInvpid _ none isjson rfl) fun other same _ => ?_
        cases same
        refine ⟨fun unlisted => absurd listed unlisted, fun pool url _ named => ?_⟩
        rw [found] at named
        cases named
      · next pool placed =>
        have found : quotaPool m (c :: text) = some pool := placed
        obtain ⟨url, address⟩ := Option.ne_none_iff_exists'.mp (defined _ pool rfl found)
        have needs : Room behind opens defaultSaveFile m (some (c :: text)) isjson .poolquota ↔
            Holds (if quotaOf (c :: text) < 0 then "Invalid negative number (%d) for '%s'" else
              "Set pool '%s' to quota %d'")
              (width (quotaOf (c :: text)) + url.length) := by
          constructor
          · exact fun room => (room _ rfl (by omega)).2 pool url listed found address
          · intro fits other same _
            cases same
            refine ⟨fun unlisted => absurd listed unlisted, fun pool' url' _ named same => ?_⟩
            rw [found] at named
            cases named
            rw [address] at same
            cases same
            exact fits
        rw [needs]
        change (if quotaOf (c :: text) < 0 then answer m io msgInvneg (quotaOf (c :: text))
            (m.pool pool).rpcUrl isjson
          else
            answer { m with
                pool := Function.update m.pool pool
                  { m.pool pool with quota := quotaOf (c :: text) } } io
              msgSetquota (quotaOf (c :: text)) (m.pool pool).rpcUrl isjson).isSome = true ↔ _
        by_cases negative : quotaOf (c :: text) < 0
        · rw [if_pos negative, if_pos negative, address, answer_isSome]
          exact speakable_both _ _ url (by rfl) (by decide)
        · rw [if_neg negative, if_neg negative, address, answer_isSome]
          exact speakable_set _ _ url (by rfl)
    · rw [if_pos listed, answer_isSome]
      refine (speakable_str _ 0 (c :: text) (by rfl)).trans ?_
      constructor
      · intro fits other same _
        cases same
        exact ⟨fun _ => fits, fun _ _ other => absurd other listed⟩
      · exact fun room => (room _ rfl (by omega)).1 listed

/-! ## The other commands -/

theorem dosave_fits (m : Miner R) (param : Option Bytes) (isjson : Bool) (io : Io) :
    (dosave opens defaultSaveFile m param isjson io).isSome = true ↔
      Room behind opens defaultSaveFile m param isjson .dosave := by
  have saved (file : Bytes) :
      (answer m io (if opens file then msgSaved else
        msgBadfn) 0 (some (escapeString file isjson)) isjson).isSome = true ↔
        Holds (if opens file then "Configuration saved to file '%s'" else
          "Can't open or create save file '%s'")
          (file.length + escapes isjson file) := by
    rw [answer_isSome, ← escapeString_length]
    split
    · exact speakable_str _ 0 _ (by rfl)
    · exact speakable_str _ 0 _ (by rfl)
  match param with
  | none => exact saved defaultSaveFile
  | some [] => exact saved defaultSaveFile
  | some (c :: text) => exact saved (c :: text)

theorem failoveronly_fits (m : Miner R) (param : Option Bytes) (isjson : Bool) (io : Io)
    (defined : Defined behind m param .failoveronly) :
    (failoveronly m param isjson io).isSome = true ↔
      Room behind opens defaultSaveFile m param isjson .failoveronly := by
  obtain ⟨text, rfl⟩ := Option.ne_none_iff_exists'.mp defined
  unfold failoveronly
  rw [answer_isSome]
  refine (speakable_str _ 0 text (by rfl)).trans ?_
  exact ⟨fun fits _ same => Option.some.inj same ▸ fits, fun room => room text rfl⟩

theorem sameIgnoringCase_length {text name : Bytes} (same : sameIgnoringCase text name = true) :
    text.length = name.length := by
  have lengths := congrArg List.length (of_decide_eq_true same)
  rwa [List.length_map, List.length_map] at lengths

/-- The options that are named in the source are short. -/
theorem deprecated_short (text : Bytes) (old : deprecated text = true) : text.length ≤ 8 := by
  unfold deprecated at old
  rw [Bool.or_eq_true, Bool.or_eq_true] at old
  have short : (ascii "queue").length ≤ 8 ∧ (ascii "scantime").length ≤ 8 ∧
      (ascii "expiry").length ≤ 8 := by
    simp only [ascii_eq]
    decide
  rcases old with (queue | scantime) | expiry
  · exact (sameIgnoringCase_length queue).trans_le short.1
  · exact (sameIgnoringCase_length scantime).trans_le short.2.1
  · exact (sameIgnoringCase_length expiry).trans_le short.2.2

theorem setconfig_fits (m : Miner R) (param : Option Bytes) (isjson : Bool) (io : Io)
    (defined : Defined behind m param .setconfig) :
    (setconfig m param isjson io).isSome = true ↔
      Room behind opens defaultSaveFile m param isjson .setconfig := by
  obtain ⟨text, rfl⟩ := Option.ne_none_iff_exists'.mp defined
  have unknown (io : Io) : (answer m io msgUnkcon 0 (some text) isjson).isSome = true ↔
      Room behind opens defaultSaveFile m (some text) isjson .setconfig := by
    rw [answer_isSome]
    refine (speakable_str _ 0 text (by rfl)).trans ?_
    exact ⟨fun fits _ same => Option.some.inj same ▸ fits, fun room => room text rfl⟩
  unfold setconfig
  rw [Option.bind_some]
  by_cases old : deprecated text = true
  · have first : Speakable (desk m) msgDeprecated 0 (some text) := by
      refine (speakable_str _ 0 text (by rfl)).mpr ?_
      have short := deprecated_short text old
      have size : bare (ascii "Deprecated config option '%s'") = 27 := by
        rw [ascii_eq]
        decide
      unfold Holds tmpbufsiz
      omega
    obtain ⟨out, sent⟩ := message_spoken R (desk m) io msgDeprecated 0 (some text) isjson first
    rw [if_pos old, sent, Option.bind_some]
    exact unknown out
  · rw [if_neg old, Option.bind_some]
    exact unknown io

theorem dozero_fits (m : Miner R) (param : Option Bytes) (isjson : Bool) (io : Io) :
    (dozero m param isjson io).isSome = true ↔
      Room behind opens defaultSaveFile m param isjson .dozero := by
  match param with
  | none =>
    exact iff_of_true (answer_plain m io msgZermis 0 none isjson rfl) fun text nothing =>
      nomatch nothing
  | some [] =>
    refine iff_of_true (answer_plain m io msgZermis 0 none isjson rfl) fun text same flagged => ?_
    cases same
    exact absurd rfl flagged
  | some (c :: text) =>
    unfold dozero
    dsimp only
    generalize what : (c :: text).takeWhile (· ≠ JsonText.comma) = what'
    cases flag : ((c :: text).dropWhile (· ≠ JsonText.comma)).drop 1 with
    | nil =>
      refine iff_of_true (answer_plain m io msgMisbool 0 none isjson rfl)
        fun other same flagged => ?_
      cases same
      exact absurd flag flagged
    | cons d rest =>
      have needs : Room behind opens defaultSaveFile m (some (c :: text)) isjson .dozero ↔
          Holds "Invalid zero parameter '%s'" what'.length := by
        rw [← what]
        constructor
        · exact fun room => room _ rfl (by rw [flag]; exact List.cons_ne_nil d rest)
        · intro fits other same _
          cases same
          exact fits
      rw [needs]
      dsimp only
      by_cases unknown : (!sameIgnoringCase what' (ascii "all") &&
          !(!sameIgnoringCase what' (ascii "all") && sameIgnoringCase what' (ascii "bestshare"))) =
            true
      · rw [if_pos unknown, answer_isSome]
        exact speakable_str _ 0 what' (by rfl)
      · -- a name that is known is short
        have names : (ascii "all").length ≤ 9 ∧ (ascii "bestshare").length ≤ 9 := by
          simp only [ascii_eq]
          decide
        have short : what'.length ≤ 9 := by
          simp only [Bool.and_eq_true, Bool.not_eq_true', not_and, Bool.not_eq_false] at unknown
          cases all : sameIgnoringCase what' (ascii "all") with
          | true => exact (sameIgnoringCase_length all).trans_le names.1
          | false => exact (sameIgnoringCase_length (unknown all).2).trans_le names.2
        have fits : Holds "Invalid zero parameter '%s'" what'.length := by
          have bare : bare (ascii "Invalid zero parameter '%s'") = 25 := by
            rw [ascii_eq]
            decide
          unfold Holds tmpbufsiz
          omega
        rw [if_neg unknown]
        refine iff_of_true ?_ fits
        split
        · exact answer_plain m io msgInvbool 0 none isjson rfl
        · refine (answer_isSome ..).mpr ?_
          have spoken := fun desk => ControlReplies.zeroed_speakable desk (lower d = 0x74)
            (sameIgnoringCase what' (ascii "all"))
          simp only [decide_eq_true_iff] at spoken
          exact spoken _

/-- Reports say what the miner is like, whatever the parameter. -/
theorem reader_total (group : Group) (func : Func) (reader : func ∈ ReadOnlyAccess.readers)
    (m : Miner R) (param : Option Bytes) (isjson : Bool) (io : Io) :
    (perform (ApiControl.writeHandler behind opens defaultSaveFile) group func m param isjson
      io).isSome = true := by
  by_cases fan : func = .fanspd
  · rw [fan]
    match param with
    | none => exact answer_plain m io msgMispdp 0 none isjson rfl
    | some [] => exact answer_plain m io msgMispdp 0 none isjson rfl
    | some (c :: text) => rfl
  by_cases reset : func = .powerdown
  · rw [reset]
    match param with
    | none => exact answer_plain m io msgMispdp 0 none isjson rfl
    | some [] => exact answer_plain m io msgMispdp 0 none isjson rfl
    | some (c :: text) => rfl
  obtain ⟨_, _, answered, _⟩ :=
    ReadOnlyAccess.keeps_perform (ApiControl.writeHandler behind opens defaultSaveFile) group
    func reader m param isjson io (fun is => absurd is fan) fun is => absurd is reset
  rw [answered]
  rfl

theorem asc_total (m : Miner R) (param : Option Bytes) (isjson : Bool) (io : Io)
    (handled : Nat → Option (Miner R × Io)) (total : ∀ asc, (handled asc).isSome = true) :
    (match namedAsc m param with
      | .error (messageid, id) => answer m io messageid id none isjson
      | .ok asc => handled asc).isSome = true := by
  cases failed : namedAsc m param with
  | error reply =>
    exact answer_plain m io _ _ none isjson
      (ControlReplies.namedAsc_plain m param reply.1 reply.2 failed)
  | ok asc => exact total asc

theorem ascset_total (m : Miner R) (param : Option Bytes) (isjson : Bool) (io : Io) :
    (ascset m param isjson io).isSome = true := by
  unfold ascset
  split
  · exact answer_plain m io msgAscnon 0 none isjson rfl
  split
  · exact answer_plain m io msgMisid 0 none isjson rfl
  · exact answer_plain m io msgMisid 0 none isjson rfl
  split
  · exact answer_plain m io msgMisascopt 0 none isjson rfl
  · dsimp only
    split
    · exact answer_plain m io msgInvasc _ none isjson rfl
    · exact answer_plain m io msgAscnoset _ none isjson rfl

theorem debugstate_total (m : Miner R) (param : Option Bytes) (isjson : Bool) (io : Io) :
    (debugstate m param isjson io).isSome = true := by
  unfold debugstate report
  dsimp only
  rw [Option.isSome_map, Option.isSome_map]
  obtain ⟨out, sent⟩ := ReadOnlyAccess.message_total R
    (desk { m with options := debugOptions m.options (lower ((param.getD []).headD 0)) })
      io msgDebugset 0 none isjson rfl
  rw [sent]
  rfl

/-- A command that is granted is answered exactly when its message has room. -/
theorem perform_fits (group : Group) (cmd : CMDS) (listed : cmd ∈ cmds) (m : Miner R)
    (param : Option Bytes) (isjson : Bool) (io : Io) (defined : Defined behind m param cmd.func) :
    (perform (ApiControl.writeHandler behind opens defaultSaveFile) group cmd.func m param isjson
      io).isSome = true ↔
      Room behind opens defaultSaveFile m param isjson cmd.func := by
  have all : cmds.all fun cmd => decide (cmd.func ∈ ReadOnlyAccess.readers) || decide (cmd.func ∈
      ControlReplies.writers) := by
    decide
  have one := List.all_eq_true.mp all cmd listed
  rw [Bool.or_eq_true, decide_eq_true_iff, decide_eq_true_iff] at one
  generalize cmd.func = func at one defined ⊢
  rcases one with reader | writer
  · refine iff_of_true (reader_total behind opens defaultSaveFile group func reader m param
      isjson io) ?_
    simp only [ReadOnlyAccess.readers, List.mem_cons, List.not_mem_nil, or_false] at reader
    rcases reader with rfl | rfl | rfl | rfl | rfl | rfl | rfl | rfl | rfl | rfl | rfl | rfl | rfl | rfl | rfl | rfl | rfl |
      rfl | rfl | rfl | rfl <;> trivial
  · simp only [ControlReplies.writers, List.mem_cons, List.not_mem_nil, or_false] at writer
    rcases writer with rfl | rfl | rfl | rfl | rfl | rfl | rfl | rfl | rfl | rfl | rfl | rfl | rfl | rfl | rfl | rfl | rfl |
      rfl | rfl | rfl | rfl
    · exact switchpool_fits behind opens defaultSaveFile m param isjson io defined
    · exact addpool_fits behind opens defaultSaveFile m param isjson io defined
    · exact iff_of_true (poolpriority_total behind m param isjson io defined) trivial
    · exact poolquota_fits behind opens defaultSaveFile m param isjson io defined
    · exact enablepool_fits behind opens defaultSaveFile m param isjson io defined
    · exact disablepool_fits behind opens defaultSaveFile m param isjson io defined
    · exact removepool_fits behind opens defaultSaveFile m param isjson io defined
    · exact dosave_fits behind opens defaultSaveFile m param isjson io
    · exact iff_of_true rfl trivial
    · exact iff_of_true (answer_plain m io msgAccok 0 none isjson rfl) trivial
    · exact iff_of_true rfl trivial
    · exact failoveronly_fits behind opens defaultSaveFile m param isjson io defined
    · exact iff_of_true (debugstate_total m param isjson io) trivial
    · exact setconfig_fits behind opens defaultSaveFile m param isjson io defined
    · exact dozero_fits behind opens defaultSaveFile m param isjson io
    · exact iff_of_true (answer_plain m io msgNohplg 0 none isjson rfl) trivial
    · refine iff_of_true (asc_total m param isjson io _ fun asc => ?_) trivial
      split
      · exact answer_plain m io msgAsclrena asc none isjson rfl
      · exact answer_plain _ io msgAscena asc none isjson rfl
    · refine iff_of_true (asc_total m param isjson io _ fun asc => ?_) trivial
      split
      · exact answer_plain m io msgAsclrdis asc none isjson rfl
      · exact answer_plain _ io msgAscdis asc none isjson rfl
    · exact iff_of_true (asc_total m param isjson io _ fun asc =>
        answer_plain m io msgAscnoid asc none isjson rfl) trivial
    · exact iff_of_true (ascset_total m param isjson io) trivial
    · exact iff_of_true (answer_plain m io msgLockdis 0 none isjson rfl) trivial

/-! ## Joined requests -/

theorem joinable_reader (cmd : CMDS) (listed : cmd ∈ cmds) (joinable : cmd.joinable = true) :
    cmd.func = .lockstats ∨ cmd.func ∈ ReadOnlyAccess.readers := by
  have all : cmds.all fun cmd => !cmd.joinable || decide (cmd.func ∈
    Func.lockstats :: ReadOnlyAccess.readers) := by decide
  have reader := List.all_eq_true.mp all cmd listed
  rw [joinable, Bool.not_true, Bool.false_or, decide_eq_true_iff, List.mem_cons] at reader
  exact reader

theorem denied_total (m : Miner R) (cmd : CMDS) (listed : cmd ∈ cmds) (isjson : Bool) (io : Io) :
    ((message R (desk m) io msgAccdeny 0 cmd.name isjson).map fun io => (m, io)).isSome = true := by
  obtain ⟨out, sent⟩ := ReadOnlyAccess.denial_total R (desk m) io cmd listed isjson
  rw [sent]
  rfl

theorem unknown_total (m : Miner R) (isjson : Bool) (io : Io) :
    ∃ out, message R (desk m) io msgInvcmd 0 none isjson = some out :=
  ReadOnlyAccess.message_total R (desk m) io msgInvcmd 0 none isjson rfl

/-- A joined command gets no parameter, so it has nothing to echo. -/
theorem joinStep_total (isjson : Bool) (group : Group) (s : Joining R) (name : Bytes) :
    (joinStep (ApiControl.writeHandler behind opens defaultSaveFile) group isjson s name).isSome =
      true := by
  unfold joinStep
  split
  · rfl
  cases found : findCommand name with
  | none =>
    obtain ⟨out, sent⟩ := unknown_total s.miner isjson (headJoin s.io name isjson s.firstjoin)
    dsimp only
    rw [sent]
    rfl
  | some cmd =>
    obtain ⟨listed, _⟩ := ReadOnlyAccess.findCommand_listed name cmd found
    dsimp only
    split
    · rfl
    rw [Option.isSome_map]
    split
    · next joinable =>
      unfold runCommand
      split
      · rcases joinable_reader cmd listed joinable with lockstats | reader
        · rw [lockstats]
          exact answer_plain s.miner _ msgLockdis 0 none isjson rfl
        · exact reader_total behind opens defaultSaveFile group cmd.func reader s.miner none
            isjson _
      · exact denied_total s.miner cmd listed isjson _
    · exact denied_total s.miner cmd listed isjson _

theorem joined_total (isjson : Bool) (group : Group) (names : List Bytes) (s : Joining R) :
    (names.foldlM (joinStep (ApiControl.writeHandler behind opens defaultSaveFile) group isjson)
      s).isSome = true := by
  induction names generalizing s with
  | nil => rfl
  | cons name names ih =>
    obtain ⟨next, step⟩ :=
      Option.isSome_iff_exists.mp (joinStep_total behind opens defaultSaveFile isjson group s name)
    rw [List.foldlM_cons, step]
    exact ih next

/-! ## Requests -/

/-- What holds of the command that a request names, where the client may use it. Names that
are joined are no such command. -/
def Asks (jsonLoadb : Bytes → Option Jansson.Json) (request : Request)
    (needs : Func → Option Bytes → Prop) : Prop :=
  ∀ name param cmd, asked jsonLoadb request.buf = .command name param → cmdjoin ∉ name →
    findCommand name = some cmd →
    access request.group cmd.name = true → needs cmd.func param

/-- A request is served exactly when the message of its command has room in the buffer,
where nothing else goes wrong: for every miner and every pool table. -/
theorem request_fits_iff (jsonLoadb : Bytes → Option Jansson.Json) (s : Server R)
    (request : Request)
    (defined : Asks jsonLoadb request fun func param => Defined behind s.miner param func) :
    (serve (ApiControl.writeHandler behind opens defaultSaveFile) jsonLoadb s request).isSome =
      true ↔
      Asks jsonLoadb request fun func param =>
        Room behind opens defaultSaveFile s.miner param (ApiServer.isjson request.buf) func := by
  unfold serve
  cases wanted : asked jsonLoadb request.buf with
  | invalid messageid =>
    have plain : (codes.find? fun code => code.code = messageid).all fun code =>
        stringless code.params := by
      rcases ReadOnlyAccess.asked_invalid jsonLoadb request.buf messageid
        wanted with rfl | rfl | rfl <;> rfl
    obtain ⟨out, sent⟩ := ReadOnlyAccess.message_total R (desk s.miner) ioReinit messageid 0 none
      (ApiServer.isjson request.buf) plain
    dsimp only
    rw [sent]
    refine iff_of_true rfl fun name param cmd named => ?_
    rw [wanted] at named
    cases named
  | command name param =>
    have named {needs : Func → Option Bytes → Prop} : Asks jsonLoadb request needs ↔
        (cmdjoin ∉ name → ∀ cmd, findCommand name = some cmd →
          access request.group cmd.name = true →
          needs cmd.func param) := by
      constructor
      · exact fun asks alone cmd found granted => asks name param cmd wanted alone found granted
      · intro needs name' param' cmd asks alone found granted
        rw [wanted] at asks
        cases asks
        exact needs alone cmd found granted
    rw [named] at defined ⊢
    dsimp only
    split
    · next several =>
      rw [Option.isSome_map]
      refine iff_of_true ?_ fun alone => absurd several alone
      unfold joined
      rw [Option.isSome_map]
      exact joined_total behind opens defaultSaveFile _ request.group _ _
    · next alone =>
      rw [Option.isSome_map]
      unfold single
      cases found : findCommand name with
      | none =>
        obtain ⟨out, sent⟩ := unknown_total s.miner (ApiServer.isjson request.buf) ioReinit
        dsimp only
        rw [sent]
        refine iff_of_true rfl fun _ cmd same => ?_
        cases same
      | some cmd =>
        obtain ⟨listed, _⟩ := ReadOnlyAccess.findCommand_listed name cmd found
        dsimp only
        unfold runCommand
        by_cases granted : access request.group cmd.name = true
        · rw [if_pos granted, perform_fits behind opens defaultSaveFile request.group cmd listed
            s.miner param _ ioReinit
            (defined alone cmd found granted)]
          constructor
          · intro room _ other same _
            cases same
            exact room
          · exact fun room => room alone cmd rfl granted
        · rw [if_neg granted]
          refine iff_of_true (denied_total s.miner cmd listed _ ioReinit)
            fun _ other same grant => ?_
          cases same
          exact absurd grant granted

/-! ## A parameter without a comma -/

theorem addpool_name : ascii "addpool" = [0x61, 0x64, 0x64, 0x70, 0x6f, 0x6f, 0x6c] := by
  rw [ascii_eq]
  rfl

theorem addpool_alone : cmdjoin ∉ ascii "addpool" := by
  rw [addpool_name]
  decide

theorem asked_addpool (jsonLoadb : Bytes → Option Jansson.Json) (param : Bytes) :
    asked jsonLoadb (ascii "addpool" ++ separator :: param) =
      .command (ascii "addpool") (some param) := by
  have bar : separator = 0x7c := by decide
  rw [addpool_name, bar]
  unfold asked ApiServer.isjson
  simp [JsonText.openBrace, bar]

theorem addpool_plain (param : Bytes) :
    ApiServer.isjson (ascii "addpool" ++ separator :: param) = false := by
  rw [addpool_name]
  rfl

theorem addpool_found :
    findCommand (ascii "addpool") = some ⟨ascii "addpool", .addpool, true, false⟩ := by
      decide +kernel

theorem copyadvanceafter_equals (n : Nat) :
    copyadvanceafter (List.replicate n equals) = (List.replicate n equals, []) := by
  induction n with
  | zero => rfl
  | succ n ih =>
    cases n with
    | zero => rfl
    | succ n =>
      rw [List.replicate_succ] at ih ⊢
      rw [List.replicate_succ, copyadvanceafter, if_neg (by decide), if_neg (by decide), ih]

theorem pooldetails_equals (n : Nat) : pooldetails (List.replicate n equals) = none := by
  unfold pooldetails
  rw [copyadvanceafter_equals]
  rfl

theorem escapes_equals (n : Nat) : escapes false (List.replicate n equals) = n := by
  unfold escapes
  rw [List.filter_replicate_of_pos (by decide), List.length_replicate]

theorem holds_equals (n : Nat) :
    Holds "Invalid addpool details '%s'" ((List.replicate n equals).length +
      escapes false (List.replicate n equals)) ↔
      n ≤ 4082 := by
  rw [holds_details, List.length_replicate, escapes_equals]
  omega

/-- An addpool request whose parameter cannot be taken apart. -/
def equalsRequest (n : Nat) : Request :=
  ⟨ascii "addpool" ++ separator :: List.replicate n equals, .privgroup⟩

/-- The command of such a request needs what addpool needs for its parameter. -/
theorem asks_equals (jsonLoadb : Bytes → Option Jansson.Json) (n : Nat)
    (needs : Func → Option Bytes → Prop) :
    Asks jsonLoadb (equalsRequest n) needs ↔ needs .addpool (some (List.replicate n equals)) := by
  constructor
  · exact fun asks => asks _ _ _ (asked_addpool jsonLoadb _) addpool_alone addpool_found rfl
  · intro holds name param cmd wanted _ found _
    rw [equalsRequest, asked_addpool] at wanted
    cases wanted
    rw [addpool_found] at found
    cases found
    exact holds

omit [Floating R] in
theorem equals_defined (n : Nat) (m : Miner R) :
    Defined behind m (some (List.replicate n equals)) .addpool := by
  intro text url user pass same details
  cases same
  rw [pooldetails_equals] at details
  cases details

omit [Floating R] in
theorem equals_room (n : Nat) (m : Miner R) :
    Room behind opens defaultSaveFile m (some (List.replicate n equals)) false .addpool ↔
      n ≤ 4082 := by
  rw [← holds_equals]
  constructor
  · intro room
    have fits := room _ rfl
    rw [pooldetails_equals] at fits
    exact fits
  · intro fits text same
    cases same
    rw [pooldetails_equals]
    exact fits

theorem request_fits_equals :
    (serve (ApiControl.writeHandler (fun _ => none) (fun _ => true) []) (fun _ => none)
      ⟨(default : Miner ℚ), false⟩
      (equalsRequest 4082)).isSome = true ∧
    ¬ (serve (ApiControl.writeHandler (fun _ => none) (fun _ => true) []) (fun _ => none)
      ⟨(default : Miner ℚ), false⟩
      (equalsRequest 4083)).isSome = true := by
  have plain (n : Nat) : ApiServer.isjson (equalsRequest n).buf = false := addpool_plain _
  constructor
  · refine (request_fits_iff _ _ _ _ _ _ ((asks_equals _ _ _).mpr (equals_defined _ _ _))).mpr
      ((asks_equals _ _ _).mpr ?_)
    rw [plain]
    exact (equals_room _ _ _ _ _).mpr (by decide)
  · intro served
    have room := (asks_equals _ _ _).mp
      ((request_fits_iff _ _ _ _ _ _ ((asks_equals _ _ _).mpr (equals_defined _ _ _))).mp served)
    rw [plain] at room
    exact absurd ((equals_room _ _ _ _ _).mp room) (by decide)

/-- A request of TMPBUFSIZ - 1 bytes, with nothing undefined before its message. -/
theorem crowded_request :
    (equalsRequest 8183).buf.length = tmpbufsiz - 1 ∧
    (sprintf (ascii "Invalid addpool details '%s'")
      [escapeString (List.replicate 8183 equals) false]).length = 16392 ∧
    (Asks (fun _ => none) (equalsRequest 8183) fun func param =>
      Defined (fun _ => none) (default : Miner ℚ) param func) ∧
    serve (ApiControl.writeHandler (fun _ => none) (fun _ => true) []) (fun _ => none)
      ⟨(default : Miner ℚ), false⟩
      (equalsRequest 8183) = none := by
  have length : (equalsRequest 8183).buf.length = tmpbufsiz - 1 := by
    show (ascii "addpool" ++ separator :: List.replicate 8183 equals).length = 8191
    rw [List.length_append, List.length_cons, List.length_replicate, addpool_name]
    rfl
  have text : (sprintf (ascii "Invalid addpool details '%s'")
      [escapeString (List.replicate 8183 equals) false]).length = 16392 := by
    rw [sprintf_length, details_size.1, details_size.2, List.take_succ_cons, List.map_cons,
      escapeString_length, escapes_equals, List.length_replicate]
    rfl
  refine ⟨length, text, (asks_equals _ _ _).mpr (equals_defined _ _ _), ?_⟩
  have refused :
      ¬ (addpool (default : Miner ℚ) (some (List.replicate 8183 equals)) false ioReinit).isSome =
      true := by
    rw [addpool_fits (fun _ => none) (fun _ => true) [] default _ false ioReinit
      (equals_defined _ _ _), equals_room]
    decide
  have wanted : asked (fun _ => none) (equalsRequest 8183).buf = _ := asked_addpool _ _
  have plain : ApiServer.isjson (equalsRequest 8183).buf = false := addpool_plain _
  unfold serve
  rw [wanted, plain]
  dsimp only
  rw [if_neg addpool_alone, single, addpool_found]
  dsimp only
  have granted : access (equalsRequest 8183).group (ascii "addpool") = true := rfl
  unfold runCommand
  rw [if_pos granted]
  show Option.map _ (addpool (default : Miner ℚ) (some (List.replicate 8183 equals))
    false ioReinit) = none
  rw [Option.not_isSome_iff_eq_none.mp refused]
  rfl

end CgminerT4.Guarantees.MessageLength
