import CgminerT4.Guarantees.ReplyForm

/-!
# Replies of the commands that report

Every handler that is not in write mode has an answer. In JSON the answer is an
object that is still open, when the records it reports are printable, no pool of
the table is a removed one, and the command is not one of the three that say
nothing about their parameter.
-/
namespace CgminerT4.Guarantees.ReportReplies
open Library Library.ByteString Library.JsonForm Source Source.ApiReply Source.ApiReports
  Source.ApiServer ReplyForm
open Library.JsonText (comma closeBracket)
open Source.PoolControl (atoi)
open ReadOnlyAccess (control readers Speakable message_spoken speakable_stringless stringless)

variable {R : Type} [Floating R]

/-- An answer behind `front`; in JSON it is an open object. -/
def Answers (front : Bytes) (isjson : Bool) (answer : Option (Miner R × Io)) : Prop :=
  ∃ m io, answer = some (m, io) ∧ (isjson = true → Opened front io)

/-! ## Messages and sections -/

theorem answers_message (desk : Desk) (io : Io) (id : Nat) (paramid : Int) (param2 : Option Bytes)
    (isjson : Bool) (finish : Io → Miner R × Io) (spoken : Speakable desk id paramid param2)
    (opened : ∀ out, Stated io out → isjson = true → Opened io.text (finish out).2) :
    Answers io.text isjson ((message R desk io id paramid param2 isjson).map finish) := by
  obtain ⟨out, sent⟩ := message_spoken R desk io id paramid param2 isjson spoken
  rw [sent]
  refine ⟨_, _, rfl, fun json => opened out ?_ json⟩
  rw [json] at sent
  exact message_stated desk io out id paramid param2 sent

/-- A message alone. -/
theorem answers_alone (m : Miner R) (desk : Desk) (io : Io) (id : Nat) (paramid : Int)
    (param2 : Option Bytes) (isjson : Bool) (closed : io.close = false)
    (spoken : Speakable desk id paramid param2) :
    Answers io.text isjson ((message R desk io id paramid param2 isjson).map fun io => (m, io)) :=
  answers_message desk io id paramid param2 isjson _ spoken fun _ stated _ => stated.opened closed

/-- A message and a section. -/
theorem answers_section (desk : Desk) (io : Io) (id : Nat) (paramid : Int) (isjson : Bool)
    (finish : Io → Miner R × Io) (name : Bytes) (records : List (List (ApiData R)))
    (plain : (codes.find? fun code => code.code = id).all fun code => stringless code.params)
    (named : chars name) (printed : isjson = true → ∀ root ∈ records, root.all printable)
    (written : isjson = true → ∀ out, (finish out).2 =
      ioClose (ioAdd out (comma :: sectionText name (records.map recordText)))) :
    Answers io.text isjson ((message R desk io id paramid none isjson).map finish) := by
  refine answers_message desk io id paramid none isjson finish
    (speakable_stringless desk id paramid none plain) ?_
  intro out stated json
  rw [written json out]
  refine stated.section name _ named fun item inside => ?_
  obtain ⟨root, member, rfl⟩ := List.mem_map.mp inside
  exact recordText_value root (printed json root member)

/-- A section with one record. -/
theorem section_single (out : Io) (name : Bytes) (root : List (ApiData R)) :
    ioClose (printData (openSection out name true) root true false) =
      ioClose (ioAdd out (comma :: sectionText name ([root].map recordText))) := by
  unfold sectionText
  rw [printData_record, if_neg Bool.false_ne_true, List.nil_append, List.map_cons, List.map_nil,
    listed_single, ← List.cons_append, ← ioAdd_ioAdd]
  rfl

theorem answers_report (m m' : Miner R) (io : Io) (id : Nat) (name : Bytes)
    (root : List (ApiData R)) (isjson : Bool)
    (plain : (codes.find? fun code => code.code = id).all fun code => stringless code.params)
    (named : chars name) (printed : isjson = true → ∀ record ∈ [root], record.all printable) :
    Answers io.text isjson ((report m io id name root isjson).map fun io => (m', io)) := by
  unfold report
  rw [Option.map_map]
  refine answers_section (desk m) io id 0 isjson _ name [root] plain named printed fun json
    out => ?_
  subst json
  exact section_single out name root

/-! ## Loops over records -/

/-- One round of a loop: the comma in front of all places but the first. -/
def placed (text : Bytes) (i : Nat) : Bytes := (if i > 0 then [comma] else []) ++ text

theorem printData_placed (io : Io) (root : List (ApiData R)) (i : Nat) :
    printData io root true (true && i > 0) = ioAdd io (placed (recordText root) i) := by
  rw [printData_record, Bool.true_and]
  unfold placed
  simp only [decide_eq_true_iff]

theorem printRecords_text (records : List (List (ApiData R))) (io : Io) (i : Nat) :
    printRecords true io i records =
      ioAdd io ((records.zipIdx i).flatMap fun p => placed (recordText p.1) p.2) := by
  induction records generalizing io i with
  | nil =>
    unfold printRecords ioAdd
    rw [List.zipIdx_nil, List.flatMap_nil, List.append_nil]
  | cons root records ih =>
    unfold printRecords
    rw [ih, printData_placed, ioAdd_ioAdd, List.zipIdx_cons, List.flatMap_cons]

theorem poolRecords_text (m : Miner R) (ids : List SessionTable.PoolId) (io : Io) (i : Nat)
    (intact : ∀ id ∈ ids, (m.pools.table.pool id).removed = false) :
    poolRecords m true io i ids =
      ioAdd io ((ids.zipIdx i).flatMap fun p =>
        placed (recordText (poolRecord m p.2 p.1)) p.2) := by
  induction ids generalizing io i with
  | nil =>
    unfold poolRecords ioAdd
    rw [List.zipIdx_nil, List.flatMap_nil, List.append_nil]
  | cons id ids ih =>
    have here : ¬ (m.pools.table.pool id).removed = true := by
      rw [intact id List.mem_cons_self]
      exact Bool.false_ne_true
    unfold poolRecords
    rw [ih _ _ fun other inside => intact other (List.mem_cons_of_mem id inside),
      if_neg here, printData_placed, ioAdd_ioAdd, List.zipIdx_cons, List.flatMap_cons]

/-- A device as a report shows it. -/
def refreshed (m : Miner R) (cgpu : Device R) : Device R :=
  { cgpu with utility := perMinute cgpu.accepted (cgpuRuntime m cgpu) }

/-- The loop over the ASCs touches no device before its turn. -/
theorem ascstatuses_text (m : Miner R) (io : Io) :
    (ascstatuses true m io).2 =
      ioAdd io (m.devices.zipIdx.flatMap fun p =>
        placed (recordText (ascRecord m p.2 (refreshed m p.1))) p.2) := by
  have rounds : ∀ (l : List (Device R)) (k : Nat) (devices : List (Device R)) (io : Io),
      (∀ i cgpu, l[i]? = some cgpu → devices[k + i]? = some cgpu) →
      ((List.range' k l.length).foldl (fun p i => ascstatus p.1 i true (true && i > 0) p.2)
        ({ m with devices := devices }, io)).2 =
        ioAdd io ((l.zipIdx k).flatMap fun p =>
          placed (recordText (ascRecord m p.2 (refreshed m p.1))) p.2) := by
    intro l
    induction l with
    | nil =>
      intro k devices io _
      show io = _
      unfold ioAdd
      rw [List.zipIdx_nil, List.flatMap_nil, List.append_nil]
    | cons cgpu l ih =>
      intro k devices io same
      have here : devices[k]? = some cgpu := same 0 cgpu rfl
      have turn : ascstatus { m with devices := devices } k true (true && k > 0) io =
          ({ m with devices := devices.set k (refreshed m cgpu) },
            ioAdd io (placed (recordText (ascRecord m k (refreshed m cgpu))) k)) := by
        unfold ascstatus
        dsimp only
        rw [here]
        dsimp only
        rw [printData_placed]
        rfl
      rw [List.length_cons, List.range'_succ, List.foldl_cons]
      dsimp only
      rw [turn, ih (k + 1) (devices.set k (refreshed m cgpu)), ioAdd_ioAdd, List.zipIdx_cons,
        List.flatMap_cons]
      intro i other found
      rw [List.getElem?_set_ne (by omega), show k + 1 + i = k + (i + 1) by omega]
      exact same (i + 1) other found
  have all := rounds m.devices 0 m.devices io fun i cgpu found => by
    rw [Nat.zero_add]
    exact found
  rw [← List.range_eq_range'] at all
  exact all

/-- The texts of a loop over records. -/
theorem placed_listed {α : Type} (l : List α) (record : α × Nat → List (ApiData R)) :
    (l.zipIdx.flatMap fun p => placed (recordText (record p)) p.2) =
      listed ((l.zipIdx.map record).map recordText) := by
  rw [List.map_map]
  exact listed_places (fun p => recordText (record p)) l

theorem answers_reportAll (m m' : Miner R) (io : Io) (id : Nat) (name : Bytes)
    (records : List (List (ApiData R))) (isjson : Bool)
    (plain : (codes.find? fun code => code.code = id).all fun code => stringless code.params)
    (named : chars name) (printed : isjson = true → ∀ root ∈ records, root.all printable) :
    Answers io.text isjson ((reportAll m io id name records isjson).map fun io => (m', io)) := by
  unfold reportAll
  rw [Option.map_map]
  refine answers_section (desk m) io id 0 isjson _ name records plain named printed fun json
    out => ?_
  subst json
  have texts := placed_listed records fun p : List (ApiData R) × Nat => p.1
  rw [List.zipIdx_map_fst] at texts
  show ioClose (printRecords true (ioAdd out (comma :: jsonSection name)) 0 records) = _
  rw [printRecords_text, texts, ioAdd_ioAdd]
  rfl

/-! ## The commands -/

/-- The records that a command reports. -/
def reported (group : Group) (m : Miner R) (param : Option Bytes) : Func → List (List (ApiData R))
  | .apiversion => [[apiAddString "CGMiner" m.options.version, apiAddConst "API" (ascii "3.7")]]
  | .minerconfig =>
    [[apiAddInt "ASC Count" (numascs m), apiAddInt "PGA Count" 0,
      apiAddInt "Pool Count" (PoolControl.totalPools m.pools),
      apiAddConst "Strategy" (strategyText m.options.poolStrategy),
      apiAddInt "Log Interval" m.options.optLogInterval, apiAddConst "Device Code" (ascii "BA1 "),
      apiAddConst "OS" (ascii "Linux"), apiAddConst "Hotplug" (ascii "None")]]
  | .devstatus | .edevstatus => m.devices.zipIdx.map fun p => ascRecord m p.2 (refreshed m p.1)
  | .poolstatus => m.pools.table.pools.zipIdx.map fun p => poolRecord m p.2 p.1
  | .summary => [summaryRecord m]
  | .pgacount => [[apiAddInt "Count" 0]]
  | .asccount => [[apiAddInt "Count" (numascs m)]]
  | .notify => m.devices.zipIdx.map fun p => notifyRecord p.2 p.1
  | .devdetails => m.devices.zipIdx.map fun p => devdetailsRecord p.2 p.1
  | .minerstats | .minerdebug => deviceStats m ++ poolStats m
  | .minerestats => deviceStats m
  | .checkcommand =>
    let found := cmds.any fun cmd => cmd.name = param.getD []
    [[apiAddConst "Exists" (if found then yes else no),
      apiAddConst "Access" (if found && access group (param.getD []) then yes else no)]]
  | .minecoin =>
    [[apiAddConst "Hash Method" (ascii "sha256"), apiAddTimeval "Current Block Time" m.blockTimeval,
      apiAddString "Current Block Hash" m.currentHash, apiAddBool "LP" m.haveLongpoll,
      apiAddDiff "Network Difficulty" m.currentDiff]]
  | .ascdev =>
    let id := atoi (param.getD [])
    if param.getD [] = [] ∨ id < 0 then []
    else ((m.devices[id.toNat]?).map fun cgpu => ascRecord m id.toNat (refreshed m cgpu)).toList
  | .lcddata => [lcdRecord m]
  | _ => []

theorem answers_devstatus (m : Miner R) (param : Option Bytes) (isjson : Bool) (io : Io)
    (closed : io.close = false)
    (printed : isjson = true → ∀ root ∈ m.devices.zipIdx.map fun p =>
      ascRecord m p.2 (refreshed m p.1), root.all printable) :
    Answers io.text isjson (devstatus m param isjson io) := by
  unfold devstatus
  split
  · exact answers_alone m (desk m) io msgNodevs 0 none isjson closed
      (speakable_stringless _ _ _ _ rfl)
  · refine answers_section (desk m) io msgDevs 0 isjson _ (ascii "DEVS") _ rfl
      (chars_ascii _ (by decide)) printed ?_
    intro json out
    subst json
    show ioClose (ascstatuses true m (ioAdd out (comma :: jsonSection (ascii "DEVS")))).2 = _
    rw [ascstatuses_text, placed_listed m.devices fun p => ascRecord m p.2 (refreshed m p.1),
      ioAdd_ioAdd]
    rfl

theorem answers_ascdev (m : Miner R) (param : Option Bytes) (isjson : Bool) (io : Io)
    (closed : io.close = false)
      (printed : isjson = true → ∀ cgpu, ¬ (param.getD [] = [] ∨ atoi (param.getD []) < 0) →
      m.devices[(atoi (param.getD [])).toNat]? = some cgpu →
      (ascRecord m (atoi (param.getD [])).toNat (refreshed m cgpu)).all printable) :
    Answers io.text isjson (ascdev m param isjson io) := by
  have alone : ∀ id paramid,
      (codes.find? fun code => code.code = id).all (fun code => stringless code.params) →
      Answers io.text isjson ((message R (desk m) io id paramid none isjson).map fun io =>
        (m, io)) :=
    fun id paramid plain => answers_alone m (desk m) io id paramid none isjson closed
      (speakable_stringless _ _ _ _ plain)
  unfold ascdev
  split
  · exact alone msgAscnon 0 rfl
  split
  · exact alone msgMisid 0 rfl
  · exact alone msgMisid 0 rfl
  · rename_i param given
    rw [Option.getD_some] at printed
    dsimp only
    split
    · exact alone msgInvasc _ rfl
    · rename_i inside
      have named : ¬ (param = [] ∨ atoi param < 0) := by
        rintro (empty | negative)
        · exact given (by rw [empty])
        · exact inside (.inl negative)
      have below : (atoi param).toNat < m.devices.length := by
        unfold numascs at inside
        omega
      have found := List.getElem?_eq_getElem below
      refine answers_section (desk m) io msgAscdev _ isjson _ (ascii "ASC")
        [ascRecord m (atoi param).toNat (refreshed m m.devices[(atoi param).toNat])] rfl
          (chars_ascii _ (by decide))
        (fun json root single => ?_) fun json out => ?_
      · rw [List.mem_singleton] at single
        rw [single]
        exact printed json _ named found
      · subst json
        unfold ascstatus
        dsimp only
        rw [found]
        dsimp only
        exact section_single out (ascii "ASC") _

theorem answers_poolstatus (m : Miner R) (param : Option Bytes) (isjson : Bool) (io : Io)
    (closed : io.close = false)
    (intact : ∀ id ∈ m.pools.table.pools, (m.pools.table.pool id).removed = false)
    (printed : isjson = true → ∀ root ∈ m.pools.table.pools.zipIdx.map fun p =>
      poolRecord m p.2 p.1, root.all printable) :
    Answers io.text isjson (poolstatus m param isjson io) := by
  unfold poolstatus
  split
  · exact answers_alone m (desk m) io msgNopool 0 none isjson closed
      (speakable_stringless _ _ _ _ rfl)
  · refine answers_section (desk m) io msgPool 0 isjson _ (ascii "POOLS") _ rfl
      (chars_ascii _ (by decide)) printed ?_
    intro json out
    subst json
    show ioClose (poolRecords m true (ioAdd out (comma :: jsonSection (ascii "POOLS")))
      0 m.pools.table.pools) = _
    rw [poolRecords_text m m.pools.table.pools _ 0 intact,
      placed_listed m.pools.table.pools fun p => poolRecord m p.2 p.1, ioAdd_ioAdd]
    rfl

theorem answers_notify (m : Miner R) (param : Option Bytes) (isjson : Bool) (io : Io)
    (closed : io.close = false)
    (printed : isjson = true → ∀ root ∈ m.devices.zipIdx.map fun p => notifyRecord (R := R) p.2 p.1,
      root.all printable) :
    Answers io.text isjson (notify m param isjson io) := by
  unfold notify
  split
  · exact answers_alone m (desk m) io msgNodevs 0 none isjson closed
      (speakable_stringless _ _ _ _ rfl)
  · exact answers_reportAll m m io msgNotify (ascii "NOTIFY") _ isjson rfl
      (chars_ascii _ (by decide)) printed

theorem answers_devdetails (m : Miner R) (param : Option Bytes) (isjson : Bool) (io : Io)
    (closed : io.close = false)
    (printed : isjson = true → ∀ root ∈ m.devices.zipIdx.map fun p =>
      devdetailsRecord (R := R) p.2 p.1, root.all printable) :
    Answers io.text isjson (devdetails m param isjson io) := by
  unfold devdetails
  split
  · exact answers_alone m (desk m) io msgNodevs 0 none isjson closed
      (speakable_stringless _ _ _ _ rfl)
  · exact answers_reportAll m m io msgDevdetails (ascii "DEVDETAILS") _ isjson rfl
      (chars_ascii _ (by decide)) printed

omit [Floating R] in
/-- The debug requests show in no report. -/
theorem debugged (devices : List (Device R)) (m : Miner R) :
    ∃ debugStats, devices.foldl a1ApiDebug m = { m with debugStats := debugStats } := by
  induction devices generalizing m with
  | nil => exact ⟨m.debugStats, rfl⟩
  | cons cgpu devices ih =>
    obtain ⟨debugStats, rest⟩ := ih (a1ApiDebug m cgpu)
    exact ⟨debugStats, rest⟩

theorem answers_minerdebug (m : Miner R) (param : Option Bytes) (isjson : Bool) (io : Io)
    (printed : isjson = true → ∀ root ∈ deviceStats m ++ poolStats m, root.all printable) :
    Answers io.text isjson (minerdebug m param isjson io) := by
  obtain ⟨debugStats, state⟩ := debugged m.devices m
  unfold minerdebug
  dsimp only
  rw [state]
  exact answers_reportAll _ _ io msgMinedebug (ascii "STATS") _ isjson rfl
    (chars_ascii _ (by decide)) printed

theorem answers_checkcommand (group : Group) (m : Miner R) (param : Option Bytes) (isjson : Bool)
    (io : Io) (closed : io.close = false)
    (printed : isjson = true → ∀ root ∈ reported group m param .checkcommand, root.all printable) :
    Answers io.text isjson (checkcommand group m param isjson io) := by
  unfold checkcommand
  split
  · exact answers_alone m (desk m) io msgMischk 0 none isjson closed
      (speakable_stringless _ _ _ _ rfl)
  · exact answers_alone m (desk m) io msgMischk 0 none isjson closed
      (speakable_stringless _ _ _ _ rfl)
  · exact answers_report m m io msgCheck (ascii "CHECK") _ isjson rfl
      (chars_ascii _ (by decide)) printed

/-! ## The commands that are silent -/

/-- fanmode, fanspd and powerdown say nothing about a parameter. -/
def silent (func : Func) (param : Option Bytes) : Bool :=
  func ∈ [.fanmode, .fanspd, .powerdown] && param.getD [] ≠ []

theorem answers_silent (m : Miner R) (param : Option Bytes) (isjson : Bool) (io : Io)
    (closed : io.close = false) (stored : Bytes → Miner R)
    (loud : isjson = true → param.getD [] = []) :
    Answers io.text isjson
      (match param with
      | none | some [] => (message R (desk m) io msgMispdp 0 none isjson).map fun io => (m, io)
      | some param => some (stored param, io)) := by
  split
  · exact answers_alone m (desk m) io msgMispdp 0 none isjson closed
      (speakable_stringless _ _ _ _ rfl)
  · exact answers_alone m (desk m) io msgMispdp 0 none isjson closed
      (speakable_stringless _ _ _ _ rfl)
  · rename_i param given
    refine ⟨_, _, rfl, fun json => ?_⟩
    have none := loud json
    rw [Option.getD_some] at none
    exact (given (by rw [none])).elim

/-! ## All of them -/

variable (writeHandler : Func → Handler R)

theorem answers_perform (group : Group) (func : Func) (reader : func ∈ readers) (m : Miner R)
    (param : Option Bytes) (isjson : Bool) (io : Io) (closed : io.close = false)
    (intact : ∀ id ∈ m.pools.table.pools, (m.pools.table.pool id).removed = false)
    (loud : isjson = true → silent func param = false)
    (printed : isjson = true → ∀ root ∈ reported group m param func, root.all printable) :
    Answers io.text isjson (perform writeHandler group func m param isjson io) := by
  have plain : ∀ id name root,
      (codes.find? fun code => code.code = id).all (fun code => stringless code.params) →
      chars name → (isjson = true → ∀ record ∈ [root], record.all printable) →
      Answers io.text isjson ((report m io id name root isjson).map fun io => (m, io)) :=
    fun id name root plain named => answers_report m m io id name root isjson plain named
  have plainAll : ∀ id name records,
      (codes.find? fun code => code.code = id).all (fun code => stringless code.params) →
      chars name → (isjson = true → ∀ root ∈ records, root.all printable) →
      Answers io.text isjson ((reportAll m io id name records isjson).map fun io => (m, io)) :=
    fun id name records plain named => answers_reportAll m m io id name records isjson plain named
  simp only [readers, List.mem_cons, List.not_mem_nil, or_false] at reader
  rcases reader with rfl | rfl | rfl | rfl | rfl | rfl | rfl | rfl | rfl | rfl | rfl | rfl | rfl | rfl | rfl | rfl | rfl |
    rfl | rfl | rfl | rfl
  · exact plain msgVersion (ascii "VERSION") _ rfl (chars_ascii _ (by decide)) printed
  · exact plain msgMineconfig (ascii "CONFIG") _ rfl (chars_ascii _ (by decide)) printed
  · exact answers_devstatus m param isjson io closed printed
  · exact answers_devstatus m param isjson io closed printed
  · exact answers_poolstatus m param isjson io closed intact printed
  · exact plain msgSumm (ascii "SUMMARY") _ rfl (chars_ascii _ (by decide)) printed
  · exact plain msgNumpga (ascii "PGAS") _ rfl (chars_ascii _ (by decide)) printed
  · exact answers_notify m param isjson io closed printed
  · exact answers_devdetails m param isjson io closed printed
  · exact plainAll msgMinestats (ascii "STATS") _ rfl (chars_ascii _ (by decide)) printed
  · exact answers_minerdebug m param isjson io printed
  · exact plainAll msgMinestats (ascii "STATS") _ rfl (chars_ascii _ (by decide)) printed
  · exact answers_checkcommand group m param isjson io closed printed
  · exact plain msgMinecoin (ascii "COIN") _ rfl (chars_ascii _ (by decide)) printed
  · exact answers_alone m (desk m) io msgNousta 0 none isjson closed
      (speakable_stringless _ _ _ _ rfl)
  · refine answers_ascdev m param isjson io closed fun json cgpu named found => printed json _ ?_
    unfold reported
    dsimp only
    rw [if_neg named, found]
    exact List.mem_singleton_self _
  · exact plain msgNumasc (ascii "ASCS") _ rfl (chars_ascii _ (by decide)) printed
  · exact plain msgLcd (ascii "LCD") _ rfl (chars_ascii _ (by decide)) printed
  · exact answers_silent m param isjson io closed
      (fun _ => m) fun json => by simpa [silent] using loud json
  · exact answers_silent m param isjson io closed _ fun json => by simpa [silent] using loud json
  · exact answers_silent m param isjson io closed _ fun json => by simpa [silent] using loud json

/-- The records do not show the debug requests, nor the rates that a report computes anew. -/
theorem reported_control (group : Group) (m : Miner R) (param : Option Bytes) (func : Func) :
    reported group (control m) param func = reported group m param func := by
  have devices : ∀ record : Device R × Nat → List (ApiData R),
      ((control m).devices.zipIdx.map record) =
        m.devices.zipIdx.map fun p => record ({ p.1 with utility := Floating.ofInt 0 }, p.2) := by
    intro record
    show ((m.devices.map _).zipIdx.map record) = _
    rw [List.zipIdx_map, List.map_map]
    rfl
  have stats : deviceStats (control m) = deviceStats m := devices _
  have pools : poolStats (control m) = poolStats m := by
    unfold poolStats
    rw [show (control m).devices.length = m.devices.length from List.length_map _]
    rfl
  cases func with
  | devstatus => exact devices _
  | edevstatus => exact devices _
  | notify => exact devices _
  | devdetails => exact devices _
  | minerstats => exact congrArg₂ (· ++ ·) stats pools
  | minerdebug => exact congrArg₂ (· ++ ·) stats pools
  | minerestats => exact stats
  | minerconfig =>
    unfold reported numascs
    rw [show (control m).devices.length = m.devices.length from List.length_map _]
    rfl
  | asccount =>
    unfold reported numascs
    rw [show (control m).devices.length = m.devices.length from List.length_map _]
  | ascdev =>
    unfold reported
    dsimp only
    rw [show (control m).devices = m.devices.map _ from rfl, List.getElem?_map, Option.map_map]
    rfl
  | lcddata =>
    have work : lastValidWork (control m) = lastValidWork m := List.foldl_map
    have temp : highestTemp (control m) = highestTemp m := List.foldl_map
    unfold reported lcdRecord
    rw [work, temp]
    rfl
  | _ => rfl

end CgminerT4.Guarantees.ReportReplies
