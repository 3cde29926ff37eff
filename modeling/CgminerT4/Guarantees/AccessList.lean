import CgminerT4.Guarantees.AccessEntries

/-!
# The verdict of the access list

The table has a row for each entry that is taken, in their order, and the first row that
takes in a client decides. That is the first documented entry for the client unless an
entry that is not plain comes before it, or inet_pton does not get the client's address.
-/
namespace CgminerT4.Guarantees.AccessList
open Library.ByteString Library.InetText Library.PrefixMask Source.IpAccess AccessEntries

/-! ## The entries of a list -/

/-- What is between commas, without the blanks in front. -/
def entries (allow : Bytes) : List Bytes :=
  ((allow.splitOn comma).map fun text => text.dropWhile blank).filter (· ≠ [])

theorem entries_last (text : Bytes) (plain : comma ∉ text) :
    entries text = if text.dropWhile blank = [] then [] else [text.dropWhile blank] := by
  unfold entries
  rw [List.splitOn_eq_singleton plain, List.map_cons, List.map_nil]
  by_cases empty : text.dropWhile blank = []
  · rw [if_pos empty, empty]
    rfl
  · rw [if_neg empty]
    simp [empty]

theorem entries_comma (text rest : Bytes) :
    entries (text ++ comma :: rest) = entries text ++ entries rest := by
  unfold entries
  rw [List.splitOn_append_cons_self, List.map_append, List.filter_append]

theorem comma_front (text rest : Bytes) (c : UInt8)
    (behind : text.dropWhile (· ≠ comma) = c :: rest) : c = comma := by
  have head := List.head?_dropWhile_not (· ≠ comma) text
  rw [behind] at head
  simpa using head

/-- Blanks and then a comma are no entry. -/
theorem entries_skip (ptr : Bytes) (mark : (ptr.dropWhile blank).head? = some comma) :
    entries ptr = entries ((ptr.dropWhile blank).drop 1) := by
  have parts := List.takeWhile_append_dropWhile (p := blank) (l := ptr)
  cases behind : ptr.dropWhile blank with
  | nil =>
    rw [behind] at mark
    cases mark
  | cons c rest =>
    rw [behind] at mark parts
    cases mark
    have blanks : entries (ptr.takeWhile blank) = [] := by
      have plain : comma ∉ ptr.takeWhile blank :=
        fun inside => absurd (List.mem_takeWhile_imp inside) (by decide)
      have empty : (ptr.takeWhile blank).dropWhile blank = [] :=
        List.dropWhile_eq_nil_iff.mpr fun c => List.mem_takeWhile_imp
      rw [entries_last _ plain, if_pos empty]
    rw [← parts, entries_comma, blanks]
    rfl

/-- The text up to the first comma is an entry, if it is not empty. -/
theorem entries_front (ptr : Bytes) :
    entries (ptr.takeWhile blank ++ (ptr.dropWhile blank).takeWhile (· ≠ comma)) =
      if (ptr.dropWhile blank).takeWhile (· ≠ comma) = [] then [] else
        [(ptr.dropWhile blank).takeWhile (· ≠ comma)] := by
  have plain : comma ∉ ptr.takeWhile blank ++ (ptr.dropWhile blank).takeWhile (· ≠ comma) := by
    rw [List.mem_append]
    rintro (inside | inside)
    · exact absurd (List.mem_takeWhile_imp inside) (by decide)
    · simpa using List.mem_takeWhile_imp inside
  have start : ((ptr.dropWhile blank).takeWhile (· ≠ comma)).dropWhile blank =
      (ptr.dropWhile blank).takeWhile (· ≠ comma) := by
    have head := List.head?_dropWhile_not blank ptr
    cases behind : ptr.dropWhile blank with
    | nil => rfl
    | cons c text =>
      rw [behind] at head
      rw [List.takeWhile_cons]
      split
      · exact List.dropWhile_cons_of_neg
          (by rw [show blank c = false from head]; exact Bool.false_ne_true)
      · rfl
  rw [entries_last _ plain, List.dropWhile_append_of_pos fun c => List.mem_takeWhile_imp, start]

/-- The entry in front, unless it is empty. -/
def frontEntry (text : Bytes) : List Bytes := if text = [] then [] else [text]

theorem entries_end (ptr : Bytes) (last : (ptr.dropWhile blank).dropWhile (· ≠ comma) = []) :
    entries ptr = frontEntry ((ptr.dropWhile blank).takeWhile (· ≠ comma)) := by
  have whole : ptr.takeWhile blank ++ (ptr.dropWhile blank).takeWhile (· ≠ comma) = ptr := by
    have rest := List.takeWhile_append_dropWhile (p := (· ≠ comma)) (l := ptr.dropWhile blank)
    rw [last, List.append_nil] at rest
    rw [rest, List.takeWhile_append_dropWhile]
  have front := entries_front ptr
  rwa [whole] at front

theorem entries_more (ptr : Bytes) (more : (ptr.dropWhile blank).dropWhile (· ≠ comma) ≠ []) :
    entries ptr = frontEntry ((ptr.dropWhile blank).takeWhile (· ≠ comma)) ++
      entries (((ptr.dropWhile blank).dropWhile (· ≠ comma)).drop 1) := by
  have whole : ptr.takeWhile blank ++ (ptr.dropWhile blank).takeWhile (· ≠ comma) ++
      (ptr.dropWhile blank).dropWhile (· ≠ comma) = ptr := by
    rw [List.append_assoc, List.takeWhile_append_dropWhile, List.takeWhile_append_dropWhile]
  cases behind : (ptr.dropWhile blank).dropWhile (· ≠ comma) with
  | nil => exact absurd behind more
  | cons c rest =>
    have mark := comma_front _ rest c behind
    rw [behind, mark] at whole
    have parts :=
      entries_comma (ptr.takeWhile blank ++ (ptr.dropWhile blank).takeWhile (· ≠ comma)) rest
    rw [whole, entries_front] at parts
    exact parts

section
variable (commands : UInt8 → Option Bytes)

/-! ## The table -/

/-- The row of an entry. -/
def entryRow (text : Bytes) : Option IPACCESS :=
  (taken (entryGroup commands text).2).map (row (entryGroup commands text).1)

def Safe (texts : List Bytes) : Prop := ∀ text ∈ texts, ¬ Overflows (entryGroup commands text).2

theorem setEntry_row (slot : IPACCESS) (text : Bytes)
    (safe : ¬ Overflows (entryGroup commands text).2) :
    ∃ slot', setEntry commands slot text = some (slot', (entryRow commands text).isSome) ∧
      ∀ row, entryRow commands text = some row → slot' = row := by
  obtain ⟨slot', kept, read⟩ :=
    setAddress_holds { slot with group := (entryGroup commands text).1 } _ safe
  unfold entryRow
  refine ⟨slot', ?_, fun row same => ?_⟩
  · rw [Option.isSome_map]
    exact kept
  · obtain ⟨entry, found, rfl⟩ := Option.map_eq_some_iff.mp same
    exact read entry found

theorem empty_safe : ¬ Overflows (entryGroup commands []).2 := by
  rintro ⟨_, _, slash, behind, _⟩
  cases behind

theorem empty_row : entryRow commands [] = none := by
  show (taken []).map _ = none
  rw [show taken [] = none by decide +kernel, Option.map_none]

theorem front_rows (text : Bytes) :
    (frontEntry text).filterMap (entryRow commands) = (entryRow commands text).toList := by
  unfold frontEntry
  split
  · rename_i empty
    rw [empty, empty_row]
    rfl
  · cases row : entryRow commands text <;> simp [row]

theorem front_safe (text : Bytes) (safe : Safe commands (frontEntry text)) :
    ¬ Overflows (entryGroup commands text).2 := by
  by_cases empty : text = []
  · rw [empty]
    exact empty_safe commands
  · unfold frontEntry at safe
    rw [if_neg empty] at safe
    exact safe text List.mem_cons_self

/-- An entry adds its row to the table. -/
theorem setEntry_adds (slot slot' : IPACCESS) (kept : Bool) (text : Bytes)
    (ipaccess : List IPACCESS) (safe : ¬ Overflows (entryGroup commands text).2)
    (set : setEntry commands slot text = some (slot', kept)) :
    (if kept then ipaccess ++ [slot'] else ipaccess) =
      ipaccess ++ (entryRow commands text).toList := by
  obtain ⟨after, holds, read⟩ := setEntry_row commands slot text safe
  rw [set] at holds
  cases holds
  cases row : entryRow commands text with
  | none => simp
  | some row' => simp [read row' row]

/-- The loop adds the rows of the entries that are left. -/
theorem setupLoop_rows (ptr : Bytes) (ipaccess : List IPACCESS) (slot : IPACCESS)
    (safe : Safe commands (entries ptr)) :
    setupLoop commands ptr ipaccess slot =
      some (ipaccess ++ (entries ptr).filterMap (entryRow commands)) := by
  fun_induction setupLoop commands ptr ipaccess slot with
  | case1 ipaccess slot => simp [entries]
  | case2 ptr ipaccess slot more mark ih =>
    rw [entries_skip ptr mark] at safe ⊢
    exact ih safe
  | case3 ptr ipaccess slot more mark overflow =>
    have front : Safe commands (frontEntry ((ptr.dropWhile blank).takeWhile (· ≠ comma))) := by
      by_cases last : (ptr.dropWhile blank).dropWhile (· ≠ comma) = []
      · rwa [entries_end ptr last] at safe
      · rw [entries_more ptr last] at safe
        exact fun text inside => safe text (List.mem_append_left _ inside)
    obtain ⟨after, holds, _⟩ := setEntry_row commands slot _ (front_safe commands _ front)
    rw [overflow] at holds
    cases holds
  | case4 ptr ipaccess slot more mark slot' kept set ips last =>
    rw [entries_end ptr last] at safe ⊢
    rw [front_rows]
    exact congrArg some (setEntry_adds commands slot slot' kept _ ipaccess
      (front_safe commands _ safe) set)
  | case5 ptr ipaccess slot more mark slot' kept set ips last ih =>
    rw [entries_more ptr last] at safe ⊢
    have front := front_safe commands _ fun text inside => safe text (List.mem_append_left _ inside)
    have adds : ips = ipaccess ++ _ := setEntry_adds commands slot slot' kept _ ipaccess front set
    refine (ih fun text inside => safe text (List.mem_append_right _ inside)).trans ?_
    rw [adds, List.filterMap_append, front_rows, List.append_assoc]

/-- It has no result when the prefix of one of them overflows. -/
theorem setupLoop_overflow (ptr : Bytes) (ipaccess : List IPACCESS) (slot : IPACCESS) (text : Bytes)
    (among : text ∈ entries ptr) (exceeds : Overflows (entryGroup commands text).2) :
    setupLoop commands ptr ipaccess slot = none := by
  have front : ∀ entry, text ∈ frontEntry entry → ∀ slot, setEntry commands slot entry = none := by
    intro entry inside slot
    unfold frontEntry at inside
    split at inside
    · cases inside
    · rw [List.mem_singleton] at inside
      rw [← inside]
      exact setAddress_overflow _ _ exceeds
  fun_induction setupLoop commands ptr ipaccess slot with
  | case1 ipaccess slot => cases among
  | case2 ptr ipaccess slot more mark ih =>
    rw [entries_skip ptr mark] at among
    exact ih among
  | case3 ptr ipaccess slot more mark overflow => rfl
  | case4 ptr ipaccess slot more mark slot' kept set ips last =>
    rw [entries_end ptr last] at among
    rw [front _ among slot] at set
    cases set
  | case5 ptr ipaccess slot more mark slot' kept set ips last ih =>
    rw [entries_more ptr last, List.mem_append] at among
    obtain here | later := among
    · rw [front _ here slot] at set
      cases set
    · exact ih later

/-! ## The first entry for a client -/

/-- A reading of the entry takes in the address. -/
def takesIn (reading : Bytes → Option (In6Addr × Nat)) (ip : In6Addr) (text : Bytes) : Bool :=
  (reading (entryGroup commands text).2).any fun entry => Agree entry.2 ip entry.1

/-- The group of the first entry that takes in the address. -/
def firstGroup (reading : Bytes → Option (In6Addr × Nat)) (ip : In6Addr) (texts : List Bytes) :
    Option UInt8 :=
  (texts.find? (takesIn commands reading ip)).map fun text => (entryGroup commands text).1

def verdict (group : Option UInt8) : Bool × UInt8 :=
  match group with
  | some group => (true, group)
  | none => (false, noprivgroup)

theorem verdict_injective (g h : Option UInt8) (same : verdict g = verdict h) : g = h := by
  cases g with
  | none =>
    cases h with
    | none => rfl
    | some h => cases congrArg Prod.fst same
  | some g =>
    cases h with
    | none => cases congrArg Prod.fst same
    | some h => exact congrArg some (congrArg Prod.snd same)

theorem row_takes (ip : In6Addr) (text : Bytes) :
    (entryRow commands text).any (matchEntry ip) = takesIn commands taken ip text := by
  unfold entryRow takesIn
  cases taken (entryGroup commands text).2 with
  | none => rfl
  | some entry => exact decide_eq_decide.mpr (row_agree entry.2 ip entry.1)

theorem checkConnect_first (allow : Bytes) (network : Bool) (texts : List Bytes) (stack : In6Addr)
    (client : Client) :
    checkConnect (some allow) network (texts.filterMap (entryRow commands)) stack client =
      verdict (firstGroup commands taken (clientIp stack client) texts) := by
  unfold checkConnect
  dsimp only
  generalize clientIp stack client = ip
  induction texts with
  | nil => rfl
  | cons text texts ih =>
    have here := row_takes commands ip text
    unfold firstGroup at ih ⊢
    cases found : entryRow commands text with
    | none =>
      rw [found] at here
      rw [List.filterMap_cons_none found,
        List.find?_cons_of_neg (by rw [← here]; exact Bool.false_ne_true)]
      exact ih
    | some entry =>
      rw [found, Option.any_some] at here
      rw [List.filterMap_cons_some found]
      by_cases takes : takesIn commands taken ip text = true
      · have row := here.trans takes
        rw [List.find?_cons_of_pos row, List.find?_cons_of_pos takes]
        unfold entryRow at found
        obtain ⟨read, _, rfl⟩ := Option.map_eq_some_iff.mp found
        rfl
      · have row := fun same => takes (here.symm.trans same)
        rw [List.find?_cons_of_neg row, List.find?_cons_of_neg takes]
        exact ih

/-! ## Plain entries -/

/-- An entry that is not plain decides for a client only as the next documented one does. -/
def PlainFirst (ip : In6Addr) (texts : List Bytes) : Prop :=
  ∀ before text after, texts = before ++ text :: after → takesIn commands taken ip text = true →
    (∀ earlier ∈ before, takesIn commands taken ip earlier = false) →
    Plain (entryGroup commands text).2 ∨
      firstGroup commands documented ip after = some (entryGroup commands text).1

theorem takes_plain (ip : In6Addr) (text : Bytes) (plain : Plain (entryGroup commands text).2) :
    takesIn commands documented ip text = takesIn commands taken ip text := by
  unfold takesIn
  rw [documented_plain _ plain]

theorem takes_unplain (ip : In6Addr) (text : Bytes) (other : ¬ Plain (entryGroup commands text).2) :
    takesIn commands documented ip text = false := by
  unfold takesIn
  rw [documented_unplain _ other]
  rfl

theorem firstGroup_pos (reading : Bytes → Option (In6Addr × Nat)) (ip : In6Addr) (text : Bytes)
    (texts : List Bytes) (takes : takesIn commands reading ip text = true) :
    firstGroup commands reading ip (text :: texts) = some (entryGroup commands text).1 := by
  unfold firstGroup
  rw [List.find?_cons_of_pos takes]
  rfl

theorem firstGroup_neg (reading : Bytes → Option (In6Addr × Nat)) (ip : In6Addr) (text : Bytes)
    (texts : List Bytes) (passes : takesIn commands reading ip text = false) :
    firstGroup commands reading ip (text :: texts) = firstGroup commands reading ip texts := by
  unfold firstGroup
  rw [List.find?_cons_of_neg (by rw [passes]; exact Bool.false_ne_true)]

/-- An entry that takes in the address decides. -/
theorem plainFirst_here (ip : In6Addr) (text : Bytes) (texts : List Bytes)
    (takes : takesIn commands taken ip text = true) :
    PlainFirst commands ip (text :: texts) ↔
      Plain (entryGroup commands text).2 ∨
        firstGroup commands documented ip texts = some (entryGroup commands text).1 := by
  constructor
  · intro first
    exact first [] text texts rfl takes nofun
  · intro here before text' after split _ passes
    cases before with
    | nil =>
      cases split
      exact here
    | cons earlier before =>
      cases split
      rw [passes text List.mem_cons_self] at takes
      cases takes

theorem plainFirst_pass (ip : In6Addr) (text : Bytes) (texts : List Bytes)
    (passes : takesIn commands taken ip text = false) :
    PlainFirst commands ip (text :: texts) ↔ PlainFirst commands ip texts := by
  constructor
  · intro first before text' after split takes earlier
    exact first (text :: before) text' after (by rw [split]; rfl) takes
      (List.forall_mem_cons.mpr ⟨passes, earlier⟩)
  · intro first before text' after split takes earlier
    cases before with
    | nil =>
      cases split
      rw [passes] at takes
      cases takes
    | cons head before =>
      cases split
      exact first before text' after rfl takes fun e inside =>
        earlier e (List.mem_cons_of_mem _ inside)

theorem first_iff (ip : In6Addr) (texts : List Bytes) :
    firstGroup commands taken ip texts = firstGroup commands documented ip texts ↔
      PlainFirst commands ip texts := by
  induction texts with
  | nil =>
    refine iff_of_true rfl fun before text after split => ?_
    cases before <;> cases split
  | cons text texts ih =>
    by_cases takes : takesIn commands taken ip text = true
    · rw [plainFirst_here commands ip text texts takes,
        firstGroup_pos commands taken ip text texts takes]
      by_cases plain : Plain (entryGroup commands text).2
      · rw [firstGroup_pos commands documented ip text texts
          ((takes_plain commands ip text plain).trans takes)]
        exact iff_of_true rfl (.inl plain)
      · rw [firstGroup_neg commands documented ip text texts (takes_unplain commands ip text plain)]
        exact ⟨fun same => .inr same.symm, fun here => (here.resolve_left plain).symm⟩
    · rw [Bool.not_eq_true] at takes
      have passes : takesIn commands documented ip text = false := by
        by_cases plain : Plain (entryGroup commands text).2
        · exact (takes_plain commands ip text plain).trans takes
        · exact takes_unplain commands ip text plain
      rw [firstGroup_neg commands taken ip text texts takes,
        firstGroup_neg commands documented ip text texts passes, ih,
        plainFirst_pass commands ip text texts takes]

/-! ## Clients -/

def zone : Sockaddr → Bytes
  | .inet _ => []
  | .inet6 _ zone => zone

/-- The address of a client, an IPv4 one as it is mapped. -/
def addressOf : Sockaddr → In6Addr
  | .inet addr => mapped (List.ofFn addr)
  | .inet6 addr _ => addr

/-- inet_pton does not read a zone. -/
theorem clientIp_address (stack : In6Addr) (client : Client) :
    clientIp stack client = if zone client.cli = [] then addressOf client.cli else stack := by
  obtain ⟨cli, connectaddr, numeric⟩ := client
  cases cli with
  | inet addr =>
    have read : inetPton6 (mappedText ++ connectaddr) = some (mapped (List.ofFn addr)) := by
      rw [inetPton6_mapped connectaddr (quad_plain _ _ numeric) (quad_dot _ _ numeric), numeric]
      rfl
    exact congrArg (Option.getD · stack) read
  | inet6 addr zone' =>
    obtain ⟨text, read, host⟩ := id numeric
    show (inetPton6 connectaddr).getD stack = if zone' = [] then addr else stack
    rw [host]
    by_cases none : zone' = []
    · rw [if_pos none, if_pos none, read]
      rfl
    · rw [if_neg none, if_neg none]
      cases whole : inetPton6 (text ++ percent :: zone') with
      | none => rfl
      | some ip =>
        have spelled :=
          inetPton6_spelled _ ip whole percent (List.mem_append_right _ List.mem_cons_self)
        exact absurd spelled (by decide)

/-! ## The verdict -/

/-- Whether a client is accepted, and its group, as the list is documented. -/
def granted (allow : Bytes) (client : Client) : Bool × UInt8 :=
  verdict (firstGroup commands documented (addressOf client.cli) (entries allow))

/-- The table is set up and gives the client what the list grants, whatever is on the stack. -/
def Served (allow : Bytes) (network : Bool) (client : Client) : Prop :=
  ∃ ipaccess, setupIpaccess commands allow = some ipaccess ∧
    ∀ stack, checkConnect (some allow) network ipaccess stack client = granted commands allow client

theorem served_first (allow : Bytes) (network : Bool) (client : Client) :
    Served commands allow network client ↔ Safe commands (entries allow) ∧
      ∀ stack, firstGroup commands taken (clientIp stack client) (entries allow) =
        firstGroup commands documented (addressOf client.cli) (entries allow) := by
  constructor
  · rintro ⟨ipaccess, set, checked⟩
    have safe : Safe commands (entries allow) := by
      intro text among exceeds
      unfold setupIpaccess at set
      rw [setupLoop_overflow commands allow [] zeroSlot text among exceeds] at set
      cases set
    refine ⟨safe, fun stack => ?_⟩
    unfold setupIpaccess at set
    rw [setupLoop_rows commands allow [] zeroSlot safe, List.nil_append] at set
    cases set
    have same := checked stack
    rw [checkConnect_first] at same
    exact verdict_injective _ _ same
  · rintro ⟨safe, same⟩
    refine ⟨_, setupLoop_rows commands allow [] zeroSlot safe, fun stack => ?_⟩
    rw [List.nil_append, checkConnect_first, same stack]
    rfl

/-- No sum overflows, the first entry for the client is plain or the next documented one has
its group, and for a client with a zone the list decides all addresses alike. -/
structure Clear (allow : Bytes) (client : Client) : Prop where
  safe : Safe commands (entries allow)
  plain : PlainFirst commands (addressOf client.cli) (entries allow)
  zone : zone client.cli ≠ [] → ∀ ip, firstGroup commands taken ip (entries allow) =
    firstGroup commands taken (addressOf client.cli) (entries allow)

theorem served_iff (allow : Bytes) (network : Bool) (client : Client) :
    Served commands allow network client ↔ Clear commands allow client := by
  rw [served_first]
  constructor
  · rintro ⟨safe, same⟩
    have here := same (addressOf client.cli)
    rw [clientIp_address, ite_self] at here
    refine ⟨safe, (first_iff commands _ _).mp here, fun named ip => ?_⟩
    have there := same ip
    rw [clientIp_address, if_neg named] at there
    exact there.trans here.symm
  · rintro ⟨safe, plain, alike⟩
    refine ⟨safe, fun stack => ?_⟩
    rw [clientIp_address, ← (first_iff commands _ _).mpr plain]
    by_cases none : zone client.cli = []
    · rw [if_pos none]
    · rw [if_neg none]
      exact alike none stack

end

/-- A client of 203.0.113.5. -/
def outsider : Client where
  cli := .inet fun j => [203, 0, 113, 5].getD j 0
  connectaddr := ascii "203.0.113.5"
  numeric := show quad _ = some [203, 0, 113, 5] by decide +kernel

/-- An entry for a network at home whose prefix has a letter behind its first digit takes in
half of all addresses. -/
theorem mistyped_prefix : ¬ Served (fun _ => none) (ascii "W:192.168.0.0/1O") false outsider := by
  intro served
  have same := ((served_first _ _ _ _).mp served).2 fun _ => 0
  rw [clientIp_address] at same
  exact absurd same (by decide +kernel)

end CgminerT4.Guarantees.AccessList
