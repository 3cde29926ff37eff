import CgminerT4.Source.PoolConfig

/-!
# The text of the saved pools

A standard reader gives one object of three strings for each pool, in the order
of the priorities, if all the strings can stand in a JSON text.
-/
namespace CgminerT4.Guarantees.ConfigText
open Library.ByteString Library.JsonText Source.PoolConfig

/-! ## Names and marks -/

theorem bar_text : ascii "|" = [bar] := by rw [ascii_eq]; rfl

theorem semicolon_text : ascii ";" = [semicolon] := by rw [ascii_eq]; rfl

theorem proxynames_eq :
    proxynames = [([0x68, 0x74, 0x74, 0x70, 0x3a], .http),
      ([0x68, 0x74, 0x74, 0x70, 0x30, 0x3a], .http10),
    ([0x73, 0x6f, 0x63, 0x6b, 0x73, 0x34, 0x3a], .socks4),
    ([0x73, 0x6f, 0x63, 0x6b, 0x73, 0x35, 0x3a], .socks5),
    ([0x73, 0x6f, 0x63, 0x6b, 0x73, 0x34, 0x61, 0x3a], .socks4a),
    ([0x73, 0x6f, 0x63, 0x6b, 0x73, 0x35, 0x68, 0x3a], .socks5h)] := by
  simp only [proxynames, ascii_eq]
  rfl

/-- The names of proxies have digits, colons and small letters. -/
theorem proxytype_plain (type : ProxyType) :
    ∀ c ∈ proxytype type, 0x30 ≤ c ∧ c ≤ 0x3a ∨ 0x61 ≤ c ∧ c ≤ 0x7a := by
  unfold proxytype
  rw [proxynames_eq]
  cases type <;> decide +kernel

/-- A character that is none of these is not in the name of a proxy. -/
theorem proxytype_without (type : ProxyType) (d : UInt8)
    (other : ¬ (0x30 ≤ d ∧ d ≤ 0x3a ∨ 0x61 ≤ d ∧ d ≤ 0x7a)) :
    ∀ c ∈ proxytype type, decide (c ≠ d) = true := by
  intro c member
  refine decide_eq_true ?_
  rintro rfl
  exact other (proxytype_plain type c member)

/-! ## The saved text -/

def proxyPart (proxy : Option (ProxyType × Bytes)) : Bytes :=
  match proxy with
  | some (type, address) => proxytype type ++ address ++ ascii "|"
  | none => []

/-- The string that carries the url. -/
def urlText (pool : Settings) : Bytes :=
  proxyPart pool.proxy ++
    (if pool.quota.val ≠ 1 then decimal pool.quota.val ++ ascii ";" else []) ++ pool.rpcUrl

def urlKey (pool : Settings) : Bytes := if pool.quota.val ≠ 1 then ascii "quota" else ascii "url"

def entrySpace : Bytes := [0x0a, 0x09]
def memberSpace : Bytes := [0x0a, 0x09, 0x09]
def gap : Bytes := [0x20]

/-- The object written for a pool, with what follows it. -/
def objectText (pool : Settings) (rest : Bytes) : Bytes :=
  entrySpace ++ openBrace :: memberText memberSpace (urlKey pool) gap gap (urlText pool) (comma ::
    memberText memberSpace (ascii "user") gap gap pool.rpcUser (comma ::
      memberText memberSpace (ascii "pass") gap gap pool.rpcPass
        (entrySpace ++ closeBrace :: rest)))

theorem jsonEscape_eq (s : Bytes) : jsonEscape s = escaped s := by
  induction s with
  | nil => rfl
  | cons c s ih => rw [jsonEscape, escaped_cons, ih]

theorem escaped_proxytype (type : ProxyType) : escaped (proxytype type) = proxytype type := by
  refine escaped_plain _ fun c member special => ?_
  have plain := proxytype_plain type c member
  rcases special with rfl | rfl <;> exact absurd plain (by decide)

theorem escaped_decimal (n : Nat) : escaped (decimal n) = decimal n := by
  refine escaped_plain _ fun c member special => ?_
  obtain ⟨lower, upper⟩ := decimal_digits n c member
  rcases special with rfl | rfl
  · exact absurd upper (by decide)
  · exact absurd lower (by decide)

theorem proxyText_eq (pool : Settings) : proxyText pool = escaped (proxyPart pool.proxy) := by
  have plainBar : escaped (ascii "|") = ascii "|" := by rw [bar_text]; rfl
  unfold proxyText proxyPart
  cases pool.proxy with
  | none => rfl
  | some proxy =>
    show jsonEscape (proxytype proxy.1) ++ jsonEscape proxy.2 ++ ascii "|" =
      escaped (proxytype proxy.1 ++ proxy.2 ++ ascii "|")
    rw [escaped_append, escaped_append, escaped_proxytype, plainBar, jsonEscape_eq, jsonEscape_eq,
      escaped_proxytype]

theorem writePool_eq (i : Nat) (pool : Settings) (rest : Bytes) :
    writePool i pool ++ rest = (if i > 0 then [comma] else []) ++ objectText pool rest := by
  have quotaStart : ascii "\n\t\x7b\n\t\t\"quota\" : \"" = entrySpace ++ openBrace ::
      (memberSpace ++ quote :: (escaped (ascii "quota") ++
        quote :: (gap ++ colon :: (gap ++ [quote])))) := by
    simp only [ascii_eq]
    rfl
  have urlStart : ascii "\n\t\x7b\n\t\t\"url\" : \"" = entrySpace ++ openBrace ::
      (memberSpace ++ quote :: (escaped (ascii "url") ++
        quote :: (gap ++ colon :: (gap ++ [quote])))) := by
    simp only [ascii_eq]
    rfl
  have userStart : ascii "\n\t\t\"user\" : \"" =
      memberSpace ++ quote :: (escaped (ascii "user") ++
        quote :: (gap ++ colon :: (gap ++ [quote]))) := by
    simp only [ascii_eq]
    rfl
  have passStart : ascii "\n\t\t\"pass\" : \"" =
      memberSpace ++ quote :: (escaped (ascii "pass") ++
        quote :: (gap ++ colon :: (gap ++ [quote]))) := by
    simp only [ascii_eq]
    rfl
  have ended : ascii "\"," = [quote, comma] := by rw [ascii_eq]; rfl
  have last : ascii "\"\n\t\x7d" = quote :: (entrySpace ++ [closeBrace]) := by rw [ascii_eq]; rfl
  have first : ascii "," = [comma] := by rw [ascii_eq]; rfl
  have plainSemicolon : escaped (ascii ";") = ascii ";" := by rw [semicolon_text]; rfl
  unfold writePool objectText memberText urlKey urlText
  rw [quotaStart, urlStart, userStart, passStart, ended, last, first]
  by_cases other : pool.quota.val ≠ 1
  · simp only [if_pos other, proxyText_eq, jsonEscape_eq, escaped_append, escaped_decimal,
      plainSemicolon, List.append_assoc, List.cons_append, List.nil_append]
  · simp only [if_neg other, proxyText_eq, jsonEscape_eq, escaped_append, List.append_assoc,
      List.cons_append, List.nil_append]

/-! ## Reading the text -/

def cleanEntry (pool : Settings) : Bool :=
  clean (urlText pool) && clean pool.rpcUser && clean pool.rpcPass

def entryValue (pool : Settings) : Value :=
  .object [(urlKey pool, .string (urlText pool)), (ascii "user", .string pool.rpcUser),
    (ascii "pass", .string pool.rpcPass)]

/-- The names of members need no escapes. -/
theorem names_clean :
    ∀ name ∈ [ascii "pools", ascii "quota", ascii "url", ascii "user", ascii "pass"],
      clean name := by
  decide +kernel

theorem value_objectText (n : Nat) (pool : Settings) (rest : Bytes) :
    value (n + 5) (objectText pool rest) =
      if cleanEntry pool then some (entryValue pool, rest) else none := by
  have keyed : clean (urlKey pool) := by
    unfold urlKey
    split <;> exact names_clean _ (by simp only [List.mem_cons, true_or, or_true])
  have user : clean (ascii "user") := names_clean _ (by simp only [List.mem_cons, true_or, or_true])
  have pass : clean (ascii "pass") := names_clean _ (by simp only [List.mem_cons, true_or, or_true])
  have starts : ∀ name w2 w3 v s, (skip (memberText memberSpace name w2 w3 v s)).head? =
      some quote := by
    intro name w2 w3 v s
    unfold memberText
    rw [skip_to _ quote _ (by decide) (by decide), List.head?_cons]
  unfold objectText
  rw [value_object (n + 4) entrySpace _ (by decide) (by rw [starts]; decide),
    members_more (n + 2) _ _ _ _ _ _ (by decide) (by decide) (by decide) keyed,
    members_more (n + 1) _ _ _ _ _ _ (by decide) (by decide) (by decide) user,
    members_last n _ _ _ _ _ _ _ (by decide) (by decide) (by decide) (by decide) pass]
  unfold cleanEntry
  cases clean (urlText pool) <;> cases clean pool.rpcUser <;> cases clean pool.rpcPass <;> rfl

/-- The objects of several pools, with what follows them. -/
def itemsText (pool : Settings) : List Settings → Bytes → Bytes
  | [], rest => objectText pool rest
  | next :: pools, rest => objectText pool (comma :: itemsText next pools rest)

theorem elements_items (n : Nat) (pool : Settings) (pools : List Settings) (rest : Bytes) :
    elements (n + pools.length + 6) (itemsText pool pools (0x0a :: closeBracket :: rest)) =
      if (pool :: pools).all cleanEntry then some ((pool :: pools).map entryValue, rest) else
        none := by
  induction pools generalizing pool with
  | nil =>
    have closed : skip (0x0a :: closeBracket :: rest) = closeBracket :: rest :=
      skip_to [0x0a] closeBracket rest (by decide) (by decide)
    rw [itemsText, elements, List.length_nil, Nat.add_zero, value_objectText n pool, List.all_cons,
      List.all_nil, Bool.and_true]
    cases cleanEntry pool
    · rfl
    · simp only [if_true, closed]
      rfl
  | cons next pools ih =>
    have solid : ∀ s, skip (comma :: s) = comma :: s := fun s => skip_solid comma s (by decide)
    rw [itemsText, elements, List.length_cons, show n + (pools.length + 1) + 5 =
      n + pools.length + 1 + 5 by omega,
      value_objectText (n + pools.length + 1) pool, List.all_cons]
    cases cleanEntry pool
    · rfl
    · simp only [if_true, solid, show n + pools.length + 1 + 5 =
        n + pools.length + 6 by omega, ih next, Bool.true_and]
      split <;> rfl

theorem written_items (pool : Pool) (pools : List Pool) (k : Nat) (rest : Bytes) :
    ((pool :: pools).zipIdx k).flatMap (fun (pool, i) => writePool i pool.settings) ++ rest =
      (if k > 0 then [comma] else []) ++
        itemsText pool.settings (pools.map Pool.settings) rest := by
  induction pools generalizing pool k with
  | nil =>
    rw [List.zipIdx_cons, List.zipIdx_nil, List.flatMap_cons, List.flatMap_nil, List.append_nil]
    exact writePool_eq k pool.settings rest
  | cons next pools ih =>
    rw [List.zipIdx_cons, List.flatMap_cons, List.append_assoc, ih next (k + 1), if_pos k.succ_pos]
    exact writePool_eq k pool.settings _

theorem itemsText_length (pool : Settings) (pools : List Settings) (rest : Bytes) :
    pools.length + 1 + rest.length ≤ (itemsText pool pools rest).length := by
  have object : ∀ (pool : Settings) (rest : Bytes),
      rest.length + 1 ≤ (objectText pool rest).length := by
    intro pool rest
    simp only [objectText, memberText, List.length_append, List.length_cons]
    omega
  induction pools generalizing pool with
  | nil =>
    have := object pool rest
    rw [itemsText, List.length_nil]
    omega
  | cons next pools ih =>
    have := object pool (comma :: itemsText next pools rest)
    have := ih next
    rw [itemsText, List.length_cons]
    rw [List.length_cons] at *
    omega

def savedSettings (pools : List Pool) : List Settings :=
  (byPriority Pool.prio pools).map Pool.settings

/-- What is between the name of the array and its items. -/
def fileText (items : Bytes) : Bytes :=
  [] ++ openBrace :: ([0x0a] ++
    quote :: (escaped (ascii "pools") ++ quote :: (gap ++ colon :: (gap ++ openBracket :: items))))

theorem fileText_length (items : Bytes) : (fileText items).length = items.length + 13 := by
  have front : fileText items = fileText [] ++ items := by
    simp only [fileText, List.append_assoc, List.cons_append, List.nil_append]
  have constant : (fileText []).length = 13 := by
    simp only [fileText, ascii_eq]
    rfl
  rw [front, List.length_append, constant, Nat.add_comm]

/-- What follows the array of pools. -/
def fileEnd : Bytes := [0x0a, closeBrace, 0x0a]

theorem value_fileText (n : Nat) (items : Bytes) (item : Value) (allowed : Bool)
    (array : value (n + 1) (gap ++ openBracket :: items) =
      if allowed then some (item, fileEnd) else none) :
    value (n + 3) (fileText items) =
      if allowed then some (.object [(ascii "pools", item)], [0x0a]) else none := by
  have starts : ∀ s : Bytes, (skip ([0x0a] ++ quote :: s)).head? ≠ some closeBrace := by
    intro s
    rw [skip_to _ quote _ (by decide) (by decide), List.head?_cons]
    decide
  have named : clean (ascii "pools") := names_clean _ List.mem_cons_self
  have closed : skip fileEnd = [closeBrace, 0x0a] := by decide
  unfold fileText
  rw [value_object (n + 2) [] _ (by decide) (starts _),
    members_value (n + 1) _ _ _ _ (by decide) (by decide) named, array]
  cases allowed
  · rfl
  · simp only [if_true, closed]
    rfl

/-- The saved file is read as an array of the entries if the strings allow it. -/
theorem read_saved (pools : List Pool) :
    read (writePools pools ++ ascii "\x7d\n") =
      if (savedSettings pools).all cleanEntry then
        some (.object [(ascii "pools", .array ((savedSettings pools).map entryValue))])
      else none := by
  have front : ascii "\x7b\n\"pools\" : [" = fileText [] := by
    simp only [fileText, ascii_eq]
    rfl
  have back : ascii "\n]\n" ++ ascii "\x7d\n" = 0x0a :: closeBracket :: fileEnd := by
    simp only [fileEnd, ascii_eq]
    rfl
  have file : writePools pools ++ ascii "\x7d\n" =
      fileText (((byPriority Pool.prio pools).zipIdx.flatMap fun (pool, i) =>
        writePool i pool.settings) ++
        0x0a :: closeBracket :: fileEnd) := by
    unfold writePools
    rw [List.append_assoc, List.append_assoc, back, front]
    simp only [fileText, List.append_assoc, List.cons_append, List.nil_append]
  rw [file]
  unfold Library.JsonText.read savedSettings
  cases byPriority Pool.prio pools with
  | nil =>
    have loaded := value_fileText 16 (0x0a :: closeBracket :: fileEnd) (.array []) true
      (value_emptyArray 16 gap [0x0a] fileEnd (by decide) (by decide))
    have size : (fileText (0x0a :: closeBracket :: fileEnd)).length + 1 = 16 + 3 := by
      rw [fileText_length]
      rfl
    rw [List.zipIdx_nil, List.flatMap_nil, List.nil_append, size, loaded]
    rfl
  | cons pool pools =>
    rw [written_items pool pools 0, if_neg (by decide), List.nil_append, List.map_cons]
    generalize pools.map Pool.settings = others
    generalize pool.settings = first
    have size := itemsText_length first others (0x0a :: closeBracket :: fileEnd)
    have started : (skip (itemsText first others (0x0a :: closeBracket :: fileEnd))).head? ≠
        some closeBracket := by
      have object : ∀ rest, (skip (objectText first rest)).head? = some openBrace := by
        intro rest
        unfold objectText
        rw [skip_to _ openBrace _ (by decide) (by decide), List.head?_cons]
      cases others <;> (rw [itemsText, object]; decide)
    obtain ⟨n, fuel⟩ :
        ∃ n, (fileText (itemsText first others (0x0a :: closeBracket :: fileEnd))).length + 1 =
        n + others.length + 6 + 3 := by
      rw [fileText_length]
      exact ⟨(itemsText first others (0x0a :: closeBracket :: fileEnd)).length +
        5 - others.length, by omega⟩
    have array := value_array (n + others.length + 6) gap _ (by decide) started
    rw [elements_items n first others fileEnd] at array
    rw [fuel, value_fileText (n + others.length + 6) _ (.array ((first :: others).map entryValue))
      ((first :: others).all cleanEntry) (array.trans ?_)]
    · cases (first :: others).all cleanEntry
      · rfl
      · rfl
    · cases (first :: others).all cleanEntry <;> rfl

end CgminerT4.Guarantees.ConfigText
