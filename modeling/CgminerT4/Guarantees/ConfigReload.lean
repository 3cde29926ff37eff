import CgminerT4.Guarantees.ConfigText
import Mathlib.Data.List.Forall2

/-!
# Saved pools and pools reloaded

An entry sets up the url, the quota and the proxy that were saved exactly under
the condition of a pool below; the pools of a start have the priorities of the
entries' places.
-/
namespace CgminerT4.Guarantees.ConfigReload
open Library.ByteString Library.JsonText Source.PoolConfig ConfigText
open Source.PoolControl (atoi isSpace isDigit)
open Source.Jansson (toInt toInt_of_lt)
open Source.Reconnect (extractSockaddr)

/-- A pool that has all that was saved of another one. -/
def Restores (pool : Settings) (loaded : Loading) : Prop :=
  loaded.rpcUrl = some pool.rpcUrl ∧ loaded.rpcUser = some pool.rpcUser ∧
    loaded.rpcPass = some pool.rpcPass ∧
    loaded.quota = pool.quota.val ∧ loaded.proxy = pool.proxy

/-- The reloaded pools, by priority, are the saved ones. -/
def ReloadsSame (pools : List Pool) : Prop :=
  ∃ loaded, reload pools = some loaded ∧
    List.Forall₂ (fun pool => Restores pool.settings) (byPriority Pool.prio pools)
      (byPriority Loading.prio loaded)

/-- The url starts like a proxy and has a bar. -/
def looksProxied (url : Bytes) : Bool :=
  (proxynames.any fun entry => entry.1.isPrefixOf url) && bar ∈ url

/-- The condition of a pool. -/
structure Reloadable (pool : Settings) : Prop where
  url : clean pool.rpcUrl
  user : clean pool.rpcUser
  pass : clean pool.rpcPass
  usable : extractSockaddr pool.rpcUrl ≠ none
  scheme : stratumUrl pool.rpcUrl ∨ httpUrl pool.rpcUrl
  proxied : ∀ type address, pool.proxy = some (type, address) →
    pool.quota.val = 1 ∧ clean address ∧ bar ∉ address
  direct : pool.proxy = none → looksProxied pool.rpcUrl = false

/-! ## Order of the loaded pools -/

theorem filterMap_places {α : Type} (l : List α) :
    (List.range l.length).filterMap (fun i => l[i]?) = l := by
  induction l with
  | nil => rfl
  | cons a l ih =>
    rw [List.length_cons, List.range_succ_eq_map, List.filterMap_cons, List.getElem?_cons_zero,
      List.filterMap_map]
    exact congrArg (List.cons a) ih

/-- Pools whose priorities are their places are in the order of their priorities. -/
theorem byPriority_places {α : Type} (prio : α → Nat) (l : List α)
    (places : l.map prio = List.range l.length) :
    byPriority prio l = l := by
  have prioAt : ∀ i (h : i < l.length), prio l[i] = i := by
    intro i h
    have place := congrArg (fun m : List Nat => m[i]?) places
    simp only [List.getElem?_map, List.getElem?_eq_getElem h, List.getElem?_range h,
      Option.map_some, Option.some.injEq]
      at place
    exact place
  have chosen : ∀ i, i < l.length → priorityPool prio l i = l[i]? := by
    intro i h
    unfold priorityPool
    rw [List.getElem?_eq_getElem h,
      List.find?_eq_some_iff_getElem.mpr ⟨by rw [prioAt i h]; exact decide_eq_true rfl, i, h,
      rfl, ?_⟩]
    · rfl
    · intro j before
      rw [prioAt j (by omega)]
      simp only [Bool.not_eq_true', decide_eq_false_iff_not]
      omega
  unfold byPriority
  refine Eq.trans ?_ (filterMap_places l)
  exact List.filterMap_congr fun i member => chosen i (List.mem_range.mp member)

/-! ## Loading the entries -/

/-- The entry that is read for a pool. -/
def entry (pool : Settings) : Entry :=
  [(urlKey pool, urlText pool), (ascii "user", pool.rpcUser), (ascii "pass", pool.rpcPass)]

theorem entriesOf_saved (saved : List Settings) :
    entriesOf (.object [(ascii "pools", .array (saved.map entryValue))]) =
      some (saved.map entry) := by
  have each : ∀ pool, entryOf (entryValue pool) = some (entry pool) := fun pool => rfl
  have found : List.lookup (ascii "pools") [(ascii "pools", Value.array (saved.map entryValue))] =
      some (Value.array (saved.map entryValue)) := List.lookup_cons_self
  unfold entriesOf
  simp only [found]
  induction saved with
  | nil => rfl
  | cons pool saved ih =>
    rw [List.map_cons, List.mapM_cons, each, ih List.lookup_cons_self]
    rfl

/-- What set_url or set_quota puts into the pool, if it does not refuse the string. -/
def carried (pool : Settings) : Option (Option (Int × Option (ProxyType × Bytes) × Bytes)) :=
  if pool.quota.val ≠ 1 then
    let front := (urlText pool).takeWhile (· ≠ semicolon)
    let url := ((urlText pool).dropWhile (· ≠ semicolon)).drop 1
    if semicolon ∉ urlText pool ∨ front.length = 0 ∨ url.length < 1 ∨ atoi front < 0 then some none
    else (setupUrl url).map fun (proxy, url) => some (atoi front, proxy, url)
  else (setupUrl (urlText pool)).map fun (proxy, url) => some (1, proxy, url)

/-- The pools that the entries add from the place `k` on. -/
def loadedPools : Nat → List Settings → Option (List Loading)
  | _, [] => some []
  | k, pool :: pools =>
    match carried pool with
    | none => none
    | some none => some [⟨none, none, some pool.rpcPass, 1, none, k⟩]
    | some (some (quota, proxy, url)) =>
      (loadedPools (k + 1) pools).map fun more =>
        ⟨some url, some pool.rpcUser, some pool.rpcPass, quota, proxy, k⟩ :: more

/-- The state between two entries. -/
def balanced (l : List Loading) : Config := ⟨l, l.length, l.length, l.length, 0⟩

theorem modify_last {α : Type} (l : List α) (a : α) (f : α → α) :
    (l ++ [a]).modify l.length f = l ++ [f a] := by
  induction l with
  | nil => rfl
  | cons b l ih =>
    rw [List.cons_append, List.length_cons, List.modify_succ_cons, ih, List.cons_append]

theorem poolFor_enough (c : Config) (total : Nat) (enough : total ≤ c.pools.length) :
    poolFor c total = c :=
  if_neg (by omega)

/-- The pool that the password adds. -/
def started (l : List Loading) (pass : Bytes) : Loading :=
  ⟨none, none, some pass, 1, none, l.length⟩

/-- The state behind the password of the next entry. -/
def opened (l : List Loading) (pool : Loading) (urls : Nat) : Config :=
  ⟨l ++ [pool], urls, l.length, l.length + 1, 0⟩

theorem setPass_next (l : List Loading) (arg : Bytes) :
    setPass (balanced l) arg = some (opened l (started l arg) l.length, none) := by
  have added : poolFor { balanced l with totalPasses := (balanced l).totalPasses + 1 }
      ((balanced l).totalPasses + 1) =
      opened l ⟨none, none, none, 1, none, l.length⟩ l.length := if_pos (Nat.lt_succ_self _)
  have last := modify_last l ⟨none, none, none, 1, none, l.length⟩ fun pool =>
    { pool with rpcPass := some arg }
  unfold setPass
  rw [if_neg (show ¬ (balanced l).totalUserpasses ≠ 0 from fun differs => differs rfl)]
  simp only [added]
  exact congrArg (fun pools => some (Config.mk pools l.length l.length (l.length + 1) 0, none)) last

theorem addUrl_next (l : List Loading) (pool : Loading) :
    addUrl (opened l pool l.length) = opened l pool (l.length + 1) :=
  poolFor_enough _ _ (by simp [opened])

theorem setUrl_next (l : List Loading) (pool : Loading) (arg : Bytes) :
    setUrl (opened l pool l.length) arg = (setupUrl arg).map fun (proxy, url) =>
      (opened l { pool with proxy := proxy, rpcUrl := some url } (l.length + 1), none) := by
  unfold setUrl
  rw [addUrl_next]
  refine congrArg (fun f => (setupUrl arg).map f) (funext fun (proxy, url) => ?_)
  have last := modify_last l pool fun pool => { pool with proxy := proxy, rpcUrl := some url }
  exact congrArg (fun pools => (Config.mk pools (l.length + 1) l.length (l.length + 1) 0,
    none)) last

theorem setUser_next (l : List Loading) (pool : Loading) (arg : Bytes) :
    setUser (opened l pool (l.length + 1)) arg =
      some (balanced (l ++ [{ pool with rpcUser := some arg }]), none) := by
  have kept :
      poolFor { opened l pool (l.length + 1) with
          totalUsers := (opened l pool (l.length + 1)).totalUsers + 1 }
        ((opened l pool (l.length + 1)).totalUsers + 1) =
          { opened l pool (l.length + 1) with totalUsers := l.length + 1 } :=
    poolFor_enough _ _ (by simp [opened])
  have last := modify_last l pool fun pool => { pool with rpcUser := some arg }
  unfold setUser balanced
  rw [if_neg (show ¬ (opened l pool (l.length + 1)).totalUserpasses ≠ 0 from fun differs =>
    differs rfl),
    List.length_append, List.length_singleton]
  simp only [kept]
  exact congrArg (fun pools => some (Config.mk pools (l.length + 1) (l.length + 1) (l.length + 1) 0,
    none)) last

theorem setQuota_next (l : List Loading) (pool : Loading) (saved : Settings)
    (other : saved.quota.val ≠ 1) :
    match carried saved with
    | none => setQuota (opened l pool l.length) (urlText saved) = none
    | some none =>
      ∃ err, setQuota (opened l pool l.length) (urlText saved) =
        some (opened l pool l.length, some err)
    | some (some (quota, proxy, url)) => setQuota (opened l pool l.length) (urlText saved) =
        some (opened l { pool with proxy := proxy, rpcUrl := some url, quota := quota }
          (l.length + 1), none) := by
  unfold carried setQuota
  rw [if_pos other]
  by_cases separated : semicolon ∉ urlText saved
  · rw [if_pos (.inl separated), if_pos separated]
    exact ⟨_, rfl⟩
  rw [if_neg separated]
  by_cases unnamed : ((urlText saved).takeWhile (· ≠ semicolon)).length = 0
  · simp only [unnamed, separated, true_or, or_true, if_true]
    exact ⟨_, rfl⟩
  by_cases short : (((urlText saved).dropWhile (· ≠ semicolon)).drop 1).length < 1
  · simp only [unnamed, short, separated, true_or, or_true, if_true, if_false]
    exact ⟨_, rfl⟩
  by_cases negative : atoi ((urlText saved).takeWhile (· ≠ semicolon)) < 0
  · simp only [unnamed, short, negative, separated, or_true, if_true, if_false]
    exact ⟨_, rfl⟩
  simp only [unnamed, short, negative, separated, or_self, if_false, addUrl_next]
  cases setupUrl (((urlText saved).dropWhile (· ≠ semicolon)).drop 1) with
  | none => rfl
  | some result =>
    have last := modify_last l pool fun pool => { pool with
      proxy := result.1, rpcUrl := some result.2,
        quota := atoi ((urlText saved).takeWhile (· ≠ semicolon)) }
    exact congrArg (fun pools => some (Config.mk pools (l.length + 1) l.length (l.length + 1) 0,
      none)) last

theorem lookup_pass (pool : Settings) : (entry pool).lookup (ascii "pass") = some pool.rpcPass := by
  have key : (ascii "pass" == urlKey pool) = false := by
    unfold urlKey
    split <;> simp only [ascii_eq] <;> rfl
  have user : (ascii "pass" == ascii "user") = false := by simp only [ascii_eq]; rfl
  rw [entry, List.lookup_cons, key, List.lookup_cons, user, List.lookup_cons_self]

theorem lookup_user (pool : Settings) : (entry pool).lookup (ascii "user") = some pool.rpcUser := by
  have key : (ascii "user" == urlKey pool) = false := by
    unfold urlKey
    split <;> simp only [ascii_eq] <;> rfl
  rw [entry, List.lookup_cons, key, List.lookup_cons_self]

theorem lookup_key (pool : Settings) : (entry pool).lookup (urlKey pool) = some (urlText pool) :=
  List.lookup_cons_self

theorem lookup_other (pool : Settings) (name : Bytes) (key : (name == urlKey pool) = false)
    (user : (name == ascii "user") = false) (pass : (name == ascii "pass") = false) :
    (entry pool).lookup name = none := by
  rw [entry, List.lookup_cons, key, List.lookup_cons, user, List.lookup_cons, pass, List.lookup_nil]

/-- What the entry of a pool does to the pools before it. -/
theorem entry_read (l : List Loading) (pool : Settings) :
    match carried pool with
    | none => parseEntry (entry pool) (balanced l) poolOptions = none
    | some none => ∃ c err, parseEntry (entry pool) (balanced l) poolOptions = some (c, some err) ∧
        c.pools = l ++ [started l pool.rpcPass]
    | some (some (quota, proxy, url)) => parseEntry (entry pool) (balanced l) poolOptions =
        some (balanced (l ++
          [⟨some url, some pool.rpcUser, some pool.rpcPass, quota, proxy, l.length⟩]), none) := by
  by_cases other : pool.quota.val ≠ 1
  · have key : urlKey pool = ascii "quota" := if_pos other
    have quota := lookup_key pool
    have url :=
      lookup_other pool (ascii "url") (by simp only [key, ascii_eq]; rfl)
        (by simp only [ascii_eq]; rfl)
      (by simp only [ascii_eq]; rfl)
    have set := setQuota_next l (started l pool.rpcPass) pool other
    rw [key] at quota
    simp only [parseEntry, poolOptions, lookup_pass, lookup_user, quota, url, setPass_next]
    cases result : carried pool with
    | none =>
      simp only [result] at set ⊢
      rw [set]
    | some value =>
      cases value with
      | none =>
        simp only [result] at set ⊢
        obtain ⟨err, set⟩ := set
        exact ⟨_, err, by rw [set], rfl⟩
      | some value =>
        simp only [result] at set ⊢
        simp only [set, setUser_next]
        rfl
  · have key : urlKey pool = ascii "url" := if_neg other
    have url := lookup_key pool
    have quota :=
      lookup_other pool (ascii "quota") (by simp only [key, ascii_eq]; rfl)
        (by simp only [ascii_eq]; rfl)
      (by simp only [ascii_eq]; rfl)
    have carries : carried pool = (setupUrl (urlText pool)).map fun (proxy, url) =>
      some (1, proxy, url) := if_neg other
    have set := setUrl_next l (started l pool.rpcPass) (urlText pool)
    rw [key] at url
    simp only [parseEntry, poolOptions, lookup_pass, lookup_user, quota, url, setPass_next,
      carries, set]
    cases setupUrl (urlText pool) with
    | none => rfl
    | some result =>
      simp only [Option.map_some, setUser_next]
      rfl

/-- The run over the entries of the file. -/
theorem parsePools_saved (l : List Loading) (saved : List Settings) :
    (parsePools (balanced l) (saved.map entry)).map Config.pools =
    (loadedPools l.length saved).map (l ++ ·) := by
  induction saved generalizing l with
  | nil => simp [parsePools, loadedPools, balanced]
  | cons pool saved ih =>
    have step := entry_read l pool
    rw [List.map_cons, parsePools, loadedPools]
    cases result : carried pool with
    | none =>
      simp only [result] at step ⊢
      rw [step]
      rfl
    | some value =>
      cases value with
      | none =>
        simp only [result] at step ⊢
        obtain ⟨c, err, step, pools⟩ := step
        rw [step]
        exact congrArg some pools
      | some value =>
        simp only [result] at step ⊢
        have rest :=
          ih (l ++ [⟨some value.2.2, some pool.rpcUser, some pool.rpcPass, value.1, value.2.1,
            l.length⟩])
        rw [List.length_append, List.length_singleton] at rest
        simp only [step, rest, Option.map_map]
        refine congrArg (fun f => Option.map f (loadedPools (l.length + 1) saved))
          (funext fun more => ?_)
        simp

theorem loadedPools_places (k : Nat) (saved : List Settings) (loaded : List Loading)
    (loads : loadedPools k saved = some loaded) :
    loaded.map Loading.prio = List.range' k loaded.length := by
  induction saved generalizing k loaded with
  | nil =>
    cases loads
    rfl
  | cons pool saved ih =>
    rw [loadedPools] at loads
    split at loads
    · exact nomatch loads
    · cases loads
      rfl
    · obtain ⟨more, rest, rfl⟩ := Option.map_eq_some_iff.mp loads
      rw [List.map_cons, List.length_cons, List.range'_succ, ih (k + 1) more rest]

/-- An entry whose url carries what was saved. -/
def Carries (pool : Settings) : Prop :=
  carried pool = some (some ((pool.quota.val : Int), pool.proxy, pool.rpcUrl))

theorem loadedPools_restores (k : Nat) (saved : List Settings) :
    (∃ loaded, loadedPools k saved = some loaded ∧ List.Forall₂ Restores saved loaded) ↔
      ∀ pool ∈ saved, Carries pool := by
  induction saved generalizing k with
  | nil => exact ⟨fun _ pool member => (nomatch member), fun _ => ⟨[], rfl, .nil⟩⟩
  | cons pool saved ih =>
    rw [List.forall_mem_cons, ← ih (k + 1)]
    unfold Carries
    constructor
    · rintro ⟨loaded, loads, same⟩
      rw [loadedPools] at loads
      split at loads
      · exact nomatch loads
      · cases loads
        cases same with
        | cons first _ => exact nomatch first.1
      · rename_i quota proxy url carries
        obtain ⟨more, rest, rfl⟩ := Option.map_eq_some_iff.mp loads
        cases same with
        | cons first others =>
          obtain ⟨urls, _, _, quotas, proxies⟩ := first
          cases urls
          cases quotas
          cases proxies
          exact ⟨carries, more, rest, others⟩
    · rintro ⟨carries, more, rest, others⟩
      refine ⟨⟨some pool.rpcUrl, some pool.rpcUser, some pool.rpcPass, pool.quota.val, pool.proxy,
        k⟩ :: more, ?_,
        .cons ⟨rfl, rfl, rfl, rfl, rfl⟩ others⟩
      rw [loadedPools, carries]
      simp only [rest]
      rfl

/-! ## The proxy of a url -/

theorem getProxy_written (type : ProxyType) (rest : Bytes) (barred : bar ∈ rest) :
    getProxy (proxytype type ++ rest) =
      (some (type, rest.takeWhile (· ≠ bar)), (rest.dropWhile (· ≠ bar)).drop 1) := by
  have found : proxynames.find? (fun entry => entry.1.isPrefixOf (proxytype type ++ rest)) =
      some (proxytype type, type) := by
    unfold proxytype
    rw [proxynames_eq]
    cases type <;> rfl
  have plain := proxytype_without type bar (by decide)
  unfold getProxy
  simp only [found]
  rw [if_pos (List.mem_append_right _ barred), List.takeWhile_append_of_pos plain,
    List.dropWhile_append_of_pos plain, List.drop_left]

theorem getProxy_direct (url : Bytes) (direct : looksProxied url = false) :
    getProxy url = (none, url) := by
  unfold looksProxied at direct
  unfold getProxy
  split
  · rfl
  · rename_i name type found
    have named : proxynames.any (fun entry => entry.1.isPrefixOf url) = true :=
      List.any_eq_true.mpr ⟨(name, type),
        List.mem_of_find?_eq_some found, by simpa using List.find?_some found⟩
    rw [named, Bool.true_and, decide_eq_false_iff_not] at direct
    exact if_neg direct

theorem getProxy_proxied (url : Bytes) (proxied : looksProxied url = true) :
    ∃ type address, (getProxy url).1 = some (type, address) ∧
      address.length ≤ (url.takeWhile (· ≠ bar)).length ∧
      (getProxy url).2.length < url.length ∧ ∃ entry ∈ proxynames, entry.1.isPrefixOf url := by
  unfold looksProxied at proxied
  rw [Bool.and_eq_true, List.any_eq_true, decide_eq_true_iff] at proxied
  obtain ⟨⟨entry, member, starts⟩, barred⟩ := proxied
  have nonempty : 0 < url.length := List.length_pos_of_mem barred
  have shorter : ((url.dropWhile (· ≠ bar)).drop 1).length < url.length := by
    have := (List.dropWhile_suffix (l := url) (fun c => decide (c ≠ bar))).length_le
    rw [List.length_drop]
    omega
  have named : ∃ found, proxynames.find? (fun entry => entry.1.isPrefixOf url) = some found := by
    rw [← Option.isSome_iff_exists, List.find?_isSome]
    exact ⟨entry, member, starts⟩
  obtain ⟨⟨name, type⟩, found⟩ := named
  refine ⟨type, (url.takeWhile (· ≠ bar)).drop name.length, ?_, ?_, ?_, entry, member, starts⟩
  · unfold getProxy
    simp only [found, if_pos barred]
  · rw [List.length_drop]
    omega
  · unfold getProxy
    simp only [found, if_pos barred]
    exact shorter

/-! ## Setting up a url -/

def prefixed (url : Bytes) : Bytes := ascii "stratum+tcp://" ++ url

theorem prefixed_length (url : Bytes) : (prefixed url).length = url.length + 14 := by
  have size : (ascii "stratum+tcp://").length = 14 := by rw [ascii_eq]; rfl
  unfold prefixed
  rw [List.length_append, size]
  omega

theorem prefixed_eq (url : Bytes) : prefixed url =
    0x73 :: 0x74 :: ([0x72, 0x61, 0x74, 0x75, 0x6d, 0x2b, 0x74, 0x63, 0x70, 0x3a, 0x2f, 0x2f] ++
      url) := by
  have text : ascii "stratum+tcp://" =
      [0x73, 0x74, 0x72, 0x61, 0x74, 0x75, 0x6d, 0x2b, 0x74, 0x63, 0x70, 0x3a, 0x2f, 0x2f] := by
    rw [ascii_eq]
    rfl
  unfold prefixed
  rw [text]
  rfl

theorem stratumUrl_prefixed (url : Bytes) : stratumUrl (prefixed url) = true := by
  have scheme : stratumUrl (ascii "stratum+tcp://" ++ url) =
      decide ((ascii "stratum+tcp://").map lower = ascii "stratum+tcp://") := by
    unfold stratumUrl
    rw [List.take_left' (by rw [ascii_eq]; rfl)]
  unfold prefixed
  rw [scheme, ascii_eq]
  rfl

theorem looksProxied_prefixed (url : Bytes) : looksProxied (prefixed url) = false := by
  unfold looksProxied
  rw [prefixed_eq, proxynames_eq]
  simp [List.isPrefixOf]

/-- A url that is set up is the given one, or it was put behind the scheme. -/
theorem setupUrl_cases (arg : Bytes) (proxy : Option (ProxyType × Bytes)) (url : Bytes)
    (result : setupUrl arg = some (proxy, url)) :
    proxy = (getProxy arg).1 ∧
      (url = (getProxy arg).2 ∧ extractSockaddr url ≠ none ∧ (stratumUrl url ∨ httpUrl url) ∨
        url = prefixed (getProxy arg).2) := by
  unfold setupUrl at result
  generalize getProxy arg = found at result ⊢
  obtain ⟨p, u⟩ := found
  dsimp only at result
  by_cases usable : extractSockaddr u = none
  · rw [show detectStratum u = none from if_pos usable] at result
    exact nomatch result
  have detected : detectStratum u = some (if stratumUrl u then some u else none) := if_neg usable
  rw [detected] at result
  by_cases stratum : stratumUrl u
  · rw [if_pos stratum] at result
    cases result
    exact ⟨rfl, .inl ⟨rfl, usable, .inl stratum⟩⟩
  rw [if_neg stratum] at result
  by_cases http : httpUrl u
  · simp only [if_pos http] at result
    cases result
    exact ⟨rfl, .inl ⟨rfl, usable, .inr http⟩⟩
  simp only [if_neg http] at result
  by_cases long : 242 ≤ u.length
  · rw [if_pos long] at result
    exact nomatch result
  rw [if_neg long] at result
  obtain ⟨again, detectedAgain, same⟩ := Option.map_eq_some_iff.mp result
  cases same
  have stratumAgain : detectStratum (ascii "stratum+tcp://" ++ u) =
      if extractSockaddr (prefixed u) = none then none else some (some (prefixed u)) := by
    show (if extractSockaddr (prefixed u) = none then none
      else some (if stratumUrl (prefixed u) then some (prefixed u) else none)) = _
    rw [if_pos (stratumUrl_prefixed u)]
  rw [stratumAgain] at detectedAgain
  split at detectedAgain
  · exact nomatch detectedAgain
  · cases detectedAgain
    exact ⟨rfl, .inr rfl⟩

/-- The url itself is set up exactly if it is usable and has a scheme. -/
theorem setupUrl_same (arg : Bytes) (proxy : Option (ProxyType × Bytes)) :
    setupUrl arg = some (proxy, (getProxy arg).2) ↔
      proxy = (getProxy arg).1 ∧ extractSockaddr (getProxy arg).2 ≠ none ∧
        (stratumUrl (getProxy arg).2 ∨ httpUrl (getProxy arg).2) := by
  constructor
  · intro result
    obtain ⟨same, ⟨_, usable, scheme⟩ | longer⟩ := setupUrl_cases arg proxy _ result
    · exact ⟨same, usable, scheme⟩
    · have := congrArg List.length longer
      rw [prefixed_length] at this
      omega
  · rintro ⟨same, usable, scheme⟩
    have detected : detectStratum (getProxy arg).2 =
        some (if stratumUrl (getProxy arg).2 then some (getProxy arg).2 else none) := if_neg usable
    unfold setupUrl
    simp only [detected]
    by_cases stratum : stratumUrl (getProxy arg).2
    · rw [if_pos stratum, same]
    · simp only [if_neg stratum, if_pos (scheme.resolve_left stratum), same]

/-! ## Numbers -/

theorem digits_value (l : List Char) (digits : ∀ c ∈ l, c.isDigit = true) (n : Nat) :
    (l.map fun c => UInt8.ofNat c.toNat).foldl (fun (n : Int) c => 10 * n + (c.toNat - 48)) n =
      Nat.ofDigitChars 10 l n := by
  induction l generalizing n with
  | nil => rfl
  | cons c l ih =>
    obtain ⟨lower, upper⟩ := digit_range c (digits c List.mem_cons_self)
    have next :=
      ih (fun d member => digits d (List.mem_cons_of_mem c member)) (10 * n + (c.toNat - 48))
    have value : ((UInt8.ofNat c.toNat).toNat : Int) - 48 = ((c.toNat - 48 : Nat) : Int) := by
      rw [UInt8.toNat_ofNat_of_lt' (show c.toNat < 2 ^ 8 by omega)]
      omega
    rw [List.map_cons, List.foldl_cons, value]
    exact_mod_cast next

theorem atoi_decimal (n : Nat) (small : n < 2 ^ 31) : atoi (decimal n) = n := by
  have digits : ∀ c ∈ decimal n, isDigit c = true := by
    intro c member
    obtain ⟨lower, upper⟩ := decimal_digits n c member
    unfold isDigit
    rw [Bool.and_eq_true, decide_eq_true_iff, decide_eq_true_iff]
    exact ⟨UInt8.le_iff_toNat_le.mpr lower, UInt8.le_iff_toNat_le.mpr upper⟩
  have nonempty : decimal n ≠ [] := by
    rw [decimal_nat]
    intro none
    exact Nat.toDigits_ne_nil (List.map_eq_nil_iff.mp none)
  obtain ⟨first, rest, text⟩ := List.exists_cons_of_ne_nil nonempty
  have firstDigit := decimal_digits n first (by rw [text]; exact List.mem_cons_self)
  have stays : (decimal n).dropWhile isSpace = decimal n := by
    rw [text]
    have lower := firstDigit.1
    refine List.dropWhile_cons_of_neg fun space => ?_
    unfold isSpace at space
    rw [Bool.or_eq_true, Bool.and_eq_true, decide_eq_true_iff, decide_eq_true_iff,
      decide_eq_true_iff] at space
    rcases space with rfl | ⟨_, upper⟩
    · exact absurd lower (by decide)
    · have := UInt8.le_iff_toNat_le.mp upper
      have bound : (13 : UInt8).toNat = 13 := rfl
      omega
  have head : (decimal n).head? = some first := by rw [text]; rfl
  have notMinus : (some first = some (0x2d : UInt8)) = False := by
    refine eq_false fun same => ?_
    cases same
    exact absurd firstDigit.1 (by decide)
  have notPlus : (some first = some (0x2b : UInt8)) = False := by
    refine eq_false fun same => ?_
    cases same
    exact absurd firstDigit.1 (by decide)
  have number :
      ((decimal n).takeWhile isDigit).foldl (fun (n : Int) c => 10 * n + (c.toNat - 48)) 0 = n := by
    rw [List.takeWhile_eq_self_iff.mpr digits, decimal_nat]
    have value :=
      digits_value (Nat.toDigits 10 n) (fun c =>
        Nat.isDigit_of_mem_toDigits (by decide) (by decide)) 0
    rw [Nat.ofDigitChars_ten_toDigits] at value
    exact value
  unfold atoi
  simp only [stays, head, notMinus, notPlus, or_self, if_false, number]
  have clamped : max (-2 ^ 63 : Int) (min (2 ^ 63 - 1) n) = n := by omega
  rw [clamped, toInt_of_lt n small]

/-! ## What an entry carries -/

theorem semicolon_decimal (n : Nat) : semicolon ∉ decimal n := by
  intro member
  exact absurd (decimal_digits n semicolon member).2 (by decide)

theorem takeWhile_before (a b : Bytes) (c : UInt8) (outside : c ∉ a) :
    (a ++ c :: b).takeWhile (· ≠ c) = a ∧ (a ++ c :: b).dropWhile (· ≠ c) = c :: b := by
  have all : ∀ d ∈ a, decide (d ≠ c) = true :=
    fun d member => decide_eq_true fun same => outside (same ▸ member)
  have stops : (c :: b).takeWhile (fun d => decide (d ≠ c)) = [] ∧
      (c :: b).dropWhile (fun d => decide (d ≠ c)) = c :: b :=
    ⟨List.takeWhile_cons_of_neg (by simp), List.dropWhile_cons_of_neg (by simp)⟩
  rw [List.takeWhile_append_of_pos all, List.dropWhile_append_of_pos all, stops.1, stops.2,
    List.append_nil]
  exact ⟨rfl, rfl⟩

/-- Without a proxy the url is set up as it was saved. -/
theorem carried_direct (pool : Settings) (direct : pool.proxy = none) (named : pool.rpcUrl ≠ []) :
    carried pool = (setupUrl pool.rpcUrl).map fun (proxy, url) =>
      some ((pool.quota.val : Int), proxy, url) := by
  unfold carried urlText proxyPart
  rw [direct]
  by_cases other : pool.quota.val ≠ 1
  · obtain ⟨front, back⟩ :=
      takeWhile_before (decimal pool.quota.val) pool.rpcUrl semicolon (semicolon_decimal _)
    have separated : semicolon ∈ decimal pool.quota.val ++ semicolon :: pool.rpcUrl :=
      List.mem_append_right _ List.mem_cons_self
    have number := atoi_decimal pool.quota.val pool.quota.isLt
    have digits : (decimal pool.quota.val).length ≠ 0 := by
      rw [decimal_nat, List.length_map]
      exact fun empty => Nat.toDigits_ne_nil (List.length_eq_zero_iff.mp empty)
    have long : ¬ pool.rpcUrl.length < 1 := by
      have := List.length_pos_iff.mpr named
      omega
    simp only [if_pos other, semicolon_text, List.nil_append, List.append_assoc, List.cons_append,
      front, back, List.drop_one, List.tail_cons, number, separated, digits, long, not_true,
      false_or]
    rw [if_neg (by omega)]
  · have one : pool.quota.val = 1 := not_not.mp other
    simp only [one, ne_eq, not_true, if_false, List.nil_append]
    rfl

/-- The quota and what setting up the url gives are carried side by side. -/
theorem map_carried (set : Option (Option (ProxyType × Bytes) × Bytes)) (quota quota2 : Int)
    (proxy : Option (ProxyType × Bytes)) (url : Bytes) :
    (set.map fun (proxy, url) => some (quota, proxy, url)) = some (some (quota2, proxy, url)) ↔
      quota = quota2 ∧ set = some (proxy, url) := by
  cases set with
  | none => simp
  | some found => simp [Prod.ext_iff]

theorem usable_named (url : Bytes) (scheme : stratumUrl url ∨ httpUrl url) : url ≠ [] := by
  have empty : ¬ (stratumUrl [] ∨ httpUrl []) := by
    simp only [stratumUrl, httpUrl, ascii_eq]
    decide
  rintro rfl
  exact empty scheme

theorem carries_direct (pool : Settings) (direct : pool.proxy = none) :
    Carries pool ↔ extractSockaddr pool.rpcUrl ≠ none ∧ (stratumUrl pool.rpcUrl ∨
      httpUrl pool.rpcUrl) ∧
      looksProxied pool.rpcUrl = false := by
  have set : setupUrl pool.rpcUrl = some (none, pool.rpcUrl) ↔
      extractSockaddr pool.rpcUrl ≠ none ∧ (stratumUrl pool.rpcUrl ∨ httpUrl pool.rpcUrl) ∧
        looksProxied pool.rpcUrl = false := by
    cases proxied : looksProxied pool.rpcUrl with
    | true =>
      obtain ⟨type, address, found, _⟩ := getProxy_proxied pool.rpcUrl proxied
      refine ⟨fun result => ?_, fun conditions => nomatch conditions.2.2⟩
      have same := (setupUrl_cases pool.rpcUrl none pool.rpcUrl result).1
      rw [found] at same
      exact nomatch same
    | false =>
      have same := setupUrl_same pool.rpcUrl none
      rw [getProxy_direct pool.rpcUrl proxied] at same
      rw [same]
      simp
  by_cases named : pool.rpcUrl = []
  · refine ⟨fun carries => ?_, fun conditions => (usable_named _ conditions.2.1 named).elim⟩
    unfold Carries carried urlText proxyPart at carries
    rw [direct, named] at carries
    by_cases other : pool.quota.val ≠ 1
    · obtain ⟨_, back⟩ :=
        takeWhile_before (decimal pool.quota.val) [] semicolon (semicolon_decimal _)
      simp only [if_pos other, List.nil_append, semicolon_text, List.append_nil, back,
        List.drop_one, List.tail_cons, List.length_nil, Nat.lt_one_iff, true_or, or_true,
        if_true] at carries
      exact nomatch carries
    · rw [if_neg other, map_carried, if_neg other, List.nil_append, List.append_nil] at carries
      rw [named] at set
      rw [named]
      exact set.mp carries.2
  · rw [← set]
    unfold Carries
    rw [carried_direct pool direct named, map_carried, direct]
    exact and_iff_right rfl

/-- With a quota of one the proxy is read back up to its first bar. -/
theorem carries_proxied (pool : Settings) (type : ProxyType) (address : Bytes)
    (proxied : pool.proxy = some (type, address)) (one : pool.quota.val = 1) :
    Carries pool ↔ extractSockaddr pool.rpcUrl ≠ none ∧ (stratumUrl pool.rpcUrl ∨
      httpUrl pool.rpcUrl) ∧ bar ∉ address := by
  have text : urlText pool = proxytype type ++ (address ++ bar :: pool.rpcUrl) := by
    unfold urlText proxyPart
    rw [proxied, if_neg (not_not.mpr one), bar_text]
    simp
  have found :=
    getProxy_written type (address ++ bar :: pool.rpcUrl)
      (List.mem_append_right _ List.mem_cons_self)
  have carries : Carries pool ↔
      setupUrl (urlText pool) = some (some (type, address), pool.rpcUrl) := by
    unfold Carries carried
    rw [if_neg (not_not.mpr one), one, proxied, map_carried]
    exact and_iff_right rfl
  rw [carries, text]
  by_cases outside : bar ∈ address
  · refine ⟨fun result => ?_, fun conditions => (conditions.2.2 outside).elim⟩
    have same := (setupUrl_cases _ _ _ result).1
    rw [found] at same
    have cut : address = (address ++ bar :: pool.rpcUrl).takeWhile (· ≠ bar) :=
      congrArg Prod.snd (Option.some.inj same)
    rw [cut] at outside
    exact absurd (List.mem_takeWhile_imp outside) (by simp)
  · obtain ⟨front, back⟩ := takeWhile_before address pool.rpcUrl bar outside
    rw [front, back, List.drop_one, List.tail_cons] at found
    have same :=
      setupUrl_same (proxytype type ++ (address ++ bar :: pool.rpcUrl)) (some (type, address))
    rw [found] at same
    rw [same]
    simp [outside]

/-- With another quota the string is cut at its first semicolon, and the rest has no such
proxy in front of the url. -/
theorem carries_never (pool : Settings) (type : ProxyType) (address : Bytes)
    (proxied : pool.proxy = some (type, address)) (other : pool.quota.val ≠ 1) :
    ¬ Carries pool := by
  have text : urlText pool =
      proxytype type ++
        (address ++ bar :: (decimal pool.quota.val ++ semicolon :: pool.rpcUrl)) := by
    unfold urlText proxyPart
    rw [proxied, if_pos other, bar_text, semicolon_text]
    simp
  have plain := proxytype_without type semicolon (by decide)
  intro carries
  unfold Carries carried at carries
  rw [if_pos other] at carries
  dsimp only at carries
  split at carries
  · exact nomatch carries
  rw [map_carried, proxied, text, List.dropWhile_append_of_pos plain] at carries
  obtain ⟨_, result⟩ := carries
  obtain ⟨found, kept⟩ := setupUrl_cases _ _ _ result
  have proxiedUrl : ∀ url : Bytes, some (type, address) = (getProxy url).1 →
      looksProxied url = true := by
    intro url proxied
    cases look : looksProxied url with
    | true => rfl
    | false =>
      rw [getProxy_direct url look] at proxied
      exact nomatch proxied
  have look := proxiedUrl _ found
  obtain ⟨type2, address2, found2, short, cut, _⟩ := getProxy_proxied _ look
  by_cases outside : semicolon ∈ address
  · obtain ⟨front, rest, parts, first⟩ := List.eq_append_cons_of_mem outside
    have back :=
      (takeWhile_before front (rest ++ bar :: (decimal pool.quota.val ++ semicolon :: pool.rpcUrl))
        semicolon first).2
    have upTo :
        ((rest ++ bar :: (decimal pool.quota.val ++ semicolon :: pool.rpcUrl)).takeWhile (· ≠
        bar)).length ≤ rest.length := by
      rw [List.takeWhile_append]
      split
      · simp
      · exact (List.takeWhile_prefix _).length_le
    rw [found2] at found
    cases found
    rw [parts, List.append_assoc, List.cons_append, back, List.drop_one, List.tail_cons] at short
    simp only [List.length_append, List.length_cons] at short
    omega
  · have before : semicolon ∉ address ++ bar :: decimal pool.quota.val := by
      have digits := semicolon_decimal pool.quota.val
      have differs : semicolon ≠ bar := by decide
      simp [outside, digits, differs]
    have back :=
      (takeWhile_before (address ++ bar :: decimal pool.quota.val) pool.rpcUrl semicolon before).2
    rw [List.append_assoc, List.cons_append] at back
    rw [back, List.drop_one, List.tail_cons] at kept cut look
    rcases kept with ⟨same, _⟩ | longer
    · have := congrArg List.length same
      omega
    · rw [longer, looksProxied_prefixed] at look
      exact nomatch look

/-! ## Which strings the file can hold -/

theorem clean_number (n : Nat) (rest : Bytes) : clean (decimal n ++ rest) = clean rest := by
  refine clean_plain _ _ fun c member => ?_
  obtain ⟨lower, upper⟩ := decimal_digits n c member
  have printable : (0x20 : UInt8).toNat = 32 := rfl
  have value : (0x80 : UInt8).toNat = 128 := rfl
  rw [UInt8.le_iff_toNat_le, UInt8.lt_iff_toNat_lt]
  omega

theorem clean_quota (pool : Settings) (rest : Bytes) :
    clean ((if pool.quota.val ≠ 1 then decimal pool.quota.val ++ ascii ";" else []) ++ rest) =
      clean rest := by
  split
  · rw [List.append_assoc, clean_number, semicolon_text]
    exact clean_cons semicolon rest (by decide) (by decide)
  · rfl

theorem clean_urlText (pool : Settings) :
    clean (urlText pool) ↔ clean pool.rpcUrl ∧ ∀ type address,
      pool.proxy = some (type, address) → clean address := by
  have url := clean_quota pool pool.rpcUrl
  unfold urlText proxyPart
  cases pool.proxy with
  | none =>
    rw [List.append_assoc, List.nil_append, url]
    exact ⟨fun allowed => ⟨allowed, fun type address withProxy => nomatch withProxy⟩, And.left⟩
  | some proxy =>
    have plain : ∀ c ∈ proxytype proxy.1, 0x20 ≤ c ∧ c < 0x80 := by
      intro c member
      rcases proxytype_plain proxy.1 c member with ⟨lower, upper⟩ | ⟨lower, upper⟩
      · exact ⟨UInt8.le_trans (by decide) lower, UInt8.lt_of_le_of_lt upper (by decide)⟩
      · exact ⟨UInt8.le_trans (by decide) lower, UInt8.lt_of_le_of_lt upper (by decide)⟩
    show clean (proxytype proxy.1 ++ proxy.2 ++ ascii "|" ++ _ ++ _) = true ↔ _
    rw [bar_text, List.append_assoc, List.append_assoc, List.append_assoc, clean_plain _ _ plain,
      List.singleton_append, clean_split _ bar _ (by decide) (by decide), url, Bool.and_eq_true,
      and_comm]
    refine and_congr_right fun _ => ⟨fun allowed type address withProxy => ?_,
      fun all => all proxy.1 proxy.2 rfl⟩
    cases withProxy
    exact allowed

/-- A pool can be saved and loaded exactly under its condition. -/
theorem reloadable_iff (pool : Settings) : Reloadable pool ↔ cleanEntry pool ∧ Carries pool := by
  have allowed : cleanEntry pool ↔
      (clean pool.rpcUrl ∧ ∀ type address, pool.proxy = some (type, address) → clean address) ∧
      clean pool.rpcUser ∧ clean pool.rpcPass := by
    unfold cleanEntry
    rw [Bool.and_eq_true, Bool.and_eq_true, clean_urlText, and_assoc]
  rw [allowed]
  cases proxied : pool.proxy with
  | none =>
    rw [carries_direct pool proxied]
    constructor
    · intro conditions
      exact ⟨⟨⟨conditions.url, fun type address withProxy => nomatch withProxy⟩,
        conditions.user, conditions.pass⟩,
        conditions.usable, conditions.scheme, conditions.direct proxied⟩
    · rintro ⟨⟨⟨url, _⟩, user, pass⟩, usable, scheme, direct⟩
      refine ⟨url, user, pass, usable, scheme, fun type address withProxy => ?_, fun _ => direct⟩
      rw [proxied] at withProxy
      exact nomatch withProxy
  | some proxy =>
    obtain ⟨type, address⟩ := proxy
    by_cases one : pool.quota.val = 1
    · rw [carries_proxied pool type address proxied one]
      constructor
      · intro conditions
        obtain ⟨_, addressClean, barless⟩ := conditions.proxied type address proxied
        refine ⟨⟨⟨conditions.url, fun type2 address2 withProxy => ?_⟩,
          conditions.user, conditions.pass⟩,
          conditions.usable, conditions.scheme, barless⟩
        cases withProxy
        exact addressClean
      · rintro ⟨⟨⟨url, addressClean⟩, user, pass⟩, usable, scheme, barless⟩
        refine ⟨url, user, pass, usable, scheme, fun type2 address2 withProxy => ?_,
          fun noProxy => ?_⟩
        · rw [proxied] at withProxy
          cases withProxy
          exact ⟨one, addressClean type address rfl, barless⟩
        · rw [proxied] at noProxy
          exact nomatch noProxy
    · have never := carries_never pool type address proxied one
      exact ⟨fun conditions => (one (conditions.proxied type address proxied).1).elim,
        fun conditions => (never conditions.2).elim⟩

/-! ## The whole file -/

theorem reload_eq (pools : List Pool) :
    reload pools = if (savedSettings pools).all cleanEntry then loadedPools 0
      (savedSettings pools) else none := by
  unfold reload
  rw [read_saved]
  by_cases allowed : (savedSettings pools).all cleanEntry
  · have loaded := parsePools_saved [] (savedSettings pools)
    have nothing : (fun more : List Loading => ([] : List Loading) ++ more) = id :=
      funext fun more => List.nil_append more
    rw [nothing, Option.map_id] at loaded
    rw [if_pos allowed, if_pos allowed]
    simp only [Option.bind_eq_bind, Option.bind_some, entriesOf_saved]
    exact Option.map_eq_bind.symm.trans loaded
  · rw [if_neg allowed, if_neg allowed]
    rfl

/-- Saved pools come back the same exactly if every one of them meets the condition. -/
theorem reloads_same_iff (pools : List Pool) :
    ReloadsSame pools ↔ ∀ pool ∈ byPriority Pool.prio pools, Reloadable pool.settings := by
  have saved : (∀ pool ∈ byPriority Pool.prio pools, Reloadable pool.settings) ↔
      (savedSettings pools).all cleanEntry ∧ ∀ pool ∈ savedSettings pools, Carries pool := by
    unfold savedSettings
    rw [List.all_map, List.all_eq_true, List.forall_mem_map, ← forall₂_and]
    exact forall₂_congr fun pool _ => reloadable_iff pool.settings
  have places : ∀ more, loadedPools 0 (savedSettings pools) = some more →
      byPriority Loading.prio more = more := by
    intro more loads
    refine byPriority_places _ _ ?_
    rw [loadedPools_places 0 _ _ loads, List.range_eq_range']
  rw [saved, ← loadedPools_restores 0 (savedSettings pools)]
  unfold ReloadsSame
  rw [reload_eq]
  constructor
  · rintro ⟨loaded, loads, same⟩
    split at loads
    · rename_i allowed
      rw [places loaded loads] at same
      exact ⟨allowed, loaded, loads, List.forall₂_map_left_iff.mpr same⟩
    · exact nomatch loads
  · rintro ⟨allowed, loaded, loads, same⟩
    refine ⟨loaded, by rw [if_pos allowed]; exact loads, ?_⟩
    rw [places loaded loads]
    exact List.forall₂_map_left_iff.mp same

theorem quotas_kept (pools : List Pool) (loaded : List Loading)
    (same : List.Forall₂ (fun pool => Restores pool.settings) pools loaded) :
    loaded.map Loading.quota = pools.map fun pool => (pool.settings.quota.val : Int) := by
  induction same with
  | nil => rfl
  | cons first _ ih => rw [List.map_cons, List.map_cons, ih, first.2.2.2.1]

/-- A pool with a socks5 proxy and a quota of two comes back without the proxy and with a
quota of zero. -/
theorem proxied_quota_lost :
    ¬ ReloadsSame [⟨⟨ascii "stratum+tcp://pool.example:3333", ascii "user", ascii "x", 2,
    some (.socks5, ascii "proxy.example:1080")⟩, 0⟩] := by
  have quotas : (reload [⟨⟨ascii "stratum+tcp://pool.example:3333", ascii "user", ascii "x", 2,
      some (.socks5, ascii "proxy.example:1080")⟩, 0⟩]).map
      (fun loaded => (byPriority Loading.prio loaded).map Loading.quota) =
      some [0] := by
    decide +kernel
  rintro ⟨loaded, loads, same⟩
  rw [loads, Option.map_some, quotas_kept _ _ same] at quotas
  exact absurd quotas (by decide)

end CgminerT4.Guarantees.ConfigReload
