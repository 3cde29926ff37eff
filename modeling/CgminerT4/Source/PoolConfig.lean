import CgminerT4.Library.JsonText
import CgminerT4.Source.PoolControl
import CgminerT4.Source.Reconnect

/-!
# Saving and loading pools (cgminer.c, util.c)

`write_config` saves the pools in the order of their priorities; a start with
that file sets up new pools entry by entry. C strings are their NUL-free bytes.
A pool has its proxy type only together with a proxy. Setting up a url has no
result where memory is misused: `detect_stratum` frees its argument when
`extract_sockaddr` refuses it, and `httpinput` holds 255 characters.
-/
namespace CgminerT4.Source.PoolConfig
open Library.ByteString Library.JsonText
open PoolControl (atoi)
open Reconnect (extractSockaddr)

inductive ProxyType where
  | http
  | http10
  | socks4
  | socks5
  | socks4a
  | socks5h
  deriving DecidableEq

def proxynames : List (Bytes × ProxyType) :=
  [(ascii "http:", .http), (ascii "http0:", .http10), (ascii "socks4:", .socks4),
    (ascii "socks5:", .socks5), (ascii "socks4a:", .socks4a), (ascii "socks5h:", .socks5h)]

def proxytype (type : ProxyType) : Bytes :=
  ((proxynames.find? fun entry => entry.2 = type).map Prod.fst).getD (ascii "invalid")

/-! ## write_config -/

/-- What is saved of a pool. -/
structure Settings where
  rpcUrl : Bytes
  rpcUser : Bytes
  rpcPass : Bytes
  quota : Fin (2 ^ 31)
  proxy : Option (ProxyType × Bytes)

structure Pool where
  settings : Settings
  prio : Nat

def jsonEscape : Bytes → Bytes
  | [] => []
  | c :: str => (if c = backslash ∨ c = quote then [backslash, c] else [c]) ++ jsonEscape str

/-- The three conversions in front of the quota or the url. -/
def proxyText (pool : Settings) : Bytes :=
  match pool.proxy with
  | some (type, address) => jsonEscape (proxytype type) ++ jsonEscape address ++ ascii "|"
  | none => []

def writePool (i : Nat) (pool : Settings) : Bytes :=
  (if i > 0 then ascii "," else []) ++
    (if pool.quota.val ≠ 1 then
      ascii "\n\t\x7b\n\t\t\"quota\" : \"" ++ proxyText pool ++ decimal pool.quota.val ++
        ascii ";" ++
        jsonEscape pool.rpcUrl ++ ascii "\","
    else ascii "\n\t\x7b\n\t\t\"url\" : \"" ++ proxyText pool ++ jsonEscape pool.rpcUrl ++
      ascii "\",") ++
    ascii "\n\t\t\"user\" : \"" ++ jsonEscape pool.rpcUser ++ ascii "\"," ++
    ascii "\n\t\t\"pass\" : \"" ++ jsonEscape pool.rpcPass ++ ascii "\"\n\t\x7d"

/-- priority_pool, with `pools[choice]` when no pool has that priority. -/
def priorityPool {α : Type} (prio : α → Nat) (pools : List α) (choice : Nat) : Option α :=
  (pools.find? fun pool => prio pool = choice).or pools[choice]?

/-- The pools in the order in which priority_pool gives them. -/
def byPriority {α : Type} (prio : α → Nat) (pools : List α) : List α :=
  (List.range pools.length).filterMap (priorityPool prio pools)

/-- The part of write_config for the pools. -/
def writePools (pools : List Pool) : Bytes :=
  ascii "\x7b\n\"pools\" : [" ++
    ((byPriority Pool.prio pools).zipIdx.flatMap fun (pool, i) => writePool i pool.settings) ++
      ascii "\n]\n"

/-! ## Setting up a url -/

def bar : UInt8 := 0x7c

/-- The proxy in front of a url, and the url. -/
def getProxy (url : Bytes) : Option (ProxyType × Bytes) × Bytes :=
  match proxynames.find? fun entry => entry.1.isPrefixOf url with
  | none => (none, url)
  | some (name, type) =>
    if bar ∈ url then
      (some (type, (url.takeWhile (· ≠ bar)).drop name.length), (url.dropWhile (· ≠ bar)).drop 1)
    else (none, url)

def lower (c : UInt8) : UInt8 := if 0x41 ≤ c ∧ c ≤ 0x5a then c + 0x20 else c

/-- `!strncasecmp(url, "stratum+tcp://", 14)` -/
def stratumUrl (url : Bytes) : Bool := (url.take 14).map lower = ascii "stratum+tcp://"

/-- The rpc_url that detect_stratum sets, if it does. -/
def detectStratum (url : Bytes) : Option (Option Bytes) :=
  if extractSockaddr url = none then none else some (if stratumUrl url then some url else none)

def httpUrl (url : Bytes) : Bool :=
  (ascii "http://").isPrefixOf url || (ascii "https://").isPrefixOf url

/-- The proxy and the rpc_url that a pool gets. -/
def setupUrl (arg : Bytes) : Option (Option (ProxyType × Bytes) × Bytes) :=
  let (proxy, url) := getProxy arg
  match detectStratum url with
  | none => none
  | some (some rpcUrl) => some (proxy, rpcUrl)
  | some none =>
    if httpUrl url then some (proxy, url)
    else if 242 ≤ url.length then none
    else (detectStratum (ascii "stratum+tcp://" ++ url)).map fun found => (proxy, found.getD url)

/-! ## The options of a pool -/

/-- A pool while its options are read. -/
structure Loading where
  rpcUrl : Option Bytes
  rpcUser : Option Bytes
  rpcPass : Option Bytes
  quota : Int
  proxy : Option (ProxyType × Bytes)
  prio : Nat

structure Config where
  pools : List Loading
  totalUrls : Nat
  totalUsers : Nat
  totalPasses : Nat
  totalUserpasses : Nat

def fresh : Config := ⟨[], 0, 0, 0, 0⟩

def addPool (c : Config) : Config :=
  { c with pools := c.pools ++ [⟨none, none, none, 1, none, c.pools.length⟩] }

/-- The pool that a counter of options names, added when it is new. -/
def poolFor (c : Config) (total : Nat) : Config := if total > c.pools.length then addPool c else c

/-- The configuration and the error returned. -/
abbrev Result := Option (Config × Option String)

def addUrl (c : Config) : Config :=
  poolFor { c with totalUrls := c.totalUrls + 1 } (c.totalUrls + 1)

def setUrl (c : Config) (arg : Bytes) : Result :=
  (setupUrl arg).map fun (proxy, url) =>
    let c := addUrl c
    ({ c with pools := c.pools.modify (c.totalUrls - 1) fun pool => { pool with proxy := proxy, rpcUrl := some url } }, none)

def semicolon : UInt8 := 0x3b

def setQuota (c : Config) (arg : Bytes) : Result :=
  if semicolon ∉ arg then some (c, "No semicolon separated quota;URL pair found")
  else
    let front := arg.takeWhile (· ≠ semicolon)
    let url := (arg.dropWhile (· ≠ semicolon)).drop 1
    if front.length = 0 then some (c, "No parameter for quota found")
    else if url.length < 1 then some (c, "No parameter for URL found")
    else
      let quota := atoi front
      if quota < 0 then some (c, "Invalid negative parameter for quota set")
      else
        (setupUrl url).map fun (proxy, url) =>
          let c := addUrl c
          ({ c with pools := c.pools.modify (c.totalUrls - 1) fun pool =>
              { pool with proxy := proxy, rpcUrl := some url, quota := quota } }, none)

def setUser (c : Config) (arg : Bytes) : Result :=
  if c.totalUserpasses ≠ 0 then some (c, "Use only user + pass or userpass, but not both")
  else
    let c := poolFor { c with totalUsers := c.totalUsers + 1 } (c.totalUsers + 1)
    some ({ c with pools := c.pools.modify (c.totalUsers - 1) fun pool => { pool with rpcUser := some arg } }, none)

def setPass (c : Config) (arg : Bytes) : Result :=
  if c.totalUserpasses ≠ 0 then some (c, "Use only user + pass or userpass, but not both")
  else
    let c := poolFor { c with totalPasses := c.totalPasses + 1 } (c.totalPasses + 1)
    some ({ c with pools := c.pools.modify (c.totalPasses - 1) fun pool => { pool with rpcPass := some arg } }, none)

/-- The options of a pool in the order of opt_config_table. -/
def poolOptions : List (Bytes × (Config → Bytes → Result)) :=
  [(ascii "pass", setPass), (ascii "quota", setQuota), (ascii "url", setUrl),
    (ascii "user", setUser)]

abbrev Entry := List (Bytes × Bytes)

/-- parse_config for the entry of a pool: the first error ends it. -/
def parseEntry (entry : Entry) : Config → List (Bytes × (Config → Bytes → Result)) → Result
  | c, [] => some (c, none)
  | c, (name, set) :: options =>
    match entry.lookup name with
    | none => parseEntry entry c options
    | some str =>
      match set c str with
      | none => none
      | some (c, some err) => some (c, some err)
      | some (c, none) => parseEntry entry c options

/-- The loop of parse_config over the array "pools". -/
def parsePools : Config → List Entry → Option Config
  | c, [] => some c
  | c, entry :: entries =>
    match parseEntry entry c poolOptions with
    | none => none
    | some (c, some _) => some c
    | some (c, none) => parsePools c entries

/-- An object of strings. -/
def entryOf : Value → Option Entry
  | .object members => members.mapM fun (name, v) =>
    match v with
    | .string s => some (name, s)
    | _ => none
  | _ => none

def entriesOf : Value → Option (List Entry)
  | .object members =>
    match members.lookup (ascii "pools") with
    | some (.array items) => items.mapM entryOf
    | _ => none
  | _ => none

/-- The pools of a program that starts with a file of the saved pools alone. -/
def reload (pools : List Pool) : Option (List Loading) := do
  let config ← read (writePools pools ++ ascii "\x7d\n")
  let entries ← entriesOf config
  let c ← parsePools fresh entries
  some c.pools

end CgminerT4.Source.PoolConfig
