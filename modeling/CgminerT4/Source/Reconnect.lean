import CgminerT4.Source.Jansson

/-!
# client.reconnect (util.c)

extract_sockaddr splits an address into host and port; parse_reconnect compares
the domain of the requested url with that of the pool and stores what
extract_sockaddr finds in url ':' port. C strings are their NUL-free bytes; a
pointer into a string is the rest of the string. What follows the assignment of
the new host (the restart of the connection) is left out.
-/
namespace CgminerT4.Source.Reconnect
open Library.ByteString Jansson

def dot : UInt8 := 46
def slash : UInt8 := 47
def colon : UInt8 := 58
def openBracket : UInt8 := 91
def closeBracket : UInt8 := 93

/-- strchr, and strstr for one character. -/
def strchr (c : UInt8) (s : Bytes) : Option Bytes :=
  if c ∈ s then some (s.dropWhile (· ≠ c)) else none

/-- The distance of the first `c`. -/
def offset (c : UInt8) (s : Bytes) : Nat := (s.takeWhile (· ≠ c)).length

/-- What follows the first "//". -/
def afterSlashes : Bytes → Option Bytes
  | a :: b :: rest => if a = slash ∧ b = slash then some rest else afterSlashes (b :: rest)
  | _ => none

/-- `url_begin`. -/
def urlBegin (url : Bytes) : Bytes := (afterSlashes url).getD url

/-- The test for a numeric ipv6 entry. -/
def ipv6 (url : Bytes) : Bool :=
  openBracket ∈ url ∧ closeBracket ∈ url ∧ offset openBracket url < offset closeBracket url

/-- The distance of `url_end`, when there is one. -/
def urlEnd (url : Bytes) : Option Nat :=
  if ipv6 url then
    let ipv6End := offset closeBracket url
    if colon ∈ url.drop ipv6End then some (ipv6End + offset colon (url.drop ipv6End)) else none
  else if colon ∈ url then some (offset colon url) else none

/-- `url_address` for a host of `urlLen` characters. -/
def urlAddress (url : Bytes) (urlLen : Nat) : Bytes :=
  if ipv6 url then ((url.drop 1).take (urlLen - 2)).take 253 else (url.take urlLen).take 253

/-- `port`: five characters, cut at a slash. -/
def portText (portStart : Bytes) : Bytes := (portStart.take 5).takeWhile (· ≠ slash)

/-- Host and port, none when the result is false. -/
def extractSockaddr (url : Bytes) : Option (Bytes × Bytes) :=
  let url := urlBegin url
  match urlEnd url with
  | some urlLen =>
    if url.length - urlLen - 1 < 1 then none
    else if urlLen < 1 then none
    else some (urlAddress url urlLen, portText (url.drop (urlLen + 1)))
  | none => if url.length < 1 then none else some (urlAddress url url.length, ascii "80")

structure Pool where
  sockaddrUrl : Bytes
  stratumPort : Bytes
  deriving DecidableEq

/-- The url a request names, that of the pool when it names none. -/
def requestedUrl (pool : Pool) (val : Option Json) : Bytes :=
  (jsonStringValue (jsonArrayGet val 0)).getD pool.sockaddrUrl

def requestedPort (pool : Pool) (val : Option Json) : Bytes :=
  let portNo := toInt (jsonIntegerValue (jsonArrayGet val 1))
  if portNo ≠ 0 then decimal portNo
  else (jsonStringValue (jsonArrayGet val 1)).getD pool.stratumPort

/-- The comparison of the domains, made for a url in the request only. -/
def domainMatches (pool : Pool) (val : Option Json) : Bool :=
  match jsonStringValue (jsonArrayGet val 0) with
  | none => true
  | some url =>
    match strchr dot pool.sockaddrUrl, strchr dot url with
    | some dotPool, some dotReconnect => dotPool = dotReconnect
    | _, _ => false

/-- `address`, as snprintf cuts it. -/
def address (url port : Bytes) : Bytes := (url ++ colon :: port).take 253

/-- The pool with its new host and port, none when the request is refused. -/
def parseReconnect (pool : Pool) (val : Option Json) : Option Pool :=
  if domainMatches pool val then
    (extractSockaddr (address (requestedUrl pool val) (requestedPort pool val))).map
      fun (sockaddrUrl, stratumPort) => { sockaddrUrl, stratumPort }
  else none

end CgminerT4.Source.Reconnect
