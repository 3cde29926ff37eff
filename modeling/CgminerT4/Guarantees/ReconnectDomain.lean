import CgminerT4.Source.Reconnect

/-!
# Where a client.reconnect can move a pool

parse_reconnect compares the text of the url from its first dot on;
extract_sockaddr reads a host out of url ':' port. The two agree when the host
is read to the end of the url and no dot precedes it. They disagree at a colon
or a bracketed part of the url, at a dot before its "//", and when the url is
too long; a port with a "//" of its own or with the second bracket makes the
host out of the text of the port.
-/
namespace CgminerT4.Guarantees.ReconnectDomain
open Library.ByteString Source.Jansson Source.Reconnect

/-- What precedes `url_begin`. -/
def schemePart (url : Bytes) : Bytes := url.take (url.length - (urlBegin url).length)

/-- The host of the url is its text to the end, with no dot before it. -/
def HostReachesEnd (url : Bytes) : Prop :=
  url.length ≤ 253 ∧ dot ∉ schemePart url ∧ colon ∉ urlBegin url ∧ ipv6 (urlBegin url) = false

/-- The port neither has the only "//" nor completes a pair of brackets. -/
def PortKeptApart (url port : Bytes) : Prop :=
  (afterSlashes url = none → afterSlashes (address url port) = none) ∧
    (ipv6 (urlBegin (address url port)) = true → ipv6 (urlBegin url) = true)

/-- The text of a string from its first dot on is that of a part of it exactly
when there is no dot, or the part is the end and no dot precedes it. -/
theorem strchr_infix (c : UInt8) (front mid back : Bytes) :
    strchr c mid = strchr c (front ++ mid ++ back) ↔
      c ∉ front ++ mid ++ back ∨ (back = [] ∧ c ∉ front) := by
  have passes : ∀ l : Bytes, c ∉ l → ∀ b ∈ l, (b ≠ c : Bool) = true := by
    intro l absent b member
    simpa using fun same : b = c => absent (same ▸ member)
  constructor
  · intro same
    by_cases present : c ∈ front ++ mid ++ back
    · right
      rw [strchr, strchr, if_pos present] at same
      split at same
      · next inside =>
        have rest := Option.some.inj same
        have size := congrArg List.length rest
        have short :=
          (List.dropWhile_sublist (fun b : UInt8 => decide (b ≠ c)) (l := mid)).length_le
        have found : mid.dropWhile (· ≠ c) ≠ [] := by
          rw [Ne, List.dropWhile_eq_nil_iff]
          exact fun all => by simpa using all c inside
        by_cases early : c ∈ front
        · have stop : front.dropWhile (· ≠ c) ≠ [] := by
            rw [Ne, List.dropWhile_eq_nil_iff]
            exact fun all => by simpa using all c early
          have positive := List.length_pos_iff.mpr stop
          rw [List.append_assoc, List.dropWhile_append, if_neg (by simpa using stop)] at size
          simp only [List.length_append] at size
          omega
        · rw [List.append_assoc, List.dropWhile_append_of_pos (passes front early),
            List.dropWhile_append, if_neg (by simpa using found)] at rest
          exact ⟨List.self_eq_append_right.mp rest, early⟩
      · cases same
    · exact Or.inl present
  · rintro (absent | ⟨rfl, early⟩)
    · have inside : c ∉ mid := fun member => absent (by simp [member])
      rw [strchr, strchr, if_neg absent, if_neg inside]
    · rw [List.append_nil]
      have membership : c ∈ front ++ mid ↔ c ∈ mid := by simp [early]
      rw [strchr, strchr, List.dropWhile_append_of_pos (passes front early)]
      simp only [membership]

theorem afterSlashes_suffix (url rest : Bytes) (found : afterSlashes url = some rest) :
    ∃ front, url = front ++ rest := by
  induction url with
  | nil => cases found
  | cons a tail ih =>
    cases tail with
    | nil => cases found
    | cons b tail =>
      unfold afterSlashes at found
      split at found
      · cases found
        exact ⟨[a, b], rfl⟩
      · obtain ⟨front, split⟩ := ih found
        exact ⟨a :: front, by rw [split, List.cons_append]⟩

/-- A "//" stays where it is when text is appended. -/
theorem afterSlashes_append (url tail rest : Bytes) (found : afterSlashes url = some rest) :
    afterSlashes (url ++ tail) = some (rest ++ tail) := by
  induction url with
  | nil => cases found
  | cons a more ih =>
    cases more with
    | nil => cases found
    | cons b more =>
      unfold afterSlashes at found
      rw [List.cons_append, List.cons_append, afterSlashes]
      split at found
      · next slashes =>
        cases found
        rw [if_pos slashes]
      · next other =>
        rw [if_neg other]
        exact ih found

theorem url_split (url : Bytes) : url = schemePart url ++ urlBegin url := by
  obtain ⟨front, split⟩ : ∃ front, url = front ++ urlBegin url := by
    cases found : afterSlashes url with
    | none => exact ⟨[], by rw [urlBegin, found]; rfl⟩
    | some rest =>
      obtain ⟨front, split⟩ := afterSlashes_suffix url rest found
      exact ⟨front, by rw [urlBegin, found]; exact split⟩
  have scheme : schemePart url = front := by
    have size := congrArg List.length split
    rw [List.length_append] at size
    rw [schemePart, size, Nat.add_sub_cancel]
    conv_lhs => rw [split]
    exact List.take_left
  rw [scheme]
  exact split

/-- With the port kept apart the authority of the address begins with that of the url. -/
theorem urlBegin_address (url port : Bytes) (fits : url.length ≤ 253)
    (apart : PortKeptApart url port) :
    urlBegin (address url port) = urlBegin url ++ (colon :: port).take (253 - url.length) := by
  have parts : address url port = url ++ (colon :: port).take (253 - url.length) := by
    rw [address, List.take_append, List.take_of_length_le fits]
  cases found : afterSlashes url with
  | none => rw [urlBegin, apart.1 found, urlBegin, found, parts]; rfl
  | some rest =>
    rw [urlBegin, parts, afterSlashes_append url _ rest found, urlBegin, found]
    rfl

theorem offset_append (c : UInt8) (s tail : Bytes) (inside : c ∈ s) :
    offset c (s ++ tail) = offset c s := by
  have stops : ¬ (s.takeWhile (· ≠ c)).length = s.length := by
    intro whole
    have all :=
      List.takeWhile_eq_self_iff.mp (List.IsPrefix.eq_of_length (List.takeWhile_prefix _) whole)
    simpa using all c inside
  rw [offset, List.takeWhile_append, if_neg stops]
  rfl

theorem offset_lt (c : UInt8) (s : Bytes) (inside : c ∈ s) : offset c s < s.length := by
  have stops : ¬ (s.takeWhile (· ≠ c)).length = s.length := by
    intro whole
    have all :=
      List.takeWhile_eq_self_iff.mp (List.IsPrefix.eq_of_length (List.takeWhile_prefix _) whole)
    simpa using all c inside
  have short := (List.takeWhile_prefix (fun b : UInt8 => decide (b ≠ c)) (l := s)).length_le
  simp only [offset]
  omega

/-- A pair of brackets stays one when text is appended. -/
theorem ipv6_append (s tail : Bytes) (pair : ipv6 s = true) : ipv6 (s ++ tail) = true := by
  simp only [ipv6, decide_eq_true_eq] at pair ⊢
  obtain ⟨opened, closed, order⟩ := pair
  rw [offset_append _ _ _ opened, offset_append _ _ _ closed]
  exact ⟨List.mem_append_left _ opened, List.mem_append_left _ closed, order⟩

/-- The host extract_sockaddr stores. -/
theorem extractSockaddr_host (url host port : Bytes)
    (success : extractSockaddr url = some (host, port)) :
    host = urlAddress (urlBegin url) ((urlEnd (urlBegin url)).getD (urlBegin url).length) := by
  unfold extractSockaddr at success
  dsimp only at success
  split at success
  · next urlLen ends =>
    split at success
    · cases success
    · split at success
      · cases success
      · rw [ends]
        exact (Prod.mk.inj (Option.some.inj success)).1.symm
  · next open_end =>
    split at success
    · cases success
    · rw [open_end]
      exact (Prod.mk.inj (Option.some.inj success)).1.symm

theorem urlAddress_infix (url : Bytes) (urlLen : Nat) :
    ∃ front back, url = front ++ urlAddress url urlLen ++ back := by
  unfold urlAddress
  split
  · refine ⟨url.take 1, ((url.drop 1).take (urlLen - 2)).drop 253 ++
      (url.drop 1).drop (urlLen - 2), ?_⟩
    rw [List.append_assoc, ← List.append_assoc _ _ ((url.drop 1).drop (urlLen - 2)),
      List.take_append_drop, List.take_append_drop, List.take_append_drop]
  · refine ⟨[], (url.take urlLen).drop 253 ++ url.drop urlLen, ?_⟩
    rw [List.nil_append, ← List.append_assoc, List.take_append_drop, List.take_append_drop]

/-- A url that does not fit the address leaves some of itself behind the host. -/
theorem host_of_long_url (url port host p : Bytes)
    (success : extractSockaddr (address url port) = some (host, p)) (long : ¬ url.length ≤ 253) :
    ∃ front back, url = front ++ host ++ back ∧ back ≠ [] := by
  have cut : address url port = url.take 253 := List.take_append_of_le_length (by omega)
  obtain ⟨front, back, inside⟩ := urlAddress_infix (urlBegin (address url port))
    ((urlEnd (urlBegin (address url port))).getD (urlBegin (address url port)).length)
  rw [← extractSockaddr_host _ host p success] at inside
  have whole := url_split (address url port)
  rw [inside, cut] at whole
  refine ⟨schemePart (url.take 253) ++ front, back ++ url.drop 253, ?_, ?_⟩
  · calc url = url.take 253 ++ url.drop 253 := (List.take_append_drop 253 url).symm
      _ = (schemePart (url.take 253) ++ (front ++ host ++ back)) ++ url.drop 253 := by rw [← whole]
      _ = schemePart (url.take 253) ++ front ++ host ++ (back ++ url.drop 253) := by
        simp only [List.append_assoc]
  · rw [Ne, List.append_eq_nil_iff, List.drop_eq_nil_iff]
    omega

/-- What remains of ':' port behind the url begins with the colon or is empty. -/
theorem takeWhile_colon (r port : Bytes) (n : Nat) :
    (r ++ (colon :: port).take n).takeWhile (· ≠ colon) = r.takeWhile (· ≠ colon) := by
  have stops : ((colon :: port).take n).takeWhile (· ≠ colon) = [] := by
    cases n with
    | zero => rfl
    | succ n => simp
  rw [List.takeWhile_append, stops, List.append_nil]
  split
  · next whole =>
    exact (List.IsPrefix.eq_of_length (List.takeWhile_prefix _) whole).symm
  · rfl

/-- Without brackets the host ends at the first colon. -/
theorem urlAddress_of_not_ipv6 (url : Bytes) (plain : ipv6 url = false) (short : url.length ≤ 253) :
    urlAddress url ((urlEnd url).getD url.length) = url.takeWhile (· ≠ colon) := by
  have inside := (List.takeWhile_prefix (fun b : UInt8 => decide (b ≠ colon)) (l := url)).length_le
  have cut : url.take ((urlEnd url).getD url.length) = url.takeWhile (· ≠ colon) := by
    unfold urlEnd
    rw [if_neg (by simp [plain])]
    split
    · exact (List.prefix_iff_eq_take.mp (List.takeWhile_prefix _)).symm
    · next absent =>
      rw [Option.getD_none, List.take_length]
      refine (List.takeWhile_eq_self_iff.mpr fun b member => ?_).symm
      simpa using fun same : b = colon => absent (same ▸ member)
  rw [urlAddress, if_neg (by simp [plain]), cut]
  exact List.take_of_length_le (by omega)

/-- With a pair of brackets in the url the end of the host is not behind the url. -/
theorem urlEnd_le (r port : Bytes) (n : Nat) (pair : ipv6 r = true) :
    (urlEnd (r ++ (colon :: port).take n)).getD (r ++ (colon :: port).take n).length ≤
      r.length := by
  have closed : closeBracket ∈ r := by
    simp only [ipv6, decide_eq_true_eq] at pair
    exact pair.2.1
  have before := offset_lt closeBracket r closed
  have bound : ∀ l : Bytes, offset colon l ≤ l.length := fun l =>
    (List.takeWhile_prefix (fun b : UInt8 => decide (b ≠ colon)) (l := l)).length_le
  unfold urlEnd
  rw [if_pos (ipv6_append r _ pair), offset_append _ _ _ closed]
  dsimp only
  rw [List.drop_append_of_le_length (Nat.le_of_lt before)]
  cases n with
  | zero =>
    have within := bound (r.drop (offset closeBracket r))
    rw [List.length_drop] at within
    rw [List.take_zero, List.append_nil, List.append_nil]
    split
    · rw [Option.getD_some]
      omega
    · exact Nat.le_refl _
  | succ n =>
    have within : offset colon (r.drop (offset closeBracket r) ++ (colon :: port).take (n + 1)) ≤
        (r.drop (offset closeBracket r)).length := by
      have first := takeWhile_colon (r.drop (offset closeBracket r)) port (n + 1)
      rw [offset, first]
      exact bound _
    rw [List.length_drop] at within
    rw [if_pos (by simp), Option.getD_some]
    omega

/-- A bracketed host leaves a part of the url behind it. -/
theorem urlAddress_bracketed (r port : Bytes) (n : Nat) (pair : ipv6 r = true) (text : Bytes)
    (joined : text = r ++ (colon :: port).take n) :
    ∃ front back, r = front ++ urlAddress text ((urlEnd text).getD text.length) ++ back ∧
      back ≠ [] := by
  have ends := urlEnd_le r port n pair
  rw [← joined] at ends
  have inner : 2 ≤ r.length := by
    simp only [ipv6, decide_eq_true_eq] at pair
    have last := offset_lt closeBracket r pair.2.1
    omega
  have bracketed : ipv6 text = true := by
    rw [joined]
    exact ipv6_append r _ pair
  obtain ⟨len, len_def⟩ : ∃ len, len = (urlEnd text).getD text.length := ⟨_, rfl⟩
  rw [← len_def] at ends ⊢
  rw [urlAddress, if_pos bracketed, List.take_take, joined,
    List.drop_append_of_le_length (by omega),
    List.take_append_of_le_length (by rw [List.length_drop]; omega)]
  refine ⟨r.take 1, (r.drop 1).drop (min 253 (len - 2)), ?_, ?_⟩
  · rw [List.append_assoc, List.take_append_drop, List.take_append_drop]
  · rw [Ne, List.drop_eq_nil_iff, List.length_drop]
    omega

/-- A host without brackets is followed by nothing exactly when the url has no colon. -/
theorem urlAddress_plain (r port : Bytes) (n : Nat) (text : Bytes) (plain : ipv6 text = false)
    (short : text.length ≤ 253) (joined : text = r ++ (colon :: port).take n) :
    ∃ back, r = urlAddress text ((urlEnd text).getD text.length) ++ back ∧
      (back = [] ↔ colon ∉ r) := by
  have host : urlAddress text ((urlEnd text).getD text.length) = r.takeWhile (· ≠ colon) := by
    rw [urlAddress_of_not_ipv6 text plain short, joined, takeWhile_colon]
  rw [host]
  refine ⟨r.dropWhile (· ≠ colon), (List.takeWhile_append_dropWhile).symm, ?_⟩
  rw [List.dropWhile_eq_nil_iff]
  constructor
  · intro all member
    simpa using all colon member
  · intro absent b member
    simpa using fun same : b = colon => absent (same ▸ member)

/-- Kept apart from the port, the host is a part of the url, and the end of it
without a dot in front exactly under the condition on the url. -/
theorem host_in_url (url port host p : Bytes)
    (success : extractSockaddr (address url port) = some (host, p))
    (apart : PortKeptApart url port) :
    ∃ front back, url = front ++ host ++ back ∧ (back = [] ∧ dot ∉ front ↔ HostReachesEnd url) := by
  by_cases fits : url.length ≤ 253
  · have split := url_split url
    have begins := urlBegin_address url port fits apart
    rw [extractSockaddr_host _ host p success]
    by_cases pair : ipv6 (urlBegin (address url port)) = true
    · have own := apart.2 pair
      obtain ⟨front, back, inside, rest⟩ := urlAddress_bracketed (urlBegin url) port _ own _ begins
      refine ⟨schemePart url ++ front, back, ?_, ?_⟩
      · rw [List.append_assoc, List.append_assoc, ← List.append_assoc front, ← inside]
        exact split
      · apply iff_of_false
        · exact fun ends => rest ends.1
        · rintro ⟨_, _, _, unbracketed⟩
          rw [own] at unbracketed
          cases unbracketed
    · rw [Bool.not_eq_true] at pair
      have within : (urlBegin (address url port)).length ≤ 253 := by
        have size := congrArg List.length (url_split (address url port))
        rw [address, List.length_append, List.length_take] at size
        rw [address]
        omega
      have plain : ipv6 (urlBegin url) = false := by
        rw [begins] at pair
        by_contra bracketed
        rw [Bool.not_eq_false] at bracketed
        rw [ipv6_append _ _ bracketed] at pair
        cases pair
      obtain ⟨back, inside, ends⟩ := urlAddress_plain (urlBegin url) port _ _ pair within begins
      refine ⟨schemePart url, back, ?_, ?_⟩
      · rw [List.append_assoc, ← inside]
        exact split
      · rw [ends]
        exact ⟨fun ⟨absent, early⟩ => ⟨fits, early, absent, plain⟩,
          fun ⟨_, early, absent, _⟩ => ⟨absent, early⟩⟩
  · obtain ⟨front, back, inside, rest⟩ := host_of_long_url url port host p success fits
    exact ⟨front, back, inside,
      iff_of_false (fun ends => rest ends.1) (fun reaches => fits reaches.1)⟩

theorem domain_of_matches (pool : Pool) (val : Option Json)
    (allowed : domainMatches pool val = true) :
    strchr dot (requestedUrl pool val) = strchr dot pool.sockaddrUrl := by
  unfold domainMatches at allowed
  unfold requestedUrl
  cases named : jsonStringValue (jsonArrayGet val 0) with
  | none => rfl
  | some url =>
    rw [named] at allowed
    dsimp only at allowed
    split at allowed
    · next own requested first second =>
      rw [Option.getD_some, first, second, of_decide_eq_true allowed]
    · cases allowed

/-- Whenever the port is kept apart, an accepted request leaves the domain
unchanged if and only if its url has no dot or its host reaches to its end. -/
theorem reconnect_domain (pool next : Pool) (val : Option Json)
    (accepted : parseReconnect pool val = some next) :
    (PortKeptApart (requestedUrl pool val) (requestedPort pool val) ∧
        (dot ∉ requestedUrl pool val ∨ HostReachesEnd (requestedUrl pool val)) →
      strchr dot next.sockaddrUrl = strchr dot pool.sockaddrUrl) ∧
    (strchr dot next.sockaddrUrl = strchr dot pool.sockaddrUrl →
      PortKeptApart (requestedUrl pool val) (requestedPort pool val) →
      dot ∉ requestedUrl pool val ∨ HostReachesEnd (requestedUrl pool val)) := by
  unfold parseReconnect at accepted
  split at accepted
  · next allowed =>
    obtain ⟨⟨host, port⟩, found, rfl⟩ := Option.map_eq_some_iff.mp accepted
    dsimp only
    rw [← domain_of_matches pool val allowed]
    have exact_under : PortKeptApart (requestedUrl pool val) (requestedPort pool val) →
        (strchr dot host = strchr dot (requestedUrl pool val) ↔
          dot ∉ requestedUrl pool val ∨ HostReachesEnd (requestedUrl pool val)) := by
      intro apart
      obtain ⟨front, back, split, ends⟩ := host_in_url _ _ host port found apart
      rw [← ends, split]
      exact strchr_infix dot front host back
    exact ⟨fun ⟨apart, reads⟩ => (exact_under apart).mpr reads,
      fun same apart => (exact_under apart).mp same⟩
  · cases accepted

/-- The pool a.pool.com moves to b.pool.com. -/
def poolA : Pool := ⟨ascii "a.pool.com", ascii "3333"⟩

def moveToB : Option Json := some (.array [.string (ascii "b.pool.com"), .integer 4444])

theorem reconnect_domain_b :
    (PortKeptApart (requestedUrl poolA moveToB) (requestedPort poolA moveToB) ∧
        (dot ∉ requestedUrl poolA moveToB ∨ HostReachesEnd (requestedUrl poolA moveToB)) →
      strchr dot (ascii "b.pool.com") = strchr dot poolA.sockaddrUrl) ∧
    (strchr dot (ascii "b.pool.com") = strchr dot poolA.sockaddrUrl →
      PortKeptApart (requestedUrl poolA moveToB) (requestedPort poolA moveToB) →
      dot ∉ requestedUrl poolA moveToB ∨ HostReachesEnd (requestedUrl poolA moveToB)) :=
  reconnect_domain poolA ⟨ascii "b.pool.com", ascii "4444"⟩ moveToB (by decide +kernel)

theorem afterSlashes_port (url tail : Bytes) (none : afterSlashes url = none) :
    afterSlashes (url ++ colon :: tail) = afterSlashes (colon :: tail) := by
  induction url with
  | nil => rfl
  | cons a more ih =>
    cases more with
    | nil =>
      rw [List.singleton_append, afterSlashes, if_neg]
      rintro ⟨_, same⟩
      exact absurd same (by decide)
    | cons b more =>
      unfold afterSlashes at none
      split at none
      · cases none
      · next other =>
        rw [List.cons_append, List.cons_append, afterSlashes, if_neg other]
        exact ih none

/-- A port with a "//" moves a pool to any host, whatever its domain. -/
theorem port_chooses_host (pool : Pool) (host : Bytes)
    (plainUrl : afterSlashes pool.sockaddrUrl = none) (content : host ≠ []) (noColon : colon ∉ host)
    (noBracket : openBracket ∉ host) (short : pool.sockaddrUrl.length + host.length + 4 ≤ 253) :
    parseReconnect pool (some (.array [.null, .string (ascii "1//" ++ host)])) =
      some ⟨host, ascii "80"⟩ := by
  have url : requestedUrl pool (some (.array [.null, .string (ascii "1//" ++ host)])) =
    pool.sockaddrUrl := rfl
  have port : requestedPort pool (some (.array [.null, .string (ascii "1//" ++ host)])) =
      [49, slash, slash] ++ host := by
    have literal : ascii "1//" = [49, slash, slash] := by decide +kernel
    rw [← literal]
    rfl
  have whole : address pool.sockaddrUrl ([49, slash, slash] ++ host) =
      pool.sockaddrUrl ++ colon :: ([49, slash, slash] ++ host) := by
    refine List.take_of_length_le ?_
    simp only [List.length_append, List.length_cons, List.length_nil]
    omega
  have begins : urlBegin (address pool.sockaddrUrl ([49, slash, slash] ++ host)) = host := by
    rw [urlBegin, whole, afterSlashes_port _ _ plainUrl]
    rfl
  have plain : ipv6 host = false := by
    simp only [ipv6, decide_eq_false_iff_not]
    exact fun pair => noBracket pair.1
  have positive := List.length_pos_iff.mpr content
  have ends : urlEnd host = none := by
    rw [urlEnd, if_neg (by simp [plain]), if_neg noColon]
  have stored : urlAddress host host.length = host := by
    rw [urlAddress, if_neg (by simp [plain]), List.take_length, List.take_of_length_le (by omega)]
  have allowed : domainMatches pool (some (.array [.null, .string (ascii "1//" ++ host)])) =
    true := rfl
  rw [parseReconnect, if_pos allowed, url, port, extractSockaddr]
  dsimp only
  rw [begins, ends]
  dsimp only
  rw [if_neg (by omega), stored]
  rfl

/-- The url is in the domain of the pool, the new host is not. -/
theorem reconnect_leaves_domain :
    parseReconnect poolA
        (some (.array [.string (ascii "b.pool.com"), .string (ascii "1//evil.com")])) =
        some ⟨ascii "evil.com", ascii "80"⟩ ∧
      strchr dot (ascii "evil.com") ≠ strchr dot poolA.sockaddrUrl := by
  decide +kernel

end CgminerT4.Guarantees.ReconnectDomain
