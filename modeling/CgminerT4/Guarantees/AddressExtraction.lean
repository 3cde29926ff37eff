import CgminerT4.Guarantees.ReconnectDomain

/-!
# Host and port of an address

extract_sockaddr searches for "//", for brackets and for a colon in whatever
follows, the path included, and cuts only the port at a slash. With a port the
result is right unless the path of a plain name has a pair of brackets; without
one it is right only when there is no path; and without a scheme a "//" in the
path hides the host.
-/
namespace CgminerT4.Guarantees.AddressExtraction
open Library.ByteString Source.Jansson Source.Reconnect ReconnectDomain

/-- None of the characters that extract_sockaddr looks for. -/
def Plain (name : Bytes) : Prop :=
  slash ∉ name ∧ colon ∉ name ∧ openBracket ∉ name ∧ closeBracket ∉ name

/-- A literal in brackets has no bracket and no slash. -/
def Literal (name : Bytes) : Prop := slash ∉ name ∧ openBracket ∉ name ∧ closeBracket ∉ name

inductive Host where
  | plain (name : Bytes) (filled : name ≠ []) (chars : Plain name)
  | bracketed (name : Bytes) (chars : Literal name)

def Host.name : Host → Bytes
  | .plain name _ _ => name
  | .bracketed name _ => name

def Host.text : Host → Bytes
  | .plain name _ _ => name
  | .bracketed name _ => openBracket :: name ++ [closeBracket]

/-- One to five digits. -/
def Digits (port : Bytes) : Prop :=
  1 ≤ port.length ∧ port.length ≤ 5 ∧ ∀ c ∈ port, 48 ≤ c ∧ c ≤ 57

/-- The parts of a url. -/
structure Parts where
  scheme : Option Bytes
  host : Host
  port : Option Bytes
  path : Option Bytes

namespace Parts

def schemeText (u : Parts) : Bytes := u.scheme.elim [] fun scheme => scheme ++ [slash, slash]
def portText (u : Parts) : Bytes := u.port.elim [] fun port => colon :: port
def pathText (u : Parts) : Bytes := u.path.elim [] fun path => slash :: path

/-- What follows the scheme. -/
def rest (u : Parts) : Bytes := u.host.text ++ (u.portText ++ u.pathText)

def text (u : Parts) : Bytes := u.schemeText ++ u.rest

/-- The port that the url names, or that of http. -/
def effectivePort (u : Parts) : Bytes := u.port.getD (ascii "80")

end Parts

/-- [scheme //]HOST[:PORT][/PATH] -/
structure Url extends Parts where
  simple : ∀ scheme ∈ toParts.scheme, slash ∉ scheme
  digits : ∀ port ∈ toParts.port, Digits port
  short : toParts.text.length < 250

def Extracts (u : Url) : Prop := extractSockaddr u.text = some (u.host.name, u.effectivePort)

/-- What may stand behind the host. -/
def Ends (tail port : Bytes) : Prop :=
  tail = [] ∧ port = ascii "80" ∨
    ∃ q, q ≠ [] ∧ tail = colon :: q ∧ Source.Reconnect.portText q = port

/-- A text that shows this host and port: the name, in brackets or with none and
no pair of brackets behind it, and then the end or a colon and the port. -/
def Shows (r name port : Bytes) : Prop :=
  ∃ tail, (ipv6 r = false ∧ name ≠ [] ∧ colon ∉ name ∧ r = name ++ tail ∨
      r = openBracket :: name ++ closeBracket :: tail) ∧ Ends tail port

/-- With a scheme or no "//" in the path, a port and no brackets that are not the
host's, or neither port nor path; else what follows the "//" shows the same
address once more. -/
def Kept (u : Url) : Prop :=
  match u.scheme, afterSlashes u.pathText with
  | none, some behind => Shows behind u.host.name u.effectivePort
  | _, _ =>
    u.port.isSome = true ∧ (ipv6 u.host.text = true ∨ ipv6 u.pathText = false) ∨
      u.port = none ∧ u.path = none

/-! ## Searches -/

/-- The front of a list up to a character that it does not have. -/
theorem takeWhile_cut (c : UInt8) (front tail : Bytes) (absent : c ∉ front)
    (starts : tail = [] ∨ ∃ q, tail = c :: q) :
    (front ++ tail).takeWhile (· ≠ c) = front := by
  have passes : ∀ b ∈ front, decide (b ≠ c) = true := by
    intro b member
    simpa using fun same : b = c => absent (same ▸ member)
  rw [List.takeWhile_append_of_pos passes]
  rcases starts with rfl | ⟨q, rfl⟩ <;> simp

theorem cut_unique (c : UInt8) (front tail front' tail' : Bytes) (absent : c ∉ front)
    (absent' : c ∉ front') (starts : tail = [] ∨ ∃ q, tail = c :: q)
    (starts' : tail' = [] ∨ ∃ q, tail' = c :: q)
    (same : front ++ tail = front' ++ tail') : front = front' ∧ tail = tail' := by
  have first : front = front' := by
    rw [← takeWhile_cut c front tail absent starts, same,
      takeWhile_cut c front' tail' absent' starts']
  subst first
  exact ⟨rfl, List.append_cancel_left same⟩

theorem exists_cut (c : UInt8) (r : Bytes) :
    ∃ front tail, r = front ++ tail ∧ c ∉ front ∧ (tail = [] ∨ ∃ q, tail = c :: q) := by
  by_cases inside : c ∈ r
  · obtain ⟨front, q, rfl, absent⟩ := List.eq_append_cons_of_mem inside
    exact ⟨front, c :: q, rfl, absent, Or.inr ⟨q, rfl⟩⟩
  · exact ⟨r, [], (List.append_nil r).symm, inside, Or.inl rfl⟩

theorem offset_cut (c : UInt8) (front behind : Bytes) (absent : c ∉ front) :
    offset c (front ++ c :: behind) = front.length := by
  rw [offset, takeWhile_cut c front (c :: behind) absent (Or.inr ⟨behind, rfl⟩)]

theorem ipv6_split (r : Bytes) :
    ipv6 r = true ↔ ∃ front behind, r = front ++ closeBracket :: behind ∧ openBracket ∈ front ∧
      closeBracket ∉ front := by
  unfold ipv6
  rw [decide_eq_true_iff]
  constructor
  · rintro ⟨opened, closed, order⟩
    obtain ⟨front, behind, rfl, absent⟩ := List.eq_append_cons_of_mem closed
    rw [offset_cut closeBracket front behind absent] at order
    refine ⟨front, behind, rfl, ?_, absent⟩
    by_contra missing
    have passes : ∀ b ∈ front, decide (b ≠ openBracket) = true := by
      intro b member
      simpa using fun same : b = openBracket => missing (same ▸ member)
    rw [offset, List.takeWhile_append_of_pos passes, List.length_append] at order
    omega
  · rintro ⟨front, behind, rfl, opened, absent⟩
    refine ⟨List.mem_append_left _ opened, List.mem_append_right _ List.mem_cons_self, ?_⟩
    rw [offset_cut closeBracket front behind absent, offset_append openBracket front _ opened]
    exact offset_lt openBracket front opened

/-- Text without brackets in front. -/
theorem ipv6_behind (front r : Bytes) (opened : openBracket ∉ front)
    (closed : closeBracket ∉ front) :
    ipv6 (front ++ r) = ipv6 r := by
  have passes (c : UInt8) (absent : c ∉ front) :
      offset c (front ++ r) = front.length + offset c r := by
    rw [offset, List.takeWhile_append_of_pos fun b member => by
        simpa using fun same : b = c => absent (same ▸ member),
      List.length_append]
    rfl
  unfold ipv6
  rw [passes _ opened, passes _ closed]
  simp [opened, closed]

theorem ipv6_bracketed (name tail : Bytes) (closed : closeBracket ∉ name) :
    ipv6 (openBracket :: name ++ closeBracket :: tail) = true :=
  (ipv6_split _).mpr ⟨openBracket :: name, tail, rfl, List.mem_cons_self, by
    rw [List.mem_cons, not_or]
    exact ⟨by decide, closed⟩⟩

/-- No slash stands in front of the searched text. -/
theorem afterSlashes_behind (front r : Bytes) (absent : slash ∉ front) :
    afterSlashes (front ++ r) = afterSlashes r := by
  induction front with
  | nil => rfl
  | cons a front ih =>
    rw [List.mem_cons, not_or] at absent
    rw [List.cons_append, ← ih absent.2]
    cases front ++ r with
    | nil => rfl
    | cons b more =>
      rw [afterSlashes, if_neg]
      exact fun slashes => absent.1 slashes.1.symm

theorem afterSlashes_scheme (scheme r : Bytes) (absent : slash ∉ scheme) :
    afterSlashes (scheme ++ slash :: slash :: r) = some r := by
  rw [afterSlashes_behind scheme _ absent, afterSlashes, if_pos ⟨rfl, rfl⟩]

/-! ## The host and the port of a text -/

/-- What extract_sockaddr makes of the text from url_begin on. -/
def ending (r : Bytes) : Option (Bytes × Bytes) :=
  match urlEnd r with
  | some urlLen =>
    if r.length - urlLen - 1 < 1 then none
    else if urlLen < 1 then none
    else some (urlAddress r urlLen, Source.Reconnect.portText (r.drop (urlLen + 1)))
  | none => if r.length < 1 then none else some (urlAddress r r.length, ascii "80")

theorem extractSockaddr_ending (url : Bytes) : extractSockaddr url = ending (urlBegin url) := rfl

/-- A text cut at its first colon behind `front`, in which none is looked for. -/
theorem ending_cut (r front tail address : Bytes) (parts : r = front ++ tail) (filled : front ≠ [])
    (starts : tail = [] ∨ ∃ q, tail = colon :: q)
    (ends : urlEnd r = if tail = [] then none else some front.length)
    (host : urlAddress r front.length = address) (name port : Bytes) :
    ending r = some (name, port) ↔ address = name ∧ Ends tail port := by
  have positive := List.length_pos_iff.mpr filled
  have total : r.length = front.length + tail.length := by rw [parts, List.length_append]
  unfold ending
  rcases starts with rfl | ⟨q, rfl⟩
  · rw [ends, if_pos rfl]
    rw [List.length_nil, Nat.add_zero] at total
    dsimp only
    rw [total, if_neg (by omega), host, Option.some_inj, Prod.mk.injEq]
    constructor
    · rintro ⟨rfl, rfl⟩
      exact ⟨rfl, Or.inl ⟨rfl, rfl⟩⟩
    · rintro ⟨rfl, ⟨_, rfl⟩ | ⟨q, _, never, _⟩⟩
      · exact ⟨rfl, rfl⟩
      · cases never
  · rw [ends, if_neg (List.cons_ne_nil _ _)]
    have behind : r.drop (front.length + 1) = q := by
      rw [parts, ← List.drop_drop, List.drop_left]
      rfl
    rw [List.length_cons] at total
    dsimp only
    by_cases bare : q = []
    · subst bare
      rw [if_pos (by rw [List.length_nil] at total; omega)]
      refine iff_of_false (by rintro ⟨⟩) ?_
      rintro ⟨_, ⟨never, _⟩ | ⟨q, filled, same, _⟩⟩
      · cases never
      · exact filled (List.cons.inj same).2.symm
    · have long := List.length_pos_iff.mpr bare
      rw [if_neg (by omega), if_neg (by omega), host, behind, Option.some_inj, Prod.mk.injEq]
      constructor
      · rintro ⟨rfl, rfl⟩
        exact ⟨rfl, Or.inr ⟨q, bare, rfl, rfl⟩⟩
      · rintro ⟨rfl, ⟨never, _⟩ | ⟨_, _, same, rfl⟩⟩
        · cases never
        · cases same
          exact ⟨rfl, rfl⟩

/-- Without a pair of brackets the host ends at the first colon. -/
theorem ending_plain (r name port : Bytes) (short : r.length ≤ 253) (closed : closeBracket ∉ name)
    (plain : ipv6 r = false) : ending r = some (name, port) ↔ Shows r name port := by
  obtain ⟨front, tail, parts, absent, starts⟩ := exists_cut colon r
  have shown : Shows r name port ↔ name ≠ [] ∧ front = name ∧ Ends tail port := by
    constructor
    · rintro ⟨other, ⟨_, filled, colonless, split⟩ | split, ends⟩
      · have starts' : other = [] ∨ ∃ q, other = colon :: q :=
          ends.imp (fun stop => stop.1) fun ⟨q, _, more, _⟩ => ⟨q, more⟩
        obtain ⟨rfl, rfl⟩ :=
          cut_unique colon front tail name other absent colonless starts starts'
            (parts.symm.trans split)
        exact ⟨filled, rfl, ends⟩
      · rw [split, ipv6_bracketed name other closed] at plain
        cases plain
    · rintro ⟨filled, rfl, ends⟩
      exact ⟨tail, Or.inl ⟨plain, filled, absent, parts⟩, ends⟩
  rw [shown]
  by_cases empty : front = []
  · subst empty
    refine iff_of_false ?_ fun ⟨filled, same, _⟩ => filled same.symm
    rw [List.nil_append] at parts
    subst parts
    unfold ending urlEnd
    rw [if_neg (by rw [plain]; exact Bool.false_ne_true)]
    rcases starts with rfl | ⟨q, rfl⟩
    · exact fun never => nomatch never
    · have atStart : offset colon (colon :: q) = 0 := offset_cut colon [] q absent
      rw [if_pos List.mem_cons_self, atStart]
      dsimp only
      rw [if_pos Nat.one_pos, ite_self]
      exact fun never => nomatch never
  · have ends : urlEnd r = if tail = [] then none else some front.length := by
      unfold urlEnd
      rw [if_neg (by rw [plain]; exact Bool.false_ne_true)]
      rcases starts with rfl | ⟨q, rfl⟩
      · rw [if_pos rfl, if_neg (by rw [parts, List.append_nil]; exact absent)]
      · rw [if_neg (List.cons_ne_nil _ _),
          if_pos (by rw [parts]; exact List.mem_append_right _ List.mem_cons_self),
          parts, offset_cut colon front q absent]
    have host : urlAddress r front.length = front := by
      unfold urlAddress
      rw [if_neg (by rw [plain]; exact Bool.false_ne_true), parts, List.take_left]
      exact List.take_of_length_le (by rw [parts, List.length_append] at short; omega)
    rw [ending_cut r front tail front parts empty starts ends host]
    constructor
    · rintro ⟨rfl, ends⟩
      exact ⟨empty, rfl, ends⟩
    · exact fun ⟨_, same, ends⟩ => ⟨same, ends⟩

/-- The end that a pair of brackets leaves: the first colon behind it. -/
theorem urlEnd_pair (r before mid tail : Bytes)
    (whole : r = (before ++ closeBracket :: mid) ++ tail) (pair : ipv6 r = true)
    (absent : closeBracket ∉ before) (colonless : colon ∉ mid)
    (starts : tail = [] ∨ ∃ q, tail = colon :: q) :
    urlEnd r = if tail = [] then none else some (before ++ closeBracket :: mid).length := by
  have noColon : colon ∉ closeBracket :: mid := by
    rw [List.mem_cons, not_or]
    exact ⟨by decide, colonless⟩
  have split : r = before ++ closeBracket :: (mid ++ tail) := by
    rw [whole, List.append_assoc]
    rfl
  have rest : r.drop before.length = (closeBracket :: mid) ++ tail := by
    rw [whole, List.append_assoc, List.drop_left]
  unfold urlEnd
  rw [if_pos pair]
  dsimp only
  rw [split, offset_cut closeBracket before (mid ++ tail) absent, ← split, rest]
  rcases starts with rfl | ⟨q, rfl⟩
  · rw [if_pos rfl, if_neg (by rw [List.append_nil]; exact noColon)]
  · rw [if_neg (List.cons_ne_nil _ _), if_pos (List.mem_append_right _ List.mem_cons_self),
      offset_cut colon (closeBracket :: mid) q noColon, @List.length_append _ before]

/-- The host that goes with it starts behind the first character. -/
theorem urlAddress_pair (r inner mid tail : Bytes) (c : UInt8) (short : r.length ≤ 253)
    (whole : r = (c :: inner ++ closeBracket :: mid) ++ tail) (pair : ipv6 r = true) :
    urlAddress r (c :: inner ++ closeBracket :: mid).length =
      (inner ++ closeBracket :: mid).dropLast := by
  have size : (c :: inner ++ closeBracket :: mid).length - 2 =
      (inner ++ closeBracket :: mid).length - 1 := by
    rw [List.cons_append, List.length_cons]
    omega
  have dropped : r.drop 1 = (inner ++ closeBracket :: mid) ++ tail := by
    rw [whole]
    rfl
  unfold urlAddress
  rw [if_pos pair, size, dropped, List.take_append_of_le_length (by omega), ← List.dropLast_eq_take]
  refine List.take_of_length_le ?_
  rw [whole, List.length_append, List.cons_append, List.length_cons] at short
  rw [List.length_dropLast]
  omega

/-- With a pair, the host is the text from the second character to the last but
one before the end; it has no bracket only when the pair is around it. -/
theorem ending_pair (r name port : Bytes) (short : r.length ≤ 253) (opened : openBracket ∉ name)
    (closed : closeBracket ∉ name) (pair : ipv6 r = true) :
    ending r = some (name, port) ↔ Shows r name port := by
  obtain ⟨before, behind, split, inside, absent⟩ := (ipv6_split r).mp pair
  obtain ⟨mid, tail, parts, colonless, starts⟩ := exists_cut colon behind
  obtain ⟨c, inner, rfl⟩ : ∃ c inner, before = c :: inner := by
    cases before with
    | nil => exact absurd inside List.not_mem_nil
    | cons c inner => exact ⟨c, inner, rfl⟩
  have whole : r = (c :: inner ++ closeBracket :: mid) ++ tail := by
    rw [split, parts, List.append_assoc]
    rfl
  have ends := urlEnd_pair r (c :: inner) mid tail whole pair absent colonless starts
  have host := urlAddress_pair r inner mid tail c short whole pair
  rw [ending_cut r _ tail _ whole (List.cons_ne_nil _ _) starts ends host]
  constructor
  · rintro ⟨address, stops⟩
    have nothing : mid = [] := by
      cases mid with
      | nil => rfl
      | cons m mid =>
        rw [List.dropLast_append_of_ne_nil (List.cons_ne_nil _ _),
          List.dropLast_cons_of_ne_nil (List.cons_ne_nil _ _)]
          at address
        exact absurd (address ▸ List.mem_append_right _ List.mem_cons_self) closed
    subst nothing
    rw [List.dropLast_concat] at address
    subst address
    have first : openBracket = c := (List.mem_cons.mp inside).resolve_right opened
    subst first
    exact ⟨tail, Or.inr (by rw [whole, List.append_assoc]; rfl), stops⟩
  · rintro ⟨other, ⟨plain, _⟩ | same, stops⟩
    · rw [pair] at plain
      cases plain
    · have starts' : other = [] ∨ ∃ q, other = colon :: q :=
        stops.imp (fun stop => stop.1) fun ⟨q, _, more, _⟩ => ⟨q, more⟩
      have unopened : closeBracket ∉ openBracket :: name := by
        rw [List.mem_cons, not_or]
        exact ⟨by decide, closed⟩
      obtain ⟨head, next⟩ :=
        cut_unique closeBracket (c :: inner) (closeBracket :: behind) (openBracket :: name)
        (closeBracket :: other) absent unopened (Or.inr ⟨_, rfl⟩) (Or.inr ⟨_, rfl⟩)
          (split.symm.trans same)
      cases head
      obtain ⟨rfl, rfl⟩ :=
        cut_unique colon mid tail [] other colonless List.not_mem_nil starts starts'
        (parts.symm.trans (List.cons.inj next).2)
      exact ⟨List.dropLast_concat, stops⟩

theorem ending_iff (r name port : Bytes) (short : r.length ≤ 253) (opened : openBracket ∉ name)
    (closed : closeBracket ∉ name) : ending r = some (name, port) ↔ Shows r name port := by
  cases pair : ipv6 r with
  | false => exact ending_plain r name port short closed pair
  | true => exact ending_pair r name port short opened closed pair

/-! ## Urls -/

theorem urlBegin_some (url behind : Bytes) (found : afterSlashes url = some behind) :
    urlBegin url = behind := by
  rw [urlBegin, found]
  rfl

theorem urlBegin_none (url : Bytes) (absent : afterSlashes url = none) : urlBegin url = url := by
  rw [urlBegin, absent]
  rfl

theorem Digits.plain {port : Bytes} (digits : Digits port) : Plain port := by
  have other (c : UInt8) (outside : ¬ (48 ≤ c ∧ c ≤ 57)) : c ∉ port :=
    fun member => outside (digits.2.2 c member)
  exact ⟨other _ (by decide), other _ (by decide), other _ (by decide), other _ (by decide)⟩

theorem Host.chars (host : Host) :
    slash ∉ host.name ∧ openBracket ∉ host.name ∧ closeBracket ∉ host.name := by
  cases host with
  | plain name filled chars => exact ⟨chars.1, chars.2.2⟩
  | bracketed name chars => exact chars

theorem Host.slash_text (host : Host) : slash ∉ host.text := by
  cases host with
  | plain name filled chars => exact chars.1
  | bracketed name chars =>
    simp only [Host.text, List.mem_append, List.mem_cons, not_or]
    exact ⟨⟨by decide, chars.1⟩, by decide⟩

variable (u : Url)

/-- The port is cut at the slash of the path, or ends with the url. -/
theorem portText_port (port : Bytes) (there : u.port = some port) :
    Source.Reconnect.portText (port ++ u.pathText) = port := by
  obtain ⟨_, five, _⟩ := u.digits port there
  have absent := (u.digits port there).plain.1
  have starts : (u.pathText.take (5 - port.length)) = [] ∨
      ∃ q, u.pathText.take (5 - port.length) = slash :: q := by
    unfold Parts.pathText
    cases u.path with
    | none => exact Or.inl List.take_nil
    | some path =>
      cases 5 - port.length with
      | zero => exact Or.inl rfl
      | succ n => exact Or.inr ⟨_, rfl⟩
  unfold Source.Reconnect.portText
  rw [List.take_append, List.take_of_length_le five, takeWhile_cut slash port _ absent starts]

theorem slash_portText : slash ∉ u.portText := by
  unfold Parts.portText
  cases there : u.port with
  | none => exact List.not_mem_nil
  | some port =>
    rw [Option.elim_some, List.mem_cons, not_or]
    exact ⟨by decide, (u.digits port there).plain.1⟩

/-- Where extract_sockaddr starts to read. -/
theorem urlBegin_text :
    urlBegin u.text =
      match u.scheme, afterSlashes u.pathText with
      | none, some behind => behind
      | _, _ => u.rest := by
  have apart : slash ∉ u.host.text ++ u.portText := by
    rw [List.mem_append, not_or]
    exact ⟨u.host.slash_text, slash_portText u⟩
  unfold Parts.text Parts.schemeText
  cases named : u.scheme with
  | some scheme =>
    rw [Option.elim_some, List.append_assoc]
    exact urlBegin_some _ _ (afterSlashes_scheme scheme u.rest (u.simple scheme named))
  | none =>
    have same : afterSlashes u.rest = afterSlashes u.pathText := by
      rw [Parts.rest, ← List.append_assoc, afterSlashes_behind _ _ apart]
    rw [Option.elim_none, List.nil_append]
    cases found : afterSlashes u.pathText with
    | some behind => exact urlBegin_some _ _ (same.trans found)
    | none => exact urlBegin_none _ (same.trans found)

theorem ends_iff :
    Ends (u.portText ++ u.pathText) u.effectivePort ↔ u.port.isSome = true ∨ u.path = none := by
  unfold Ends Parts.effectivePort Parts.portText
  cases there : u.port with
  | some port =>
    have positive := (u.digits port there).1
    refine iff_of_true (Or.inr ⟨port ++ u.pathText, ?_, rfl, portText_port u port there⟩)
      (Or.inl rfl)
    intro empty
    rw [(List.append_eq_nil_iff.mp empty).1] at positive
    cases positive
  | none =>
    rw [Option.elim_none, List.nil_append, Option.getD_none]
    unfold Parts.pathText
    cases u.path with
    | none => exact iff_of_true (Or.inl ⟨rfl, rfl⟩) (Or.inr rfl)
    | some path =>
      refine iff_of_false ?_ ?_
      · rintro (⟨never, _⟩ | ⟨q, _, other, _⟩)
        · cases never
        · exact absurd (List.cons.inj other).1 (by decide)
      · rintro (never | never) <;> cases never

theorem ipv6_bracketless (name : Bytes) (opened : openBracket ∉ name)
    (closed : closeBracket ∉ name) :
    ipv6 name = false := by
  have empty := ipv6_behind name [] opened closed
  rw [List.append_nil] at empty
  exact empty

theorem ipv6_portText : ipv6 (u.portText ++ u.pathText) = ipv6 u.pathText := by
  unfold Parts.portText
  cases there : u.port with
  | none => rfl
  | some port =>
    have chars := (u.digits port there).plain
    apply ipv6_behind
    · rw [Option.elim_some, List.mem_cons, not_or]
      exact ⟨by decide, chars.2.2.1⟩
    · rw [Option.elim_some, List.mem_cons, not_or]
      exact ⟨by decide, chars.2.2.2⟩

/-- Of a plain name the pair of brackets would be in the path. -/
theorem shows_plain (name tail port : Bytes) (filled : name ≠ []) (chars : Plain name) :
    Shows (name ++ tail) name port ↔ ipv6 tail = false ∧ Ends tail port := by
  have apart := ipv6_behind name tail chars.2.2.1 chars.2.2.2
  constructor
  · rintro ⟨other, ⟨plain, _, _, same⟩ | same, ends⟩
    · rw [List.append_cancel_left same]
      rw [apart, List.append_cancel_left same] at plain
      exact ⟨plain, ends⟩
    · cases name with
      | nil => exact absurd rfl filled
      | cons c name => exact absurd ((List.cons.inj same).1 ▸ List.mem_cons_self) chars.2.2.1
  · exact fun ⟨plain, ends⟩ => ⟨tail, Or.inl ⟨apart.trans plain, filled, chars.2.1, rfl⟩, ends⟩

theorem shows_bracketed (name tail port : Bytes) (closed : closeBracket ∉ name) :
    Shows (openBracket :: name ++ [closeBracket] ++ tail) name port ↔ Ends tail port := by
  have whole : openBracket :: name ++ [closeBracket] ++ tail =
      openBracket :: name ++ closeBracket :: tail := by
    rw [List.append_assoc, List.singleton_append]
  rw [whole]
  constructor
  · rintro ⟨other, ⟨plain, _⟩ | same, ends⟩
    · rw [ipv6_bracketed name tail closed] at plain
      cases plain
    · rwa [(List.cons.inj (List.append_cancel_left same)).2]
  · exact fun ends => ⟨tail, Or.inr rfl, ends⟩

/-- The rest of the url shows its address unless the brackets of a path take over. -/
theorem shows_rest :
    Shows u.rest u.host.name u.effectivePort ↔
      u.port.isSome = true ∧ (ipv6 u.host.text = true ∨ ipv6 u.pathText = false) ∨
        u.port = none ∧ u.path = none := by
  have pathless : u.path = none → ipv6 u.pathText = false := by
    intro absent
    unfold Parts.pathText
    rw [absent]
    rfl
  have ends := ends_iff u
  unfold Parts.rest
  cases u.host with
  | plain name filled chars =>
    have bracketless : ipv6 name = false := ipv6_bracketless name chars.2.2.1 chars.2.2.2
    simp only [Host.text, Host.name]
    rw [shows_plain name _ _ filled chars, ipv6_portText, ends, bracketless]
    cases u.port with
    | some port => simp
    | none => simpa using pathless
  | bracketed name chars =>
    have pair : ipv6 (openBracket :: name ++ [closeBracket]) = true :=
      ipv6_bracketed name [] chars.2.2
    simp only [Host.text, Host.name]
    rw [shows_bracketed name _ _ chars.2.2, ends, pair]
    cases u.port with
    | some port => simp
    | none => simp

theorem extracts_iff : Extracts u ↔ Kept u := by
  have short : (urlBegin u.text).length ≤ 253 := by
    have whole := congrArg List.length (url_split u.text)
    have bound := u.short
    rw [List.length_append] at whole
    omega
  obtain ⟨_, opened, closed⟩ := u.host.chars
  unfold Extracts Kept
  rw [extractSockaddr_ending, ending_iff _ _ _ short opened closed, urlBegin_text]
  cases u.scheme with
  | some scheme => exact shows_rest u
  | none =>
    cases afterSlashes u.pathText with
    | some behind => exact Iff.rfl
    | none => exact shows_rest u

/-- `pool/a` -/
def pathOnly : Url where
  scheme := none
  host := .plain [112, 111, 111, 108] (List.cons_ne_nil _ _) (by unfold Plain; decide)
  port := none
  path := some [97]
  simple := fun _ never => nomatch never
  digits := fun _ never => nomatch never
  short := by decide

/-- The path is taken for a part of the host. -/
theorem pathOnly_extracts :
    extractSockaddr pathOnly.text = some (ascii "pool/a", ascii "80") ∧ ¬ Extracts pathOnly := by
  have found : extractSockaddr pathOnly.text = some (ascii "pool/a", ascii "80") := by
    rw [ascii_eq "pool/a"]
    rfl
  refine ⟨found, fun extracts => ?_⟩
  have same := congrArg (Option.map Prod.fst) (found.symm.trans extracts)
  rw [ascii_eq "pool/a"] at same
  revert same
  decide

end CgminerT4.Guarantees.AddressExtraction
