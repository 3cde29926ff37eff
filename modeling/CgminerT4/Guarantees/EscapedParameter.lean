import CgminerT4.Source.PoolParam

/-!
# What addpool makes of escaped strings

A copy is the part of the parameter that is read, less a separator and the backslashes,
and a terminator. So nothing is written beyond the buffer, and what was escaped is read
back as it was.
-/
namespace CgminerT4.Guarantees.EscapedParameter
open Library.ByteString
open Library.JsonText (comma backslash)
open Source.ApiReply (escapeString separator equals)
open Source.PoolParam

/-! ## One field -/

/-- The buffer gets the characters of the field and a terminator. -/
theorem copyadvanceafter_buffer (param buf : Bytes) :
    copyadvanceafter comma param buf =
      ((Source.ApiControl.copyadvanceafter param).2,
        buf ++ (Source.ApiControl.copyadvanceafter param).1 ++ [0]) := by
  fun_induction Source.ApiControl.copyadvanceafter param generalizing buf with
  | case1 => simp [copyadvanceafter]
  | case2 => simp [copyadvanceafter]
  | case3 c other => simp [copyadvanceafter, other]
  | case4 d param => simp [copyadvanceafter]
  | case5 d param field rest same other ih =>
    rw [copyadvanceafter, if_neg other, if_pos rfl, ih, same]
    simp
  | case6 c d param other plain field rest same ih =>
    rw [copyadvanceafter, if_neg other, if_neg plain, ih, same]
    simp

/-- A field and what follows it are read, and a separator if anything follows. -/
theorem copyadvanceafter_length (param : Bytes) :
    let field := (Source.ApiControl.copyadvanceafter param).1
    let rest := (Source.ApiControl.copyadvanceafter param).2
    field.length + rest.length ≤ param.length ∧
      (rest ≠ [] → field.length + rest.length < param.length) := by
  fun_induction Source.ApiControl.copyadvanceafter param with
  | case1 => simp
  | case2 => simp
  | case3 c other => simp
  | case4 d param => simp
  | case5 d param field rest same other ih =>
    rw [same] at ih
    simp only [List.length_cons] at ih ⊢
    exact ⟨by omega, fun more => by have := ih.2 more; omega⟩
  | case6 c d param other plain field rest same ih =>
    rw [same] at ih
    simp only [List.length_cons] at ih ⊢
    exact ⟨by omega, fun more => by have := ih.2 more; omega⟩

theorem escapeString_cons (c : UInt8) (str : Bytes) :
    escapeString (c :: str) false =
      (if c = comma ∨ c = separator ∨ c = equals ∨ c = backslash then [backslash, c] else [c]) ++
        escapeString str false := by
  rw [escapeString]
  refine congrArg (· ++ escapeString str false) ?_
  by_cases special : c = comma ∨ c = separator ∨ c = equals
  · have listed : c = comma ∨ c = separator ∨ c = equals ∨ c = backslash := by tauto
    simp only [special, listed, if_true, Bool.not_false]
  · have same : (c = comma ∨ c = separator ∨ c = equals ∨ c = backslash) ↔ c = backslash := by tauto
    simp only [special, same, if_false]
    by_cases isQuote : c = Library.JsonText.quote
    · have other : ¬c = backslash := by rw [isQuote]; decide
      simp only [if_pos isQuote, if_neg other, Bool.false_eq_true, if_false]
    · simp only [if_neg isQuote, decide_eq_true_eq]

/-- An escaped string is read back, up to the separator behind it or to the end. -/
theorem copyadvanceafter_escape (str rest : Bytes)
    (ends : rest = [] ∨ ∃ tail, rest = comma :: tail) :
    Source.ApiControl.copyadvanceafter (escapeString str false ++ rest) = (str, rest.drop 1) := by
  induction str with
  | nil =>
    obtain rfl | ⟨tail, rfl⟩ := ends
    · rfl
    · cases tail with
      | nil => rfl
      | cons d tail => rfl
  | cons c str ih =>
    rw [escapeString_cons]
    by_cases special : c = comma ∨ c = separator ∨ c = equals ∨ c = backslash
    · have other : ¬backslash = comma := by decide
      rw [if_pos special, List.append_assoc, List.cons_append, List.cons_append, List.nil_append,
        Source.ApiControl.copyadvanceafter, if_neg other, if_pos rfl, ih]
    · have plain : c ≠ comma ∧ c ≠ backslash :=
        ⟨fun same => special (.inl same), fun same => special (by simp [same])⟩
      rw [if_neg special, List.append_assoc, List.singleton_append]
      cases more : escapeString str false ++ rest with
      | nil =>
        rw [more] at ih
        obtain ⟨same, stop⟩ := Prod.mk.inj ih
        rw [Source.ApiControl.copyadvanceafter, if_neg plain.1, ← same, ← stop]
      | cons d tail =>
        rw [Source.ApiControl.copyadvanceafter, if_neg plain.1, if_neg plain.2, ← more, ih]

/-! ## The whole parameter -/

theorem pooldetails_escape (url user pass : Bytes) (filled : pass ≠ []) :
    Source.ApiControl.pooldetails
      (escapeString url false ++
        comma :: (escapeString user false ++ comma :: escapeString pass false)) =
      some (url, user, pass) := by
  have more : escapeString pass false ≠ [] := by
    obtain ⟨c, rest, rfl⟩ := List.exists_cons_of_ne_nil filled
    rw [escapeString_cons]
    split <;> simp
  have last := copyadvanceafter_escape pass [] (.inl rfl)
  rw [List.append_nil] at last
  have behindUrl : ¬escapeString user false ++ comma :: escapeString pass false = [] := by simp
  rw [Source.ApiControl.pooldetails, copyadvanceafter_escape url _ (.inr ⟨_, rfl⟩)]
  simp only [List.drop_succ_cons, List.drop_zero, if_neg behindUrl]
  rw [copyadvanceafter_escape user _ (.inr ⟨_, rfl⟩)]
  simp only [List.drop_succ_cons, List.drop_zero, if_neg more, last]

theorem pooldetails_buffer {param url user pass : Bytes}
    (taken : Source.ApiControl.pooldetails param = some (url, user, pass)) :
    pooldetails param = (url ++ 0 :: (user ++ 0 :: (pass ++ [0])),
      some ⟨0, url.length + 1, url.length + (user.length + 1 + 1)⟩) := by
  unfold Source.ApiControl.pooldetails at taken
  unfold pooldetails
  simp only [copyadvanceafter_buffer] at taken ⊢
  split at taken
  · cases taken
  · rename_i more
    split at taken
    · cases taken
    · rename_i last
      obtain ⟨rfl, rfl, rfl⟩ : _ = url ∧ _ = user ∧ _ = pass := by simpa using taken
      simp only [if_neg more, if_neg last, List.nil_append, List.append_assoc, List.length_append,
        List.length_cons, List.length_nil, List.cons_append]

/-- Each field is at most as long as what was read for it, and its terminator takes the place
of the separator or, once, of the end. -/
theorem pooldetails_written (param : Bytes) : (pooldetails param).1.length ≤ param.length + 1 := by
  unfold pooldetails
  simp only [copyadvanceafter_buffer]
  obtain ⟨urlLe, urlMore⟩ := copyadvanceafter_length param
  split
  · simp only [List.nil_append, List.length_append, List.length_singleton]
    omega
  · rename_i more
    have urlLt := urlMore more
    obtain ⟨userLe, userMore⟩ :=
      copyadvanceafter_length (Source.ApiControl.copyadvanceafter param).2
    split
    · simp only [List.nil_append, List.length_append, List.length_singleton]
      omega
    · rename_i last
      have userLt := userMore last
      obtain ⟨passLe, _⟩ := copyadvanceafter_length
        (Source.ApiControl.copyadvanceafter (Source.ApiControl.copyadvanceafter param).2).2
      simp only [List.nil_append, List.length_append, List.length_singleton]
      omega

/-- Escaped strings are found in the buffer as they were, and no parameter overflows it. -/
theorem escaped_taken_apart (url user pass : Bytes) (plainUrl : 0 ∉ url) (plainUser : 0 ∉ user)
    (plainPass : 0 ∉ pass) (filled : pass ≠ []) :
    (∃ buf details,
      pooldetails (escapeString url false ++
        comma :: (escapeString user false ++ comma :: escapeString pass false)) =
        (buf, some details) ∧
      cStringAt buf details.url = url ∧ cStringAt buf details.user = user ∧
        cStringAt buf details.pass = pass) ∧
    ∀ param, (pooldetails param).1.length ≤ param.length + 1 := by
  refine ⟨⟨_, _, pooldetails_buffer (pooldetails_escape url user pass filled), ?_, ?_, ?_⟩,
    pooldetails_written⟩
  · exact cString_layout url _ plainUrl
  · have skipped : (url ++ 0 :: (user ++ 0 :: (pass ++ [0]))).drop (url.length + 1) =
      user ++ 0 :: (pass ++ [0]) := by simp
    rw [cStringAt, skipped]
    exact cString_layout user _ plainUser
  · have skipped :
        (url ++ 0 :: (user ++ 0 :: (pass ++ [0]))).drop (url.length + (user.length + 1 + 1)) =
        pass ++ [0] := by
      simp
    rw [cStringAt, skipped]
    exact cString_layout pass [] plainPass

theorem escaped_taken_apart_sample :
    (∃ buf details,
      pooldetails (escapeString (ascii "h,p") false ++ comma ::
        (escapeString (ascii "u\\") false ++ comma :: escapeString (ascii "x=") false)) =
        (buf, some details) ∧
      cStringAt buf details.url = ascii "h,p" ∧ cStringAt buf details.user = ascii "u\\" ∧
      cStringAt buf details.pass = ascii "x=") ∧
    ∀ param, (pooldetails param).1.length ≤ param.length + 1 :=
  escaped_taken_apart (ascii "h,p") (ascii "u\\") (ascii "x=") (by decide +kernel)
    (by decide +kernel) (by decide +kernel)
    (by decide +kernel)

end CgminerT4.Guarantees.EscapedParameter
