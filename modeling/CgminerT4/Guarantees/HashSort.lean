import CgminerT4.Guarantees.HashTables
import CgminerT4.Library.MergeRuns

/-!
# HASH_SORT is a stable sort

A pass relinks the list from runs of one length to runs of twice that length. A
merge moves one item at a time from the front of either run behind the merged
part, whose last link is stale until the next item or the end of the pass sets
it. Whatever the comparison does the table keeps its elements; for a total and
transitive one they end up in order, equivalent ones in the order they had.
-/
namespace CgminerT4.Guarantees.HashTables
open Library.ByteString Library.DoublyLinked Library.MergeRuns Source.UtHash

variable {α : Type} [DecidableEq α] (key : α → Bytes) (cmpfcn : α → α → Int)

/-- The order of the comparison function. -/
def below (a b : α) : Bool := decide (cmpfcn a b ≤ 0)

/-- Following a link visits these cells first. -/
def Row (next : α → Option α) : Option α → List α → Prop
  | _, [] => True
  | start, a :: cells => start = some a ∧ Row next (next a) cells

omit [DecidableEq α] in
theorem follows_cons {next : α → Option α} {start : Option α} {a : α} {cells : List α}
    (follows : Follows next start (a :: cells)) : start = some a ∧ Follows next (next a) cells := by
  cases follows with
  | step rest => exact ⟨rfl, rest⟩

omit [DecidableEq α] in
theorem follows_nil {next : α → Option α} {start : Option α} (follows : Follows next start []) :
    start = none := by
  cases follows
  rfl

omit [DecidableEq α] in
theorem row_of_follows {next : α → Option α} {start : Option α} (front back : List α)
    (follows : Follows next start (front ++ back)) : Row next start front := by
  induction front generalizing start with
  | nil => trivial
  | cons a front ih =>
    cases follows with
    | step rest => exact ⟨rfl, ih rest⟩

omit [DecidableEq α] in
theorem follows_drop {next : α → Option α} {start : Option α} (front back : List α)
    (follows : Follows next start (front ++ back)) : Follows next back.head? back := by
  induction front generalizing start with
  | nil =>
    rw [List.nil_append] at follows
    cases follows with
    | done => exact .done
    | step rest => exact .step rest
  | cons a front ih =>
    cases follows with
    | step rest => exact ih rest

omit [DecidableEq α] in
theorem Row.congr {next next' : α → Option α} {start : Option α} {cells : List α}
    (row : Row next start cells)
    (same : ∀ a ∈ cells, next' a = next a) : Row next' start cells := by
  induction cells generalizing start with
  | nil => trivial
  | cons a cells ih =>
    refine ⟨row.1, ?_⟩
    rw [same a List.mem_cons_self]
    exact ih row.2 fun b member => same b (List.mem_cons_of_mem a member)

/-- The merged part: linked, but for the link of its last cell. -/
structure Built (s : Merging α) (out : List α) : Prop where
  linked : Segment s.app none out (out.getLast?.bind s.app.next)
  list : s.list = out.head?
  tail : s.tail = out.getLast?

/-- A merge with `ps` left of one run, `qs` of the other and `after` behind them. -/
structure Merges (s : Merging α) (out ps qs after : List α) : Prop where
  built : Built s out
  distinct : (out ++ (ps ++ (qs ++ after))).Nodup
  first : Row s.app.next s.p ps
  psize : s.psize = ps.length
  second : Follows s.app.next s.q (qs ++ after)
  qsize : qs.length ≤ s.qsize
  ends : s.qsize ≠ qs.length → after = []

theorem link_next (s : Merging α) (out : List α) (e b : α) (built : Built s out) (away : b ∉ out) :
    (s.link (some e)).app.next b = s.app.next b := by
  unfold Merging.link
  dsimp only
  rw [setPrevOf_next, setNextOf_other _ _ _ b (by rw [built.tail]; exact getLast_ne away)]

/-- An item linked behind the merged part. -/
theorem link_built (s : Merging α) (out : List α) (e : α) (built : Built s out)
    (distinct : out.Nodup) (fresh : e ∉ out) :
    Built (s.link (some e)) (out ++ [e]) where
  linked := by
    rw [List.getLast?_concat]
    refine (segment_append _ none _ out [e]).mpr ⟨?_, (segment_single _ _ _ e).mpr ⟨?_, rfl⟩⟩
    · rw [List.head?_cons, Option.some_or]
      refine (relink_back built.linked distinct (some e)).frame fun b member => ?_
      have other : b ≠ e := fun same => fresh (same ▸ member)
      rw [← built.tail]
      exact ⟨setPrev_other _ e b _ other, rfl⟩
    · rw [Option.or_none, ← built.tail]
      exact setPrev_self _ e s.tail
  list := by
    unfold Merging.link
    dsimp only
    rw [built.tail, built.list]
    rcases List.eq_nil_or_concat out with rfl | ⟨front, a, rfl⟩
    · rfl
    · rw [List.concat_eq_append, List.getLast?_concat, Option.isSome_some, if_pos rfl,
        List.append_assoc, List.head?_append, List.head?_append]
      cases front <;> rfl
  tail := by rw [List.getLast?_concat]; rfl

/-- An item is taken from the first run. -/
theorem Merges.takeFirst {s : Merging α} {out ps qs after : List α} {e : α}
    (held : Merges s out (e :: ps) qs after) :
    Merges (Merging.link { s with p := s.app.next e, psize := s.psize - 1 } (some e))
      (out ++ [e]) ps qs after := by
  obtain ⟨outDistinct, restDistinct, apart⟩ := List.nodup_append'.mp held.distinct
  have fresh : e ∉ out := fun member => apart member List.mem_cons_self
  have next : ∀ b, b ∉ out →
      (Merging.link { s with p := s.app.next e, psize := s.psize - 1 } (some e)).app.next b =
      s.app.next b :=
        fun b away => link_next _ out e b ⟨held.built.linked, held.built.list, held.built.tail⟩ away
  have away : ∀ b, b ∈ ps ++ (qs ++ after) → b ∉ out :=
    fun b member inOut => apart inOut (List.mem_cons_of_mem e member)
  refine ⟨link_built _ out e ⟨held.built.linked, held.built.list,
    held.built.tail⟩ outDistinct fresh, ?_, ?_, ?_, ?_,
    held.qsize, held.ends⟩
  · rw [List.append_assoc]
    exact held.distinct
  · exact held.first.2.congr fun b member => next b (away b (List.mem_append_left _ member))
  · change s.psize - 1 = ps.length
    rw [held.psize, List.length_cons, Nat.add_sub_cancel]
  · exact held.second.congr fun b member => next b (away b (List.mem_append_right _ member))

/-- An item is taken from the second run. -/
theorem Merges.takeSecond {s : Merging α} {out ps qs after : List α} {e : α}
    (held : Merges s out ps (e :: qs) after) :
    Merges (Merging.link { s with q := s.app.next e, qsize := s.qsize - 1 } (some e))
      (out ++ [e]) ps qs after := by
  have distinct' : (out ++ e :: (ps ++ (qs ++ after))).Nodup :=
    (List.Perm.append_left out List.perm_middle).nodup_iff.mp held.distinct
  obtain ⟨outDistinct, restDistinct, apart⟩ := List.nodup_append'.mp distinct'
  have fresh : e ∉ out := fun member => apart member List.mem_cons_self
  have next : ∀ b, b ∉ out →
      (Merging.link { s with q := s.app.next e, qsize := s.qsize - 1 } (some e)).app.next b =
      s.app.next b :=
        fun b away => link_next _ out e b ⟨held.built.linked, held.built.list, held.built.tail⟩ away
  have away : ∀ b, b ∈ ps ++ (qs ++ after) → b ∉ out :=
    fun b member inOut => apart inOut (List.mem_cons_of_mem e member)
  have following : Follows s.app.next (s.app.next e) (qs ++ after) := (follows_cons held.second).2
  have length := held.qsize
  rw [List.length_cons] at length
  refine ⟨link_built _ out e ⟨held.built.linked, held.built.list,
    held.built.tail⟩ outDistinct fresh, ?_, ?_, held.psize,
    ?_, ?_, fun differs => held.ends ?_⟩
  · rw [List.append_assoc]
    exact distinct'
  · exact held.first.congr fun b member => next b (away b (List.mem_append_left _ member))
  · exact following.congr fun b member => next b (away b (List.mem_append_right _ member))
  · change qs.length ≤ s.qsize - 1
    omega
  · change s.qsize - 1 ≠ qs.length at differs
    rw [List.length_cons]
    omega

/-- The loop merges what is left of the two runs. -/
theorem mergeLoop_merges (fuel : Nat) (s : Merging α) (out ps qs after : List α)
    (held : Merges s out ps qs after) (enough : ps.length + qs.length < fuel) :
    ∃ s', mergeLoop cmpfcn fuel s = some s' ∧
      Merges s' (out ++ List.merge ps qs (below cmpfcn)) [] [] after := by
  induction fuel generalizing s out ps qs with
  | zero => omega
  | succ fuel ih =>
    cases ps with
    | nil =>
      have exhausted : s.psize = 0 := held.psize
      cases qs with
      | nil =>
        have stops : ¬ (0 < s.psize ∨ (0 < s.qsize ∧ s.q.isSome)) := by
          rintro (more | ⟨left, follows⟩)
          · omega
          · have second := held.second
            rw [held.ends (by rw [List.length_nil]; omega), List.append_nil] at second
            rw [follows_nil second] at follows
            cases follows
        refine ⟨s, by rw [mergeLoop, if_neg stops], ?_⟩
        rw [List.nil_merge, List.append_nil]
        exact held
      | cons e qs =>
        have start := (follows_cons held.second).1
        have goes : 0 < s.psize ∨ (0 < s.qsize ∧ s.q.isSome) := by
          have length := held.qsize
          rw [List.length_cons] at length
          exact .inr ⟨by omega, by rw [start]; rfl⟩
        have taken : s.take cmpfcn =
            some (some e, { s with q := s.app.next e, qsize := s.qsize - 1 }) := by
          rw [Merging.take, if_pos exhausted, start, Option.map_some]
        obtain ⟨s', run, held'⟩ :=
          ih _ (out ++ [e]) [] qs held.takeSecond (by simp only [List.length_cons] at enough; omega)
        refine ⟨s', ?_, ?_⟩
        · rw [mergeLoop, if_pos goes, taken]
          exact run
        · rw [List.nil_merge] at held' ⊢
          rwa [List.append_assoc, List.singleton_append] at held'
    | cons p ps =>
      have filled : s.psize ≠ 0 := by
        rw [held.psize, List.length_cons]
        omega
      have goes : 0 < s.psize ∨ (0 < s.qsize ∧ s.q.isSome) := .inl (by omega)
      have first : s.p = some p := held.first.1
      cases qs with
      | nil =>
        have finished : s.qsize = 0 ∨ s.q = none := by
          by_cases empty : s.qsize = 0
          · exact .inl empty
          · right
            have second := held.second
            rw [held.ends (by rw [List.length_nil]; exact empty), List.append_nil] at second
            exact follows_nil second
        have taken : s.take cmpfcn =
            some (some p, { s with p := s.app.next p, psize := s.psize - 1 }) := by
          rw [Merging.take, if_neg filled, if_pos finished, first, Option.bind_some]
        obtain ⟨s', run, held'⟩ :=
          ih _ (out ++ [p]) ps [] held.takeFirst
            (by simp only [List.length_cons] at enough ⊢; omega)
        refine ⟨s', ?_, ?_⟩
        · rw [mergeLoop, if_pos goes, taken]
          exact run
        · rw [List.merge_right] at held' ⊢
          rwa [List.append_assoc, List.singleton_append] at held'
      | cons q qs =>
        have start := (follows_cons held.second).1
        have both : ¬ (s.qsize = 0 ∨ s.q = none) := by
          have length := held.qsize
          rw [List.length_cons] at length
          rintro (empty | missing)
          · omega
          · rw [start] at missing
            cases missing
        rw [List.cons_merge_cons]
        by_cases order : cmpfcn p q ≤ 0
        · have taken : s.take cmpfcn =
              some (some p, { s with p := s.app.next p, psize := s.psize - 1 }) := by
            rw [Merging.take, if_neg filled, if_neg both, first, start, Option.bind_some,
              Option.bind_some, if_pos order]
          obtain ⟨s', run, held'⟩ := ih _ (out ++ [p]) ps (q :: qs) held.takeFirst
            (by simp only [List.length_cons] at enough ⊢; omega)
          refine ⟨s', ?_, ?_⟩
          · rw [mergeLoop, if_pos goes, taken]
            exact run
          · rw [if_pos (show below cmpfcn p q = true from decide_eq_true order)]
            rwa [List.append_assoc, List.singleton_append] at held'
        · have taken : s.take cmpfcn =
              some (some q, { s with q := s.app.next q, qsize := s.qsize - 1 }) := by
            rw [Merging.take, if_neg filled, if_neg both, first, start, Option.bind_some,
              Option.bind_some, if_neg order]
          obtain ⟨s', run, held'⟩ := ih _ (out ++ [q]) (p :: ps) qs held.takeSecond
            (by simp only [List.length_cons] at enough ⊢; omega)
          refine ⟨s', ?_, ?_⟩
          · rw [mergeLoop, if_pos goes, taken]
            exact run
          · rw [if_neg (by simpa [below] using order)]
            rwa [List.append_assoc, List.singleton_append] at held'

/-! ## Passes -/

omit [DecidableEq α] in
/-- Stepping over a run. -/
theorem skipRun_follows (app : Links α) (left psize : Nat) (q : α) (cells : List α)
    (follows : Follows app.next (some q) cells) :
    skipRun app left q psize = (psize + min left cells.length, (cells.drop left).head?) := by
  induction left generalizing q psize cells with
  | zero =>
    cases follows with
    | step rest => rw [skipRun, Nat.zero_min, List.drop_zero, List.head?_cons, Nat.add_zero]
  | succ left ih =>
    cases follows with
    | step rest =>
      rename_i cells
      rw [skipRun, List.length_cons, List.drop_succ_cons]
      cases link : app.next q with
      | none =>
        rw [link] at rest
        cases rest with
        | done => simp
      | some q' =>
        rw [link] at rest
        have stepped := ih (psize + 1) q' cells rest
        dsimp only
        rw [stepped, Nat.add_assoc, Nat.add_comm 1, Nat.succ_min_succ]

/-- One turn of a pass merges the two runs in front. -/
theorem passLoop_turn (insize fuel nmerges : Nat) (s : Merging α) (out a b after : List α)
    (built : Built s out) (distinct : (out ++ (a ++ (b ++ after))).Nodup)
    (follows : Follows s.app.next s.p (a ++ (b ++ after))) (filled : a ≠ [])
    (aShort : a.length ≤ insize) (aLast : a.length ≠ insize → b ++ after = [])
    (bShort : b.length ≤ insize) (bLast : insize ≠ b.length → after = [])
    (enough : a.length + b.length < fuel) :
    ∃ s' : Merging α, passLoop cmpfcn insize (fuel + 1) s nmerges =
      passLoop cmpfcn insize fuel s' (nmerges + 1) ∧
      Built s' (out ++ List.merge a b (below cmpfcn)) ∧ Follows s'.app.next s'.p after := by
  obtain ⟨p, a', shape⟩ : ∃ p a', a = p :: a' := by
    cases a with
    | nil => exact absurd rfl filled
    | cons p a' => exact ⟨p, a', rfl⟩
  have start : s.p = some p := by
    rw [shape] at follows
    exact (follows_cons follows).1
  have cut : (a ++ (b ++ after)).drop insize = b ++ after ∧
      min insize (a ++ (b ++ after)).length = a.length := by
    by_cases same : a.length = insize
    · rw [← same]
      exact ⟨List.drop_left, Nat.min_eq_left (by rw [List.length_append]; omega)⟩
    · rw [aLast same, List.append_nil]
      exact ⟨List.drop_eq_nil_of_le aShort, Nat.min_eq_right aShort⟩
  have skipped := skipRun_follows s.app insize 0 p (a ++ (b ++ after)) (start ▸ follows)
  rw [cut.1, cut.2, Nat.zero_add] at skipped
  have held :
      Merges { s with q := (b ++ after).head?, psize := a.length, qsize := insize } out a b after :=
    { built := ⟨built.linked, built.list, built.tail⟩
      distinct := distinct
      first := row_of_follows a _ follows
      psize := rfl
      second := follows_drop a _ follows
      qsize := bShort
      ends := bLast }
  obtain ⟨s', run, held'⟩ := mergeLoop_merges cmpfcn fuel _ out a b after held enough
  refine ⟨{ s' with p := s'.q }, ?_, ⟨held'.built.linked, held'.built.list, held'.built.tail⟩,
    held'.second⟩
  rw [start] at run
  rw [passLoop, start]
  simp only [skipped, Option.bind_eq_bind, run, Option.bind_some]

/-- What a pass makes of a list of runs. -/
theorem passLoop_merges (insize fuel nmerges : Nat) (s : Merging α) (out : List α)
    (runs : List (List α)) (positive : 0 < insize) (built : Built s out)
    (distinct : (out ++ runs.flatten).Nodup) (follows : Follows s.app.next s.p runs.flatten)
    (full : FullRuns insize runs) (enough : runs.flatten.length + 2 ≤ fuel) :
    ∃ s', passLoop cmpfcn insize fuel s nmerges =
      some (s', nmerges + (mergePairs (below cmpfcn) runs).length) ∧
      Built s' (out ++ (mergePairs (below cmpfcn) runs).flatten) := by
  have stop : ∀ (n merged : Nat) (s : Merging α), s.p = none →
      passLoop cmpfcn insize (n + 1) s merged = some (s, merged) := by
    intro n merged s ends
    rw [passLoop, ends]
  induction runs using List.twoStepInduction generalizing s out nmerges fuel with
  | nil =>
    obtain ⟨fuel, rfl⟩ : ∃ n, fuel = n + 1 := ⟨fuel - 1, by omega⟩
    refine ⟨s, stop fuel nmerges s (follows_nil follows), ?_⟩
    change Built s (out ++ [])
    rwa [List.append_nil]
  | singleton run =>
    rw [List.flatten_singleton] at follows distinct enough
    obtain ⟨filled, short⟩ := full
    obtain ⟨fuel, rfl⟩ : ∃ n, fuel = n + 1 + 1 := ⟨fuel - 2, by omega⟩
    obtain ⟨s', turn, built', rest⟩ :=
      passLoop_turn cmpfcn insize (fuel + 1) nmerges s out run [] [] built
      (by rwa [List.append_nil, List.append_nil]) (by rwa [List.append_nil, List.append_nil])
      (List.length_pos_iff.mp filled) short (fun _ => rfl) (Nat.zero_le _) (fun _ => rfl)
      (by rw [List.length_nil]; omega)
    refine ⟨s', by rw [turn, stop fuel _ s' (follows_nil rest)]; rfl, ?_⟩
    rw [List.merge_right] at built'
    change Built s' (out ++ [run].flatten)
    rwa [List.flatten_singleton]
  | cons_cons a b rest ih _ =>
    obtain ⟨length, full'⟩ := full
    rw [List.flatten_cons, List.flatten_cons] at follows distinct enough
    rw [List.length_append, List.length_append] at enough
    have bShort : b.length ≤ insize := by
      cases rest with
      | nil => exact full'.2
      | cons c rest => exact Nat.le_of_eq full'.1
    have bLast : insize ≠ b.length → rest.flatten = [] := by
      intro differs
      cases rest with
      | nil => rfl
      | cons c rest => exact absurd full'.1.symm differs
    obtain ⟨fuel, rfl⟩ : ∃ n, fuel = n + 1 := ⟨fuel - 1, by omega⟩
    obtain ⟨s', turn, built', follows'⟩ :=
      passLoop_turn cmpfcn insize fuel nmerges s out a b rest.flatten built distinct
      follows (List.length_pos_iff.mp (by omega)) (Nat.le_of_eq length)
        (fun differs => absurd length differs) bShort bLast
      (by omega)
    have perm :
        (out ++ List.merge a b (below cmpfcn) ++ rest.flatten).Perm
        (out ++ (a ++ (b ++ rest.flatten))) := by
      rw [List.append_assoc, ← List.append_assoc a]
      exact ((List.merge_perm_append _).append_right _).append_left out
    obtain ⟨s'', run, built''⟩ :=
      ih fuel (nmerges + 1) s' (out ++ List.merge a b (below cmpfcn)) built'
      (perm.nodup_iff.mpr distinct) follows' full'.tail (by omega)
    refine ⟨s'', ?_, ?_⟩
    · rw [turn, run, mergePairs, List.length_cons]
      congr 2
      omega
    · rw [mergePairs, List.flatten_cons, ← List.append_assoc]
      exact built''

/-- The passes end with one run. -/
theorem sortLoop_merges (fuel turns insize : Nat) (app : Links α) (runs : List (List α))
    (positive : 0 < insize) (linked : Linked app runs.flatten) (distinct : runs.flatten.Nodup)
    (full : FullRuns insize runs) (filled : runs ≠ []) (enough : runs.flatten.length + 2 ≤ fuel)
    (passes : runs.length ≤ turns) :
    ∃ app' order, sortLoop cmpfcn fuel turns insize app runs.flatten.head? =
      some (app', order.head?, order.getLast?) ∧
      Linked app' order ∧ order.Perm runs.flatten ∧
      (Orders (below cmpfcn) runs.flatten → (∀ run ∈ runs, run.Pairwise (below cmpfcn · ·)) →
        order.Pairwise (below cmpfcn · ·) ∧ ∀ c ∈ runs.flatten,
          order.filter (alike (below cmpfcn) c) =
            runs.flatten.filter (alike (below cmpfcn) c)) := by
  induction turns generalizing insize app runs with
  | zero => exact absurd (List.eq_nil_of_length_eq_zero (Nat.le_zero.mp passes)) filled
  | succ turns ih =>
    obtain ⟨s, run, built⟩ :=
      passLoop_merges cmpfcn insize fuel 0 ⟨app, runs.flatten.head?, none, 0, 0, none, none⟩ []
      runs positive ⟨trivial, rfl, rfl⟩ distinct linked.follows full enough
    rw [List.nil_append] at built
    rw [Nat.zero_add] at run
    obtain ⟨merged, mergedDef⟩ : ∃ merged, merged = mergePairs (below cmpfcn) runs := ⟨_, rfl⟩
    rw [← mergedDef] at built run
    have perm : merged.flatten.Perm runs.flatten := by
      rw [mergedDef]
      exact mergePairs_perm _ runs
    have linked' : Linked (s.app.setNextOf s.tail none) merged.flatten := by
      rw [built.tail]
      exact relink_back built.linked (perm.nodup_iff.mpr distinct) none
    have count : merged.length = (runs.length + 1) / 2 := by
      rw [mergedDef]
      exact length_mergePairs _ runs
    have some := List.length_pos_iff.mpr filled
    by_cases last : merged.length ≤ 1
    · obtain ⟨order, single⟩ : ∃ order, merged = [order] := List.length_eq_one_iff.mp (by omega)
      rw [single, List.flatten_singleton] at linked' perm built
      refine ⟨s.app.setNextOf s.tail none, order, ?_, linked', perm,
        fun orders sorted => ⟨?_, fun c member => ?_⟩⟩
      · rw [sortLoop, run]
        simp only [Option.bind_eq_bind, Option.bind_some]
        rw [if_pos last, built.list, built.tail]
      · have each := mergePairs_sorted _ runs orders sorted
        rw [← mergedDef, single] at each
        exact each order List.mem_cons_self
      · have kept := filter_mergePairs _ c runs (orders.subset (by grind)) sorted
        rwa [← mergedDef, single, List.flatten_singleton] at kept
    · obtain ⟨app', order, sorted, linkedOrder, permOrder, stable⟩ :=
        ih (insize * 2) (s.app.setNextOf s.tail none) merged
        (by omega) linked' (perm.nodup_iff.mpr distinct)
        (by rw [mergedDef, Nat.mul_comm]; exact mergePairs_full _ insize runs full)
        (List.length_pos_iff.mp (by omega)) (by rw [perm.length_eq]; exact enough) (by omega)
      refine ⟨app', order, ?_, linkedOrder, permOrder.trans perm, fun orders each => ?_⟩
      · rw [sortLoop, run]
        simp only [Option.bind_eq_bind, Option.bind_some]
        rw [if_neg last, built.list]
        exact sorted
      · obtain ⟨inOrder, kept⟩ := stable (orders.subset perm.subset)
          (by rw [mergedDef]; exact mergePairs_sorted _ runs orders each)
        refine ⟨inOrder, fun c member => ?_⟩
        rw [kept c (perm.symm.subset member),
          mergedDef, filter_mergePairs _ c runs (orders.subset (by grind)) each]

/-- HASH_SORT keeps the elements, and sorts them stably by a total and transitive comparison. -/
theorem hashSort_represents (fuel : Nat) (m : Memory α) (order : List α)
    (held : Represents key m order) (enough : order.length + 2 ≤ fuel) :
    ∃ out order', hashSort cmpfcn fuel m = some out ∧ Represents key out order' ∧
      order'.Perm order ∧
      (Orders (below cmpfcn) order → StablySorted (below cmpfcn) order order') := by
  rcases held with ⟨rfl, empty⟩ | ⟨tbl, held⟩
  · exact ⟨m, [], by rw [hashSort, empty], .inl ⟨rfl, empty⟩, List.Perm.refl _,
      fun _ => ⟨List.Perm.refl _, List.Pairwise.nil, fun _ _ => rfl⟩⟩
  · obtain ⟨first, rest, shape⟩ : ∃ first rest, order = first :: rest := by
      cases order with
      | nil => exact absurd held.tail (by simp)
      | cons first rest => exact ⟨first, rest, rfl⟩
    have head : m.head = some first := by rw [held.head, shape, List.head?_cons]
    have flat := singles_flatten order
    obtain ⟨app, order', sorted, linked, perm, stable⟩ :=
      sortLoop_merges cmpfcn fuel fuel 1 m.app (order.map fun a => [a])
      Nat.one_pos (by rw [flat]; exact held.linked) (by rw [flat]; exact held.distinct)
        (singles_full order)
      (by rw [shape]; exact List.cons_ne_nil _ _) (by rw [flat]; exact enough)
        (by rw [List.length_map]; omega)
    rw [flat] at sorted perm stable
    obtain ⟨tail, last⟩ : ∃ tail, order'.getLast? = some tail := by
      rcases List.eq_nil_or_concat order' with rfl | ⟨front, a, rfl⟩
      · rw [shape] at perm
        exact absurd perm.symm.eq_nil (List.cons_ne_nil _ _)
      · exact ⟨a, by rw [List.concat_eq_append, List.getLast?_concat]⟩
    rw [last] at sorted
    refine ⟨{ m with app, head := order'.head?, tbl := some { tbl with tail } }, order', ?_,
      .inr ⟨_, rfl, rfl, last, linked,
      perm.nodup_iff.mpr held.distinct, held.items.trans perm.length_eq.symm, ?_,
      fun a member => held.hashed a (perm.mem_iff.mp member)⟩, perm, fun orders => ?_⟩
    · rw [← held.head, head] at sorted
      simp only [hashSort, head, held.table, Option.bind_eq_bind, Option.bind_some, sorted]
    · obtain ⟨powers, size, chains, chained, placed, all⟩ := held.buckets
      exact ⟨powers, size, chains, chained, placed, all.trans perm.symm⟩
    · obtain ⟨inOrder, kept⟩ := stable orders (by
        intro run member
        obtain ⟨a, _, rfl⟩ := List.mem_map.mp member
        exact List.pairwise_singleton _ a)
      exact ⟨perm, inOrder, kept⟩

/-- HASH_SORT is the stable sort. -/
theorem hashSort_mergeSort (fuel : Nat) (m : Memory α) (order : List α)
    (held : Represents key m order) (enough : order.length + 2 ≤ fuel)
    (orders : Orders (below cmpfcn) order) :
    ∃ out, hashSort cmpfcn fuel m = some out ∧
      Represents key out (order.mergeSort (below cmpfcn)) := by
  obtain ⟨out, order', sorted, represented, _, stable⟩ :=
    hashSort_represents key cmpfcn fuel m order held enough
  have same := StablySorted.unique _ orders (stable orders) (stablySorted_mergeSort _ order orders)
  exact ⟨out, sorted, same ▸ represented⟩

/-! ## Runs -/

/-- What a program does with a table. -/
inductive Op (α : Type) where
  | add (a : α)
  | del (a : α)
  | sweep (remove : α → Bool)
  | sort (cmpfcn : α → α → Int)

def runOp (fuel : Nat) (m : Memory α) : Op α → Option (Memory α)
  | .add a => hashAdd key fuel m a
  | .del a => hashDelete m a
  | .sweep remove => (hashIterAll remove fuel m).map (·.1)
  | .sort cmpfcn => hashSort cmpfcn fuel m

def runOps (fuel : Nat) (m : Memory α) : List (Op α) → Option (Memory α)
  | [] => some m
  | op :: ops => (runOp key fuel m op).bind fun m => runOps fuel m ops

/-- The same on the list of elements. -/
def listOp (order : List α) : Op α → List α
  | .add a => order ++ [a]
  | .del a => order.erase a
  | .sweep remove => order.filter fun a => !remove a
  | .sort cmpfcn => order.mergeSort (below cmpfcn)

/-- An element is added when it is in no table and the unsigned counters have room
for it, and deleted when it is in this one; a comparison orders the elements there
are. -/
def Allowed (order : List α) : Op α → Prop
  | .add a => a ∉ order ∧ order.length + 1 < 2 ^ 32
  | .del a => a ∈ order
  | .sweep _ => True
  | .sort cmpfcn => Orders (below cmpfcn) order

def AllAllowed (order : List α) : List (Op α) → Prop
  | [] => True
  | op :: ops => Allowed order op ∧ AllAllowed (listOp order op) ops

theorem runOp_represents (fuel : Nat) (m : Memory α) (order : List α) (op : Op α)
    (held : Represents key m order) (allowed : Allowed order op)
    (enough : order.length + 2 ≤ fuel) :
    ∃ out, runOp key fuel m op = some out ∧ Represents key out (listOp order op) ∧
      (listOp order op).length ≤ order.length + 1 := by
  cases op with
  | add a =>
    obtain ⟨out, made, represented⟩ :=
      hashAdd_represents key fuel m order a held allowed.1 (by omega)
    exact ⟨out, made, represented, by simp [listOp]⟩
  | del a =>
    obtain ⟨front, back, split⟩ := List.append_of_mem allowed
    have distinct : (front ++ a :: back).Nodup := by
      rcases held with ⟨empty, _⟩ | ⟨tbl, filled⟩
      · rw [empty] at allowed
        cases allowed
      · exact split ▸ filled.distinct
    have erased : order.erase a = front ++ back := by
      have out : a ∉ front :=
        fun member => (List.nodup_append'.mp distinct).2.2 member List.mem_cons_self
      rw [split, List.erase_append_right _ out, List.erase_cons_head]
    obtain ⟨out, made, represented⟩ := hashDelete_represents key m front back a (split ▸ held)
    refine ⟨out, made, by rw [listOp, erased]; exact represented, ?_⟩
    exact Nat.le_trans List.length_erase_le (Nat.le_succ _)
  | sweep remove =>
    obtain ⟨out, made, represented⟩ :=
      hashIterAll_represents key remove fuel m order held (by omega)
    refine ⟨out, by rw [runOp, made]; rfl, represented, ?_⟩
    exact Nat.le_trans (List.length_filter_le _ _) (Nat.le_succ _)
  | sort cmpfcn =>
    obtain ⟨out, made, represented⟩ :=
      hashSort_mergeSort key cmpfcn fuel m order held enough allowed
    exact ⟨out, made, represented, by rw [listOp, List.length_mergeSort]; omega⟩

theorem runOps_represents (fuel : Nat) (m : Memory α) (order : List α) (ops : List (Op α))
    (held : Represents key m order) (allowed : AllAllowed order ops)
    (enough : order.length + ops.length + 2 ≤ fuel) :
    ∃ out, runOps key fuel m ops = some out ∧ Represents key out (ops.foldl listOp order) ∧
      (ops.foldl listOp order).length ≤ order.length + ops.length := by
  induction ops generalizing m order with
  | nil => exact ⟨m, rfl, held, Nat.le_refl _⟩
  | cons op ops ih =>
    rw [List.length_cons] at enough
    obtain ⟨next, made, represented, length⟩ :=
      runOp_represents key fuel m order op held allowed.1 (by omega)
    obtain ⟨out, run, final, short⟩ := ih next (listOp order op) represented allowed.2 (by omega)
    refine ⟨out, by rw [runOps, made]; exact run, final, ?_⟩
    rw [List.foldl_cons, List.length_cons]
    omega

/-- A table with no elements, whatever the memory holds. -/
def noTable (m : Memory α) : Memory α := { m with head := none, tbl := none }

/-- Over any run from an empty table that stays below 2^32 items the macros do to memory
what the list operations do to the list: a count is its length, an iteration visits it in
order, and a search gives an element with the key unless there is none. -/
theorem table_refines_list (fuel : Nat) (m : Memory α) (ops : List (Op α))
    (allowed : AllAllowed [] ops) (enough : ops.length + 2 ≤ fuel) :
    ∃ out, runOps key fuel (noTable m) ops = some out ∧
      hashCount out = (ops.foldl listOp []).length ∧
      (∃ same, hashIterAll (fun _ => false) fuel out = some (same, ops.foldl listOp [])) ∧
      ∀ k, ∃ found, hashFind key fuel out k = some found ∧
        (∀ a, found = some a → a ∈ ops.foldl listOp [] ∧ key a = k) ∧
        (found = none → ∀ a ∈ ops.foldl listOp [], key a ≠ k) := by
  obtain ⟨out, run, held, length⟩ :=
    runOps_represents key fuel (noTable m) [] ops (.inl ⟨rfl, rfl⟩) allowed
    (by rw [List.length_nil]; omega)
  rw [List.length_nil] at length
  have short : (ops.foldl listOp []).length ≤ fuel := by omega
  obtain ⟨same, visited, _⟩ := hashIterAll_represents key (fun _ => false) fuel out _ held short
  exact ⟨out, run, hashCount_represents key out _ held, ⟨same, visited⟩,
    fun k => hashFind_represents key fuel out _ k held short⟩

theorem orders_sub (l : List Nat) : Orders (below fun a b : Nat => (a : Int) - b) l where
  trans := by
    intro a _ b _ c _ ab bc
    simp only [below, decide_eq_true_eq] at ab bc ⊢
    omega
  total := by
    intro a _ b _
    simp only [below, Bool.or_eq_true, decide_eq_true_eq]
    omega

/-- Memory nothing was written to. -/
def blank : Memory Nat :=
  ⟨⟨fun _ => none, fun _ => none⟩, ⟨fun _ => none, fun _ => none⟩, fun _ => 0, none, none⟩

/-- Two elements added, sorted, and one of them deleted. -/
theorem table_refines_list_run :
    ∃ out, runOps (littleEndian 4) 10 (noTable blank) [.add 7, .add 3,
      .sort (fun a b => (a : Int) - b), .del 7] = some out ∧
      hashCount out = 1 := by
  obtain ⟨out, run, count, _⟩ := table_refines_list (littleEndian 4) 10 blank
    [.add 7, .add 3, .sort (fun a b => (a : Int) - b), .del 7]
    ⟨⟨List.not_mem_nil, by decide⟩, ⟨by decide, by decide⟩,
      orders_sub _, (by simp [listOp, Allowed]), trivial⟩ (by decide)
  refine ⟨out, run, count.trans ?_⟩
  simp [listOp, List.length_erase_of_mem]

end CgminerT4.Guarantees.HashTables
