import CgminerT4.Source.UtHash

/-!
# A hash table is the list of its elements

Over any run of additions, deletions and iterations the links in the order of
addition are those of a list without repetition, and the chains of the buckets
share out exactly its elements by their hash values. So an element is found by
its key exactly when it was added and not deleted, whatever expansions there
were, and an iteration visits every element once although its body deletes some.
-/
namespace CgminerT4.Guarantees.HashTables
open Library.ByteString Library.DoublyLinked Source.UtHash

variable {α : Type}

/-! ## Chains of buckets -/

theorem set_some {β : Type} {l : List β} {i j : Nat} {v x : β} (there : (l.set i v)[j]? = some x) :
    (i = j ∧ v = x) ∨ (i ≠ j ∧ l[j]? = some x) := by
  rw [List.getElem?_set] at there
  split at there
  · next same =>
    split at there
    · exact .inl ⟨same, Option.some.inj there⟩
    · cases there
  · next away => exact .inr ⟨away, there⟩

/-- Each bucket heads and counts its chain. -/
structure Chained (hh : Links α) (buckets : List (Bucket α)) (chains : List (List α)) : Prop where
  size : chains.length = buckets.length
  bucket : ∀ (i : Nat) (chain : List α) (b : Bucket α), chains[i]? = some chain →
    buckets[i]? = some b →
    b.hhHead = chain.head? ∧ b.count = chain.length
  linked : ∀ chain ∈ chains, Linked hh chain
  distinct : chains.flatten.Nodup

/-- Each item is in the chain its hash value names. -/
def Placed (hashv : α → UInt32) (numBuckets : Nat) (chains : List (List α)) : Prop :=
  ∀ (i : Nat) (chain : List α), chains[i]? = some chain →
    ∀ a ∈ chain, hashToBkt (hashv a) numBuckets = i

theorem hashToBkt_lt (hashv : UInt32) (log2 : Nat) : hashToBkt hashv (2 ^ log2) < 2 ^ log2 := by
  rw [hashToBkt, Nat.and_two_pow_sub_one_eq_mod]
  exact Nat.mod_lt _ (Nat.two_pow_pos log2)

theorem chained_empty (hh : Links α) (n : Nat) :
    Chained hh (List.replicate n emptyBucket) (List.replicate n []) where
  size := by rw [List.length_replicate, List.length_replicate]
  bucket := by
    intro i chain b inChains inBuckets
    rw [List.eq_of_mem_replicate (List.mem_of_getElem? inChains),
      List.eq_of_mem_replicate (List.mem_of_getElem? inBuckets)]
    exact ⟨rfl, rfl⟩
  linked := by
    intro chain member
    rw [List.eq_of_mem_replicate member]
    trivial
  distinct := by
    rw [List.flatten_replicate_nil]
    exact List.nodup_nil

theorem placed_empty (hashv : α → UInt32) (numBuckets n : Nat) :
    Placed hashv numBuckets (List.replicate n []) := by
  intro i chain inChains a member
  rw [List.eq_of_mem_replicate (List.mem_of_getElem? inChains)] at member
  cases member

theorem Placed.set {hashv : α → UInt32} {numBuckets i : Nat} {chains : List (List α)}
    {chain : List α} (placed : Placed hashv numBuckets chains)
    (here : ∀ a ∈ chain, hashToBkt (hashv a) numBuckets = i) :
    Placed hashv numBuckets (chains.set i chain) := by
  intro j other inChains a member
  rcases set_some inChains with ⟨rfl, rfl⟩ | ⟨_, at_j⟩
  · exact here a member
  · exact placed j other at_j a member

/-- Chains and buckets after one chain is replaced. -/
theorem Chained.replace {hh hh' : Links α} {buckets : List (Bucket α)} {chains : List (List α)}
    {i : Nat} {chain new changed : List α} {b : Bucket α} (chained : Chained hh buckets chains)
    (here : chains[i]? = some chain) (linked : Linked hh' new) (same : SameOff changed hh hh')
    (head : b.hhHead = new.head?) (count : b.count = new.length)
    (apart : ∀ (k : Nat) other, k ≠ i → chains[k]? = some other → ∀ a ∈ other, a ∉ changed)
    (distinct : (chains.set i new).flatten.Nodup) :
    Chained hh' (buckets.set i b) (chains.set i new) where
  size := by rw [List.length_set, List.length_set, chained.size]
  bucket := by
    intro j other bucket inChains inBuckets
    rcases set_some inChains with ⟨rfl, rfl⟩ | ⟨away, at_j⟩
    · rw [List.getElem?_set_self
        (by rw [← chained.size]; exact (List.getElem?_eq_some_iff.mp here).1)] at inBuckets
      cases inBuckets
      exact ⟨head, count⟩
    · rw [List.getElem?_set_ne away] at inBuckets
      exact chained.bucket j other bucket at_j inBuckets
  linked := by
    intro other member
    obtain ⟨j, inChains⟩ := List.mem_iff_getElem?.mp member
    rcases set_some inChains with ⟨rfl, rfl⟩ | ⟨away, at_j⟩
    · exact linked
    · exact same.segment (chained.linked other (List.mem_of_getElem? at_j))
        (apart j other (fun eq => away eq.symm) at_j)
  distinct := distinct

variable [DecidableEq α]

/-- An item put in front of a chain. -/
theorem Chained.push {hh : Links α} {buckets : List (Bucket α)} {chains : List (List α)} {i : Nat}
    {b : Bucket α} (chained : Chained hh buckets chains) (here : buckets[i]? = some b) (a : α)
    (mult : Nat) (fresh : a ∉ chains.flatten) :
    ∃ chain, chains[i]? = some chain ∧ b.hhHead = chain.head? ∧ b.count = chain.length ∧
      Chained (hh.insert none a b.hhHead) (buckets.set i ⟨some a, b.count + 1, mult⟩)
        (chains.set i (a :: chain)) ∧
      (chains.set i (a :: chain)).flatten.Perm (a :: chains.flatten) ∧
      SameOff (a :: chain) hh (hh.insert none a b.hhHead) := by
  obtain ⟨chain, there⟩ : ∃ chain, chains[i]? = some chain := by
    have inside := (List.getElem?_eq_some_iff.mp here).1
    exact ⟨_, List.getElem?_eq_getElem (by rw [chained.size]; exact inside)⟩
  obtain ⟨head, count⟩ := chained.bucket i chain b there here
  obtain ⟨rest, whole, replaced, others⟩ := split_rows there
  have distinct := whole.nodup_iff.mp chained.distinct
  have out : a ∉ chain ++ rest := fun member => fresh (whole.mem_iff.mpr member)
  have outChain : a ∉ chain := fun member => out (List.mem_append_left _ member)
  have perm : (chains.set i (a :: chain)).flatten.Perm (a :: chains.flatten) :=
    (replaced (a :: chain)).trans ((List.Perm.cons a whole).symm)
  have same := sameOff_insert hh [] chain a
  have linked := Linked.insert [] chain (a := a) (chained.linked chain (List.mem_of_getElem? there))
    (List.nodup_cons.mpr ⟨outChain, (List.nodup_append.mp distinct).1⟩)
  rw [List.nil_append] at same linked
  rw [← head, List.getLast?_nil] at same linked
  refine ⟨chain, there, head, count, ?_, perm, same⟩
  refine chained.replace there linked same rfl (by rw [count, List.length_cons]) ?_
    (perm.nodup_iff.mpr (List.nodup_cons.mpr ⟨fresh, chained.distinct⟩))
  intro k other away at_k x inOther inChanged
  have inRest := others k other away at_k x inOther
  rcases List.mem_cons.mp inChanged with rfl | inChain
  · exact out (List.mem_append_right _ inRest)
  · exact (List.nodup_append'.mp distinct).2.2 inChain inRest

/-- An item taken out of its chain. -/
theorem Chained.unlink {hh : Links α} {buckets : List (Bucket α)} {chains : List (List α)} {i : Nat}
    {b : Bucket α} {front back : List α} {a : α} (chained : Chained hh buckets chains)
    (here : buckets[i]? = some b) (there : chains[i]? = some (front ++ a :: back)) :
    ∃ b', delInBkt hh b a = (hh.unlink a, b') ∧
      Chained (hh.unlink a) (buckets.set i b') (chains.set i (front ++ back)) ∧
      chains.flatten.Perm (a :: (chains.set i (front ++ back)).flatten) := by
  obtain ⟨head, count⟩ := chained.bucket i _ b there here
  obtain ⟨rest, whole, replaced, others⟩ := split_rows there
  have linked := chained.linked _ (List.mem_of_getElem? there)
  have distinctAll := whole.nodup_iff.mp chained.distinct
  have distinct : (front ++ a :: back).Nodup := (List.nodup_append.mp distinctAll).1
  have perm : chains.flatten.Perm (a :: (chains.set i (front ++ back)).flatten) :=
    whole.trans ((List.perm_middle.append_right rest).trans
      (List.Perm.cons a (replaced (front ++ back)).symm))
  have next : hh.next a = back.head? := by
    rw [(Segment.parts linked).2.1, Option.or_none]
  have newHead : (if b.hhHead = some a then hh.next a else b.hhHead) = (front ++ back).head? := by
    rw [head, next]
    cases front with
    | nil => rw [List.nil_append, List.head?_cons, if_pos rfl, List.nil_append]
    | cons f front =>
      have other : some f ≠ some a := by
        intro same
        cases same
        exact (List.nodup_cons.mp distinct).1 (List.mem_append_right _ List.mem_cons_self)
      rw [List.cons_append, List.head?_cons, if_neg other, List.cons_append, List.head?_cons]
  refine ⟨{ b with count := b.count - 1, hhHead := if b.hhHead = some a then hh.next a else b.hhHead }, rfl, ?_, perm⟩
  refine chained.replace there (linked.unlink distinct) (sameOff_unlink linked distinct)
    newHead ?_ ?_ ?_
  · simp only [count, List.length_append, List.length_cons]
    omega
  · intro k other away at_k x inOther inChanged
    exact (List.nodup_append'.mp distinctAll).2.2 inChanged (others k other away at_k x inOther)
  · exact (List.nodup_cons.mp (perm.nodup_iff.mp chained.distinct)).2

/-! ## Expansion -/

omit [DecidableEq α] in
theorem SameOff.trans {first second all : List α} {h h' h'' : Links α} (one : SameOff first h h')
    (two : SameOff second h' h'') (inFirst : ∀ a ∈ first, a ∈ all)
    (inSecond : ∀ a ∈ second, a ∈ all) :
    SameOff all h h'' := by
  intro a out
  obtain ⟨prev, next⟩ := one a fun member => out (inFirst a member)
  obtain ⟨prev', next'⟩ := two a fun member => out (inSecond a member)
  exact ⟨prev'.trans prev, next'.trans next⟩

/-- The new buckets share out the items moved so far. -/
structure Moved (hashv : α → UInt32) (n : Nat) (s : Expansion α) (items : List α) : Prop where
  size : s.newBuckets.length = n
  chains : ∃ done, Chained s.hh s.newBuckets done ∧ Placed hashv n done ∧ done.flatten.Perm items

omit [DecidableEq α] in
theorem Moved.perm {hashv : α → UInt32} {n : Nat} {s : Expansion α} {items items' : List α}
    (moved : Moved hashv n s items) (perm : items.Perm items') : Moved hashv n s items' := by
  obtain ⟨done, chained, placed, all⟩ := moved.chains
  exact ⟨moved.size, done, chained, placed, all.trans perm⟩

theorem moveItem_some (hashv : α → UInt32) (log2 ideal : Nat) (s : Expansion α)
    (items : List α) (a : α) (positive : ideal ≠ 0) (moved : Moved hashv (2 ^ log2 * 2) s items)
    (fresh : a ∉ items) :
    ∃ s', moveItem hashv (2 ^ log2) ideal s a = some s' ∧
      Moved hashv (2 ^ log2 * 2) s' (a :: items) ∧
      SameOff (a :: items) s.hh s'.hh := by
  obtain ⟨done, chained, placed, all⟩ := moved.chains
  have inside : hashToBkt (hashv a) (2 ^ log2 * 2) < s.newBuckets.length := by
    rw [moved.size]
    exact hashToBkt_lt (hashv a) (log2 + 1)
  have here := List.getElem?_eq_getElem inside
  obtain ⟨b, bDef⟩ : ∃ b, b = s.newBuckets[hashToBkt (hashv a) (2 ^ log2 * 2)] := ⟨_, rfl⟩
  rw [← bDef] at here
  have result : ∃ nonideal mult, moveItem hashv (2 ^ log2) ideal s a =
      some ⟨s.hh.insert none a b.hhHead, s.newBuckets.set (hashToBkt (hashv a) (2 ^ log2 * 2))
        ⟨some a, b.count + 1, mult⟩, nonideal⟩ := by
    by_cases many : b.count + 1 > ideal
    · refine ⟨s.nonidealItems + 1, (b.count + 1) / ideal, ?_⟩
      simp only [moveItem, here, Option.bind_eq_bind, Option.bind_some, if_pos many,
        if_neg positive]
      rfl
    · refine ⟨s.nonidealItems, b.expandMult, ?_⟩
      simp only [moveItem, here, Option.bind_eq_bind, Option.bind_some, if_neg many]
      rfl
  obtain ⟨nonideal, mult, made⟩ := result
  obtain ⟨chain, there, _, _, chained', perm, same⟩ :=
    chained.push here a mult fun member => fresh (all.mem_iff.mp member)
  refine ⟨_, made, ⟨by rw [List.length_set]; exact moved.size, _, chained', ?_,
    perm.trans (List.Perm.cons a all)⟩, ?_⟩
  · refine placed.set fun x member => ?_
    rcases List.mem_cons.mp member with rfl | member
    · rfl
    · exact placed _ chain there x member
  · refine SameOff.trans same (fun (x : α) (_ : x ∉ []) => ⟨rfl, rfl⟩) (fun x member => ?_)
      (fun x member => absurd member List.not_mem_nil)
    rcases List.mem_cons.mp member with rfl | member
    · exact List.mem_cons_self
    · exact List.mem_cons_of_mem a
        (all.mem_iff.mp (List.mem_flatten.mpr ⟨chain, List.mem_of_getElem? there, member⟩))

theorem moveChain_some (hashv : α → UInt32) (log2 ideal fuel : Nat) (s : Expansion α)
    (items rest : List α) (thh : Option α) (positive : ideal ≠ 0)
    (moved : Moved hashv (2 ^ log2 * 2) s items) (follows : Follows s.hh.next thh rest)
    (distinct : (rest ++ items).Nodup) (enough : rest.length ≤ fuel) :
    ∃ s', moveChain hashv (2 ^ log2) ideal fuel s thh = some s' ∧
      Moved hashv (2 ^ log2 * 2) s' (rest ++ items) ∧
      SameOff (rest ++ items) s.hh s'.hh := by
  induction rest generalizing fuel s items thh with
  | nil =>
    cases follows
    exact ⟨s, by cases fuel <;> rfl, moved, fun a _ => ⟨rfl, rfl⟩⟩
  | cons a rest ih =>
    cases follows with
    | step following =>
      cases fuel with
      | zero => exact absurd enough (by rw [List.length_cons]; omega)
      | succ fuel =>
        have distinct' := List.nodup_cons.mp distinct
        obtain ⟨s1, one, moved1, same1⟩ := moveItem_some hashv log2 ideal s items a positive moved
          fun member => distinct'.1 (List.mem_append_right _ member)
        have unmoved : ∀ x ∈ rest, x ∉ a :: items := by
          intro x inRest inMoved
          rcases List.mem_cons.mp inMoved with rfl | inItems
          · exact distinct'.1 (List.mem_append_left _ inRest)
          · exact (List.nodup_append'.mp distinct'.2).2.2 inRest inItems
        have perm : (rest ++ a :: items).Perm (a :: rest ++ items) := List.perm_middle
        obtain ⟨s2, two, moved2, same2⟩ := ih fuel s1 (a :: items) (s.hh.next a) moved1
          (following.congr fun x member => (same1 x (unmoved x member)).2)
            (perm.nodup_iff.mpr distinct)
          (Nat.le_of_succ_le_succ enough)
        refine ⟨s2, by rw [moveChain, one]; exact two, moved2.perm perm, ?_⟩
        exact SameOff.trans same1 same2 (fun x member =>
          perm.mem_iff.mp (List.mem_append_right _ member))
          (fun x member => perm.mem_iff.mp member)

theorem moveBuckets_some (fuel : Nat) (hashv : α → UInt32) (log2 ideal : Nat) (s : Expansion α)
    (items : List α) (buckets : List (Bucket α)) (chains : List (List α)) (positive : ideal ≠ 0)
    (moved : Moved hashv (2 ^ log2 * 2) s items) (size : chains.length = buckets.length)
    (heads : ∀ (i : Nat) chain b, chains[i]? = some chain → buckets[i]? = some b →
      b.hhHead = chain.head?)
    (linked : ∀ chain ∈ chains, Linked s.hh chain) (distinct : (chains.flatten ++ items).Nodup)
    (enough : chains.flatten.length ≤ fuel) :
    ∃ s', moveBuckets fuel hashv (2 ^ log2) ideal s buckets = some s' ∧
      Moved hashv (2 ^ log2 * 2) s' (chains.flatten ++ items) := by
  induction chains generalizing s items buckets with
  | nil =>
    cases buckets with
    | nil => exact ⟨s, rfl, moved⟩
    | cons b buckets => cases size
  | cons chain chains ih =>
    cases buckets with
    | nil => cases size
    | cons b buckets =>
      rw [List.flatten_cons, List.length_append] at enough
      rw [List.flatten_cons, List.append_assoc] at distinct
      have perm : (chains.flatten ++ (chain ++ items)).Perm (chain ++ (chains.flatten ++ items)) :=
        List.perm_append_comm_assoc ..
      have apart := List.nodup_append'.mp (perm.nodup_iff.mpr distinct)
      obtain ⟨s1, one, moved1, same1⟩ :=
        moveChain_some hashv log2 ideal fuel s items chain b.hhHead positive moved
        (by rw [heads 0 chain b rfl rfl]; exact (linked chain List.mem_cons_self).follows) apart.2.1
          (by omega)
      obtain ⟨s2, two, moved2⟩ := ih s1 (chain ++ items) buckets moved1 (Nat.succ.inj size)
        (fun i other bucket inChains inBuckets => heads (i + 1) other bucket inChains inBuckets)
        (fun other member => same1.segment (linked other (List.mem_cons_of_mem _ member))
            fun x inOther =>
          apart.2.2 (List.mem_flatten.mpr ⟨other, member, inOther⟩))
        (perm.nodup_iff.mpr distinct) (by omega)
      refine ⟨s2, by rw [moveBuckets, one]; exact two, moved2.perm ?_⟩
      rw [List.flatten_cons, List.append_assoc]
      exact perm

/-- The buckets of a table share out these items. -/
structure Buckets (m : Memory α) (tbl : Table α) (items : List α) : Prop where
  powers : tbl.numBuckets = 2 ^ tbl.log2NumBuckets
  size : tbl.buckets.length = tbl.numBuckets
  chains : ∃ chains, Chained m.hh tbl.buckets chains ∧ Placed m.hashv tbl.numBuckets chains ∧
    chains.flatten.Perm items

omit [DecidableEq α] in
/-- The longest chain of an even distribution is not empty. -/
theorem idealMaxlen_positive (tbl : Table α) (powers : tbl.numBuckets = 2 ^ tbl.log2NumBuckets)
    (positive : 0 < tbl.numItems) : idealMaxlen tbl ≠ 0 := by
  rw [idealMaxlen, powers, ← Nat.pow_succ, Nat.and_two_pow_sub_one_eq_mod,
    Nat.shiftRight_eq_div_pow]
  split
  · next whole =>
    have least : 2 ^ (tbl.log2NumBuckets + 1) ≤ tbl.numItems :=
      Nat.le_of_dvd positive (Nat.dvd_of_mod_eq_zero whole)
    have quotient := Nat.div_pos least (Nat.two_pow_pos _)
    omega
  · exact Nat.succ_ne_zero _

theorem expandBuckets_some (fuel : Nat) (m : Memory α) (tbl : Table α) (items : List α)
    (held : Buckets m tbl items) (count : tbl.numItems = items.length) (filled : items ≠ [])
    (enough : items.length ≤ fuel) :
    ∃ hh tbl', expandBuckets fuel m tbl = some { m with hh, tbl := some tbl' } ∧
      Buckets { m with hh, tbl := some tbl' } tbl' items ∧ tbl'.numItems = tbl.numItems ∧
        tbl'.tail = tbl.tail := by
  obtain ⟨chains, chained, placed, perm⟩ := held.chains
  have positive :=
    idealMaxlen_positive tbl held.powers (by rw [count]; exact List.length_pos_iff.mpr filled)
  have start : Moved m.hashv (2 ^ tbl.log2NumBuckets * 2)
      ⟨m.hh, List.replicate (2 * tbl.numBuckets) emptyBucket, 0⟩ [] :=
    { size := by rw [List.length_replicate, held.powers, Nat.mul_comm]
      chains := ⟨_, chained_empty m.hh _, placed_empty _ _ _, by rw [List.flatten_replicate_nil]⟩ }
  obtain ⟨s, made, moved⟩ :=
    moveBuckets_some fuel m.hashv tbl.log2NumBuckets _ _ [] tbl.buckets chains positive start
    chained.size (fun i chain b inChains inBuckets =>
      (chained.bucket i chain b inChains inBuckets).1)
    chained.linked (by rw [List.append_nil]; exact chained.distinct)
      (by rw [perm.length_eq]; exact enough)
  rw [List.append_nil] at moved
  obtain ⟨done, chained', placed', all⟩ := moved.chains
  rw [← held.powers] at made
  refine ⟨s.hh, expandedTable tbl s, ?_, ⟨?_, ?_, done, chained', ?_, all.trans perm⟩, rfl, rfl⟩
  · simp only [expandBuckets, made, Option.bind_eq_bind, Option.bind_some]
  · change tbl.numBuckets * 2 = 2 ^ (tbl.log2NumBuckets + 1)
    rw [held.powers, Nat.pow_succ]
  · change s.newBuckets.length = tbl.numBuckets * 2
    rw [moved.size, held.powers]
  · change Placed m.hashv (tbl.numBuckets * 2) done
    rw [held.powers]
    exact placed'

theorem addToBkt_some (fuel : Nat) (m : Memory α) (tbl : Table α) (items : List α) (add : α)
    (bkt : Nat) (held : Buckets m tbl items) (fresh : add ∉ items)
    (place : bkt = hashToBkt (m.hashv add) tbl.numBuckets) (count : tbl.numItems = items.length + 1)
    (enough : items.length + 1 ≤ fuel) :
    ∃ hh tbl', addToBkt fuel m tbl bkt add = some { m with hh, tbl := some tbl' } ∧
      Buckets { m with hh, tbl := some tbl' } tbl' (add :: items) ∧ tbl'.numItems = tbl.numItems ∧
      tbl'.tail = tbl.tail := by
  obtain ⟨chains, chained, placed, perm⟩ := held.chains
  have inside : bkt < tbl.buckets.length := by
    rw [place, held.size, held.powers]
    exact hashToBkt_lt _ _
  have here := List.getElem?_eq_getElem inside
  obtain ⟨b, bDef⟩ : ∃ b, b = tbl.buckets[bkt] := ⟨_, rfl⟩
  rw [← bDef] at here
  obtain ⟨chain, there, _, _, chained', perm', _⟩ := chained.push here add b.expandMult
    fun member => fresh (perm.mem_iff.mp member)
  obtain ⟨hh, hhDef⟩ : ∃ hh, hh = m.hh.insert none add b.hhHead := ⟨_, rfl⟩
  obtain ⟨grown, grownDef⟩ : ∃ grown : Table α, grown = { tbl with
      buckets := tbl.buckets.set bkt { b with hhHead := some add, count := b.count + 1 } } :=
        ⟨_, rfl⟩
  have heldNew : Buckets { m with hh, tbl := some grown } grown (add :: items) := by
    rw [grownDef, hhDef]
    refine ⟨held.powers, by rw [List.length_set]; exact held.size, _, chained', ?_,
      perm'.trans (List.Perm.cons add perm)⟩
    refine placed.set fun x member => ?_
    rcases List.mem_cons.mp member with rfl | member
    · exact place.symm
    · exact placed bkt chain there x member
  have made : addToBkt fuel m tbl bkt add =
      if b.count + 1 ≥ (b.expandMult + 1) * 10 ∧ grown.noexpand = false then
        expandBuckets fuel { m with hh, tbl := some grown } grown
      else some { m with hh, tbl := some grown } := by
    rw [grownDef, hhDef]
    simp only [addToBkt, here, Option.bind_eq_bind, Option.bind_some]
    rfl
  have items' : grown.numItems = (add :: items).length := by
    rw [grownDef, List.length_cons]
    exact count
  rw [made]
  split
  · obtain ⟨hh', tbl', expanded, held', numItems, tail⟩ :=
      expandBuckets_some fuel _ grown _ heldNew items'
      (List.cons_ne_nil _ _) enough
    exact ⟨hh', tbl', expanded, held', by rw [numItems, grownDef], by rw [tail, grownDef]⟩
  · exact ⟨hh, grown, rfl, heldNew, by rw [grownDef], by rw [grownDef]⟩

/-! ## Operations -/

variable (key : α → Bytes)

/-- A table with elements, in the order of addition. -/
structure Filled (m : Memory α) (tbl : Table α) (order : List α) : Prop where
  table : m.tbl = some tbl
  head : m.head = order.head?
  tail : order.getLast? = some tbl.tail
  linked : Linked m.app order
  distinct : order.Nodup
  items : tbl.numItems = order.length
  buckets : Buckets m tbl order
  hashed : ∀ a ∈ order, m.hashv a = hashJen (key a)

/-- The memory holds a table of these elements, or none when there are none. -/
def Represents (m : Memory α) (order : List α) : Prop :=
  (order = [] ∧ m.head = none) ∨ ∃ tbl, Filled key m tbl order

theorem add_first (fuel : Nat) (m : Memory α) (add : α) (empty : m.head = none)
    (enough : 1 ≤ fuel) :
    ∃ out, hashAdd key fuel m add = some out ∧ Represents key out [add] := by
  obtain ⟨base, baseDef⟩ : ∃ base : Memory α, base = { m with
      app := (m.app.setNext add none).setPrev add none
      head := some add
      tbl := some { makeTable add with numItems := 1 }
      hashv := Function.update m.hashv add (hashJen (key add)) } := ⟨_, rfl⟩
  have hashed : base.hashv add = hashJen (key add) := by
    rw [baseDef]
    exact Function.update_self ..
  have held : Buckets base { makeTable add with numItems := 1 } [] :=
    ⟨rfl, List.length_replicate, _, chained_empty _ 32,
      placed_empty _ _ 32, by rw [List.flatten_replicate_nil]⟩
  obtain ⟨hh, tbl, made, held', items, tail⟩ :=
    addToBkt_some fuel base { makeTable add with numItems := 1 } [] add
    (hashToBkt (hashJen (key add)) 32) held List.not_mem_nil (by rw [hashed]; rfl) rfl enough
  have unfolded : hashAdd key fuel m add = addToBkt fuel base { makeTable add with numItems := 1 }
      (hashToBkt (hashJen (key add)) 32) add := by
    rw [baseDef]
    simp only [hashAdd, empty]
    rfl
  refine ⟨{ base with hh, tbl := some tbl }, unfolded.trans made,
    .inr ⟨tbl, rfl, ?_, ?_, ?_, List.nodup_singleton add, ?_, held', ?_⟩⟩
  · rw [baseDef]
    rfl
  · rw [tail]
    rfl
  · refine (segment_single _ none none add).mpr ⟨?_, ?_⟩ <;> rw [baseDef]
    · exact setPrev_self _ add none
    · exact setNext_self m.app add none
  · rw [items]
    rfl
  · intro a member
    rw [List.mem_singleton.mp member]
    exact hashed

theorem add_behind (fuel : Nat) (m : Memory α) (tbl : Table α) (order : List α) (add : α)
    (held : Filled key m tbl order) (fresh : add ∉ order) (enough : order.length + 1 ≤ fuel) :
    ∃ out, hashAdd key fuel m add = some out ∧ Represents key out (order ++ [add]) := by
  obtain ⟨first, rest, shape⟩ : ∃ first rest, order = first :: rest := by
    cases order with
    | nil => exact absurd held.tail (by simp)
    | cons first rest => exact ⟨first, rest, rfl⟩
  have head : m.head = some first := by rw [held.head, shape, List.head?_cons]
  obtain ⟨grown, grownDef⟩ : ∃ grown : Table α, grown =
    { tbl with tail := add, numItems := tbl.numItems + 1 } := ⟨_, rfl⟩
  obtain ⟨base, baseDef⟩ : ∃ base : Memory α, base = { m with
      app := m.app.insert (some tbl.tail) add none
      head := some first
      tbl := some grown
      hashv := Function.update m.hashv add (hashJen (key add)) } := ⟨_, rfl⟩
  have hashed : base.hashv add = hashJen (key add) := by
    rw [baseDef]
    exact Function.update_self ..
  have old : ∀ a, a ≠ add → base.hashv a = m.hashv a := by
    intro a other
    rw [baseDef]
    exact Function.update_of_ne other _ _
  have buckets : Buckets base grown order := by
    obtain ⟨powers, size, chains, chained, placed, perm⟩ := held.buckets
    rw [grownDef, baseDef]
    refine ⟨powers, size, chains, chained, fun i chain there a member => ?_, perm⟩
    have inOrder : a ∈ order :=
      perm.mem_iff.mp (List.mem_flatten.mpr ⟨chain, List.mem_of_getElem? there, member⟩)
    have other : a ≠ add := fun same => fresh (same ▸ inOrder)
    dsimp only
    rw [Function.update_of_ne other]
    exact placed i chain there a member
  obtain ⟨hh, tbl', made, held', items, tail⟩ := addToBkt_some fuel base grown order add
    (hashToBkt (hashJen (key add)) grown.numBuckets) buckets fresh (by rw [hashed])
    (by rw [grownDef, ← held.items]) enough
  have linked := Linked.insert order [] (a := add) (by rw [List.append_nil]; exact held.linked)
    (List.nodup_append'.mpr ⟨held.distinct, List.nodup_singleton add, by
      intro a member single
      rw [List.mem_singleton.mp single] at member
      exact fresh member⟩)
  rw [held.tail, List.head?_nil] at linked
  have unfolded : hashAdd key fuel m add =
      addToBkt fuel base grown (hashToBkt (hashJen (key add)) grown.numBuckets) add := by
    rw [baseDef, grownDef]
    simp only [hashAdd, head, held.table]
    rfl
  refine ⟨{ base with hh, tbl := some tbl' }, unfolded.trans made,
    .inr ⟨tbl', rfl, ?_, ?_, ?_, ?_, ?_, ?_, ?_⟩⟩
  · rw [baseDef, shape]
    rfl
  · rw [tail, grownDef, List.getLast?_concat]
  · rw [baseDef]
    exact linked
  · exact List.nodup_append'.mpr ⟨held.distinct, List.nodup_singleton add, by
      intro a member single
      rw [List.mem_singleton.mp single] at member
      exact fresh member⟩
  · rw [items, grownDef, List.length_append, List.length_singleton, ← held.items]
  · obtain ⟨powers, size, chains, chained, placed, perm⟩ := held'
    exact ⟨powers, size, chains, chained, placed,
      perm.trans (List.perm_append_singleton add order).symm⟩
  · intro a member
    by_cases same : a = add
    · rw [same]
      exact hashed
    · rcases List.mem_append.mp member with inOrder | single
      · exact (old a same).trans (held.hashed a inOrder)
      · exact absurd (List.mem_singleton.mp single) same

/-- HASH_ADD puts the element behind the others. -/
theorem hashAdd_represents (fuel : Nat) (m : Memory α) (order : List α) (add : α)
    (held : Represents key m order) (fresh : add ∉ order) (enough : order.length + 1 ≤ fuel) :
    ∃ out, hashAdd key fuel m add = some out ∧ Represents key out (order ++ [add]) := by
  rcases held with ⟨rfl, empty⟩ | ⟨tbl, held⟩
  · exact add_first key fuel m add empty enough
  · exact add_behind key fuel m tbl order add held fresh enough

/-- The tail after an element other than the only one is taken out. -/
theorem tail_unlink (m : Memory α) (tbl : Table α) (front back : List α) (del : α)
    (held : Filled key m tbl (front ++ del :: back)) (several : ¬ (front = [] ∧ back = []))
    (prev : m.app.prev del = front.getLast?) :
    ∃ tail, (if del = tbl.tail then m.app.prev del else some tbl.tail) = some tail ∧
      (front ++ back).getLast? = some tail := by
  have last := held.tail
  rcases List.eq_nil_or_concat back with rfl | ⟨b, a, rfl⟩
  · rw [List.getLast?_concat] at last
    rcases List.eq_nil_or_concat front with rfl | ⟨f, t, rfl⟩
    · exact absurd ⟨rfl, rfl⟩ several
    · refine ⟨t, ?_, by simp⟩
      rw [if_pos (Option.some.inj last), prev]
      simp
  · rw [List.concat_eq_append, ← List.cons_append, ← List.append_assoc,
      List.getLast?_concat] at last
    have other : del ≠ tbl.tail := by
      rw [← Option.some.inj last]
      rintro rfl
      have distinct := (List.nodup_append.mp held.distinct).2.1
      exact (List.nodup_cons.mp distinct).1 (by simp)
    refine ⟨tbl.tail, if_neg other, ?_⟩
    rw [List.concat_eq_append, ← List.append_assoc, List.getLast?_concat]
    exact last

/-- HASH_DELETE takes the element out. -/
theorem hashDelete_represents (m : Memory α) (front back : List α) (del : α)
    (held : Represents key m (front ++ del :: back)) :
    ∃ out, hashDelete m del = some out ∧ Represents key out (front ++ back) := by
  rcases held with ⟨empty, _⟩ | ⟨tbl, held⟩
  · exact absurd empty (by simp)
  obtain ⟨prev, next, _, _⟩ := Segment.parts held.linked
  rw [Option.or_none] at prev next
  by_cases alone : front = [] ∧ back = []
  · obtain ⟨rfl, rfl⟩ := alone
    refine ⟨{ m with head := none, tbl := none }, ?_, .inl ⟨rfl, rfl⟩⟩
    simp only [hashDelete, held.table, Option.bind_some]
    rw [if_pos ⟨by rw [prev]; rfl, by rw [next]; rfl⟩]
  · have several : ¬ ((m.app.prev del).isNone = true ∧ (m.app.next del).isNone = true) := by
      rw [prev, next]
      rintro ⟨noFront, noBack⟩
      exact alone ⟨List.getLast?_eq_none_iff.mp (Option.isNone_iff_eq_none.mp noFront),
        List.head?_eq_none_iff.mp (Option.isNone_iff_eq_none.mp noBack)⟩
    obtain ⟨powers, size, chains, chained, placed, perm⟩ := held.buckets
    -- the chain that holds the element
    obtain ⟨chain, inChains, inChain⟩ := List.mem_flatten.mp
      (perm.mem_iff.mpr (List.mem_append_right front (List.mem_cons_self (a := del) (l := back))))
    obtain ⟨i, there⟩ := List.mem_iff_getElem?.mp inChains
    obtain ⟨cfront, cback, split⟩ := List.append_of_mem inChain
    have place := placed i chain there del inChain
    rw [split] at there
    obtain ⟨b, here⟩ : ∃ b, tbl.buckets[i]? = some b :=
      ⟨_, List.getElem?_eq_getElem
        (by rw [← chained.size]; exact (List.getElem?_eq_some_iff.mp there).1)⟩
    obtain ⟨b', taken, chained', perm'⟩ := chained.unlink here there
    obtain ⟨tail, newTail, last⟩ := tail_unlink key m tbl front back del held alone prev
    have newHead : (if (m.app.prev del).isSome then m.head else m.app.next del) =
        (front ++ back).head? := by
      rw [prev, next, held.head]
      rcases List.eq_nil_or_concat front with rfl | ⟨f, a, rfl⟩
      · rfl
      · rw [List.concat_eq_append, List.getLast?_concat, Option.isSome_some, if_pos rfl,
          List.head?_append, List.head?_append, List.head?_append]
        cases f <;> rfl
    refine ⟨{ m with
        app := m.app.unlink del, hh := m.hh.unlink del, head := (front ++ back).head?
        tbl := some
          { tbl with tail, buckets := tbl.buckets.set i b', numItems := tbl.numItems - 1 } }, ?_,
      .inr ⟨_, rfl, rfl, last, held.linked.unlink held.distinct, ?_, ?_, ?_, ?_⟩⟩
    · simp only [hashDelete, held.table, Option.bind_some]
      rw [if_neg several, newTail, place, here]
      simp only [Option.bind_some, Option.map_some, taken, newHead]
    · exact (List.nodup_cons.mp (List.nodup_middle.mp held.distinct)).2
    · simp only [held.items, List.length_append, List.length_cons]
      omega
    · refine ⟨powers, by rw [List.length_set]; exact size, _, chained', ?_, ?_⟩
      · refine placed.set fun x member => placed i _ there x ?_
        rcases List.mem_append.mp member with inFront | inBack
        · exact List.mem_append_left _ inFront
        · exact List.mem_append_right _ (List.mem_cons_of_mem del inBack)
      · exact List.Perm.cons_inv ((perm'.symm.trans perm).trans List.perm_middle)
    · intro a member
      refine held.hashed a ?_
      rcases List.mem_append.mp member with inFront | inBack
      · exact List.mem_append_left _ inFront
      · exact List.mem_append_right _ (List.mem_cons_of_mem del inBack)

/-! ## Searching and visiting -/

omit [DecidableEq α] in
theorem findInBkt_follows (m : Memory α) (k : Bytes) (fuel : Nat) (start : Option α)
    (cells : List α) (follows : Follows m.hh.next start cells) (enough : cells.length ≤ fuel) :
    findInBkt key m k fuel start = some (cells.find? fun a => key a = k) := by
  induction cells generalizing fuel start with
  | nil =>
    cases follows
    cases fuel <;> rfl
  | cons a cells ih =>
    cases follows with
    | step rest =>
      cases fuel with
      | zero => exact absurd enough (by rw [List.length_cons]; omega)
      | succ fuel =>
        rw [findInBkt, List.find?_cons]
        by_cases same : key a = k
        · rw [if_pos ⟨congrArg List.length same, same⟩, decide_eq_true same]
        · rw [if_neg fun both => same both.2, decide_eq_false same]
          exact ih fuel _ rest (Nat.le_of_succ_le_succ enough)

omit [DecidableEq α] in
/-- HASH_FIND gives an element with the key, and NULL only when there is none. -/
theorem hashFind_represents (fuel : Nat) (m : Memory α) (order : List α) (k : Bytes)
    (held : Represents key m order) (enough : order.length ≤ fuel) :
    ∃ out, hashFind key fuel m k = some out ∧ (∀ a, out = some a → a ∈ order ∧ key a = k) ∧
      (out = none → ∀ a ∈ order, key a ≠ k) := by
  rcases held with ⟨rfl, empty⟩ | ⟨tbl, held⟩
  · refine ⟨none, by rw [hashFind, empty], fun a some => (by cases some),
      fun _ a member => (by cases member)⟩
  · obtain ⟨first, rest, shape⟩ : ∃ first rest, order = first :: rest := by
      cases order with
      | nil => exact absurd held.tail (by simp)
      | cons first rest => exact ⟨first, rest, rfl⟩
    have head : m.head = some first := by rw [held.head, shape, List.head?_cons]
    obtain ⟨powers, size, chains, chained, placed, perm⟩ := held.buckets
    obtain ⟨i, iDef⟩ : ∃ i, i = hashToBkt (hashJen k) tbl.numBuckets := ⟨_, rfl⟩
    have inside : i < tbl.buckets.length := by
      rw [iDef, size, powers]
      exact hashToBkt_lt _ _
    obtain ⟨b, here⟩ : ∃ b, tbl.buckets[i]? = some b := ⟨_, List.getElem?_eq_getElem inside⟩
    obtain ⟨chain, there⟩ : ∃ chain, chains[i]? = some chain :=
      ⟨_, List.getElem?_eq_getElem (by rw [chained.size]; exact inside)⟩
    have inChains := List.mem_of_getElem? there
    have inOrder : ∀ a ∈ chain, a ∈ order := fun a member =>
      perm.mem_iff.mp (List.mem_flatten.mpr ⟨chain, inChains, member⟩)
    have short : chain.length ≤ fuel := by
      have part := (List.sublist_flatten_of_mem inChains).length_le
      rw [perm.length_eq] at part
      omega
    have found := findInBkt_follows key m k fuel b.hhHead chain
      (by rw [(chained.bucket i chain b there here).1]; exact (chained.linked chain
        inChains).follows) short
    refine ⟨chain.find? fun a => key a = k, ?_, fun a some => ?_, fun none a member same => ?_⟩
    · simp only [hashFind, head, held.table, Option.bind_eq_bind, Option.bind_some]
      rw [← iDef, here]
      exact found
    · exact ⟨inOrder a (List.mem_of_find?_eq_some some), by simpa using List.find?_some some⟩
    · -- an element with the key would be in this chain
      obtain ⟨other, inOther, inside'⟩ := List.mem_flatten.mp (perm.mem_iff.mpr member)
      obtain ⟨j, at_j⟩ := List.mem_iff_getElem?.mp inOther
      have index := placed j other at_j a inside'
      rw [held.hashed a member, same, ← iDef] at index
      rw [← index, there] at at_j
      cases at_j
      exact List.find?_eq_none.mp none a inside' (by simpa using same)

omit [DecidableEq α] in
/-- HASH_COUNT -/
theorem hashCount_represents (m : Memory α) (order : List α) (held : Represents key m order) :
    hashCount m = order.length := by
  rcases held with ⟨rfl, empty⟩ | ⟨tbl, held⟩
  · rw [hashCount, empty]
    rfl
  · obtain ⟨first, rest, shape⟩ : ∃ first rest, order = first :: rest := by
      cases order with
      | nil => exact absurd held.tail (by simp)
      | cons first rest => exact ⟨first, rest, rfl⟩
    rw [hashCount, held.head, shape, List.head?_cons, held.table]
    rw [← shape]
    exact held.items

theorem hashIter_represents (remove : α → Bool) (fuel : Nat) (m : Memory α) (kept rest : List α)
    (held : Represents key m (kept ++ rest)) (enough : rest.length ≤ fuel) :
    ∃ out, hashIter remove fuel m rest.head? rest.tail.head? = some (out, rest) ∧
      Represents key out (kept ++ rest.filter fun a => !remove a) := by
  induction rest generalizing fuel m kept with
  | nil => exact ⟨m, by cases fuel <;> rfl, held⟩
  | cons el rest ih =>
    cases fuel with
    | zero => exact absurd enough (by rw [List.length_cons]; omega)
    | succ fuel =>
      -- what the body leaves, and the element after the next one in it
      obtain ⟨m1, kept1, body, held1, front⟩ : ∃ m1 kept1,
          (if remove el then hashDelete m el else some m) = some m1 ∧
            Represents key m1 (kept1 ++ rest) ∧
            kept1 = kept ++ [el].filter (fun a => !remove a) := by
        cases choice : remove el with
        | true =>
          obtain ⟨m1, deleted, held1⟩ := hashDelete_represents key m kept rest el held
          refine ⟨m1, kept, by rw [if_pos rfl]; exact deleted, held1, ?_⟩
          rw [List.filter_cons_of_neg (by simp [choice]), List.filter_nil, List.append_nil]
        | false =>
          refine ⟨m, kept ++ [el], rfl, ?_, ?_⟩
          · rw [List.append_assoc]
            exact held
          · rw [List.filter_cons_of_pos (by simp [choice]), List.filter_nil]
      have next : rest.head?.bind m1.app.next = rest.tail.head? := by
        cases rest with
        | nil => rfl
        | cons b rest =>
          rcases held1 with ⟨empty, _⟩ | ⟨tbl, filled⟩
          · exact absurd empty (by simp)
          · obtain ⟨_, next, _, _⟩ := Segment.parts filled.linked
            rw [Option.or_none] at next
            exact next
      obtain ⟨out, run, heldOut⟩ := ih fuel m1 kept1 held1 (Nat.le_of_succ_le_succ enough)
      refine ⟨out, ?_, ?_⟩
      · rw [List.head?_cons, List.tail_cons, hashIter, body]
        simp only [Option.bind_some, next, run, Option.map_some]
      · rw [front, List.append_assoc, ← List.filter_append, List.singleton_append] at heldOut
        exact heldOut

/-- HASH_ITER visits every element once, in order, and leaves those its body does not delete. -/
theorem hashIterAll_represents (remove : α → Bool) (fuel : Nat) (m : Memory α) (order : List α)
    (held : Represents key m order) (enough : order.length ≤ fuel) :
    ∃ out, hashIterAll remove fuel m = some (out, order) ∧
      Represents key out (order.filter fun a => !remove a) := by
  have starts : m.head = order.head? ∧ m.head.bind m.app.next = order.tail.head? := by
    rcases held with ⟨rfl, empty⟩ | ⟨tbl, filled⟩
    · rw [empty]
      exact ⟨rfl, rfl⟩
    · refine ⟨filled.head, ?_⟩
      rw [filled.head]
      cases order with
      | nil => rfl
      | cons a order =>
        obtain ⟨_, next, _⟩ := filled.linked
        rw [Option.or_none] at next
        exact next
  rw [hashIterAll, starts.2, starts.1]
  exact hashIter_represents key remove fuel m [] order held enough

end CgminerT4.Guarantees.HashTables
