import CgminerT4.Library.ByteString
import CgminerT4.Library.DoublyLinked

/-!
# Hash tables (uthash.h)

The macros of the hash tables that staged work, queued work, pending shares and
seen blocks are kept in. An element holds its own handle: the links of the order
in which elements were added, the links of its bucket's chain and its hash value.
`key` gives the bytes of an element's key, which do not change while it is in a
table. An operation has no result where C leaves it undefined: NULL is followed,
a bucket outside the table is used, or a loop does not end within `fuel` turns.
The tables are built without bloom filters and allocation does not fail. The
counters are unsigned: the operations are those of a table of fewer than 2^32
items.
-/
namespace CgminerT4.Source.UtHash
open Library.ByteString Library.DoublyLinked

/-! ## Jenkins' hash -/

/-- HASH_JEN_MIX -/
def jenMix (a b c : UInt32) : UInt32 × UInt32 × UInt32 :=
  let a := (a - b - c) ^^^ (c >>> 13)
  let b := (b - c - a) ^^^ (a <<< 8)
  let c := (c - a - b) ^^^ (b >>> 13)
  let a := (a - b - c) ^^^ (c >>> 12)
  let b := (b - c - a) ^^^ (a <<< 16)
  let c := (c - a - b) ^^^ (b >>> 5)
  let a := (a - b - c) ^^^ (c >>> 3)
  let b := (b - c - a) ^^^ (a <<< 10)
  let c := (c - a - b) ^^^ (b >>> 15)
  (a, b, c)

/-- Up to four bytes from `i` on, the first one lowest; bytes behind the key are no part of it. -/
def jenWord (key : Bytes) (i : Nat) : UInt32 :=
  let byte (k : Nat) := (key.getD (i + k) 0).toUInt32
  byte 0 + (byte 1 <<< 8) + (byte 2 <<< 16) + (byte 3 <<< 24)

/-- The three bytes that go above the length in the last round. -/
def jenLastWord (key : Bytes) : UInt32 :=
  let byte (k : Nat) := (key.getD (8 + k) 0).toUInt32
  (byte 0 <<< 8) + (byte 1 <<< 16) + (byte 2 <<< 24)

/-- The rounds of HASH_JEN over what is left of a key of `keylen` bytes. -/
def jenRounds (keylen : UInt32) (key : Bytes) (i j hashv : UInt32) : UInt32 :=
  if 12 ≤ key.length then
    let (i, j, hashv) := jenMix (i + jenWord key 0) (j + jenWord key 4) (hashv + jenWord key 8)
    jenRounds keylen (key.drop 12) i j hashv
  else (jenMix (i + jenWord key 0) (j + jenWord key 4) (hashv + keylen + jenLastWord key)).2.2
termination_by key.length
decreasing_by rw [List.length_drop]; omega

/-- HASH_JEN -/
def hashJen (key : Bytes) : UInt32 :=
  jenRounds (UInt32.ofNat key.length) key 0x9e3779b9 0x9e3779b9 0xfeedbeef

/-! ## Tables -/

/-- UT_hash_bucket -/
structure Bucket (α : Type) where
  hhHead : Option α
  count : Nat
  expandMult : Nat

/-- UT_hash_table -/
structure Table (α : Type) where
  buckets : List (Bucket α)
  numBuckets : Nat
  log2NumBuckets : Nat
  numItems : Nat
  tail : α
  idealChainMaxlen : Nat
  nonidealItems : Nat
  ineffExpands : Nat
  noexpand : Bool

/-- The handles of all elements, the head of the table and the table. -/
structure Memory (α : Type) where
  app : Links α
  hh : Links α
  hashv : α → UInt32
  head : Option α
  tbl : Option (Table α)

def emptyBucket {α : Type} : Bucket α := ⟨none, 0, 0⟩

/-- HASH_TO_BKT -/
def hashToBkt (hashv : UInt32) (numBkts : Nat) : Nat := hashv.toNat &&& (numBkts - 1)

variable {α : Type} [DecidableEq α] (key : α → Bytes)

/-- HASH_MAKE_TABLE -/
def makeTable (head : α) : Table α where
  buckets := List.replicate 32 emptyBucket
  numBuckets := 32
  log2NumBuckets := 5
  numItems := 0
  tail := head
  idealChainMaxlen := 0
  nonidealItems := 0
  ineffExpands := 0
  noexpand := false

/-- What the loops of HASH_EXPAND_BUCKETS change. -/
structure Expansion (α : Type) where
  hh : Links α
  newBuckets : List (Bucket α)
  nonidealItems : Nat

/-- One item goes to the front of its new bucket. -/
def moveItem (hashv : α → UInt32) (numBuckets ideal : Nat) (s : Expansion α) (thh : α) :
    Option (Expansion α) := do
  let bkt := hashToBkt (hashv thh) (numBuckets * 2)
  let newbkt ← s.newBuckets[bkt]?
  let count := newbkt.count + 1
  let (nonideal, mult) ←
    if count > ideal then (if ideal = 0 then none else some (s.nonidealItems + 1, count / ideal))
    else some (s.nonidealItems, newbkt.expandMult)
  let hh := ((s.hh.setPrev thh none).setNext thh newbkt.hhHead).setPrevOf newbkt.hhHead (some thh)
  some ⟨hh, s.newBuckets.set bkt ⟨some thh, count, mult⟩, nonideal⟩

/-- The `while` loop over an old chain; the next item is read before the links change. -/
def moveChain (hashv : α → UInt32) (numBuckets ideal : Nat) :
    Nat → Expansion α → Option α → Option (Expansion α)
  | _, s, none => some s
  | 0, _, some _ => none
  | fuel + 1, s, some thh => do
    let nxt := s.hh.next thh
    let s ← moveItem hashv numBuckets ideal s thh
    moveChain hashv numBuckets ideal fuel s nxt

/-- The `for` loop over the old buckets. -/
def moveBuckets (fuel : Nat) (hashv : α → UInt32) (numBuckets ideal : Nat) :
    Expansion α → List (Bucket α) → Option (Expansion α)
  | s, [] => some s
  | s, bucket :: rest => do
    let s ← moveChain hashv numBuckets ideal fuel s bucket.hhHead
    moveBuckets fuel hashv numBuckets ideal s rest

/-- The longest chain of an even distribution over twice the buckets, rounded up. -/
def idealMaxlen (tbl : Table α) : Nat :=
  (tbl.numItems >>> (tbl.log2NumBuckets + 1)) +
    (if tbl.numItems &&& (tbl.numBuckets * 2 - 1) = 0 then 0 else 1)

/-- The table with its new buckets; two ineffective expansions in a row stop further ones. -/
def expandedTable (tbl : Table α) (s : Expansion α) : Table α :=
  let ineff := if s.nonidealItems > tbl.numItems >>> 1 then tbl.ineffExpands + 1 else 0
  { tbl with
    buckets := s.newBuckets
    numBuckets := tbl.numBuckets * 2
    log2NumBuckets := tbl.log2NumBuckets + 1
    idealChainMaxlen := idealMaxlen tbl
    nonidealItems := s.nonidealItems
    ineffExpands := ineff
    noexpand := tbl.noexpand || decide (ineff > 1) }

/-- HASH_EXPAND_BUCKETS -/
def expandBuckets (fuel : Nat) (m : Memory α) (tbl : Table α) : Option (Memory α) := do
  let s ← moveBuckets fuel m.hashv tbl.numBuckets (idealMaxlen tbl)
    ⟨m.hh, List.replicate (2 * tbl.numBuckets) emptyBucket, 0⟩ tbl.buckets
  some { m with hh := s.hh, tbl := some (expandedTable tbl s) }

/-- HASH_ADD_TO_BKT -/
def addToBkt (fuel : Nat) (m : Memory α) (tbl : Table α) (bkt : Nat) (add : α) :
    Option (Memory α) := do
  let head ← tbl.buckets[bkt]?
  let count := head.count + 1
  let hh := ((m.hh.setNext add head.hhHead).setPrev add none).setPrevOf head.hhHead (some add)
  let tbl := { tbl with buckets := tbl.buckets.set bkt { head with hhHead := some add, count } }
  let m := { m with hh, tbl := some tbl }
  if count ≥ (head.expandMult + 1) * 10 ∧ tbl.noexpand = false then expandBuckets fuel m tbl
  else some m

/-- HASH_ADD_KEYPTR -/
def hashAdd (fuel : Nat) (m : Memory α) (add : α) : Option (Memory α) := do
  let app := m.app.setNext add none
  let (app, head, tbl) ← match m.head with
    | none => some (app.setPrev add none, add, makeTable add)
    | some head => m.tbl.map fun tbl =>
      ((app.setNext tbl.tail (some add)).setPrev add (some tbl.tail),
        head, { tbl with tail := add })
  let tbl := { tbl with numItems := tbl.numItems + 1 }
  let hashv := hashJen (key add)
  let m :=
    { m with app, head := some head, tbl := some tbl, hashv := Function.update m.hashv add hashv }
  addToBkt fuel m tbl (hashToBkt hashv tbl.numBuckets) add

/-- HASH_FIND_IN_BKT from an item of the chain on. -/
def findInBkt (m : Memory α) (k : Bytes) : Nat → Option α → Option (Option α)
  | _, none => some none
  | 0, some _ => none
  | fuel + 1, some out =>
    if (key out).length = k.length ∧ key out = k then some (some out) else findInBkt m k fuel
      (m.hh.next out)

/-- HASH_FIND -/
def hashFind (fuel : Nat) (m : Memory α) (k : Bytes) : Option (Option α) :=
  match m.head with
  | none => some none
  | some _ => do
    let tbl ← m.tbl
    let bucket ← tbl.buckets[hashToBkt (hashJen k) tbl.numBuckets]?
    findInBkt key m k fuel bucket.hhHead

/-- HASH_DEL_IN_BKT -/
def delInBkt (hh : Links α) (head : Bucket α) (del : α) : Links α × Bucket α :=
  let head := { head with
    count := head.count - 1
    hhHead := if head.hhHead = some del then hh.next del else head.hhHead }
  (hh.unlink del, head)

/-- HASH_DELETE -/
def hashDelete (m : Memory α) (del : α) : Option (Memory α) :=
  m.tbl.bind fun tbl =>
    if (m.app.prev del).isNone ∧
      (m.app.next del).isNone then some { m with head := none, tbl := none }
    else
      (if del = tbl.tail then m.app.prev del else some tbl.tail).bind fun tail =>
        let head := if (m.app.prev del).isSome then m.head else m.app.next del
        let app := m.app.unlink del
        let bkt := hashToBkt (m.hashv del) tbl.numBuckets
        tbl.buckets[bkt]?.map fun bucket =>
          let (hh, bucket) := delInBkt m.hh bucket del
          let tbl :=
            { tbl with tail, buckets := tbl.buckets.set bkt bucket, numItems := tbl.numItems - 1 }
          { m with app, hh, head, tbl := some tbl }

/-- HASH_COUNT -/
def hashCount (m : Memory α) : Nat := if m.head.isSome then (m.tbl.map (·.numItems)).getD 0 else 0

/-- HASH_ITER whose body removes the elements it selects; the elements it visits in order. -/
def hashIter (remove : α → Bool) : Nat → Memory α → Option α → Option α → Option (Memory α × List α)
  | _, m, none, _ => some (m, [])
  | 0, _, some _, _ => none
  | fuel + 1, m, some el, tmp =>
    (if remove el then hashDelete m el else some m).bind fun m =>
      (hashIter remove fuel m tmp (tmp.bind m.app.next)).map fun (m, visited) => (m, el :: visited)

def hashIterAll (remove : α → Bool) (fuel : Nat) (m : Memory α) : Option (Memory α × List α) :=
  hashIter remove fuel m m.head (m.head.bind m.app.next)

/-! ## Sorting -/

/-- The variables of HASH_SRT; `list` and `tail` are the part already merged. -/
structure Merging (α : Type) where
  app : Links α
  p : Option α
  q : Option α
  psize : Nat
  qsize : Nat
  list : Option α
  tail : Option α

variable (cmpfcn : α → α → Int)

/-- The choice of the next item `e` in a merge, with the run it is taken from moved on. -/
def Merging.take (s : Merging α) : Option (Option α × Merging α) :=
  if s.psize = 0 then s.q.map fun q => (some q, { s with q := s.app.next q, qsize := s.qsize - 1 })
  else if s.qsize = 0 ∨ s.q = none then
    some (s.p, { s with p := s.p.bind s.app.next, psize := s.psize - 1 })
  else
    s.p.bind fun p => s.q.bind fun q =>
      if cmpfcn p q ≤ 0 then some (some p, { s with p := s.app.next p, psize := s.psize - 1 })
      else some (some q, { s with q := s.app.next q, qsize := s.qsize - 1 })

/-- `e` is linked behind the merged part. -/
def Merging.link (s : Merging α) (e : Option α) : Merging α :=
  let app := s.app.setNextOf s.tail e
  { s with
    app := app.setPrevOf e s.tail
    list := if s.tail.isSome then s.list else e
    tail := e }

/-- The loop that merges two runs. -/
def mergeLoop : Nat → Merging α → Option (Merging α)
  | 0, _ => none
  | fuel + 1, s =>
    if 0 < s.psize ∨ (0 < s.qsize ∧ s.q.isSome) then do
      let (e, s) ← s.take cmpfcn
      mergeLoop fuel (s.link e)
    else some s

/-- The `for` loop that steps over a run: its length and what follows it. -/
def skipRun (app : Links α) : Nat → α → Nat → Nat × Option α
  | 0, q, psize => (psize, some q)
  | left + 1, q, psize =>
    match app.next q with
    | none => (psize + 1, none)
    | some q => skipRun app left q (psize + 1)

/-- One pass over the list, merging pairs of runs; returns the number of merges. -/
def passLoop (insize : Nat) : Nat → Merging α → Nat → Option (Merging α × Nat)
  | 0, _, _ => none
  | fuel + 1, s, nmerges =>
    match s.p with
    | none => some (s, nmerges)
    | some p => do
      let (psize, q) := skipRun s.app insize p 0
      let s ← mergeLoop cmpfcn fuel { s with q, psize, qsize := insize }
      passLoop insize fuel { s with p := s.q } (nmerges + 1)

/-- The `while (looping)` loop. -/
def sortLoop (fuel : Nat) : Nat → Nat → Links α → Option α → Option (Links α × Option α × Option α)
  | 0, _, _, _ => none
  | turns + 1, insize, app, list => do
    let (s, nmerges) ← passLoop cmpfcn insize fuel ⟨app, list, none, 0, 0, none, none⟩ 0
    let app := s.app.setNextOf s.tail none
    if nmerges ≤ 1 then some (app, s.list, s.tail) else sortLoop fuel turns (insize * 2) app s.list

/-- HASH_SRT -/
def hashSort (fuel : Nat) (m : Memory α) : Option (Memory α) :=
  match m.head with
  | none => some m
  | some _ => do
    let tbl ← m.tbl
    let (app, list, tail) ← sortLoop cmpfcn fuel fuel 1 m.app m.head
    let tail ← tail
    some { m with app, head := list, tbl := some { tbl with tail } }

end CgminerT4.Source.UtHash
