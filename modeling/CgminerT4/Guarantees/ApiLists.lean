import CgminerT4.Library.Runs
import CgminerT4.Source.ApiList
import Mathlib.Data.List.Flatten
import Mathlib.Data.List.Perm.Subperm

/-!
# What becomes of the fields of a list

The nodes of every list are a ring on the heap, and no block is allocated but those of
the nodes. Each call keeps that, so that a list prints the fields that were added to it
or to the lists that went into it, and frees their nodes.
-/
namespace CgminerT4.Guarantees.ApiLists
open Library.ByteString Library.DoublyLinked Library.LinkedRing Library.Runs
open Library.JsonText (comma openBrace closeBrace)
open Source.ApiReply (ApiData Floating Io fieldText fieldsText nullstr separator ioAdd)
open Source.ApiList

variable {R : Type}

/-! ## Steps on the heap -/

/-- The same heap with other links. -/
def relink (heap : Heap R) (links : Links Nat) : Heap R := { heap with links := links }

section
variable {heap : Heap R} {links : Links Nat} {a : Nat} (here : Block.node a ∈ heap.live)
include here

theorem prev_relink : (relink heap links).prev a = links.prev a := if_pos here

theorem next_relink : (relink heap links).next a = links.next a := if_pos here

theorem setPrev_relink (value : Nat) :
    (relink heap links).setPrev a value = some (relink heap (links.setPrev a (some value))) :=
  if_pos here

theorem setNext_relink (value : Nat) :
    (relink heap links).setNext a value = some (relink heap (links.setNext a (some value))) :=
  if_pos here

end

theorem free_live {heap : Heap R} {block : Block} (here : block ∈ heap.live) :
    heap.free block =
      some { heap with live := heap.live.erase block, freed := heap.freed ++ [block] } :=
  if_pos here

/-- The node that a block belongs to. -/
def owner : Block → Nat
  | .node a => a
  | .name a => a
  | .data a => a

theorem owner_of_blocks {content : Content R} {a : Nat} {block : Block}
    (member : block ∈ content.blocks a) :
    owner block = a := by
  unfold Content.blocks Content.parts at member
  split at member <;>
    simp only [List.mem_append, List.mem_cons, List.not_mem_nil, or_false] at member
  · obtain (rfl | rfl) | rfl := member <;> rfl
  · obtain rfl | rfl := member <;> rfl

theorem node_blocks (content : Content R) (a : Nat) : Block.node a ∈ content.blocks a :=
  List.mem_append_right _ (by simp)

theorem node_parts (content : Content R) (a b : Nat) : Block.node b ∉ content.parts a := by
  unfold Content.parts
  split <;> simp

theorem blocks_nodup (content : Content R) (a : Nat) : (content.blocks a).Nodup := by
  unfold Content.blocks Content.parts
  split <;> simp

/-! ## A new node -/

theorem setNext_comm (h : Links Nat) {a b : Nat} (other : a ≠ b) (value value' : Option Nat) :
    (h.setNext a value).setNext b value' = (h.setNext b value').setNext a value := by
  unfold Links.setNext
  rw [Function.update_comm other]

theorem insertNode_ring {heap : Heap R} {cells : List Nat} {a : Nat} (ring : Ring heap.links cells)
    (alive : ∀ b ∈ cells, Block.node b ∈ heap.live) (here : .node a ∈ heap.live)
    (distinct : (cells ++ [a]).Nodup) :
    ∃ links root, insertNode heap cells.head? a = some (relink heap links, root) ∧
      (cells ++ [a]).head? = some root ∧ Ring links (cells ++ [a]) ∧
        SameOff (cells ++ [a]) heap.links links := by
  cases cells with
  | nil =>
    refine ⟨(heap.links.setPrev a (some a)).setNext a (some a), a, ?_, rfl, ?_, fun b out => ?_⟩
    · unfold insertNode
      have self : heap = relink heap heap.links := rfl
      simp only [List.head?_nil, Option.bind_eq_bind]
      rw [self, setPrev_relink here, Option.bind_some, setNext_relink here]
      rfl
    · exact (ring_single _ a).mpr ⟨setPrev_self _ a _, setNext_self _ a _⟩
    · have other : b ≠ a := fun same => out (same ▸ List.mem_cons_self)
      exact ⟨setPrev_other _ a b _ other, setNext_other _ a b _ other⟩
  | cons root cells =>
    obtain ⟨tail, last⟩ : ∃ tail, (root :: cells).getLast? = some tail := ⟨_, List.getLast?_cons⟩
    have rootLive := alive root List.mem_cons_self
    have tailLive := alive tail (List.mem_of_getLast? last)
    have apart := (List.nodup_append'.mp distinct).2.2
    have otherRoot : a ≠ root := fun same => apart List.mem_cons_self (same ▸ List.mem_cons_self)
    have otherTail : a ≠ tail :=
      fun same => apart (List.mem_of_getLast? last) (same ▸ List.mem_cons_self)
    refine ⟨joined heap.links (root :: cells) [a], root, ?_, rfl, ?_,
      sameOff_joined heap.links (root :: cells) [a]⟩
    · have before : heap.links.prev root = some tail := ring.prev_head.trans last
      have kept : ((heap.links.setPrev a (some tail)).setPrev root (some a)).prev a = some tail :=
        (setPrev_other _ root a _ otherRoot).trans (setPrev_self _ a _)
      have writes : joined heap.links (root :: cells) [a] =
          (((heap.links.setPrev a (some tail)).setPrev root (some a)).setNext a (some root)).setNext
            tail (some a) := by
        unfold joined
        rw [last, setNext_comm _ otherTail]
        rfl
      have self : heap = relink heap heap.links := rfl
      rw [writes, self]
      unfold insertNode
      simp only [List.head?_cons, Option.bind_eq_bind]
      rw [prev_relink rootLive, before, Option.bind_some, setPrev_relink here, Option.bind_some,
        setPrev_relink rootLive, Option.bind_some, setNext_relink here, Option.bind_some,
        prev_relink here, setNext_prev, kept, Option.bind_some, setNext_relink tailLive]
      rfl
    · have alone : Segment heap.links (heap.links.prev a) [a] (heap.links.next a) :=
        (segment_single ..).mpr ⟨rfl, rfl⟩
      exact ring_joined ring alone (by simp) (by simp) distinct

/-! ## A list behind another -/

theorem apiAddExtra_ring {heap : Heap R} {cells others : List Nat} (ring : Ring heap.links cells)
    (ring' : Ring heap.links others) (alive : ∀ b ∈ cells ++ others, Block.node b ∈ heap.live)
    (distinct : (cells ++ others).Nodup) :
    ∃ links, apiAddExtra heap cells.head? others.head? =
      some (relink heap links, (cells ++ others).head?) ∧
      Ring links (cells ++ others) ∧ SameOff (cells ++ others) heap.links links := by
  cases cells with
  | nil => exact ⟨heap.links, rfl, ring', fun b out => ⟨rfl, rfl⟩⟩
  | cons root cells =>
    cases others with
    | nil =>
      rw [List.append_nil]
      exact ⟨heap.links, rfl, ring, fun b out => ⟨rfl, rfl⟩⟩
    | cons extra others =>
      obtain ⟨tail, last⟩ : ∃ tail, (root :: cells).getLast? = some tail := ⟨_, List.getLast?_cons⟩
      obtain ⟨tmp, last'⟩ : ∃ tmp, (extra :: others).getLast? = some tmp := ⟨_, List.getLast?_cons⟩
      have apart := (List.nodup_append'.mp distinct).2.2
      have rootLive := alive root (by simp)
      have extraLive := alive extra (by simp)
      have tailLive := alive tail (List.mem_append_left _ (List.mem_of_getLast? last))
      have tmpLive := alive tmp (List.mem_append_right _ (List.mem_of_getLast? last'))
      have other : root ≠ extra := fun same => apart List.mem_cons_self (same ▸ List.mem_cons_self)
      refine ⟨joined heap.links (root :: cells) (extra :: others), ?_, ?_,
        sameOff_joined heap.links (root :: cells) (extra :: others)⟩
      · have before : heap.links.prev root = some tail := ring.prev_head.trans last
        have before' : heap.links.prev extra = some tmp := ring'.prev_head.trans last'
        have kept : (heap.links.setPrev extra (some tail)).prev root = some tail :=
          (setPrev_other _ extra root _ other).trans before
        have writes : joined heap.links (root :: cells) (extra :: others) =
            (((heap.links.setPrev extra (some tail)).setNext tail (some extra)).setNext tmp
              (some root)).setPrev
              root (some tmp) := by
          unfold joined
          rw [last, last']
          rfl
        have self : heap = relink heap heap.links := rfl
        rw [writes, self]
        unfold apiAddExtra
        simp only [List.head?_cons, Option.bind_eq_bind, List.cons_append]
        rw [prev_relink extraLive, before', Option.bind_some, prev_relink rootLive, before,
          Option.bind_some, setPrev_relink extraLive, Option.bind_some, prev_relink rootLive, kept,
          Option.bind_some, setNext_relink tailLive, Option.bind_some, setNext_relink tmpLive,
          Option.bind_some, setPrev_relink rootLive]
        rfl
      · exact ring_joined ring ring' (by simp) (by simp) distinct

/-! ## Printing and freeing -/

/-- The same heap after some blocks were freed. -/
def release (heap : Heap R) (blocks : List Block) (links : Links Nat) : Heap R :=
  { heap with live := heap.live.diff blocks, freed := heap.freed ++ blocks, links := links }

theorem mem_diff_of_not_mem {live blocks : List Block} {block : Block} (here : block ∈ live)
    (out : block ∉ blocks) :
    block ∈ live.diff blocks := by
  induction blocks generalizing live with
  | nil => exact here
  | cons first blocks ih =>
    obtain ⟨other, out⟩ := not_or.mp (mt List.mem_cons.mpr out)
    rw [List.diff_cons]
    exact ih ((List.mem_erase_of_ne other).mpr here) out

theorem free_parts {heap : Heap R} {content : Content R} {a : Nat}
    (here : ∀ block ∈ content.blocks a, block ∈ heap.live) :
    ((heap.free (.name a)).bind fun heap => freeData heap a content) =
      some (release heap (content.parts a) heap.links) := by
  unfold freeData
  by_cases copied : content.dataWasMalloc = true
  · have parts : content.parts a = [.name a, .data a] := if_pos copied
    have name : Block.name a ∈ heap.live := here _ (by unfold Content.blocks; rw [parts]; simp)
    have data : Block.data a ∈ heap.live.erase (.name a) :=
      (List.mem_erase_of_ne (by simp)).mpr (here _ (by unfold Content.blocks; rw [parts]; simp))
    rw [free_live name, Option.bind_some, if_pos copied, free_live data, parts]
    simp only [release, List.diff_cons, List.diff_nil, List.append_assoc, List.cons_append,
      List.nil_append]
  · have parts : content.parts a = [.name a] := if_neg copied
    have name : Block.name a ∈ heap.live := here _ (by unfold Content.blocks; rw [parts]; simp)
    rw [free_live name, Option.bind_some, if_neg copied, parts]
    simp only [release, List.diff_cons, List.diff_nil]

theorem freeNode_ring {heap : Heap R} {content : Content R} {a : Nat} {cells : List Nat}
    (ring : Ring heap.links (a :: cells)) (distinct : (a :: cells).Nodup)
    (here : ∀ block ∈ content.blocks a, block ∈ heap.live)
    (alive : ∀ b ∈ cells, Block.node b ∈ heap.live) :
    freeNode heap a content =
      some (release heap (content.blocks a) (closed heap.links cells), cells.head?) := by
  have left : ∀ {b}, Block.node b ∈ heap.live →
      Block.node b ∈ (release heap (content.parts a) heap.links).live :=
    fun member => mem_diff_of_not_mem member (node_parts content a _)
  have aLive := left (here _ (node_blocks content a))
  have whole : ∀ links, (relink (release heap (content.parts a) heap.links) links).free (.node a) =
      some (release heap (content.blocks a) links) := by
    intro links
    rw [free_live (by exact aLive)]
    simp only [relink, release, Content.blocks, List.diff_append, List.diff_cons, List.diff_nil,
      List.append_assoc]
  have self : release heap (content.parts a) heap.links =
    relink (release heap (content.parts a) heap.links) heap.links := rfl
  unfold freeNode
  simp only [Option.bind_eq_bind]
  rw [← Option.bind_assoc, free_parts here, Option.bind_some, self]
  cases cells with
  | nil =>
    rw [next_relink aLive, ring.next_alone, Option.bind_some, if_pos rfl, whole]
    rfl
  | cons b cells =>
    obtain ⟨tail, last⟩ : ∃ tail, (b :: cells).getLast? = some tail := ⟨_, List.getLast?_cons⟩
    have before : heap.links.prev a = some tail := by
      rw [ring.prev_head, List.getLast?_cons_cons, last]
    have other : b ≠ a := fun same => (List.nodup_cons.mp distinct).1 (same ▸ List.mem_cons_self)
    have bLive := left (alive b List.mem_cons_self)
    have tailLive := left (alive tail (List.mem_of_getLast? last))
    have writes : closed heap.links (b :: cells) =
        (heap.links.setPrev b (some tail)).setNext tail (some b) := by
      unfold closed
      rw [last]
      rfl
    rw [next_relink aLive, ring.next_head, Option.bind_some, if_neg other, prev_relink aLive,
      before, Option.bind_some, setPrev_relink bLive, Option.bind_some, prev_relink bLive,
      setPrev_self, Option.bind_some, setNext_relink tailLive, Option.bind_some, whole, writes]
    rfl

def blocks (heap : Heap R) (a : Nat) : List Block :=
  (heap.content a).elim [] fun content => content.blocks a

theorem owner_blocks {heap : Heap R} {a : Nat} {block : Block} (member : block ∈ blocks heap a) :
    owner block = a := by
  unfold blocks at member
  cases known : heap.content a with
  | none =>
    rw [known] at member
    cases member
  | some content =>
    rw [known] at member
    exact owner_of_blocks member

theorem release_release (heap : Heap R) (first second : List Block) (links links' : Links Nat) :
    release (release heap first links) second links' = release heap (first ++ second) links' := by
  simp only [release, List.diff_append, List.append_assoc]

variable [Floating R]

def fieldAt (heap : Heap R) (a : Nat) : Option (ApiData R) := (heap.content a).map Content.field

theorem node_of_fields {heap : Heap R} {cells : List Nat} {fields : List (ApiData R)}
    (contents : cells.map (fieldAt heap) = fields.map some) :
    ∀ a ∈ cells, Block.node a ∈ blocks heap a := by
  intro a member
  have listed : fieldAt heap a ∈ fields.map some := contents ▸ List.mem_map_of_mem member
  obtain ⟨_, _, same⟩ := List.mem_map.mp listed
  obtain ⟨content, known, _⟩ := Option.map_eq_some_iff.mp same.symm
  rw [blocks, known, Option.elim_some]
  exact node_blocks content a

/-- The fields as the loop puts them behind each other. -/
def fieldTexts (isjson : Bool) : Bool → List (ApiData R) → Bytes
  | _, [] => []
  | first, field :: fields =>
    (if first then [] else [comma]) ++ fieldText isjson field ++ fieldTexts isjson false fields

theorem printNodes_ring (isjson first : Bool) {turns : Nat} {heap : Heap R} {cells : List Nat}
    {fields : List (ApiData R)} (item : Bytes) (enough : cells.length ≤ turns)
    (ring : Ring heap.links cells) (distinct : cells.Nodup)
    (contents : cells.map (fieldAt heap) = fields.map some)
    (here : ∀ a ∈ cells, ∀ block ∈ blocks heap a, block ∈ heap.live) :
    ∃ links, printNodes isjson turns heap cells.head? first item =
        some (release heap (cells.flatMap (blocks heap)) links,
          item ++ fieldTexts isjson first fields) ∧
      SameOff cells heap.links links := by
  induction cells generalizing heap fields turns first item with
  | nil =>
    cases List.map_eq_nil_iff.mp contents.symm
    refine ⟨heap.links, ?_, fun b out => ⟨rfl, rfl⟩⟩
    rw [List.head?_nil, printNodes, fieldTexts, List.append_nil, List.flatMap_nil]
    simp only [release, List.diff_nil, List.append_nil]
  | cons a cells ih =>
    obtain ⟨field, fields, rfl⟩ : ∃ field rest, fields = field :: rest := by
      cases fields with
      | nil => cases contents
      | cons field rest => exact ⟨field, rest, rfl⟩
    obtain ⟨turns, rfl⟩ : ∃ n, turns = n + 1 :=
      ⟨turns - 1, by rw [List.length_cons] at enough; omega⟩
    obtain ⟨filled, others⟩ := List.cons.inj contents
    obtain ⟨content, known, rfl⟩ := Option.map_eq_some_iff.mp filled
    obtain ⟨out, distinctRest⟩ := List.nodup_cons.mp distinct
    have own : blocks heap a = content.blocks a := by rw [blocks, known, Option.elim_some]
    have hereFirst : ∀ block ∈ content.blocks a, block ∈ heap.live := fun block member =>
      here a List.mem_cons_self block (own ▸ member)
    have alive : ∀ b ∈ cells, Block.node b ∈ heap.live := fun b member =>
      here b (List.mem_cons_of_mem a member) _ (node_of_fields others b member)
    have read : heap.read a = some content := by
      unfold Heap.read
      rw [known]
      exact if_pos hereFirst
    have hereRest : ∀ b ∈ cells, ∀ block ∈ blocks heap b, block ∈
        heap.live.diff (content.blocks a) := by
      intro b member block part
      refine mem_diff_of_not_mem (here b (List.mem_cons_of_mem a member) block part)
        fun inFirst => out ?_
      rw [← owner_of_blocks inFirst, owner_blocks part]
      exact member
    have tail : Ring (release heap (content.blocks a) (closed heap.links cells)).links cells :=
      ring.tail distinct
    obtain ⟨links, printed, same⟩ :=
      ih false (item ++ (if first then [] else [comma]) ++ fieldText isjson content.field)
      (Nat.le_of_succ_le_succ enough) tail distinctRest others hereRest
    refine ⟨links, ?_, fun b outside => ?_⟩
    · rw [List.head?_cons, printNodes, read, Option.bind_eq_bind, Option.bind_some,
        freeNode_ring ring distinct hereFirst alive]
      refine printed.trans ?_
      rw [release_release, fieldTexts, List.flatMap_cons, own]
      simp only [List.append_assoc]
      rfl
    · have outside : b ∉ cells := fun member => outside (List.mem_cons_of_mem a member)
      obtain ⟨prev, next⟩ := same b outside
      obtain ⟨prev', next'⟩ := sameOff_closed heap.links cells b outside
      exact ⟨prev.trans prev', next.trans next'⟩

/-! ## The fields of the lists -/

def addedField (name : Bytes) (type : ApiDataType) (data : Option (type.Pointee R)) : ApiData R :=
  ⟨name, data.elim (.string (some nullstr)) (datum type)⟩

/-- A printed record: its fields between single commas. -/
def recordText (isjson precom : Bool) (fields : List (ApiData R)) : Bytes :=
  (if precom then [comma] else []) ++ (if isjson then [openBrace] else []) ++
    List.intercalate [comma] (fields.map (fieldText isjson)) ++
      [if isjson then closeBrace else separator]

/-- The fields in each list and what was printed. -/
structure Added (R : Type) where
  fields : Nat → List (ApiData R)
  text : Bytes

def Added.empty : Added R := ⟨fun _ => [], []⟩

def Added.call (added : Added R) : Call R → Added R
  | .add l name type data _ =>
    { added with fields := Function.update added.fields l (added.fields l ++
      [addedField name type data]) }
  | .extra l m _ =>
    { added with fields := Function.update (Function.update added.fields m []) l (added.fields l ++
      added.fields m) }
  | .print l isjson precom =>
    ⟨Function.update added.fields l [], added.text ++ recordText isjson precom (added.fields l)⟩

/-- A variable holds the ring of these nodes, with these fields in them. -/
structure Listed (heap : Heap R) (root : Option Nat) (fields : List (ApiData R))
    (cells : List Nat) : Prop where
  ring : Ring heap.links cells
  root : root = cells.head?
  distinct : cells.Nodup
  contents : cells.map (fieldAt heap) = fields.map some

theorem listed_nil (heap : Heap R) : Listed heap none [] [] :=
  ⟨ring_nil _, rfl, List.nodup_nil, rfl⟩

theorem Listed.frame {heap heap' : Heap R} {root : Option Nat} {fields : List (ApiData R)}
    {cells changed : List Nat} (listed : Listed heap root fields cells)
    (same : SameOff changed heap.links heap'.links)
    (kept : ∀ a ∈ cells, heap'.content a = heap.content a) (apart : ∀ a ∈ cells, a ∉ changed) :
    Listed heap' root fields cells where
  ring := listed.ring.frame same apart
  root := listed.root
  distinct := listed.distinct
  contents := by
    rw [← listed.contents]
    refine List.map_congr_left fun a member => ?_
    unfold fieldAt
    rw [kept a member]

def Used (cells : Nat → List Nat) (a : Nat) : Prop := ∃ l, a ∈ cells l

/-- The lists have no node in common, and nothing else is allocated. -/
structure Holds (s : ListState R) (added : Added R) (cells : Nat → List Nat) : Prop where
  listed : ∀ l, Listed s.heap (s.root l) (added.fields l) (cells l)
  apart : ∀ l m, l ≠ m → (cells l).Disjoint (cells m)
  once : s.heap.live.Nodup
  live : ∀ block, block ∈ s.heap.live ↔ ∃ a, Used cells a ∧ block ∈ blocks s.heap a
  text : s.io.text = added.text

theorem Holds.node {s : ListState R} {added : Added R} {cells : Nat → List Nat}
    (holds : Holds s added cells) {l a : Nat} (member : a ∈ cells l) : Block.node a ∈ s.heap.live :=
  (holds.live _).mpr ⟨a, ⟨l, member⟩, node_of_fields (holds.listed l).contents a member⟩

theorem holds_empty : Holds (ListState.empty : ListState R) Added.empty fun _ => [] where
  listed _ := listed_nil _
  apart _ _ _ := List.disjoint_nil_left _
  once := List.nodup_nil
  live block := by simp [ListState.empty, Heap.empty, Used]
  text := rfl

theorem apart_update {cells : Nat → List Nat} {l : Nat} {new : List Nat}
    (apart : ∀ k m, k ≠ m → (cells k).Disjoint (cells m))
    (others : ∀ k, k ≠ l → new.Disjoint (cells k)) :
    ∀ k m, k ≠ m → (Function.update cells l new k).Disjoint (Function.update cells l new m) := by
  intro k m other
  by_cases first : k = l
  · subst first
    rw [Function.update_self, Function.update_of_ne other.symm]
    exact others m other.symm
  · rw [Function.update_of_ne first]
    by_cases second : m = l
    · subst second
      rw [Function.update_self]
      exact List.disjoint_symm (others k first)
    · rw [Function.update_of_ne second]
      exact apart k m other

theorem used_update {cells : Nat → List Nat} {l : Nat} {new : List Nat} {a : Nat} :
    Used (Function.update cells l new) a ↔ a ∈ new ∨ ∃ k, k ≠ l ∧ a ∈ cells k := by
  constructor
  · rintro ⟨k, member⟩
    by_cases here : k = l
    · subst here
      rw [Function.update_self] at member
      exact .inl member
    · rw [Function.update_of_ne here] at member
      exact .inr ⟨k, here, member⟩
  · rintro (member | ⟨k, other, member⟩)
    · refine ⟨l, ?_⟩
      rw [Function.update_self]
      exact member
    · refine ⟨k, ?_⟩
      rw [Function.update_of_ne other]
      exact member

theorem used_split {cells : Nat → List Nat} (l : Nat) {a : Nat} :
    Used cells a ↔ a ∈ cells l ∨ ∃ k, k ≠ l ∧ a ∈ cells k := by
  have split : Used (Function.update cells l (cells l)) a ↔ _ := used_update
  rwa [Function.update_eq_self] at split

/-! ## One more field -/

/-- A new node at the end of its list, whatever its data. -/
theorem apiAddDataFull_ring (malloc : Allocator) {heap : Heap R} {cells : List Nat}
    (ring : Ring heap.links cells) (alive : ∀ b ∈ cells, Block.node b ∈ heap.live)
    (distinct : cells.Nodup) (name : Bytes) (type : ApiDataType)
    (data : Option (type.Pointee R)) (copyData : Bool) :
    ∃ heap' root content, apiAddDataFull malloc heap cells.head? name type data copyData =
      some (heap', root) ∧
      (cells ++ [malloc.address heap.live]).head? = some root ∧
      Ring heap'.links (cells ++ [malloc.address heap.live]) ∧
      SameOff (cells ++ [malloc.address heap.live]) heap.links heap'.links ∧
      heap'.content = Function.update heap.content (malloc.address heap.live) (some content) ∧
      content.field = addedField name type data ∧
      heap'.live.Perm (content.blocks (malloc.address heap.live) ++ heap.live) := by
  set a := malloc.address heap.live with address
  have fresh : a ∉ cells := fun member => malloc.fresh heap.live (alive a member)
  have distinct' : (cells ++ [a]).Nodup := List.nodup_append'.mpr
    ⟨distinct, List.nodup_singleton a, List.disjoint_singleton.mpr fresh⟩
  have linked : Ring ((heap.cgmalloc (.node a)).cgmalloc (.name a)).links cells := ring
  obtain ⟨links, root, inserted, head, ring', same⟩ :=
    insertNode_ring linked
      (fun b member => List.mem_cons_of_mem _ (List.mem_cons_of_mem _ (alive b member)))
      (List.mem_cons_of_mem _ List.mem_cons_self) distinct'
  have filed : ∀ (heap' : Heap R) content, Block.node a ∈ heap'.live →
      heap'.write a content =
        some { heap' with content := Function.update heap'.content a (some content) } :=
    fun heap' content here => if_pos here
  have here : Block.node a ∈ (relink ((heap.cgmalloc (.node a)).cgmalloc (.name a)) links).live :=
    List.mem_cons_of_mem _ List.mem_cons_self
  unfold apiAddDataFull
  simp only [← address, inserted, Option.bind_eq_bind, Option.bind_some]
  cases data with
  | none =>
    rw [filed _ _ here]
    exact ⟨_, root, ⟨.const, name, nullstr, false⟩, rfl, head, ring', same, rfl, rfl,
      List.Perm.refl _⟩
  | some data =>
    cases copyData with
    | false =>
      simp only [if_neg Bool.false_ne_true]
      rw [filed _ _ here]
      exact ⟨_, root, ⟨type, name, data, false⟩, rfl, head, ring', same, rfl, rfl, List.Perm.refl _⟩
    | true =>
      simp only [if_true]
      rw [filed _ _ (List.mem_cons_of_mem _ here)]
      exact ⟨_, root, ⟨type, name, data, true⟩, rfl, head, ring', same, rfl, rfl, List.Perm.swap ..⟩

theorem Holds.add {s : ListState R} {added : Added R} {cells : Nat → List Nat}
    (holds : Holds s added cells) (malloc : Allocator) (l : Nat) (name : Bytes) (type : ApiDataType)
    (data : Option (type.Pointee R)) (copyData : Bool) :
    ∃ next, call malloc s (.add l name type data copyData) = some next ∧
      Holds next (added.call (.add l name type data copyData))
        (Function.update cells l (cells l ++ [malloc.address s.heap.live])) := by
  obtain ⟨heap, root, content, stepped, head, ring, same, filed, field, perm⟩ :=
    apiAddDataFull_ring malloc
    (holds.listed l).ring (fun b => holds.node) (holds.listed l).distinct name type data copyData
  set a := malloc.address s.heap.live with address
  have fresh : ∀ k, a ∉ cells k := fun k member => malloc.fresh s.heap.live (holds.node member)
  have kept : ∀ k, ∀ b ∈ cells k, heap.content b = s.heap.content b := by
    intro k b member
    have other : b ≠ a := fun same => fresh k (same ▸ member)
    rw [filed, Function.update_of_ne other]
  have new : blocks heap a = content.blocks a := by
    rw [blocks, filed, Function.update_self, Option.elim_some]
  have taken : call malloc s (.add l name type data copyData) =
      some { s with heap := heap, root := Function.update s.root l (some root) } := by
    rw [call, (holds.listed l).root, stepped]
    rfl
  refine ⟨_, taken, fun k => ?_, ?_, ?_, fun block => ?_, holds.text⟩
  · by_cases here : k = l
    · subst here
      simp only [Added.call, Function.update_self]
      refine ⟨ring, head.symm, ?_, ?_⟩
      · exact List.nodup_append'.mpr
          ⟨(holds.listed k).distinct, List.nodup_singleton a, List.disjoint_singleton.mpr (fresh k)⟩
      · have old : (cells k).map (fieldAt heap) = (cells k).map (fieldAt s.heap) :=
          List.map_congr_left fun b member => by rw [fieldAt, kept k b member, fieldAt]
        have added' : fieldAt heap a = some (addedField name type data) := by
          rw [fieldAt, filed, Function.update_self, Option.map_some, field]
        rw [List.map_append, List.map_append, old, (holds.listed k).contents, List.map_singleton,
          List.map_singleton, added']
    · simp only [Added.call, Function.update_of_ne here]
      refine (holds.listed k).frame same (kept k) fun b member => ?_
      refine List.not_mem_append (fun inList => holds.apart k l here member inList) fun isNew =>
        fresh k ?_
      exact List.mem_singleton.mp isNew ▸ member
  · refine apart_update holds.apart fun k other =>
      List.disjoint_append_left.mpr ⟨holds.apart l k other.symm, ?_⟩
    exact List.singleton_disjoint.mpr (fresh k)
  · refine perm.nodup_iff.mpr
      (List.nodup_append'.mpr ⟨blocks_nodup content a, holds.once, fun block part old => ?_⟩)
    obtain ⟨b, ⟨k, member⟩, owned⟩ := (holds.live block).mp old
    rw [← owner_of_blocks part, owner_blocks owned] at fresh
    exact fresh k member
  · rw [perm.mem_iff, List.mem_append, holds.live block]
    constructor
    · rintro (part | ⟨b, ⟨k, member⟩, owned⟩)
      · exact ⟨a, used_update.mpr (.inl (List.mem_append_right _ List.mem_cons_self)), new ▸ part⟩
      · refine ⟨b, used_update.mpr ?_, by rwa [blocks, kept k b member]⟩
        exact ((used_split l).mp ⟨k, member⟩).imp_left (List.mem_append_left _)
    · rintro ⟨b, used, owned⟩
      by_cases isNew : b = a
      · subst isNew
        exact .inl (new ▸ owned)
      · have old : Used cells b := (used_split l).mpr ((used_update.mp used).imp_left fun member =>
          (List.mem_append.mp member).resolve_right fun single =>
            isNew (List.mem_singleton.mp single))
        obtain ⟨k, member⟩ := old
        exact .inr ⟨b, ⟨k, member⟩, by rwa [blocks, kept k b member] at owned⟩

/-! ## One list behind another -/

theorem Holds.extra {s : ListState R} {added : Added R} {cells : Nat → List Nat}
    (holds : Holds s added cells) (malloc : Allocator) (l m : Nat) (other : l ≠ m) :
    ∃ next, call malloc s (.extra l m other) = some next ∧
      Holds next (added.call (.extra l m other))
      (Function.update (Function.update cells m []) l (cells l ++ cells m)) := by
  have distinct : (cells l ++ cells m).Nodup := List.nodup_append'.mpr
    ⟨(holds.listed l).distinct, (holds.listed m).distinct, holds.apart l m other⟩
  obtain ⟨links, stepped, ring, same⟩ :=
    apiAddExtra_ring (holds.listed l).ring (holds.listed m).ring
    (fun a member => (List.mem_append.mp member).elim holds.node holds.node) distinct
  have taken : call malloc s (.extra l m other) = some { s with
      heap := relink s.heap links,
      root := Function.update (Function.update s.root m none) l (cells l ++ cells m).head? } := by
    rw [call, (holds.listed l).root, (holds.listed m).root, stepped]
    rfl
  refine ⟨_, taken, fun k => ?_, ?_, holds.once, fun block => ?_, holds.text⟩
  · by_cases here : k = l
    · subst here
      simp only [Added.call, Function.update_self]
      refine ⟨ring, rfl, distinct, ?_⟩
      rw [List.map_append, List.map_append, ← (holds.listed k).contents,
        ← (holds.listed m).contents]
      rfl
    · simp only [Added.call, Function.update_of_ne here]
      by_cases gone : k = m
      · subst gone
        simp only [Function.update_self]
        exact listed_nil _
      · simp only [Function.update_of_ne gone]
        refine (holds.listed k).frame same (fun a member => rfl) fun a member => ?_
        exact List.not_mem_append (fun inList => holds.apart k l here member inList)
          fun inExtra => holds.apart k m gone member inExtra
  · refine apart_update (apart_update holds.apart fun k _ => List.disjoint_nil_left _)
      fun k away => ?_
    by_cases gone : k = m
    · subst gone
      rw [Function.update_self]
      exact List.disjoint_nil_right _
    · rw [Function.update_of_ne gone]
      exact List.disjoint_append_left.mpr ⟨holds.apart l k (Ne.symm away),
        holds.apart m k (Ne.symm gone)⟩
  · have used : ∀ a, Used (Function.update (Function.update cells m []) l (cells l ++ cells m)) a ↔
        Used cells a := by
      intro a
      rw [used_update, List.mem_append]
      constructor
      · rintro ((inList | inExtra) | ⟨k, _, member⟩)
        · exact ⟨l, inList⟩
        · exact ⟨m, inExtra⟩
        · by_cases gone : k = m
          · subst gone
            rw [Function.update_self] at member
            cases member
          · rw [Function.update_of_ne gone] at member
            exact ⟨k, member⟩
      · rintro ⟨k, member⟩
        by_cases here : k = l
        · exact .inl (.inl (here ▸ member))
        · by_cases gone : k = m
          · exact .inl (.inr (gone ▸ member))
          · refine .inr ⟨k, here, ?_⟩
            rwa [Function.update_of_ne gone]
    rw [show (relink s.heap links).live = s.heap.live from rfl, holds.live block]
    exact exists_congr fun a => and_congr_left fun _ => (used a).symm

/-! ## A printed list -/

theorem fieldTexts_intercalate (isjson : Bool) (fields : List (ApiData R)) :
    fieldTexts isjson true fields = List.intercalate [comma] (fields.map (fieldText isjson)) := by
  induction fields with
  | nil => rfl
  | cons field fields ih =>
    cases fields with
    | nil => simp [fieldTexts]
    | cons next fields =>
      rw [List.map_cons, List.map_cons, List.intercalate_cons_cons, ← List.map_cons, ← ih]
      simp [fieldTexts]

theorem Holds.turns {s : ListState R} {added : Added R} {cells : Nat → List Nat}
    (holds : Holds s added cells) (l : Nat) :
    (cells l).length ≤ s.heap.live.length := by
  have injective : Function.Injective Block.node := fun a b same => Block.node.inj same
  have distinct : ((cells l).map Block.node).Nodup := (holds.listed l).distinct.map injective
  have nodes : (cells l).map Block.node ⊆ s.heap.live := by
    intro block member
    obtain ⟨a, inList, rfl⟩ := List.mem_map.mp member
    exact holds.node inList
  have bound := (List.subperm_of_subset distinct nodes).length_le
  rwa [List.length_map] at bound

/-- What is left of the heap when a list was printed. -/
def printed (s : ListState R) (l : Nat) (cells : List Nat) (isjson precom : Bool)
    (fields : List (ApiData R)) (links : Links Nat) : ListState R :=
  ⟨release s.heap (cells.flatMap (blocks s.heap)) links, Function.update s.root l none,
    ioAdd s.io (recordText isjson precom fields)⟩

theorem Holds.print {s : ListState R} {added : Added R} {cells : Nat → List Nat}
    (holds : Holds s added cells) (malloc : Allocator) (l : Nat) (isjson precom : Bool) :
    ∃ links, call malloc s (.print l isjson precom) =
      some (printed s l (cells l) isjson precom (added.fields l) links) ∧
      Holds (printed s l (cells l) isjson precom (added.fields l) links)
        (added.call (.print l isjson precom))
        (Function.update cells l []) := by
  obtain ⟨ring, root, distinct, contents⟩ := holds.listed l
  obtain ⟨links, stepped, same⟩ := printNodes_ring isjson true
    ((if precom then [comma] else []) ++ if isjson then [openBrace] else
      []) (holds.turns l) ring distinct contents
    (fun a member block part => (holds.live block).mpr ⟨a, ⟨l, member⟩, part⟩)
  have taken : call malloc s (.print l isjson precom) =
      some (printed s l (cells l) isjson precom (added.fields l) links) := by
    rw [call, root, printData, stepped, fieldTexts_intercalate]
    rfl
  refine ⟨links, taken, fun k => ?_, ?_, holds.once.diff, fun block => ?_, ?_⟩
  · by_cases here : k = l
    · subst here
      simp only [Added.call, printed, Function.update_self]
      exact listed_nil _
    · simp only [Added.call, printed, Function.update_of_ne here]
      exact (holds.listed k).frame same (fun a member => rfl) fun a member =>
        holds.apart k l here member
  · exact apart_update holds.apart fun k _ => List.disjoint_nil_left _
  · have left : block ∈ s.heap.live.diff ((cells l).flatMap (blocks s.heap)) ↔
        block ∈ s.heap.live ∧ block ∉ (cells l).flatMap (blocks s.heap) := holds.once.mem_sdiff_iff
    refine left.trans ?_
    rw [holds.live block, List.mem_flatMap]
    constructor
    · rintro ⟨⟨a, used, part⟩, out⟩
      refine ⟨a, used_update.mpr (.inr ?_), part⟩
      exact ((used_split l).mp used).resolve_left fun member => out ⟨a, member, part⟩
    · rintro ⟨a, used, part⟩
      obtain ⟨k, other, member⟩ := (used_update.mp used).resolve_left List.not_mem_nil
      refine ⟨⟨a, ⟨k, member⟩, part⟩, ?_⟩
      rintro ⟨b, inList, part'⟩
      rw [← owner_blocks part, owner_blocks part'] at member
      exact holds.apart k l other member inList
  · exact congrArg (· ++ recordText isjson precom (added.fields l)) holds.text

/-! ## Runs -/

theorem Holds.step {s : ListState R} {added : Added R} {cells : Nat → List Nat}
    (holds : Holds s added cells) (malloc : Allocator) (op : Call R) :
    ∃ next cells', call malloc s op = some next ∧ Holds next (added.call op) cells' := by
  cases op with
  | add l name type data copyData =>
    obtain ⟨next, taken, kept⟩ := holds.add malloc l name type data copyData
    exact ⟨next, _, taken, kept⟩
  | extra l m other =>
    obtain ⟨next, taken, kept⟩ := holds.extra malloc l m other
    exact ⟨next, _, taken, kept⟩
  | print l isjson precom =>
    obtain ⟨links, taken, kept⟩ := holds.print malloc l isjson precom
    exact ⟨_, _, taken, kept⟩

theorem Holds.calls {s : ListState R} {added : Added R} {cells : Nat → List Nat}
    (holds : Holds s added cells) (malloc : Allocator) (ops : List (Call R)) :
    ∃ last cells', run (call malloc) s ops = some last ∧
      Holds last (ops.foldl Added.call added) cells' := by
  induction ops generalizing s added cells with
  | nil => exact ⟨s, cells, rfl, holds⟩
  | cons op ops ih =>
    obtain ⟨next, cells', taken, kept⟩ := holds.step malloc op
    obtain ⟨last, cells'', rest, final⟩ := ih kept
    exact ⟨last, cells'', by rw [run, taken]; exact rest, final⟩

theorem Holds.freed_once {s : ListState R} {added : Added R} {cells : Nat → List Nat}
    (holds : Holds s added cells) (l : Nat) :
    ((cells l).flatMap (blocks s.heap)).Nodup := by
  refine List.nodup_flatMap.mpr ⟨fun a member => ?_, ?_⟩
  · unfold blocks
    cases s.heap.content a with
    | none => exact List.nodup_nil
    | some content => exact blocks_nodup content a
  · refine (holds.listed l).distinct.imp fun {a b} other block part part' => other ?_
    rw [← owner_blocks part, owner_blocks part']

/-- However lists were built, joined and printed, printing one more gives its fields in the
order of their addition and frees all that its nodes hold, each block once. -/
theorem lists_printed (malloc : Allocator) (ops : List (Call R)) (l : Nat) (isjson precom : Bool) :
    let added := ops.foldl Added.call Added.empty
    ∃ s next, ∃ nodes : List Nat, run (call malloc) ListState.empty ops = some s ∧
      s.io.text = added.text ∧
      call malloc s (.print l isjson precom) = some next ∧
      next.io.text = added.text ++ recordText isjson precom (added.fields l) ∧ next.root l = none ∧
      nodes.map (fieldAt s.heap) = (added.fields l).map some ∧
      next.heap.freed = s.heap.freed ++ nodes.flatMap (blocks s.heap) ∧
      (nodes.flatMap (blocks s.heap)).Nodup ∧
        (∀ block ∈ nodes.flatMap (blocks s.heap), block ∈ s.heap.live) ∧
      (∀ block, block ∈ next.heap.live ↔
        block ∈ s.heap.live ∧ block ∉ nodes.flatMap (blocks s.heap)) ∧
      ((∀ m, m ≠ l → added.fields m = []) → next.heap.live = []) := by
  intro added
  obtain ⟨s, cells, ran, holds⟩ := holds_empty.calls malloc ops
  obtain ⟨links, taken, final⟩ := holds.print malloc l isjson precom
  refine ⟨s, _, cells l, ran, holds.text, taken, final.text, Function.update_self ..,
    (holds.listed l).contents, rfl,
    holds.freed_once l, fun block member => ?_, fun block => holds.once.mem_sdiff_iff,
    fun alone => ?_⟩
  · obtain ⟨a, inList, part⟩ := List.mem_flatMap.mp member
    exact (holds.live block).mpr ⟨a, ⟨l, inList⟩, part⟩
  · refine List.eq_nil_iff_forall_not_mem.mpr fun block member => ?_
    obtain ⟨a, ⟨k, inList⟩, _⟩ := (final.live block).mp member
    have empty : (added.call (.print l isjson precom)).fields k = [] := by
      by_cases here : k = l
      · rw [here]
        exact Function.update_self ..
      · exact (Function.update_of_ne here ..).trans (alone k here)
    have contents := (final.listed k).contents
    rw [empty, List.map_nil, List.map_eq_nil_iff] at contents
    rw [contents] at inList
    cases inList

example : (run (call .above) (ListState.empty : ListState ℚ)
    [.add 0 (ascii "A") .int (some (5 : Int32)) true,
      .add 1 (ascii "B") .hex32 (some (48879 : UInt32)) true,
      .extra 0 1 Nat.zero_ne_one, .add 0 (ascii "C") .string none true, .print 0 false false]).map
        (fun s => s.io.text) =
    some (ascii "A=5,B=0x0000beef,C=(null)|") := by decide +kernel

/-! ## The replies -/

theorem fieldsText_intercalate (isjson : Bool) (fields : List (ApiData R)) :
    fieldsText isjson fields = List.intercalate [comma] (fields.map (fieldText isjson)) := by
  induction fields with
  | nil => rfl
  | cons field fields ih =>
    cases fields with
    | nil => simp [fieldsText]
    | cons next fields =>
      rw [List.map_cons, List.map_cons, List.intercalate_cons_cons, ← List.map_cons, ← ih,
        fieldsText, List.append_assoc]
      rfl

/-- What the commands take print_data for, with the fields of a list as one value, is what it
does with the nodes. -/
theorem reply_of_list (malloc : Allocator) (ops : List (Call R)) (l : Nat) (isjson precom : Bool) :
    ∃ s next, run (call malloc) ListState.empty ops = some s ∧
      call malloc s (.print l isjson precom) = some next ∧
      next.io = Source.ApiReply.printData s.io ((ops.foldl Added.call Added.empty).fields l)
        isjson precom := by
  obtain ⟨s, cells, ran, holds⟩ := holds_empty.calls malloc ops
  obtain ⟨links, taken, _⟩ := holds.print malloc l isjson precom
  refine ⟨s, _, ran, taken, ?_⟩
  rw [Source.ApiReply.printData, fieldsText_intercalate]
  rfl

end CgminerT4.Guarantees.ApiLists
