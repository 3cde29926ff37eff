import CgminerT4.Library.LinkedRing
import CgminerT4.Source.ApiReply
import Mathlib.Order.Lattice

/-!
# Lists of api_data (api.c)

The fields of a record are nodes of a circular list on the heap: `api_add_data_full`
puts one before the root, `api_add_extra` puts a whole list there, and `print_data`
prints and frees the nodes from the root on. A step that reads, writes or frees a
block that is not allocated fails.
-/
namespace CgminerT4.Source.ApiList
open Library.ByteString Library.DoublyLinked
open Library.JsonText (comma openBrace closeBrace)
open ApiReply (ApiData Datum Floating Timeval Io fieldText nullstr separator ioAdd ioReinit)

/-- enum api_data_type -/
inductive ApiDataType where
  | escape
  | string
  | const
  | uint8
  | int16
  | uint16
  | int
  | uint
  | uint32
  | hex32
  | uint64
  | int64
  | double
  | elapsed
  | bool
  | timeval
  | time
  | mhs
  | mhtotal
  | temp
  | utility
  | freq
  | volts
  | hs
  | diff
  | percent
  | avg
  deriving DecidableEq

/-- What the data of each type points to. -/
def ApiDataType.Pointee (R : Type) : ApiDataType → Type
  | .escape | .string | .const => Bytes
  | .uint8 => UInt8
  | .int16 => Int16
  | .uint16 => UInt16
  | .int => Int32
  | .uint | .uint32 | .hex32 => UInt32
  | .uint64 | .time => UInt64
  | .int64 => Int64
  | .bool => Bool
  | .timeval => Timeval
  | .double | .elapsed | .mhs | .mhtotal | .temp | .utility | .freq | .volts | .hs | .diff | .percent | .avg => R

/-- The conversion 0x%08x. -/
def hex32Text (data : UInt32) : Bytes :=
  let digits := (Nat.toDigits 16 data.toNat).map fun digit => digit.toNat.toUInt8
  ascii "0x" ++ List.replicate (8 - digits.length) 0x30 ++ digits

/-- The switch of print_data: the conversion of each type. -/
def datum {R : Type} [Floating R] : (type : ApiDataType) → type.Pointee R → Datum R
  | .escape, data => .escape (some data)
  | .string, data => .string (some data)
  | .const, data => .string (some data)
  | .uint8, (data : UInt8) => .integer data.toNat
  | .int16, (data : Int16) => .integer data.toInt
  | .uint16, (data : UInt16) => .integer data.toNat
  | .int, (data : Int32) => .integer data.toInt
  | .uint, (data : UInt32) => .integer data.toNat
  | .uint32, (data : UInt32) => .integer data.toNat
  | .hex32, data => .string (some (hex32Text data))
  | .uint64, (data : UInt64) => .integer data.toNat
  | .int64, (data : Int64) => .integer data.toInt
  | .time, (data : UInt64) => .integer data.toNat
  | .double, data => .fixed 6 data
  | .elapsed, data => .fixed 0 data
  | .utility, data => .fixed 2 data
  | .freq, data => .fixed 2 data
  | .mhs, data => .fixed 2 data
  | .volts, data => .fixed 3 data
  | .avg, data => .fixed 3 data
  | .mhtotal, data => .fixed 4 data
  | .hs, data => .fixed 15 data
  | .diff, data => .fixed 8 data
  | .bool, data => .bool data
  | .timeval, data => .timeval data
  | .temp, data => .fixed 2 data
  | .percent, data => .fixed 4 (Floating.mul data (Floating.ofInt 100))

/-! ## The heap -/

/-- What is allocated for a node: itself, its name and a copy of its data. -/
inductive Block where
  | node (a : Nat)
  | name (a : Nat)
  | data (a : Nat)
  deriving DecidableEq

/-- struct api_data, but its links. -/
structure Content (R : Type) where
  type : ApiDataType
  name : Bytes
  data : type.Pointee R
  dataWasMalloc : Bool

def Content.field {R : Type} [Floating R] (content : Content R) : ApiData R :=
  ⟨content.name, datum content.type content.data⟩

structure Heap (R : Type) where
  live : List Block
  freed : List Block
  links : Links Nat
  content : Nat → Option (Content R)

/-- The address of a new node is that of no other one. -/
structure Allocator where
  address : List Block → Nat
  fresh : ∀ live, Block.node (address live) ∉ live

def nodeEnd : Block → Nat
  | .node a => a + 1
  | .name _ => 0
  | .data _ => 0

/-- Each node above all that are allocated. -/
def Allocator.above : Allocator where
  address live := (live.map nodeEnd).foldr max 0
  fresh live := by
    have bound : ∀ a, Block.node a ∈ live → a < (live.map nodeEnd).foldr max 0 := by
      intro a member
      induction live with
      | nil => cases member
      | cons block live ih =>
        rw [List.map_cons, List.foldr_cons, lt_max_iff]
        obtain same | later := List.mem_cons.mp member
        · rw [← same]
          exact .inl (Nat.lt_succ_self a)
        · exact .inr (ih later)
    exact fun member => Nat.lt_irrefl _ (bound _ member)

variable {R : Type}

def Heap.empty : Heap R := ⟨[], [], ⟨fun _ => none, fun _ => none⟩, fun _ => none⟩

def Heap.cgmalloc (heap : Heap R) (block : Block) : Heap R :=
  { heap with live := block :: heap.live }

def Heap.free (heap : Heap R) (block : Block) : Option (Heap R) :=
  if block ∈ heap.live then
    some { heap with live := heap.live.erase block, freed := heap.freed ++ [block] } else none

def Heap.prev (heap : Heap R) (a : Nat) : Option Nat :=
  if .node a ∈ heap.live then heap.links.prev a else none

def Heap.next (heap : Heap R) (a : Nat) : Option Nat :=
  if .node a ∈ heap.live then heap.links.next a else none

def Heap.setPrev (heap : Heap R) (a value : Nat) : Option (Heap R) :=
  if .node a ∈ heap.live then
    some { heap with links := heap.links.setPrev a (some value) } else none

def Heap.setNext (heap : Heap R) (a value : Nat) : Option (Heap R) :=
  if .node a ∈ heap.live then
    some { heap with links := heap.links.setNext a (some value) } else none

def Heap.write (heap : Heap R) (a : Nat) (content : Content R) : Option (Heap R) :=
  if .node a ∈ heap.live then
    some { heap with content := Function.update heap.content a (some content) } else none

def Content.parts (content : Content R) (a : Nat) : List Block :=
  if content.dataWasMalloc then [.name a, .data a] else [.name a]

/-- The blocks of a node, in the order in which print_data frees them. -/
def Content.blocks (content : Content R) (a : Nat) : List Block := content.parts a ++ [.node a]

/-- A node with its name and its data. -/
def Heap.read (heap : Heap R) (a : Nat) : Option (Content R) := do
  let content ← heap.content a
  if ∀ block ∈ content.blocks a, block ∈ heap.live then some content else none

/-! ## The functions -/

def apiAddExtra (heap : Heap R) (root extra : Option Nat) : Option (Heap R × Option Nat) :=
  match root, extra with
  | none, _ => some (heap, extra)
  | some root, none => some (heap, some root)
  | some root, some extra => do
    let tmp ← heap.prev extra
    let tail ← heap.prev root
    let heap ← heap.setPrev extra tail
    let tail ← heap.prev root
    let heap ← heap.setNext tail extra
    let heap ← heap.setNext tmp root
    let heap ← heap.setPrev root tmp
    some (heap, some root)

/-- The links of a new node. -/
def insertNode (heap : Heap R) (root : Option Nat) (apiData : Nat) : Option (Heap R × Nat) :=
  match root with
  | none => do
    let heap ← heap.setPrev apiData apiData
    let heap ← heap.setNext apiData apiData
    some (heap, apiData)
  | some root => do
    let tail ← heap.prev root
    let heap ← heap.setPrev apiData tail
    let heap ← heap.setPrev root apiData
    let heap ← heap.setNext apiData root
    let tail ← heap.prev apiData
    let heap ← heap.setNext tail apiData
    some (heap, root)

/-- `api_add_escape` to `api_add_avg` are this function, each with its type. -/
def apiAddDataFull (malloc : Allocator) (heap : Heap R) (root : Option Nat) (name : Bytes)
    (type : ApiDataType) (data : Option (type.Pointee R)) (copyData : Bool) :
    Option (Heap R × Nat) := do
  let apiData := malloc.address heap.live
  let (heap, root) ← insertNode ((heap.cgmalloc (.node apiData)).cgmalloc (.name apiData))
    root apiData
  match data with
  | none =>
    let heap ← heap.write apiData ⟨.const, name, nullstr, false⟩
    some (heap, root)
  | some data =>
    let heap := if copyData then heap.cgmalloc (.data apiData) else heap
    let heap ← heap.write apiData ⟨type, name, data, copyData⟩
    some (heap, root)

def freeData (heap : Heap R) (root : Nat) (content : Content R) : Option (Heap R) :=
  if content.dataWasMalloc then heap.free (.data root) else some heap

/-- One turn of the loop behind the text of a node: the new root. -/
def freeNode (heap : Heap R) (root : Nat) (content : Content R) : Option (Heap R × Option Nat) := do
  let heap ← heap.free (.name root)
  let heap ← freeData heap root content
  let next ← heap.next root
  if next = root then
    let heap ← heap.free (.node root)
    some (heap, none)
  else
    let tmp := root
    let root := next
    let tail ← heap.prev tmp
    let heap ← heap.setPrev root tail
    let tail ← heap.prev root
    let heap ← heap.setNext tail root
    let heap ← heap.free (.node tmp)
    some (heap, some root)

variable [Floating R]

/-- The loop of print_data; each turn frees a node. -/
def printNodes (isjson : Bool) : Nat → Heap R → Option Nat → Bool → Bytes → Option (Heap R × Bytes)
  | _, heap, none, _, item => some (heap, item)
  | 0, _, some _, _, _ => none
  | turns + 1, heap, some root, first, item => do
    let content ← heap.read root
    let item := item ++ (if first then [] else [comma]) ++ fieldText isjson content.field
    let (heap, root) ← freeNode heap root content
    printNodes isjson turns heap root false item

def printData (heap : Heap R) (io : Io) (root : Option Nat) (isjson precom : Bool) :
    Option (Heap R × Io) := do
  let item := (if precom then [comma] else []) ++ if isjson then [openBrace] else []
  let (heap, item) ← printNodes isjson heap.live.length heap root true item
  some (heap, ioAdd io (item ++ [if isjson then closeBrace else separator]))

/-! ## Lists in use -/

/-- The calls on the lists of any number of variables. -/
inductive Call (R : Type) where
  | add (l : Nat) (name : Bytes) (type : ApiDataType) (data : Option (type.Pointee R))
    (copyData : Bool)
  | extra (l m : Nat) (other : l ≠ m)
  | print (l : Nat) (isjson precom : Bool)

structure ListState (R : Type) where
  heap : Heap R
  root : Nat → Option Nat
  io : Io

def ListState.empty : ListState R := ⟨Heap.empty, fun _ => none, ioReinit⟩

/-- A list that went into another is in no variable of its own any more. -/
def call (malloc : Allocator) (s : ListState R) : Call R → Option (ListState R)
  | .add l name type data copyData => do
    let (heap, root) ← apiAddDataFull malloc s.heap (s.root l) name type data copyData
    some { s with heap := heap, root := Function.update s.root l (some root) }
  | .extra l m _ => do
    let (heap, root) ← apiAddExtra s.heap (s.root l) (s.root m)
    some { s with heap := heap, root := Function.update (Function.update s.root m none) l root }
  | .print l isjson precom => do
    let (heap, io) ← printData s.heap s.io (s.root l) isjson precom
    some ⟨heap, Function.update s.root l none, io⟩

end CgminerT4.Source.ApiList
