import CgminerT4.Library.ByteString

/-!
# Strings at the front of a block of memory

A block is the list of its bytes. A string is copied into it together with its
terminator, at the end of the text that the block already holds, and realloc keeps
what there was and leaves the rest to the allocator.
-/
namespace CgminerT4.Library.StringBuffer
open ByteString

/-- A C string without its terminator. -/
structure CText where
  bytes : Bytes
  plain : 0 ∉ bytes
  deriving DecidableEq

/-- `fresh` is what memory holds that nothing was written to. -/
def realloc (fresh : Nat → UInt8) (mem : Bytes) (size : Nat) : Bytes :=
  mem.take size ++ (List.range' mem.length (size - mem.length)).map fresh

theorem length_realloc (fresh : Nat → UInt8) (mem : Bytes) (size : Nat) :
    (realloc fresh mem size).length = size := by
  rw [realloc, List.length_append, List.length_take, List.length_map, List.length_range']
  omega

/-- A block that grows keeps its bytes. -/
theorem realloc_of_le (fresh : Nat → UInt8) (mem : Bytes) (size : Nat) (grows : mem.length ≤ size) :
    ∃ spare, realloc fresh mem size = mem ++ spare := by
  rw [realloc, List.take_of_length_le grows]
  exact ⟨_, rfl⟩

/-- The block holds the text with its terminator. -/
structure HoldsText (mem text : Bytes) : Prop where
  plain : 0 ∉ text
  layout : ∃ spare, mem = text ++ 0 :: spare

theorem HoldsText.string {mem text : Bytes} (holds : HoldsText mem text) : cString mem = text := by
  obtain ⟨plain, spare, rfl⟩ := holds
  exact cString_layout text spare plain

theorem HoldsText.front {mem text : Bytes} (holds : HoldsText mem text) :
    mem.take text.length = text := by
  obtain ⟨_, spare, rfl⟩ := holds
  exact List.take_left

theorem HoldsText.room {mem text : Bytes} (holds : HoldsText mem text) :
    text.length < mem.length := by
  obtain ⟨_, spare, rfl⟩ := holds
  rw [List.length_append, List.length_cons]
  omega

theorem HoldsText.append {mem text : Bytes} (holds : HoldsText mem text) (spare : Bytes) :
    HoldsText (mem ++ spare) text := by
  obtain ⟨plain, rest, rfl⟩ := holds
  exact ⟨plain, rest ++ spare, by rw [List.append_assoc, List.cons_append]⟩

theorem HoldsText.realloc {mem text : Bytes} (holds : HoldsText mem text) (fresh : Nat → UInt8)
    (size : Nat) (grows : mem.length ≤ size) : HoldsText (realloc fresh mem size) text := by
  obtain ⟨spare, kept⟩ := realloc_of_le fresh mem size grows
  rw [kept]
  exact holds.append spare

/-- The copy of a string, terminator included, to the end of a text. -/
theorem blit_string (mem text : Bytes) (s : CText) (plain : 0 ∉ text)
    (front : mem.take text.length = text) (room : text.length + s.bytes.length < mem.length) :
    ∃ next, blit mem text.length (s.bytes ++ [0]) = some next ∧ HoldsText next (text ++ s.bytes) ∧
      next.length = mem.length := by
  have fits : text.length + (s.bytes ++ [0]).length ≤ mem.length := by
    rw [List.length_append, List.length_singleton]
    omega
  refine ⟨overwrite mem text.length (s.bytes ++ [0]), if_pos fits, ⟨?_, ?_⟩,
    length_overwrite mem _ _ fits⟩
  · rw [List.mem_append]
    exact fun member => member.elim plain s.plain
  · refine ⟨mem.drop (text.length + (s.bytes ++ [0]).length), ?_⟩
    rw [overwrite, front]
    simp only [List.append_assoc, List.cons_append, List.nil_append]

/-- strcat into a block that has room. -/
theorem HoldsText.concat {mem text : Bytes} (holds : HoldsText mem text) (s : CText)
    (room : text.length + s.bytes.length < mem.length) :
    ∃ next, blit mem (cString mem).length (s.bytes ++ [0]) = some next ∧
      HoldsText next (text ++ s.bytes) ∧
      next.length = mem.length := by
  rw [holds.string]
  exact blit_string mem text s holds.plain holds.front room

end CgminerT4.Library.StringBuffer
