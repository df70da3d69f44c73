import KernelMemory.Store

/-!
# Page tables

A table of height zero maps single pages; a table of height `h + 1` links tables of height `h` or
maps large pages.  `TableFrame` carries the height in its type, so that following a link can only go
one level down.  `PageTable` is the content of a table on its own, away from memory.
-/

namespace KernelMemory

/-- The height of root tables. -/
abbrev rootHeight : Nat := 3

/-- The name of the tables of a height, counted from one. -/
def tableName (height : Nat) : String :=
  s!"L{height + 1}"

/-- A frame that holds a table of the given height. -/
@[ext] structure TableFrame (height : Nat) where
  frame : Frame
deriving DecidableEq, Repr

namespace TableFrame

variable {height : Nat}

/-- The table that an entry of a table links, if it links one. -/
def child? (_ : TableFrame (height + 1)) (e : Entry) : Option (TableFrame height) :=
  if e.isTable then some ⟨e.frame⟩ else none

/-- The slot that an address selects. -/
def slot (t : TableFrame height) (va : VirtAddr) : Slot :=
  ⟨t.frame, va.index height⟩

/-- The name of the level and the first address of the frame. -/
def debugText (t : TableFrame height) : String :=
  tableName height ++ "@" ++ Hex.upper t.frame.base.value.toNat

end TableFrame

/-! ## Contents of a table -/

/-- The entries of a table. -/
structure PageTable where
  entries : Vector Entry tableEntries := .replicate tableEntries .absent

namespace PageTable

/-- The table that a frame holds. -/
def ofWords (words : FrameWords) : PageTable :=
  ⟨words.map .ofWord⟩

/-- The entry at a position. -/
def get (t : PageTable) (i : Nat) : Except Panic Entry :=
  if h : i < tableEntries then .ok t.entries[i] else .error (.indexOutOfBounds tableEntries i)

/-- The table with the entry at a position replaced. -/
def set (t : PageTable) (i : Nat) (e : Entry) : Except Panic PageTable :=
  if h : i < tableEntries then .ok ⟨t.entries.set i e⟩
  else .error (.indexOutOfBounds tableEntries i)

/-- How many entries are present. -/
def presentCount (t : PageTable) : Nat :=
  t.entries.toList.countP fun e => e.present

/-- The entries that are not absent, with their positions. -/
def used (t : PageTable) : List (Nat × Entry) :=
  (t.entries.toList.zipIdx.map fun (e, i) => (i, e)).filter fun (_, e) => e != .absent

end PageTable

end KernelMemory
