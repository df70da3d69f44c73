import KernelMemory.BitField

/-!
# Page-table entries

An `Entry` is the content of one slot of a page table, as a record of its fields; `Entry.toWord`
and `Entry.ofWord` pack it into the 64-bit word that memory holds.  Beside the bits that the
processor knows, an entry carries two of the kernel's own, in bits the processor ignores: whether
the kernel owns the table that the entry links, and how many present entries that table has.

* **`ofWord_toWord`** and **`toWord_ofWord`** — packing loses nothing in either direction, so the
  fields of a word do not overlap and every word is an entry.
* `Entry.leaf` — a page mapping, from which the caller's flags cannot reach the kernel's fields.
* `Entry.ownedTable` — a link to a table; a frame beyond forty bits panics rather than spill into
  the neighbouring counter.
-/

namespace KernelMemory

/-! ## Flags -/

/-- The bits of an entry that the processor gives a meaning to, other than the frame. -/
inductive Flag where
  /-- The processor uses the entry. -/
  | present
  /-- Writes are allowed. -/
  | writable
  /-- User mode may use the page. -/
  | user
  /-- Writes go through the cache. -/
  | writeThrough
  /-- The cache is not used. -/
  | noCache
  /-- The processor has used the entry. -/
  | accessed
  /-- The processor has written through the entry. -/
  | dirty
  /-- The entry maps a large page instead of linking a table. -/
  | huge
  /-- What is remembered of the entry survives a change of root. -/
  | global
  /-- Instructions may not be fetched. -/
  | noExecute
deriving DecidableEq, Repr

namespace Flag

/-- Every flag, lowest bit first. -/
def all : List Flag :=
  [present, writable, user, writeThrough, noCache, accessed, dirty, huge, global, noExecute]

/-- The bit of an entry that holds the flag. -/
def bit : Flag → Nat
  | present => 0
  | writable => 1
  | user => 2
  | writeThrough => 3
  | noCache => 4
  | accessed => 5
  | dirty => 6
  | huge => 7
  | global => 8
  | noExecute => 63

/-- The name of the flag in text. -/
def name : Flag → String
  | present => "present"
  | writable => "writable"
  | user => "user"
  | writeThrough => "write_through"
  | noCache => "no_cache"
  | accessed => "accessed"
  | dirty => "dirty"
  | huge => "huge"
  | global => "global"
  | noExecute => "no_execute"

end Flag

/-- A set of flags as a caller gives it: a raw word in which other bits may be set too. -/
@[ext] structure Flags where
  bits : UInt64
deriving DecidableEq, Repr

namespace Flags

/-- The bits that are flags. -/
def archBits : UInt64 := 0x80000000000001FF

/-- The set with one member. -/
def only (f : Flag) : Flags :=
  ⟨UInt64.ofNat (2 ^ f.bit)⟩

/-- Membership of one flag. -/
def has (flags : Flags) (f : Flag) : Bool :=
  flags.bits.toNat.testBit f.bit

/-- The union, of the other bits too. -/
instance : OrOp Flags where
  or a b := ⟨a.bits ||| b.bits⟩

/-- Whether every bit of `b` is set in `a`. -/
def contains (a b : Flags) : Bool :=
  a.bits &&& b.bits == b.bits

/-- Drops all bits that are not flags. -/
def truncate (flags : Flags) : Flags :=
  ⟨flags.bits &&& archBits⟩

/-- The flags by name. -/
def layout : BitLayout where
  name := "PageFlags"
  fields := Flag.all.map fun f => { name := f.name, offset := f.bit }

/-- The flags with their truth values. -/
def debugText (flags : Flags) : String :=
  layout.debugText flags.bits

end Flags

/-! ## Entries -/

/-- The content of one slot of a page table. -/
@[ext] structure Entry where
  present : Bool := false
  writable : Bool := false
  user : Bool := false
  writeThrough : Bool := false
  cacheDisabled : Bool := false
  accessed : Bool := false
  dirty : Bool := false
  /-- The entry maps a large page instead of linking a table. -/
  huge : Bool := false
  global : Bool := false
  /-- The kernel allocated the linked table and gives it back once it is empty. -/
  owned : Bool := false
  /-- Two bits without a meaning. -/
  available : Fin 4 := ⟨0, by decide⟩
  /-- The number of the frame that the entry maps or links. -/
  frameNumber : Fin (2 ^ 40) := ⟨0, by decide⟩
  /-- The number of present entries in the linked table, if the table is owned. -/
  liveChildren : Fin 2048 := ⟨0, by decide⟩
  noExecute : Bool := false
deriving DecidableEq, Repr

namespace Entry

/-- The entry of an unused slot. -/
def absent : Entry := {}

/-- The frame that the entry maps or links. -/
def frame (e : Entry) : Frame :=
  ⟨e.frameNumber, by have := e.frameNumber.isLt; omega⟩

/-- Whether the entry links a table. -/
def isTable (e : Entry) : Bool :=
  e.present && !e.huge

/-- A link to a table that the kernel has just allocated. -/
def ownedTable (table : Frame) : Except Panic Entry :=
  if h : table.number < 2 ^ 40 then
    .ok { present := true, writable := true, owned := true, frameNumber := ⟨table.number, h⟩ }
  else .error (.valueOutOfBounds (2 ^ 40 - 1))

/-- A mapping of one page to a frame.  Of the caller's flags all but `huge` are taken over, and the
entry is present whatever they say; other bits that the caller may have set are dropped. -/
def leaf (frame : Frame) (flags : Flags) : Except Panic Entry :=
  if h : frame.number < 2 ^ 40 then
    .ok {
      present := true
      writable := flags.has .writable
      user := flags.has .user
      writeThrough := flags.has .writeThrough
      cacheDisabled := flags.has .noCache
      accessed := flags.has .accessed
      dirty := flags.has .dirty
      global := flags.has .global
      noExecute := flags.has .noExecute
      frameNumber := ⟨frame.number, h⟩ }
  else .error (.valueOutOfBounds (2 ^ 40 - 1))

/-- The same entry as seen by a root that shares the linked table without owning it. -/
def borrowed (e : Entry) : Entry :=
  { e with owned := false, liveChildren := 0 }

/-- The entry with another number of live children, if the counter holds it. -/
def withLiveChildren? (e : Entry) (n : Nat) : Option Entry :=
  if h : n < 2048 then some { e with liveChildren := ⟨n, h⟩ } else none

/-- The entry with another number of live children, of which the counter keeps eleven bits. -/
abbrev counting (e : Entry) (n : Nat) : Entry :=
  { e with liveChildren := .ofNat 2048 n }

/-- The entry with other meaningless bits, if there are only two. -/
def withAvailable? (e : Entry) (n : Nat) : Option Entry :=
  if h : n < 4 then some { e with available := ⟨n, h⟩ } else none

/-- The entry with a flag switched on or off. -/
def withFlag (e : Entry) (f : Flag) (on : Bool) : Entry :=
  match f with
  | .present => { e with present := on }
  | .writable => { e with writable := on }
  | .user => { e with user := on }
  | .writeThrough => { e with writeThrough := on }
  | .noCache => { e with cacheDisabled := on }
  | .accessed => { e with accessed := on }
  | .dirty => { e with dirty := on }
  | .huge => { e with huge := on }
  | .global => { e with global := on }
  | .noExecute => { e with noExecute := on }

/-! ### The packed form -/

/-- The number of the word in which the fields stand side by side, lowest first. -/
def toNat (e : Entry) : Nat :=
  e.present.toNat + 2 * e.writable.toNat + 2 ^ 2 * e.user.toNat + 2 ^ 3 * e.writeThrough.toNat
    + 2 ^ 4 * e.cacheDisabled.toNat + 2 ^ 5 * e.accessed.toNat + 2 ^ 6 * e.dirty.toNat
    + 2 ^ 7 * e.huge.toNat + 2 ^ 8 * e.global.toNat + 2 ^ 9 * e.owned.toNat
    + 2 ^ 10 * e.available + 2 ^ 12 * e.frameNumber + 2 ^ 52 * e.liveChildren
    + 2 ^ 63 * e.noExecute.toNat

/-- The word that memory holds for the entry. -/
def toWord (e : Entry) : UInt64 :=
  UInt64.ofNat e.toNat

/-- The entry that a word of memory stands for. -/
def ofWord (word : UInt64) : Entry where
  present := word.toNat.testBit 0
  writable := word.toNat.testBit 1
  user := word.toNat.testBit 2
  writeThrough := word.toNat.testBit 3
  cacheDisabled := word.toNat.testBit 4
  accessed := word.toNat.testBit 5
  dirty := word.toNat.testBit 6
  huge := word.toNat.testBit 7
  global := word.toNat.testBit 8
  owned := word.toNat.testBit 9
  available := ⟨word.toNat / 2 ^ 10 % 4, Nat.mod_lt _ (by decide)⟩
  frameNumber := ⟨word.toNat / 2 ^ 12 % 2 ^ 40, Nat.mod_lt _ (by decide)⟩
  liveChildren := ⟨word.toNat / 2 ^ 52 % 2048, Nat.mod_lt _ (by decide)⟩
  noExecute := word.toNat.testBit 63

theorem toNat_lt (e : Entry) : e.toNat < 2 ^ 64 := by
  have := e.present.toNat_le; have := e.writable.toNat_le; have := e.user.toNat_le
  have := e.writeThrough.toNat_le; have := e.cacheDisabled.toNat_le
  have := e.accessed.toNat_le; have := e.dirty.toNat_le; have := e.huge.toNat_le
  have := e.global.toNat_le; have := e.owned.toNat_le; have := e.noExecute.toNat_le
  have := e.available.isLt; have := e.frameNumber.isLt; have := e.liveChildren.isLt
  simp only [toNat]
  omega

@[simp] theorem toNat_toWord (e : Entry) : e.toWord.toNat = e.toNat := by
  rw [toWord, UInt64.toNat_ofNat', Nat.mod_eq_of_lt e.toNat_lt]

@[simp] theorem ofWord_toWord (e : Entry) : ofWord e.toWord = e := by
  have h1 := e.present.toNat_le; have h2 := e.writable.toNat_le; have h3 := e.user.toNat_le
  have h4 := e.writeThrough.toNat_le; have h5 := e.cacheDisabled.toNat_le
  have h6 := e.accessed.toNat_le; have h7 := e.dirty.toNat_le; have h8 := e.huge.toNat_le
  have h9 := e.global.toNat_le; have h10 := e.owned.toNat_le; have h11 := e.noExecute.toNat_le
  have h12 := e.available.isLt; have h13 := e.frameNumber.isLt; have h14 := e.liveChildren.isLt
  have key (b : Bool) (n k : Nat) (h : n / 2 ^ k % 2 = b.toNat) : n.testBit k = b := by
    rw [Nat.testBit_eq_decide_div_mod_eq, h]
    cases b <;> rfl
  ext
  case available => simp only [ofWord, toNat_toWord, toNat]; omega
  case frameNumber => simp only [ofWord, toNat_toWord, toNat]; omega
  case liveChildren => simp only [ofWord, toNat_toWord, toNat]; omega
  all_goals
    simp only [ofWord, toNat_toWord]
    apply key
    simp only [toNat]
    omega

@[simp] theorem toWord_ofWord (word : UInt64) : (ofWord word).toWord = word := by
  have key (n k : Nat) : (n.testBit k).toNat = n / 2 ^ k % 2 := by
    rw [Nat.testBit_eq_decide_div_mod_eq]
    have := Nat.mod_two_eq_zero_or_one (n / 2 ^ k)
    rcases this with h | h <;> simp [h]
  apply UInt64.toNat.inj
  have := word.toNat_lt
  simp only [toNat_toWord, toNat, ofWord, key]
  omega

/-- The flags of the entry. -/
def flags (e : Entry) : Flags :=
  ⟨e.toWord &&& Flags.archBits⟩

/-! ### The fields by name -/

namespace Field

/-- Bit 0: the processor uses the entry. -/
def present : BitField := { name := "present", offset := 0 }

/-- Bit 1: writes are allowed. -/
def writable : BitField := { name := "writable", offset := 1 }

/-- Bit 2: user mode may use the page. -/
def user : BitField := { name := "user", offset := 2 }

/-- Bit 3: writes go through the cache. -/
def writeThrough : BitField := { name := "write_through", offset := 3 }

/-- Bit 4: the cache is not used. -/
def cacheDisabled : BitField := { name := "cache_disabled", offset := 4 }

/-- Bit 5: the processor has used the entry. -/
def accessed : BitField := { name := "accessed", offset := 5 }

/-- Bit 6: the processor has written through the entry. -/
def dirty : BitField := { name := "dirty", offset := 6 }

/-- Bit 7: the entry maps a large page instead of linking a table. -/
def huge : BitField := { name := "huge", offset := 7 }

/-- Bit 8: what is remembered of the entry survives a change of root. -/
def global : BitField := { name := "global", offset := 8 }

/-- Bit 9: the kernel owns the linked table. -/
def owned : BitField := { name := "owned", offset := 9 }

/-- Bits 10 and 11, without a meaning. -/
def available : BitField := { name := "available", offset := 10, width? := some 2 }

/-- Bits 12 to 51: the number of the frame. -/
def frameNumber : BitField := { name := "frame_number", offset := 12, width? := some 40 }

/-- Bits 52 to 62: the number of present entries in the linked table. -/
def liveChildren : BitField := { name := "live_children", offset := 52, width? := some 11 }

/-- Bit 63: instructions may not be fetched. -/
def noExecute : BitField := { name := "no_execute", offset := 63 }

end Field

/-- The fields of an entry, in the places where `toWord` puts them. -/
def layout : BitLayout where
  name := "PageEntry"
  fields := [Field.present, Field.writable, Field.user, Field.writeThrough, Field.cacheDisabled,
    Field.accessed, Field.dirty, Field.huge, Field.global, Field.owned, Field.available,
    Field.frameNumber, Field.liveChildren, Field.noExecute]

/-- The fields with their values. -/
def debugText (e : Entry) : String :=
  layout.debugText e.toWord

end Entry

end KernelMemory
