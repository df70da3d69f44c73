import Std.Data.HashMap
import KernelMemory.Entry

/-!
# Physical memory

Memory is a map from frames to their 512 words; a frame that was never written reads as zero.  Page
tables, the frame bitmap and everything else live in this one map.  Code reaches memory through a
`Window`: the address at which physical address zero appears, and possibly a number of frames
beyond which nothing is shown.

* `Memory.word`, `Memory.setWord`, `Memory.clear` — one word of a frame, and a whole frame.
* **`word_setWord`**, **`word_clear`** — a write is seen at its own place and nowhere else.
* `Memory.readEntry` — a word as a page-table entry, through the window.
-/

namespace KernelMemory

/-! ## The window onto memory -/

/-- How running code reaches physical memory. -/
structure Window where
  /-- The address at which physical address zero appears. -/
  offset : UInt64
  /-- The number of frames that are shown, if there is a limit. -/
  frames? : Option Nat := none
deriving DecidableEq, Repr

namespace Window

/-- Where a byte of physical memory appears; addresses wrap around. -/
def address (w : Window) (pa : PhysAddr) : VirtAddr :=
  ⟨w.offset + pa.value⟩

/-- Where a byte of physical memory appears, if the window shows it. -/
def pointer (w : Window) (pa : PhysAddr) : Except Panic VirtAddr :=
  match w.frames? with
  | some n =>
    if pa.value.toNat < n * pageSize then .ok (w.address pa) else .error (.outsideMemory pa n)
  | none => .ok (w.address pa)

/-- The offset, in decimal. -/
def debugText (w : Window) : String :=
  "HhdmPhysMapper \x7b offset: " ++ toString w.offset ++ " \x7d"

end Window

/-! ## The contents of memory -/

/-- The contents of one frame. -/
abbrev FrameWords : Type := Vector UInt64 tableEntries

/-- A frame of zeros. -/
def FrameWords.blank : FrameWords :=
  .replicate tableEntries 0

/-- One place in physical memory that holds a word: a slot of a page table, if the frame is one. -/
@[ext] structure Slot where
  table : Frame
  index : Index
deriving DecidableEq, Repr

/-- Physical memory and the window through which it is reached. -/
structure Memory where
  window : Window
  contents : Std.HashMap Frame FrameWords := ∅

namespace Memory

variable {m : Memory} {s t : Slot} {f g : Frame} {w : UInt64}

/-- Memory of the given number of frames, all zero, at an address that is never null. -/
def ofFrames (frames : Nat) : Except Panic Memory := do
  if frames = 0 then throw .emptyMemory
  let _ ← Checked.mul frames pageSize
  return { window := { offset := UInt64.ofNat pageSize, frames? := some frames } }

/-- The words of a frame. -/
def words (m : Memory) (f : Frame) : FrameWords :=
  m.contents.getD f .blank

/-- One word. -/
def word (m : Memory) (s : Slot) : UInt64 :=
  (m.words s.table)[s.index]

/-- Replaces one word. -/
def setWord (m : Memory) (s : Slot) (w : UInt64) : Memory :=
  { m with contents := m.contents.alter s.table fun old => some ((old.getD .blank).set s.index w) }

/-- Fills a frame with zeros. -/
def clear (m : Memory) (f : Frame) : Memory :=
  { m with contents := m.contents.erase f }

@[simp] theorem word_blank {window : Window} : Memory.word { window } s = 0 := by
  simp [word, words, FrameWords.blank]

theorem word_setWord : (m.setWord s w).word t = if s = t then w else m.word t := by
  simp only [word, words, setWord, Std.HashMap.getD_alter]
  by_cases h : s.table = t.table
  · simp only [h, beq_self_eq_true, if_true, Option.getD_some, Slot.ext_iff, true_and]
    by_cases hi : s.index = t.index
    · simp [hi]
    · have : s.index.val ≠ t.index.val := fun hv => hi (Fin.ext hv)
      simp [hi, this, Std.HashMap.getD_eq_getD_getElem?]
  · simp [h, Slot.ext_iff]

theorem word_clear : (m.clear f).word t = if f = t.table then 0 else m.word t := by
  simp only [word, words, clear, Std.HashMap.getD_erase]
  by_cases h : f = t.table <;> simp [h, FrameWords.blank]

@[simp] theorem window_setWord : (m.setWord s w).window = m.window := rfl

@[simp] theorem window_clear : (m.clear f).window = m.window := rfl

/-! ### Words as page-table entries -/

/-- The entry in a slot. -/
def entry (m : Memory) (s : Slot) : Entry :=
  .ofWord (m.word s)

/-- Replaces the entry in a slot. -/
def setEntry (m : Memory) (s : Slot) (e : Entry) : Memory :=
  m.setWord s e.toWord

theorem entry_setEntry {e : Entry} : (m.setEntry s e).entry t = if s = t then e else m.entry t := by
  simp only [entry, setEntry, word_setWord]
  split <;> simp

theorem entry_clear : (m.clear f).entry t = if f = t.table then .absent else m.entry t := by
  simp only [entry, word_clear]
  split
  · decide
  · rfl

@[simp] theorem window_setEntry {e : Entry} : (m.setEntry s e).window = m.window := rfl

/-- The check that the window shows a frame, made before the frame is used. -/
def touch (m : Memory) (f : Frame) : Except Panic Unit :=
  discard (m.window.pointer f.base)

/-- The entry in a slot of a table, if the window shows the table. -/
def readEntry (m : Memory) (s : Slot) : Except Panic Entry := do
  m.touch s.table
  return m.entry s

/-! ### Bytes, and words at any address -/

/-- The slot that holds the byte at an address. -/
def slotOf (address : Nat) : Slot where
  table := .ofNumber (address / pageSize)
  index := ⟨address / 8 % tableEntries, Nat.mod_lt _ (by decide)⟩

/-- The byte at an address; a word has its lowest byte first. -/
def byte (m : Memory) (address : Nat) : Nat :=
  (m.word (slotOf address)).toNat / 256 ^ (address % 8) % 256

/-- Replaces the byte at an address. -/
def setByte (m : Memory) (address value : Nat) : Memory :=
  let old := (m.word (slotOf address)).toNat
  let place := 256 ^ (address % 8)
  m.setWord (slotOf address) (UInt64.ofNat (old - old / place % 256 * place + value % 256 * place))

/-- The word at an address, aligned or not. -/
def read (m : Memory) (pa : PhysAddr) : UInt64 :=
  UInt64.ofNat ((List.range 8).foldr (fun k n => m.byte (pa.value.toNat + k) * 256 ^ k + n) 0)

/-- Replaces the word at an address, aligned or not. -/
def write (m : Memory) (pa : PhysAddr) (value : UInt64) : Memory :=
  (List.range 8).foldl (fun m k => m.setByte (pa.value.toNat + k) (value.toNat / 256 ^ k)) m

end Memory

end KernelMemory
