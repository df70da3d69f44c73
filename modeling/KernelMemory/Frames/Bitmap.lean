import KernelMemory.Store

/-!
# The frame bitmap

A source of frames that keeps one bit for each frame of physical memory, in the memory it manages:
bit `f` is set when frame `f` is taken.  The bits stand in words of 64, lowest bit first, from the
first frame of a usable region on; the bits of the last word that belong to no frame stay set.

* `Bitmap.place?` — the first usable region with room for the bits, and what is left of it.
* `Bitmap.install` — writes the bits and frees the whole pages of every usable region.
* `Bitmap.allocate` — the lowest free frame, found a word at a time.
* `Bitmap.free` — clears the bit of a frame; it may have been clear, or never have been set.
* `Bitmap.freeBytes` — counted from the bits, not kept beside them.
-/

namespace KernelMemory

/-- The number of bits in a word of the bitmap. -/
abbrev wordBits : Nat := 64

/-- Where the bits are, and how many frames they stand for.  Without a bit no frame is managed. -/
structure Bitmap where
  /-- The frame that holds the first bits. -/
  home : Frame := .ofNumber 0
  words : Nat := 0
  frames : Nat := 0
deriving DecidableEq, Repr

namespace Bitmap

/-! ## The bits in memory -/

/-- The place of a word of the bitmap. -/
def slot (b : Bitmap) (k : Nat) : Slot where
  table := .ofNumber (b.home.number + k / tableEntries)
  index := ⟨k % tableEntries, Nat.mod_lt _ (by decide)⟩

/-- The bits of a word, as a number. -/
def bits (b : Bitmap) (m : Memory) (k : Nat) : Nat :=
  (m.word (b.slot k)).toNat

/-- Whether a bit is set, so that its frame is taken. -/
def taken (b : Bitmap) (m : Memory) (frame : Nat) : Bool :=
  (b.bits m (frame / wordBits)).testBit (frame % wordBits)

/-- Sets the bit of a frame. -/
def take (b : Bitmap) (m : Memory) (frame : Nat) : Memory :=
  let s := b.slot (frame / wordBits)
  m.setWord s (m.word s ||| UInt64.ofNat (2 ^ (frame % wordBits)))

/-- Clears the bit of a frame. -/
def release (b : Bitmap) (m : Memory) (frame : Nat) : Memory :=
  let s := b.slot (frame / wordBits)
  m.setWord s (m.word s &&& ~~~ UInt64.ofNat (2 ^ (frame % wordBits)))

/-- Clears the bits of `count` frames from `first` on, as far as they are managed. -/
def releaseRange (b : Bitmap) (m : Memory) (first count : Nat) : Memory :=
  (List.range (min count (b.frames - first))).foldl (fun m k => b.release m (first + k)) m

/-- Whether there is a bitmap. -/
def isInitialized (b : Bitmap) : Bool :=
  b.words != 0

/-- Whether a frame is managed and free. -/
def isFree (b : Bitmap) (m : Memory) (frame : Frame) : Bool :=
  frame.number < b.frames && !b.taken m frame.number

/-! ## Allocation -/

/-- The position of the lowest clear bit among the `count` lowest bits of a word. -/
def lowestClear? (word : Nat) : (count : Nat) → Option Nat
  | 0 => none
  | count + 1 => if word % 2 = 0 then some 0 else (lowestClear? (word / 2) count).map (· + 1)

theorem lowestClear?_eq_find? (word count : Nat) :
    lowestClear? word count = (List.range count).find? fun i => !word.testBit i := by
  induction count generalizing word with
  | zero => rfl
  | succ count ih =>
    have shifted : (fun i => !word.testBit i) ∘ Nat.succ = fun i => !(word / 2).testBit i := by
      funext i
      rw [Function.comp_apply, Nat.succ_eq_add_one, Nat.testBit_succ]
    rw [lowestClear?, ih, List.range_succ_eq_map, List.find?_cons, List.find?_map, shifted]
    rcases Nat.mod_two_eq_zero_or_one word with h | h
    · simp [h, Nat.testBit_zero]
    · simp [h, Nat.testBit_zero]

/-- The lowest clear bit among `count` words from word `k` on, as the number of its frame. -/
def findFree? (b : Bitmap) (m : Memory) (k : Nat) : (count : Nat) → Option Nat
  | 0 => none
  | count + 1 =>
    match lowestClear? (b.bits m k) wordBits with
    | some i => some (k * wordBits + i)
    | none => b.findFree? m (k + 1) count

/-- The lowest free frame. -/
def lowestFree? (b : Bitmap) (m : Memory) : Option Nat :=
  (b.findFree? m 0 b.words).filter fun frame => frame < b.frames

/-- Takes the lowest free frame. -/
def allocate : Action (Store Bitmap) (Except FrameError Frame) := fun s =>
  if s.source.isInitialized then
    match s.source.lowestFree? s.memory with
    | some frame => .ok (.ok (.ofNumber frame)) { s with memory := s.source.take s.memory frame }
    | none => .ok (.error .outOfMemory) s
  else .ok (.error .uninitialized) s

/-- Gives back the frame that contains an address.  A frame that is not managed is reported and left
alone; one that is free already is reported and stays free. -/
def free (pa : PhysAddr) : Action (Store Bitmap) Unit := do
  let { source := b, memory := m, .. } ← get
  let frame := pa.page.number
  if !b.isInitialized then
    Store.note (.freeWithoutBitmap pa)
  else if b.frames ≤ frame then
    Store.note (.freeBeyondBitmap pa b.frames)
  else
    unless b.taken m frame do
      Store.note (.frameFreedTwice frame)
    modify fun s => { s with memory := b.release s.memory frame }

instance : FrameSource Bitmap where
  alloc := do return (← allocate).toOption
  free f := free f.base

/-! ## Totals -/

/-- The number of set bits among the `count` lowest bits of a word. -/
def onesCount (word : Nat) : (count : Nat) → Nat
  | 0 => 0
  | count + 1 => word % 2 + onesCount (word / 2) count

theorem onesCount_eq_countP (word count : Nat) :
    onesCount word count = (List.range count).countP fun i => word.testBit i := by
  induction count generalizing word with
  | zero => rfl
  | succ count ih =>
    have shifted : (fun i => word.testBit i) ∘ Nat.succ = fun i => (word / 2).testBit i := by
      funext i
      rw [Function.comp_apply, Nat.succ_eq_add_one, Nat.testBit_succ]
    rw [onesCount, ih, List.range_succ_eq_map, List.countP_cons, List.countP_map, shifted]
    rcases Nat.mod_two_eq_zero_or_one word with h | h
    · simp [h, Nat.testBit_zero]
    · simp [h, Nat.testBit_zero, Nat.add_comm]

/-- The size of the managed memory. -/
def totalBytes (b : Bitmap) : Except Panic Nat :=
  Checked.mul b.frames pageSize

/-- The size of the free frames.  Bits of the last word that belong to no frame are set and do not
count; if something else has written to the bitmap, there may be fewer set bits than those. -/
def freeBytes (b : Bitmap) (m : Memory) : Except Panic Nat := do
  let set ← Checked.sum ((List.range b.words).map fun k => onesCount (b.bits m k) wordBits)
  let padding ← Checked.sub (← Checked.mul b.words wordBits) b.frames
  let free ← Checked.sub b.frames (← Checked.sub set padding)
  Checked.mul free pageSize

/-- The size of the frames that are taken, or were never free. -/
def usedBytes (b : Bitmap) (m : Memory) : Except Panic Nat := do
  Checked.sub (← b.totalBytes) (← b.freeBytes m)

/-! ## Installation -/

/-- What a bitmap for the given regions needs. -/
structure Plan where
  /-- The number of frames below the highest end of a region. -/
  frames : Nat
  /-- The number of words for one bit each. -/
  words : Nat
  /-- The size of the words in whole pages. -/
  reservation : Nat
deriving DecidableEq, Repr

/-- The needs of a bitmap that covers all regions. -/
def plan (regions : List Region) : Except Panic Plan := do
  let top := (regions.map Region.top).foldl max 0
  let frames := top / pageSize
  let words := (frames + (wordBits - 1)) / wordBits
  let bytes ← Checked.mul words 8
  let reservation ← Checked.mul ((bytes + (pageSize - 1)) / pageSize) pageSize
  return { frames, words, reservation }

/-- What is left of a region whose whole pages begin at `start`, once the first `reservation` bytes
of them are set aside. -/
def shrink (r : Region) (start reservation : Nat) : Except Panic Region := do
  let base ← Checked.add start reservation
  let length ← Checked.sub r.top base
  return { r with base := UInt64.ofNat base, length := UInt64.ofNat length }

/-- Finds room in the first usable region that has enough whole pages.  Gives the first address of
the room and the regions with that region shrunk. -/
def place? (reservation : Nat) : List Region → Except Panic (Option (Nat × List Region))
  | [] => return none
  | r :: rest => do
    let room? := if r.isUsable then r.pageSpan? else none
    if let some (start, stop) := room? then
      if reservation ≤ stop - start then
        return some (start, (← shrink r start reservation) :: rest)
    return (← place? reservation rest).map fun (start, rest) => (start, r :: rest)

/-- Sets every bit. -/
def fill (b : Bitmap) (m : Memory) : Memory :=
  (List.range b.words).foldl (fun m k => m.setWord (b.slot k) 0xffffffffffffffff) m

/-- Clears the bits of the whole pages of the usable regions. -/
def releaseUsable (b : Bitmap) (m : Memory) (regions : List Region) : Memory :=
  ((regions.filter Region.isUsable).filterMap Region.pageSpan?).foldl
    (fun m (start, stop) =>
      b.releaseRange m (start / pageSize) (stop / pageSize - start / pageSize)) m

/-- Installs a bitmap for the regions in memory.  Gives the bitmap, memory with its bits, the
regions that remain and the events; without room there is no bitmap and nothing changes. -/
def install (m : Memory) (regions : List Region) :
    Except Panic (Bitmap × Memory × List Region × Log.Event) := do
  let plan ← plan regions
  match ← place? plan.reservation regions with
  | none => return ({}, m, regions, .bitmapHomeless plan.reservation plan.frames)
  | some (start, regions) =>
    let home : PhysAddr := .ofNat start
    let _ ← m.window.pointer home
    let b : Bitmap := { home := home.page, words := plan.words, frames := plan.frames }
    let m := b.releaseUsable (b.fill m) regions
    return (b, m, regions, .bitmapReady plan.frames plan.reservation home (← b.freeBytes m))

end Bitmap

end KernelMemory
