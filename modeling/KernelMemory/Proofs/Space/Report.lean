import Mathlib.Data.List.Chain
import KernelMemory.Proofs.Space.Hardware
import KernelMemory.Space.Report

/-!
# What a report shows

A report and a translation are two walks over the same tables.  One follows links between tables
whose heights are in their types, and notes each entry; the other keeps a path of slots, and says
only where it ends.  So that the entries it reads can be compared with the lines of the report,
translation is written once more over any way of reading a slot: with plain reads it is
`AddressSpace.translate`, and with reads that are noted it leaves the list of what it has read.

* `Reading`, `Reading.event` — an entry as a walk reads it, and the line that reports it.
* `AddressSpace.translateVia` — translation over any way of reading; **`translateVia_readEntry`**.
* `Memory.readingsFrom` — the entries on the way from a slot.
* **`Reading.event_inj`** — a line says which entry of which table it is about.
* **`AddressSpace.report_readings`** — the report shows what translation reads, up to the entry that
  decides.
-/

namespace KernelMemory

variable {A : Type} {m : Memory} {va : VirtAddr} {level : Log.Level} {h : Nat}

/-! ## Lines -/

/-- An entry as a walk reads it, in a table of the given height. -/
@[ext] structure Reading where
  height : Nat
  slot : Slot
  entry : Entry
deriving DecidableEq

namespace Reading

variable {r r' : Reading}

/-- The line of a report that shows the entry. -/
def event (level : Log.Level) (r : Reading) : Log.Event :=
  .walkStep level (⟨r.slot.table⟩ : TableFrame r.height).debugText r.slot.index r.entry

/-- The name of a table tells its height and its frame. -/
lemma debugText_inj {k : Nat} {t : TableFrame h} {u : TableFrame k} (hh : h ≤ rootHeight)
    (hk : k ≤ rootHeight) (heq : t.debugText = u.debugText) : h = k ∧ t.frame = u.frame := by
  -- Names of tables of the four heights have equal lengths, so the rest is what follows the name.
  have hname : ∀ h ≤ rootHeight, ∀ k ≤ rootHeight,
      (tableName h ++ "@").toList.length = (tableName k ++ "@").toList.length ∧
      ((tableName h ++ "@").toList = (tableName k ++ "@").toList → h = k) := by decide
  obtain ⟨hlength, hheight⟩ := hname h hh k hk
  have hlist : (tableName h ++ "@").toList ++ (Hex.upper t.frame.base.value.toNat).toList =
      (tableName k ++ "@").toList ++ (Hex.upper u.frame.base.value.toNat).toList := by
    rw [← String.toList_append, ← String.toList_append]
    exact congrArg String.toList heq
  obtain ⟨hnames, hbases⟩ := List.append_inj hlist hlength
  refine ⟨hheight hnames, Page.ext ?_⟩
  have hbase := Hex.upper_inj.mp (String.toList_inj.mp hbases)
  rw [Page.toNat_base, Page.toNat_base] at hbase
  exact Nat.eq_of_mul_eq_mul_right (by decide) hbase

/-- **A line says which entry it is about**: the level of the table, its frame, the position and the
bits. -/
theorem event_inj (hr : r.height ≤ rootHeight) (hr' : r'.height ≤ rootHeight)
    (heq : r.event level = r'.event level) : r = r' := by
  obtain ⟨-, htext, hindex, hentry⟩ := Log.Event.walkStep.inj heq
  obtain ⟨hheight, hframe⟩ := debugText_inj hr hr' htext
  exact Reading.ext hheight (Slot.ext hframe hindex) hentry

/-- Lines say which entries they are about. -/
lemma map_event_inj {lines lines' : List Reading} (hlines : ∀ r ∈ lines, r.height ≤ rootHeight)
    (hlines' : ∀ r ∈ lines', r.height ≤ rootHeight)
    (heq : lines.map (event level) = lines'.map (event level)) : lines = lines' := by
  induction lines generalizing lines' with
  | nil => exact (List.map_eq_nil_iff.mp heq.symm).symm
  | cons r lines ih =>
      cases lines' with
      | nil => exact absurd heq (List.cons_ne_nil _ _)
      | cons r' lines' =>
          obtain ⟨hr, hlines⟩ := List.forall_mem_cons.mp hlines
          obtain ⟨hr', hlines'⟩ := List.forall_mem_cons.mp hlines'
          obtain ⟨hhead, htail⟩ := List.cons.inj heq
          rw [event_inj hr hr' hhead, ih hlines hlines' htail]

end Reading

/-! ## Translation over any way of reading -/

section

variable {M : Type → Type} [Monad M]

/-- Follows links from a slot of a table of the given height, reading with `read`. -/
def descendVia (read : Nat → Slot → M Entry) (va : VirtAddr) :
    (height : Nat) → Path → M (Except MapError Walk)
  | 0, path => return .ok (.slot path)
  | height + 1, path => do
    let entry ← read (height + 1) path.slot
    if entry.isTable then
      descendVia read va height (path.down entry.frame (va.index height))
    else if entry.present then
      return .ok (.large entry (height + 1))
    else
      return .error .notMapped

/-- Where the walk for an address ends, found with `read`. -/
def AddressSpace.findVia (space : AddressSpace) (read : Nat → Slot → M Entry) (va : VirtAddr) :
    M (Except MapError Walk) :=
  if va.isCanonical then descendVia read va rootHeight (.ofRoot space.root va)
  else return .error (.invalidRequest .nonCanonical)

/-- What is made of the end of a walk, reading with `read`. -/
def concludeVia (read : Nat → Slot → M Entry) (va : VirtAddr) :
    Except MapError Walk → M (Except MapError Mapping)
  | .error e => return .error e
  | .ok (.slot path) => return (← read 0 path.slot).translate 0 va
  | .ok (.large entry height) => return entry.translate height va

/-- What an address stands for, found with `read`. -/
def AddressSpace.translateVia (space : AddressSpace) (read : Nat → Slot → M Entry)
    (va : VirtAddr) : M (Except MapError Mapping) := do
  concludeVia read va (← space.findVia read va)

end

lemma descendVia_readEntry (path : Path) :
    descendVia (fun _ => m.readEntry) va h path = m.descend va h path := by
  induction h generalizing path with
  | zero => rfl
  | succ h ih =>
      rw [descendVia, Memory.descend]
      simp only [ih]

/-- **With plain reads** it is translation. -/
theorem AddressSpace.translateVia_readEntry (space : AddressSpace) :
    space.translateVia (fun _ => m.readEntry) va = space.translate m va := by
  rw [translateVia, translate, findVia, descendVia_readEntry, ← find]
  rfl

/-! ## Reads that are noted -/

/-- The entry in a slot, noted at the end of what has been read so far. -/
def Memory.readNoting (m : Memory) (height : Nat) (slot : Slot) : Action (List Reading) Entry := do
  let entry ← Action.ofExcept (m.readEntry slot)
  modify fun lines => lines ++ [⟨height, slot, entry⟩]
  return entry

/-- The entries on the way from a slot of a table of the given height. -/
def Memory.readingsFrom (m : Memory) (va : VirtAddr) : (height : Nat) → Slot → List Reading
  | 0, s => [⟨0, s, m.entry s⟩]
  | height + 1, s => ⟨height + 1, s, m.entry s⟩ ::
      if (m.entry s).isTable then m.readingsFrom va height ⟨(m.entry s).frame, va.index height⟩
      else []

/-- **Entries from the root down**: the first one is of the root, each is the one that the address
selects in its table, and each but the last links the table of the next, one level further down. -/
structure Memory.Descent (m : Memory) (root : Frame) (va : VirtAddr) (lines : List Reading) :
    Prop where
  root : ∀ r ∈ lines.head?, r.height = rootHeight ∧ r.slot.table = root
  each : ∀ r ∈ lines, r.height ≤ rootHeight ∧ r.slot.index = va.index r.height ∧
    r.entry = m.entry r.slot
  links : lines.IsChain fun r r' =>
    r.entry.isTable = true ∧ r'.slot.table = r.entry.frame ∧ r'.height + 1 = r.height

/-- The ends of the read-only walk, where the last entry on the way is given. -/
inductive Reading.Ends (last : Reading) : Except MapError Walk → Prop
  /-- The slot of a single page, present or not. -/
  | slot (path : Path) : path.slot = last.slot → last.height = 0 → last.Ends (.ok (.slot path))
  | large : 0 < last.height → last.entry.present = true → last.entry.huge = true →
      last.Ends (.ok (.large last.entry last.height))
  | missing : 0 < last.height → last.entry.present = false → last.Ends (.error .notMapped)

open Hardware

section

variable {s : Store A} {slot : Slot} {lines : List Reading}

lemma Memory.run_readNoting (hs : m.Shows slot.table) :
    (m.readNoting h slot).run lines = .ok (m.entry slot) (lines ++ [⟨h, slot, m.entry slot⟩]) := by
  rw [Memory.readNoting, Action.run_bind (Action.run_ofExcept (Memory.readEntry_eq hs))]
  rfl

/-- **Translation reads the entries on the way**, the last one included, and answers as it does
without notes. -/
theorem run_descendVia (path : Path) (lines : List Reading) (hu : Usable m va h path.slot) :
    ∃ answer,
      EStateM.run (descendVia m.readNoting va h path >>= concludeVia m.readNoting va) lines =
        .ok answer (lines ++ m.readingsFrom va h path.slot) ∧
      (m.descend va h path >>= concludeVia (fun _ => m.readEntry) va) = .ok answer := by
  induction h generalizing path lines with
  | zero =>
      refine ⟨_, Action.run_bind (Memory.run_readNoting hu), ?_⟩
      exact Checked.bind_eq_ok.mpr ⟨_, rfl, Checked.bind_eq_ok.mpr ⟨_, Memory.readEntry_eq hu, rfl⟩⟩
  | succ h ih =>
      have hread := @Memory.run_readNoting m (h + 1) path.slot lines hu.shows
      rw [descendVia, bind_assoc, Action.run_bind hread, Memory.readingsFrom,
        Memory.descend_succ hu.shows]
      by_cases hlinks : (m.entry path.slot).isTable = true
      · rw [if_pos hlinks, if_pos hlinks, if_pos hlinks]
        obtain ⟨answer, hrun, hanswer⟩ := ih (path.down _ _) _ (hu.2 hlinks)
        refine ⟨answer, hrun.trans ?_, hanswer⟩
        rw [List.append_assoc]
        rfl
      · rw [if_neg hlinks, if_neg hlinks, if_neg hlinks]
        by_cases hpresent : (m.entry path.slot).present = true
        · rw [if_pos hpresent, if_pos hpresent]
          exact ⟨_, rfl, rfl⟩
        · rw [if_neg hpresent, if_neg hpresent]
          exact ⟨_, rfl, rfl⟩

lemma Memory.head?_readingsFrom :
    (m.readingsFrom va h slot).head? = some ⟨h, slot, m.entry slot⟩ := by
  cases h <;> rfl

lemma Memory.mem_readingsFrom (hslot : slot.index = va.index h) :
    ∀ r ∈ m.readingsFrom va h slot,
      r.height ≤ h ∧ r.slot.index = va.index r.height ∧ r.entry = m.entry r.slot := by
  induction h generalizing slot with
  | zero =>
      intro r hr
      rw [List.mem_singleton.mp hr]
      exact ⟨Nat.le_refl _, hslot, rfl⟩
  | succ h ih =>
      rw [Memory.readingsFrom]
      refine List.forall_mem_cons.mpr ⟨⟨Nat.le_refl _, hslot, rfl⟩, fun r hr => ?_⟩
      split at hr
      · obtain ⟨hheight, hread⟩ := ih rfl r hr
        exact ⟨Nat.le_succ_of_le hheight, hread⟩
      · cases hr

lemma Memory.isChain_readingsFrom :
    (m.readingsFrom va h slot).IsChain fun r r' =>
      r.entry.isTable = true ∧ r'.slot.table = r.entry.frame ∧ r'.height + 1 = r.height := by
  induction h generalizing slot with
  | zero => exact .singleton _
  | succ h ih =>
      rw [Memory.readingsFrom]
      split
      case isTrue hlinks =>
        refine ih.cons fun r' hr' => ?_
        rw [head?_readingsFrom] at hr'
        obtain rfl := Option.mem_some_iff.mp hr'
        exact ⟨hlinks, rfl, rfl⟩
      case isFalse => exact .singleton _

/-- The entries on the way from the root. -/
def AddressSpace.readings (space : AddressSpace) (m : Memory) (va : VirtAddr) : List Reading :=
  m.readingsFrom va rootHeight (Path.ofRoot space.root va).slot

lemma AddressSpace.descent_readings (space : AddressSpace) (m : Memory) (va : VirtAddr) :
    m.Descent space.root va (space.readings m va) where
  root := by
    rw [readings, Memory.head?_readingsFrom]
    rintro r ⟨⟩
    exact ⟨rfl, rfl⟩
  each := Memory.mem_readingsFrom rfl
  links := Memory.isChain_readingsFrom

/-- The entries on the way are as many as the levels down to the entry at which the walk ends. -/
lemma readingsFrom_ends (path : Path) (hu : Usable m va h path.slot) :
    ∃ front last found, m.readingsFrom va h path.slot = front ++ [last] ∧
      front.length + last.height = h ∧ m.Shows last.slot.table ∧
      m.descend va h path = .ok found ∧ last.Ends found := by
  induction h generalizing path with
  | zero => exact ⟨[], _, _, rfl, rfl, hu, rfl, .slot path rfl rfl⟩
  | succ h ih =>
      rw [Memory.readingsFrom, Memory.descend_succ hu.shows]
      by_cases hlinks : (m.entry path.slot).isTable = true
      · rw [if_pos hlinks, if_pos hlinks]
        obtain ⟨front, last, found, hreads, hlength, hrest⟩ :=
          ih (path.down _ _) (hu.2 hlinks)
        refine ⟨⟨h + 1, path.slot, m.entry path.slot⟩ :: front, last, found, ?_, ?_, hrest⟩
        · rw [List.cons_append, ← hreads]
          rfl
        · rw [List.length_cons, ← hlength]
          omega
      · rw [if_neg hlinks, if_neg hlinks]
        refine ⟨[], ⟨h + 1, path.slot, m.entry path.slot⟩, ?_⟩
        by_cases hpresent : (m.entry path.slot).present = true
        · rw [if_pos hpresent]
          have hhuge : (m.entry path.slot).huge = true := by
            simpa [Entry.isTable, hpresent] using hlinks
          exact ⟨_, rfl, Nat.zero_add _, hu.shows, rfl, .large (Nat.succ_pos h) hpresent hhuge⟩
        · rw [if_neg hpresent]
          exact ⟨_, rfl, Nat.zero_add _, hu.shows, rfl,
            .missing (Nat.succ_pos h) (Bool.eq_false_iff.mpr hpresent)⟩

/-! ### The entry that decides -/

section

variable {last : Reading} {found : Except MapError Walk} {answer : Except MapError Mapping}

lemma Entry.translate_eq_error_iff {e : Entry} :
    e.translate h va = .error .notMapped ↔ e.present = false := by
  rw [Entry.translate]
  cases e.present <;> simp

lemma Reading.Ends.slot_iff (hends : last.Ends found) :
    (∃ path, found = .ok (.slot path)) ↔ last.height = 0 := by
  cases hends with
  | slot path hslot hheight => exact ⟨fun _ => hheight, fun _ => ⟨path, rfl⟩⟩
  | large hheight => exact ⟨nofun, fun h => absurd h hheight.ne'⟩
  | missing hheight => exact ⟨nofun, fun h => absurd h hheight.ne'⟩

/-- A present entry at which the walk ends is that of a page. -/
lemma Reading.Ends.page (hends : last.Ends found) (hpresent : last.entry.present = true) :
    last.height = 0 ∨ last.entry.huge = true := by
  cases hends with
  | slot path hslot hheight => exact .inl hheight
  | large hheight hpresent' hhuge => exact .inr hhuge
  | missing hheight hnone =>
      rw [hpresent] at hnone
      cases hnone

/-- **The last entry decides the answer.** -/
theorem Reading.Ends.conclude (hends : last.Ends found) (hentry : last.entry = m.entry last.slot)
    (hshows : m.Shows last.slot.table) :
    concludeVia (fun _ => m.readEntry) va found = .ok (last.entry.translate last.height va) := by
  cases hends with
  | slot path hslot hheight =>
      have hread : m.readEntry path.slot = .ok last.entry := by
        rw [hslot, hentry, Memory.readEntry_eq hshows]
      exact Checked.bind_eq_ok.mpr ⟨_, hread, by rw [hheight]; rfl⟩
  | large => rfl
  | missing hheight hnone => exact congrArg Except.ok (Entry.translate_eq_error_iff.mpr hnone).symm

end

/-! ## The report -/

/-- The store with lines of a report at the end of its log. -/
def Store.reported (s : Store A) (level : Log.Level) (lines : List Reading) : Store A :=
  { s with log := s.log ++ lines.map (Reading.event level) }

lemma Store.reported_cons (r : Reading) :
    (s.reported level [r]).reported level lines = s.reported level (r :: lines) :=
  rfl

/-- The line of a report is noted if the entry can be read, and else there is only a panic. -/
lemma TableFrame.run_reportEntry_eq (table : TableFrame h) (level : Log.Level) (va : VirtAddr)
    (s : Store A) :
    (table.reportEntry level va).run s = match s.memory.readEntry (table.slot va) with
      | .ok entry => .ok entry
        { s with log := s.log.push (.walkStep level table.debugText (va.index h) entry) }
      | .error p => .error p s := by
  have hread : (Store.entry (table.slot va)).run s =
      (Action.ofExcept (s.memory.readEntry (table.slot va))).run s := rfl
  rw [reportEntry, EStateM.run_bind, hread]
  cases s.memory.readEntry (table.slot va) <;> rfl

lemma TableFrame.run_reportEntry (table : TableFrame h) (level : Log.Level) (va : VirtAddr)
    (hs : s.memory.Shows table.frame) :
    (table.reportEntry level va).run s = .ok (s.memory.entry (table.slot va))
      (s.reported level [⟨h, table.slot va, s.memory.entry (table.slot va)⟩]) := by
  have hread : s.memory.readEntry (table.slot va) = .ok (s.memory.entry (table.slot va)) :=
    Memory.readEntry_eq hs
  rw [run_reportEntry_eq, hread]
  rfl

/-- **The report shows the entries on the way.** -/
theorem TableFrame.run_reportWalk (table : TableFrame h)
    (hu : Usable s.memory va h (table.slot va)) :
    (table.reportWalk level va h).run s =
      .ok () (s.reported level (s.memory.readingsFrom va h (table.slot va))) := by
  induction h generalizing s with
  | zero => exact Action.run_discard (table.run_reportEntry _ _ hu)
  | succ h ih =>
      have hentry := table.run_reportEntry level va hu.shows
      rw [TableFrame.reportWalk, Action.run_bind hentry, TableFrame.child?, Memory.readingsFrom,
        ← Store.reported_cons]
      by_cases hlinks : (s.memory.entry (table.slot va)).isTable = true
      · rw [if_pos hlinks, if_pos hlinks]
        exact ih (s := s.reported level _) ⟨_⟩ (hu.2 hlinks)
      · rw [if_neg hlinks, if_neg hlinks]
        rfl

end

namespace AddressSpace

variable {root : Frame}

/-- **The report shows what translation reads.**  For every memory whose tables on the way of a
canonical address can be used, translation reads a list of entries from the root down, and the
report notes just these, in words that tell them apart, and changes nothing else.  There are at most
four, and fewer exactly if the walk ends before the slot of a single page.  The last one decides the
answer: it is not present exactly if the address is not mapped, and else it is the entry of a page,
single or large, of which the answer is made. -/
theorem report_readings (s : Store A) (level : Log.Level) (hshown : Shown s.memory root va)
    (hva : va.isCanonical = true) :
    ∃ lines last answer,
      ((⟨root⟩ : AddressSpace).translateVia s.memory.readNoting va).run [] = .ok answer lines ∧
      (⟨root⟩ : AddressSpace).translate s.memory va = .ok answer ∧
      ((⟨root⟩ : AddressSpace).report level va).run s =
        .ok () { s with log := s.log ++ lines.map (Reading.event level) } ∧
      (∀ lines' : List Reading, (∀ r ∈ lines', r.height ≤ rootHeight) →
        lines'.map (Reading.event level) = lines.map (Reading.event level) → lines' = lines) ∧
      s.memory.Descent root va lines ∧ lines.getLast? = some last ∧
      lines.length ≤ 4 ∧
      (lines.length < 4 ↔
        ¬ ∃ path, (⟨root⟩ : AddressSpace).find s.memory va = .ok (.ok (.slot path))) ∧
      (last.entry.present = false ↔ answer = .error .notMapped) ∧
      (last.entry.present = true → (last.height = 0 ∨ last.entry.huge = true) ∧
        answer = last.entry.translate last.height va) := by
  have hu : Usable s.memory va rootHeight (Path.ofRoot root va).slot := shown_iff_usable.mp hshown
  obtain ⟨answer, hrun, hanswer⟩ := run_descendVia (.ofRoot root va) [] hu
  obtain ⟨front, last, found, hreads, hlength, hshows, hdescend, hends⟩ :=
    readingsFrom_ends (.ofRoot root va) hu
  have hreadings : (⟨root⟩ : AddressSpace).readings s.memory va = front ++ [last] := hreads
  have hdescent := (⟨root⟩ : AddressSpace).descent_readings s.memory va
  have hfind : (⟨root⟩ : AddressSpace).find s.memory va = .ok found := by
    rw [find, if_pos hva, hdescend]
  have hlast := hdescent.each last (by rw [hreadings]; exact List.mem_concat_self ..)
  have hconclude : answer = last.entry.translate last.height va := by
    rw [hdescend] at hanswer
    exact Except.ok.inj (hanswer.symm.trans (hends.conclude hlast.2.2 hshows))
  have hcount : ((⟨root⟩ : AddressSpace).readings s.memory va).length + last.height = 4 := by
    rw [hreadings, List.length_append, Nat.add_right_comm, hlength]
    rfl
  refine ⟨(⟨root⟩ : AddressSpace).readings s.memory va, last, answer, ?_, ?_,
    TableFrame.run_reportWalk _ hu, fun lines' hlines' heq => ?_, hdescent, ?_,
    Nat.le.intro hcount, ?_, ?_, fun hpresent => ⟨hends.page hpresent, hconclude⟩⟩
  · rw [translateVia, findVia, if_pos hva]
    exact hrun
  · rw [← translateVia_readEntry, translateVia, findVia, if_pos hva, descendVia_readEntry]
    exact hanswer
  · exact Reading.map_event_inj hlines' (fun r hr => (hdescent.each r hr).1) heq
  · rw [hreadings, List.getLast?_concat]
  · simp only [hfind, Except.ok.injEq, hends.slot_iff]
    omega
  · rw [hconclude, Entry.translate_eq_error_iff]

/-- The walk to a page of 1 GiB ends early, and the report shows no more than it reads. -/
theorem report_readings_sample :
    Shown sample ⟨0, by decide⟩ ⟨0x12345678⟩ ∧ (⟨0x12345678⟩ : VirtAddr).isCanonical = true ∧
      ∃ lines : List Reading, lines ≠ [] ∧ lines.length < 4 ∧
        ((⟨⟨0, by decide⟩⟩ : AddressSpace).report .error ⟨0x12345678⟩).run ⟨sample, (), #[]⟩ =
          .ok () (Store.reported ⟨sample, (), #[]⟩ .error lines) := by
  have hshown : Shown sample ⟨0, by decide⟩ ⟨0x12345678⟩ :=
    ⟨rfl, fun _ => ⟨rfl, fun _ => ⟨rfl, fun _ => rfl⟩⟩⟩
  have hva : (⟨0x12345678⟩ : VirtAddr).isCanonical = true := by decide
  have hlink : sample.entry ⟨⟨0, by decide⟩, 0⟩ = .ofWord 0x1003 := by
    simp [Memory.entry, sample, Memory.word_setWord]
  have hpage : sample.entry ⟨⟨1, by decide⟩, 0⟩ = .ofWord 0x8000000040201083 := by
    simp [Memory.entry, sample, Memory.word_setWord]
  have hfind : (⟨⟨0, by decide⟩⟩ : AddressSpace).find sample ⟨0x12345678⟩ =
      .ok (.ok (.large (.ofWord 0x8000000040201083) 2)) := by
    have hshows : ∀ f, sample.Shows f := fun _ => rfl
    have hroot : (Path.ofRoot ⟨0, by decide⟩ ⟨0x12345678⟩).slot = ⟨⟨0, by decide⟩, 0⟩ := rfl
    have hdown : ((Path.ofRoot ⟨0, by decide⟩ ⟨0x12345678⟩).down (Entry.ofWord 0x1003).frame
        (Address.index ⟨0x12345678⟩ 2)).slot = ⟨⟨1, by decide⟩, 0⟩ := rfl
    rw [find, if_pos hva, Memory.descend_succ (hshows _), hroot, hlink, if_pos (by decide),
      Memory.descend_succ (hshows _), hdown, hpage, if_neg (by decide), if_pos (by decide)]
  obtain ⟨lines, last, answer, -, -, hrun, -, -, hlast, -, hearly, -⟩ :=
    report_readings (⟨sample, (), #[]⟩ : Store Unit) .error hshown hva
  refine ⟨hshown, hva, lines, ?_, hearly.mpr ?_, hrun⟩
  · rintro rfl
    cases hlast
  · rw [hfind]
    rintro ⟨path, hpath⟩
    cases hpath

end AddressSpace

end KernelMemory
