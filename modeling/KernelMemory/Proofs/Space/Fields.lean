import KernelMemory.Proofs.BitField
import KernelMemory.Proofs.Space.Lookup

/-!
# The fields of an entry in its word

Memory holds an entry as one word in which fourteen fields stand side by side, and the processor
reads that word.  The layout of the word says where each field stands; an entry that differs from
another in one field has the same word but for the bits of that field.

* `Entry.map_get_toWord` — the layout reads the fields off the word.
* `Entry.pairwise_apart`, `Entry.set_toWord` — a change of one field replaces its bits alone.
* **`Entry.leaf_eq_set`**, **`Entry.ownedTable_eq_set`**, **`Entry.withLiveChildren?_eq_set`**,
  **`Entry.borrowed_eq_set`** — the entries that the kernel makes, as replacements in a word.
* **`Entry.fields_apart`** — what can be read off them.
-/

namespace KernelMemory.Entry

variable {e e' : Entry} {f g : BitField} {v k j n : Nat} {w w' : UInt64}

/-! ## The layout -/

/-- The values of the fields, in the order of the layout. -/
def values (e : Entry) : List Nat :=
  [e.present.toNat, e.writable.toNat, e.user.toNat, e.writeThrough.toNat, e.cacheDisabled.toNat,
    e.accessed.toNat, e.dirty.toNat, e.huge.toNat, e.global.toNat, e.owned.toNat, e.available,
    e.frameNumber, e.liveChildren, e.noExecute.toNat]

lemma values_injective (h : e'.values = e.values) : e' = e := by
  have hbool : ∀ {b b' : Bool}, b.toNat = b'.toNat → b = b' := by decide
  simp only [values, List.cons.injEq] at h
  obtain ⟨h0, h1, h2, h3, h4, h5, h6, h7, h8, h9, h10, h11, h12, h13, -⟩ := h
  exact Entry.ext (hbool h0) (hbool h1) (hbool h2) (hbool h3) (hbool h4) (hbool h5) (hbool h6)
    (hbool h7) (hbool h8) (hbool h9) (Fin.ext h10) (Fin.ext h11) (Fin.ext h12) (hbool h13)

/-- **The layout reads the fields of an entry off its word.** -/
theorem map_get_toWord (e : Entry) : layout.fields.map (·.get e.toWord) = e.values := by
  have hbit : ∀ (w : UInt64) (i : Nat), w.toNat / 2 ^ i % 2 ^ 1 = (w.toNat.testBit i).toNat := by
    intro w i
    rw [Nat.toNat_testBit, Nat.pow_one]
  conv_rhs => rw [← ofWord_toWord e]
  simp only [layout, List.map_cons, List.map_nil, BitField.get, BitField.width, Option.getD,
    Field.present, Field.writable, Field.user, Field.writeThrough, Field.cacheDisabled,
    Field.accessed, Field.dirty, Field.huge, Field.global, Field.owned, Field.available,
    Field.frameNumber, Field.liveChildren, Field.noExecute, hbit]
  rfl

/-- **No two fields have a bit in common.** -/
theorem pairwise_apart : layout.fields.Pairwise BitField.Apart := by decide

lemma fits_word : ∀ f ∈ layout.fields, f.offset + f.width ≤ 64 := by decide

lemma apart_of_ne (hf : layout.fields[k]? = some f) (hg : layout.fields[j]? = some g)
    (hne : k ≠ j) : f.Apart g := by
  obtain ⟨hk, rfl⟩ := List.getElem?_eq_some_iff.mp hf
  obtain ⟨hj, rfl⟩ := List.getElem?_eq_some_iff.mp hg
  rcases Nat.lt_or_gt_of_ne hne with hlt | hgt
  · exact List.pairwise_iff_getElem.mp pairwise_apart k j hk hj hlt
  · exact (List.pairwise_iff_getElem.mp pairwise_apart j k hj hk hgt).symm

/-- **A replacement changes one value.** -/
theorem map_get_set (hf : layout.fields[k]? = some f) (h : f.set w v = .ok w') :
    layout.fields.map (·.get w') = (layout.fields.map (·.get w)).set k v := by
  have hfits := fits_word f (List.mem_of_getElem? hf)
  refine List.ext_getElem? fun j => ?_
  rw [List.getElem?_set, List.getElem?_map, List.getElem?_map]
  split
  case isTrue heq =>
    subst heq
    obtain ⟨hk, -⟩ := List.getElem?_eq_some_iff.mp hf
    rw [hf, List.length_map, if_pos hk, Option.map_some, BitField.get_set hfits h]
  case isFalse hne =>
    cases hg : layout.fields[j]? with
    | none => rfl
    | some g =>
        have hapart := apart_of_ne hf hg hne
        rw [Option.map_some, Option.map_some, BitField.get_set_of_apart hfits h hapart]

/-- **An entry with another value in one field** has the word with that field replaced. -/
theorem set_toWord (hf : layout.fields[k]? = some f) (hv : v ≤ f.max)
    (h : e'.values = e.values.set k v) : f.set e.toWord v = .ok e'.toWord := by
  obtain ⟨w', hw'⟩ : ∃ w', f.set e.toWord v = .ok w' := ⟨_, if_pos hv⟩
  have hvalues : (ofWord w').values = e'.values := by
    rw [← map_get_toWord, toWord_ofWord, map_get_set hf hw', map_get_toWord, h]
  rw [hw', ← values_injective hvalues, toWord_ofWord]

lemma set_present (e : Entry) (b : Bool) :
    Field.present.set e.toWord b.toNat = .ok { e with present := b }.toWord :=
  set_toWord (k := 0) rfl b.toNat_le rfl

lemma set_writable (e : Entry) (b : Bool) :
    Field.writable.set e.toWord b.toNat = .ok { e with writable := b }.toWord :=
  set_toWord (k := 1) rfl b.toNat_le rfl

lemma set_owned (e : Entry) (b : Bool) :
    Field.owned.set e.toWord b.toNat = .ok { e with owned := b }.toWord :=
  set_toWord (k := 9) rfl b.toNat_le rfl

lemma set_frameNumber (e : Entry) (h : v < 2 ^ 40) :
    Field.frameNumber.set e.toWord v = .ok { e with frameNumber := ⟨v, h⟩ }.toWord :=
  set_toWord (k := 11) rfl (Nat.le_pred_of_lt h) rfl

/-- A number that needs more than forty bits is refused. -/
lemma set_frameNumber_of_le (h : 2 ^ 40 ≤ v) :
    Field.frameNumber.set w v = .error (.valueOutOfBounds (2 ^ 40 - 1)) :=
  BitField.set_of_max_lt (Nat.lt_of_lt_of_le (by decide) h)

lemma set_liveChildren (e : Entry) (h : v < 2048) :
    Field.liveChildren.set e.toWord v = .ok { e with liveChildren := ⟨v, h⟩ }.toWord :=
  set_toWord (k := 12) rfl (Nat.le_pred_of_lt h) rfl

/-! ## Entries as replacements in a word -/

/-- The bits of a caller's flags that a page takes over. -/
def leafMask : UInt64 :=
  Flags.archBits &&& ~~~(Flags.only .huge).bits

/-- What is left of a caller's flags reaches none of the kernel's fields. -/
lemma ofWord_and_leafMask (flags : Flags) : ofWord (flags.bits &&& leafMask) =
    { present := flags.has .present, writable := flags.has .writable, user := flags.has .user,
      writeThrough := flags.has .writeThrough, cacheDisabled := flags.has .noCache,
      accessed := flags.has .accessed, dirty := flags.has .dirty, global := flags.has .global,
      noExecute := flags.has .noExecute } := by
  have hbit : ∀ i, (flags.bits &&& leafMask).toNat.testBit i =
      (flags.bits.toNat.testBit i && leafMask.toNat.testBit i) := by
    intro i
    rw [UInt64.toNat_and, Nat.testBit_and]
  have hkept : ∀ i, leafMask.toNat.testBit i = true →
      (flags.bits &&& leafMask).toNat.testBit i = flags.bits.toNat.testBit i := by
    intro i hi
    rw [hbit, hi, Bool.and_true]
  have hlost : ∀ i, leafMask.toNat.testBit i = false →
      (flags.bits &&& leafMask).toNat.testBit i = false := by
    intro i hi
    rw [hbit, hi, Bool.and_false]
  have hgap : ∀ i < 63, 9 ≤ i → leafMask.toNat.testBit i = false := by decide
  have hzero : ∀ f : BitField, 9 ≤ f.offset → f.offset + f.width ≤ 63 →
      f.get (flags.bits &&& leafMask) = 0 := by
    intro f hlow hhigh
    refine BitField.get_eq_zero fun i hi => hlost i (hgap i ?_ ?_)
    · exact Nat.lt_of_lt_of_le hi.2 hhigh
    · exact Nat.le_trans hlow hi.1
  -- The flags are taken bit by bit; `huge` and the gap between the lowest nine and the highest are
  -- masked out.
  ext
  case huge => exact hlost 7 (by decide)
  case owned => exact hlost 9 (by decide)
  case available => exact hzero Field.available (by decide) (by decide)
  case frameNumber => exact hzero Field.frameNumber (by decide) (by decide)
  case liveChildren => exact hzero Field.liveChildren (by decide) (by decide)
  all_goals exact hkept _ (by decide)

/-- **A page mapping** is the caller's flags, masked, with two fields replaced. -/
theorem leaf_eq_set (frame : Frame) (flags : Flags) : (leaf frame flags).map toWord = (do
    let word ← Field.present.set (flags.bits &&& leafMask) 1
    Field.frameNumber.set word frame.number) := by
  have hpresent : Field.present.set (flags.bits &&& leafMask) 1 =
      .ok { ofWord (flags.bits &&& leafMask) with present := true }.toWord := by
    conv_lhs => rw [← toWord_ofWord (flags.bits &&& leafMask)]
    exact set_present _ true
  rw [hpresent, ofWord_and_leafMask, leaf]
  split
  case isTrue h =>
    -- The first step has returned, so the second is what is left.
    change _ = Field.frameNumber.set _ _
    rw [set_frameNumber _ h]
    rfl
  case isFalse h => exact (set_frameNumber_of_le (Nat.le_of_not_lt h)).symm

/-- **A link to a new table** is made of nothing, with four fields replaced. -/
theorem ownedTable_eq_set (table : Frame) : (ownedTable table).map toWord = (do
    let word ← Field.present.set 0 1
    let word ← Field.writable.set word 1
    let word ← Field.owned.set word 1
    Field.frameNumber.set word table.number) := by
  have hpresent : Field.present.set 0 1 = .ok (toWord { present := true }) :=
    set_present absent true
  have hwritable : Field.writable.set (toWord { present := true }) 1 =
      .ok (toWord { present := true, writable := true }) :=
    set_writable _ true
  have howned : Field.owned.set (toWord { present := true, writable := true }) 1 =
      .ok (toWord { present := true, writable := true, owned := true }) :=
    set_owned _ true
  simp only [hpresent, hwritable, howned, bind, Except.bind]
  rw [ownedTable]
  split
  case isTrue h =>
    rw [set_frameNumber _ h]
    rfl
  case isFalse h => exact (set_frameNumber_of_le (Nat.le_of_not_lt h)).symm

/-- **Another count** is one field replaced. -/
theorem withLiveChildren?_eq_set (e : Entry) (n : Nat) : (e.withLiveChildren? n).map toWord =
    (Field.liveChildren.set e.toWord n).toOption := by
  rw [withLiveChildren?]
  split
  case isTrue h =>
    rw [set_liveChildren e h]
    rfl
  case isFalse h =>
    have hmax : Field.liveChildren.max < n := Nat.lt_of_lt_of_le (by decide) (Nat.le_of_not_lt h)
    rw [BitField.set_of_max_lt hmax]
    rfl

/-- **An entry as another root sees it** has two fields replaced. -/
theorem borrowed_eq_set (e : Entry) : (do
    let word ← Field.owned.set e.toWord 0
    Field.liveChildren.set word 0) = .ok e.borrowed.toWord := by
  have howned : Field.owned.set e.toWord 0 = .ok { e with owned := false }.toWord :=
    set_owned e false
  rw [howned]
  exact set_liveChildren (v := 0) { e with owned := false } (by decide)

/-! ## What is read off a word -/

/-- **What a word says** when it is taken as an entry. -/
structure Reads (word : UInt64) (frame : Frame) (flags : Flags) (owned : Bool)
    (available liveChildren : Nat) : Prop where
  frame_eq : (ofWord word).frame = frame
  flags_eq : (ofWord word).flags = flags
  owned_eq : (ofWord word).owned = owned
  available_eq : (ofWord word).available = available
  liveChildren_eq : (ofWord word).liveChildren = liveChildren

lemma reads_toWord {flags : Flags} (h : e.flags = flags) :
    Reads e.toWord e.frame flags e.owned e.available e.liveChildren := by
  subst h
  constructor <;> rw [ofWord_toWord]

/-- **A page mapping** reads back as its frame and the flags that it takes over. -/
theorem leaf_reads (f : Frame) (flags : Flags) (hf : f.number < 2 ^ 40) :
    ∃ page, leaf f flags = .ok page ∧ Reads page.toWord f flags.forPage false 0 0 ∧
      page.huge = false := by
  obtain ⟨page, hpage⟩ : ∃ page, leaf f flags = .ok page := ⟨_, dif_pos hf⟩
  have hflags := flags_of_leaf hpage
  refine ⟨page, hpage, ?_⟩
  rw [leaf, dif_pos hf] at hpage
  cases hpage
  exact ⟨reads_toWord hflags, rfl⟩

/-- **Another count** reads back, and leaves the other bits of the word as they are. -/
theorem withLiveChildren_reads (e : Entry) (hn : n < 2048) :
    ∃ e', e.withLiveChildren? n = some e' ∧ Field.liveChildren.set e.toWord n = .ok e'.toWord ∧
      Reads e'.toWord e.frame e.flags e.owned e.available n ∧
      ∀ i, ¬ Field.liveChildren.Has i → e'.toWord.toNat.testBit i = e.toWord.toNat.testBit i := by
  refine ⟨{ e with liveChildren := ⟨n, hn⟩ }, dif_pos hn, set_liveChildren e hn, ?_,
    fun i hi => ?_⟩
  · exact reads_toWord (flags_congr fun flag => by cases flag <;> rfl)
  · rw [BitField.testBit_set (by decide) (set_liveChildren e hn), if_neg hi]

/-- **A link with a count** is a link to its table. -/
theorem ownedTable_reads (table : Frame) (htable : table.number < 2 ^ 40) (hn : n < 2048) :
    ∃ link e', ownedTable table = .ok link ∧ link.withLiveChildren? n = some e' ∧
      e'.isTable = true ∧ Reads e'.toWord table ⟨0x3⟩ true 0 n := by
  obtain ⟨link, hlink⟩ : ∃ link, ownedTable table = .ok link := ⟨_, dif_pos htable⟩
  refine ⟨link, { link with liveChildren := ⟨n, hn⟩ }, hlink, dif_pos hn, ?_⟩
  rw [ownedTable, dif_pos htable] at hlink
  cases hlink
  have hflags : Entry.flags { present := true, writable := true } = ⟨0x3⟩ := by decide
  refine ⟨rfl, reads_toWord (.trans ?_ hflags)⟩
  exact flags_congr fun flag => by cases flag <;> rfl

/-- **An entry as another root sees it** has lost the kernel's own fields, and nothing else. -/
theorem borrowed_reads (e : Entry) :
    Reads e.borrowed.toWord e.frame e.flags false e.available 0 ∧
      ∀ i, ¬ Field.owned.Has i → ¬ Field.liveChildren.Has i →
        e.borrowed.toWord.toNat.testBit i = e.toWord.toNat.testBit i := by
  constructor
  · exact reads_toWord (e := e.borrowed) (flags_congr fun flag => by cases flag <;> rfl)
  · intro i howned hcount
    have hset := set_liveChildren { e with owned := false } (v := 0) (by decide)
    change Field.liveChildren.set _ 0 = .ok e.borrowed.toWord at hset
    rw [BitField.testBit_set (by decide) hset, if_neg hcount,
      BitField.testBit_set (by decide) (set_owned e false), if_neg howned]

/-- **The fields of an entry keep to themselves.**  A page mapping reads back as its frame and the
flags it takes over, whatever the caller's word; another count is put in its place in the word and
changes no other bit; a link with any count is a link to exactly its table; an entry as another root
sees it has lost its owner and its count, once and for all; and a frame that needs more than forty
bits makes no entry and cannot be put into a word. -/
theorem fields_apart (f : Frame) (flags : Flags) (e : Entry) :
    (f.number < 2 ^ 40 → ∃ page, leaf f flags = .ok page ∧
      Reads page.toWord f ⟨flags.bits &&& Flags.archBits &&& ~~~(Flags.only .huge).bits |||
        (Flags.only .present).bits⟩ false 0 0 ∧ (ofWord page.toWord).huge = false) ∧
    (∀ n ≤ 2047, ∃ e', e.withLiveChildren? n = some e' ∧
      Field.liveChildren.set e.toWord n = .ok e'.toWord ∧
      Reads e'.toWord e.frame e.flags e.owned e.available n ∧
      ∀ i, ¬ Field.liveChildren.Has i → e'.toWord.toNat.testBit i = e.toWord.toNat.testBit i) ∧
    (f.number < 2 ^ 40 → ∀ n ≤ 2047, ∃ link e', ownedTable f = .ok link ∧
      link.withLiveChildren? n = some e' ∧ (ofWord e'.toWord).isTable = true ∧
      Reads e'.toWord f ⟨0x3⟩ true 0 n) ∧
    (Reads e.borrowed.toWord e.frame e.flags false e.available 0 ∧
      (∀ i, ¬ Field.owned.Has i → ¬ Field.liveChildren.Has i →
        e.borrowed.toWord.toNat.testBit i = e.toWord.toNat.testBit i) ∧
      e.borrowed.borrowed = e.borrowed) ∧
    (2 ^ 40 ≤ f.number → leaf f flags = .error (.valueOutOfBounds (2 ^ 40 - 1)) ∧
      ownedTable f = .error (.valueOutOfBounds (2 ^ 40 - 1)) ∧
      ∀ word, Field.frameNumber.set word f.number = .error (.valueOutOfBounds (2 ^ 40 - 1))) := by
  refine ⟨fun hf => ?_, fun n hn => withLiveChildren_reads e (Nat.lt_succ_of_le hn),
    fun hf n hn => ?_, ⟨(borrowed_reads e).1, (borrowed_reads e).2, rfl⟩, fun hf => ?_⟩
  · obtain ⟨page, hpage, hreads, hhuge⟩ := leaf_reads f flags hf
    exact ⟨page, hpage, hreads, by rw [ofWord_toWord, hhuge]⟩
  · obtain ⟨link, e', hlink, hcount, htable, hreads⟩ :=
      ownedTable_reads f hf (Nat.lt_succ_of_le hn)
    exact ⟨link, e', hlink, hcount, by rw [ofWord_toWord, htable], hreads⟩
  · exact ⟨dif_neg (Nat.not_lt_of_le hf), dif_neg (Nat.not_lt_of_le hf),
      fun _ => set_frameNumber_of_le hf⟩

/-- A caller whose word has every bit set gets a page with the flags alone, a link to frame 127 can
have 512 children, and the first frame beyond forty bits is refused. -/
theorem fields_apart_sample :
    (∃ page, leaf ⟨0x5, by decide⟩ ⟨0xffffffffffffffff⟩ = .ok page ∧
      Reads page.toWord ⟨0x5, by decide⟩ ⟨0x800000000000017f⟩ false 0 0) ∧
    (∃ link e', ownedTable ⟨0x7f, by decide⟩ = .ok link ∧ link.withLiveChildren? 512 = some e' ∧
      Reads e'.toWord ⟨0x7f, by decide⟩ ⟨0x3⟩ true 0 512) ∧
    leaf ⟨2 ^ 40, by decide⟩ ⟨0⟩ = .error (.valueOutOfBounds (2 ^ 40 - 1)) := by
  obtain ⟨hleaf, -⟩ := fields_apart ⟨0x5, by decide⟩ ⟨0xffffffffffffffff⟩ absent
  obtain ⟨-, -, htable, -⟩ := fields_apart ⟨0x7f, by decide⟩ ⟨0⟩ absent
  obtain ⟨-, -, -, -, hrefused⟩ := fields_apart ⟨2 ^ 40, by decide⟩ ⟨0⟩ absent
  obtain ⟨page, hpage, hreads, -⟩ := hleaf (by decide)
  obtain ⟨link, e', hlink, hcount, -, hreads'⟩ := htable (by decide) 512 (by decide)
  exact ⟨⟨page, hpage, hreads⟩, ⟨link, e', hlink, hcount, hreads'⟩, (hrefused (by decide)).1⟩

end KernelMemory.Entry
