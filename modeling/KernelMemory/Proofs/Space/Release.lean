import KernelMemory.Proofs.Space.Evolution

/-!
# Giving tables back

`release` goes up a way and gives back every owned table whose count is zero.  What it gives back is
empty and linked from nowhere else, so no address notices, unless it reaches the root through a link
that the root lends: there the count does not tell whether the table is in use.

* `Chart.Withdraws` — a release would give back a table that a root has lent.
* **`Space.release_keeps`** — any other release keeps the invariant, and what all addresses stand
  for.
* **`Space.release_withdraws`** — such a release frees the table while another root still links it.
-/

namespace KernelMemory

variable {A : Type} [FrameSource A] [LawfulSource A]

namespace Chart

variable {C C' C'' : Chart} {o o' : Outline} {n n' : Slot → Nat} {s s' : Store A} {f root : Frame}
  {va : VirtAddr} {h k : Nat} {x : Slot} {holders : List Slot} {excuse : Panic → Prop}
  {lowest : Prop}

/-! ## Releases that withdraw a table -/

/-- **Going up from a slot whose count is the given number gives back a table that another slot
still links**: every holder owns its table and counts no child that does not go, and the last holder
is one of two slots that link its table. -/
def Withdraws (C : Chart) (o : Outline) (n : Slot → Nat) : Nat → List Slot → Prop
  | _, [] => False
  | k, [x] => (o x).owned = true ∧ n x = k ∧ ∃ t, t ≠ x ∧ C.Links o t (o x).frame
  | k, x :: y :: rest => (o x).owned = true ∧ n x = k ∧ Withdraws C o n 1 (y :: rest)

/-- Where no root lends its tables, none is withdrawn. -/
lemma Fits.not_withdraws (hfit : C.Fits o) (hroot : C.IsRoot root)
    (hl : o.Leads root va holders f h) (hlending : ¬ C.lending) : ¬ C.Withdraws o n k holders := by
  induction holders generalizing f h k with
  | nil => exact id
  | cons x above ih =>
      cases above with
      | nil =>
          rintro ⟨howned, -, t, hne, ht⟩
          have hx := (hfit.links_of_leads hroot hl).1
          exact hne (hfit.eq_of_links hx howned (fun h => hlending h.1) (hx.frame ▸ ht))
      | cons y rest =>
          rintro ⟨-, -, hrest⟩
          exact ih hl.uncons.1 hrest

/-- The same releases withdraw a table where the same tables are linked and owned and the counts are
the same, but for the nearest one. -/
lemma withdraws_congr {k' : Nat} (hsame : ∀ z ∈ holders, o' z = o z)
    (hhead : ∀ z, holders.head? = some z → (o z).owned = true → n z = k → n' z = k')
    (htail : ∀ z ∈ holders.tail, n' z = n z)
    (hlinks : ∀ z ∈ holders, ∀ t, t ≠ z → C.Links o t (o z).frame → C'.Links o' t (o z).frame)
    (hw : C.Withdraws o n k holders) : C'.Withdraws o' n' k' holders := by
  induction holders generalizing k k' with
  | nil => exact hw
  | cons x above ih =>
      cases above with
      | nil =>
          obtain ⟨howned, hn, t, hne, ht⟩ := hw
          rw [Withdraws, hsame x (by simp)]
          exact ⟨howned, hhead x rfl howned hn, t, hne, hlinks x (by simp) t hne ht⟩
      | cons y rest =>
          obtain ⟨howned, hn, hrest⟩ := hw
          rw [Withdraws, hsame x (by simp)]
          refine ⟨howned, hhead x rfl howned hn,
            ih (fun z hz => hsame z (by simp [hz])) ?_ ?_ ?_ hrest⟩
          · intro z hz _ hnz
            rw [htail z (by simp [Option.some.inj hz]), hnz]
          · exact fun z hz => htail z (by simp at hz; simp [hz])
          · exact fun z hz => hlinks z (by simp [hz])

/-! ## One step up -/

/-- **A slot at the end of a way was emptied**, and the nearest holder counts one child less. -/
structure Emptied (C : Chart) (o : Outline) (n : Slot → Nat) (x : Slot) (above : List Slot)
    (o' : Outline) (n' : Slot → Nat) : Prop where
  /-- The outline is the same but for the slot. -/
  outline {t : Slot} : C.IsTable t.table → o' t = Function.update o x .absent t
  /-- One count is lowered. -/
  live {t : Slot} : C.IsTable t.table → t ≠ x → n' t = o.recounted n above (· - 1) t

namespace Emptied

variable {above : List Slot} {table : Frame}

lemma outline_of_ne (hem : C.Emptied o n x above o' n') {t : Slot} (ht : C.IsTable t.table)
    (hne : t ≠ x) : o' t = o t := by
  rw [hem.outline ht, Function.update_of_ne hne]

/-- The holders stand in tables higher up. -/
lemma mem_above (hfit : C.Fits o) (hroot : C.IsRoot root) (hl : o.Leads root va above x.table h)
    {z : Slot} (hz : z ∈ above) :
    C.Links o z (o z).frame ∧ z ≠ x ∧ ∃ k, h ≤ k ∧ C.height z.table = some (k + 1) := by
  obtain ⟨hlinks, k, hk, hheight⟩ := hfit.links_of_mem_holders hroot hl hz
  refine ⟨hlinks, ?_, k, hk, hheight⟩
  rintro rfl
  have heq := hheight.symm.trans (hfit.height_of_leads hroot hl)
  simp only [Option.some.injEq] at heq
  omega

lemma leads (hem : C.Emptied o n x above o' n') (hfit : C.Fits o) (hroot : C.IsRoot root)
    (hl : o.Leads root va (x :: above) table h) : o'.Leads root va above x.table (h + 1) := by
  refine hl.uncons.1.congr fun z hz => ?_
  obtain ⟨-, hne, k, -, hk⟩ := mem_above hfit hroot hl.uncons.1 hz
  exact hem.outline_of_ne ⟨k + 1, hk⟩ hne

/-- At most the table above is empty now. -/
lemma busy (hem : C.Emptied o n x above o' n') (hbusy : C.BusyBut lowest o n (some x)) :
    (C.drop table).BusyBut lowest o' n' above.head? := by
  intro t f k hl howned hf hk hzero
  have ht := (links_drop.mp hl).1
  have htable := ht.table
  have hne : t ≠ x := by
    rintro rfl
    have hpresent := ht.present
    rw [hem.outline htable, Function.update_self] at hpresent
    cases hpresent
  rw [hem.outline_of_ne htable hne] at howned
  have htold := ht.congr (hem.outline_of_ne htable hne).symm
  rw [hem.live htable hne, Outline.recounted] at hzero
  split at hzero
  case isTrue hhead => exact hhead.1
  case isFalse =>
    have heq := hbusy t f k htold howned (height_of_drop hf).2 hk hzero
    exact absurd (Option.some.inj heq).symm hne

/-- An empty table led nowhere, so no address notices that it is gone. -/
lemma unseen (hem : C.Emptied o n x above o' n') (hfit : C.Fits o) (hroot : C.IsRoot root)
    (hl : o.Leads root va (x :: above) table h) (hzero : o.count table = 0) : C.Unseen o o' := by
  intro root' va' hroot'
  obtain ⟨hlinks, hx⟩ := hfit.links_of_leads hroot hl
  rw [(hfit.write canWrite_absent).resolve_congr (.of_eq fun t ht => hem.outline ht) hroot']
  refine hfit.resolve_write hx (fun va' => ?_) hroot'
  rw [← hlinks.frame] at hzero
  rw [Outline.follow_absent, Outline.follow_empty hzero hlinks.isTable]

/-- The links are the same but for the one to the table that is gone. -/
lemma links_iff (hem : C.Emptied o n x above o' n') (hzero : o.count table = 0) {t : Slot}
    {f : Frame} : (C.drop table).Links o' t f ↔ C.Links o t f ∧ t ≠ x := by
  rw [links_drop]
  constructor
  · rintro ⟨ht, -⟩
    have hne : t ≠ x := by
      rintro rfl
      have hpresent := ht.present
      rw [hem.outline ht.table, Function.update_self] at hpresent
      cases hpresent
    exact ⟨ht.congr (hem.outline_of_ne ht.table hne).symm, hne⟩
  · rintro ⟨ht, hne⟩
    refine ⟨ht.congr (hem.outline_of_ne ht.table hne), ?_⟩
    rintro rfl
    exact ht.ne_of_not_present (Outline.count_eq_zero_iff.mp hzero t.index) rfl

/-- The table goes from the chart to the free frames. -/
lemma evolves (hem : C.Emptied s.memory.outline s.memory.live x above s'.memory.outline
      s'.memory.live) (hfit : C.Fits s.memory.outline) (hroot : C.IsRoot root)
    (hl : s.memory.outline.Leads root va (x :: above) table h)
    (howned : (s.memory.outline x).owned = true)
    (hzero : ¬ C.lending → s.memory.outline.count table = 0)
    (hfree : freeFrames s' = insert table (freeFrames s)) :
    C.Evolves (C.drop table) root va s s' := by
  obtain ⟨hlinks, hx⟩ := hfit.links_of_leads hroot hl
  refine { toKin := .drop (hfit.not_isRoot hlinks), conserved := ?_, rooted := ?_, borrowed := ?_,
           aside := ?_ }
  · intro f
    rw [isTable_drop, hfree, Finset.mem_insert]
    rcases eq_or_ne f table with rfl | hne
    · simp [hfit.isTable_of_links hlinks]
    · simp [hne]
  · intro hlending hrooted f hf
    obtain ⟨hne, hf⟩ := isTable_drop.mp hf
    rcases hrooted f hf with hisRoot | hforeign | ⟨t, ht, htowned⟩
    · exact .inl ((height_drop_of_ne hne).trans hisRoot)
    · exact .inr (.inl hforeign)
    · have htx : t ≠ x := by
        rintro rfl
        exact hne (ht.unique hlinks)
      refine .inr (.inr ⟨t, (hem.links_iff (hzero hlending)).mpr ⟨ht, htx⟩, ?_⟩)
      rwa [hem.outline_of_ne ht.table htx]
  · intro hlending t f
    rw [Borrows, Borrows, hem.links_iff (hzero hlending), and_assoc]
    refine and_congr_right fun ht => ?_
    rcases eq_or_ne t x with rfl | htx
    · exact ⟨fun hb => absurd rfl hb.1, fun hunowned => by rw [howned] at hunowned; cases hunowned⟩
    · rw [hem.outline_of_ne ht.table htx]
      exact and_iff_right htx
  · intro t ht hne habsent
    have htx : t ≠ x := by
      rintro rfl
      obtain rfl : h = 2 := Nat.succ.inj (Option.some.inj (hx.symm.trans ht))
      exact hne (Way.ofHolder hroot hl).slot_of_rootHeight
    rwa [hem.outline_of_ne ⟨_, ht⟩ htx]

/-- **A release withdraws the same from the slot on as from its nearest holder on**, once the holder
counts one child less.  The chart may have changed below the holders. -/
theorem withdraws_iff (hem : C.Emptied o n x above o' n') (hfit : C.Fits o) (hroot : C.IsRoot root)
    (hl : o.Leads root va above x.table h)
    (hpos : ∀ z, above.head? = some z → (o z).owned = true → n z ≠ 0)
    (hlinks : ∀ z ∈ above, ∀ t, C'.Links o' t (o z).frame ↔ C.Links o t (o z).frame) :
    C'.Withdraws o' n' 0 above ↔ C.Withdraws o n 1 above := by
  have hsame : ∀ z ∈ above, o' z = o z := by
    intro z hz
    obtain ⟨-, hne, k, -, hk⟩ := mem_above hfit hroot hl hz
    exact hem.outline_of_ne ⟨k + 1, hk⟩ hne
  have hlive : ∀ z ∈ above, n' z = o.recounted n above (· - 1) z := by
    intro z hz
    obtain ⟨-, hne, k, -, hk⟩ := mem_above hfit hroot hl hz
    exact hem.live ⟨k + 1, hk⟩ hne
  -- The nearest holder is recounted, and the holders above it are not.
  have hhead : ∀ z, above.head? = some z → (o z).owned = true → n' z = n z - 1 := by
    intro z hz howned
    rw [hlive z (List.mem_of_mem_head? hz), Outline.recounted, if_pos ⟨hz, howned⟩]
  have htail : ∀ z ∈ above.tail, n' z = n z := by
    intro z hz
    cases above with
    | nil => cases hz
    | cons y rest =>
        obtain ⟨-, hne, -⟩ := mem_above hfit hroot hl.uncons.1 hz
        rw [hlive z (List.mem_cons_of_mem y hz), Outline.recounted, if_neg]
        exact fun hand => hne (Option.some.inj hand.1).symm
  constructor
  · refine withdraws_congr (fun z hz => (hsame z hz).symm) ?_ (fun z hz => (htail z hz).symm) ?_
    · intro z hz howned hzero
      rw [hsame z (List.mem_of_mem_head? hz)] at howned
      have := hhead z hz howned
      have := hpos z hz howned
      omega
    · intro z hz t _ ht
      rw [hsame z hz] at ht ⊢
      exact (hlinks z hz t).mp ht
  · refine withdraws_congr hsame ?_ htail fun z hz t _ => (hlinks z hz t).mpr
    intro z hz howned hone
    have := hhead z hz howned
    omega

/-- The table that the slot linked is no longer on the chart. -/
lemma withdraws_drop_iff (hem : C.Emptied o n x above o' n') (hfit : C.Fits o)
    (hroot : C.IsRoot root) (hl : o.Leads root va (x :: above) table h)
    (hbusy : C.BusyBut lowest o n (some x)) :
    (C.drop table).Withdraws o' n' 0 above ↔ C.Withdraws o n 1 above := by
  obtain ⟨-, hx⟩ := hfit.links_of_leads hroot hl
  refine hem.withdraws_iff hfit hroot hl.uncons.1 ?_ ?_
  · intro z hz howned hzero
    obtain ⟨rest, rfl⟩ := List.head?_eq_some_iff.mp hz
    obtain ⟨hlinks, hheight⟩ := hfit.links_of_leads hroot hl.uncons.1
    obtain ⟨-, hne, -⟩ := mem_above hfit hroot hl.uncons.1 (List.mem_cons_self ..)
    exact hne (Option.some.inj (hbusy z _ (h + 1) hlinks howned (hfit.child hlinks hheight)
      (.inl (Nat.succ_pos h)) hzero)).symm
  · intro z hz t
    obtain ⟨hlinks, -, k, hk, hheight⟩ := mem_above hfit hroot hl.uncons.1 hz
    constructor
    · intro ht
      have hold := (links_drop.mp ht).1
      have htable := hold.table
      refine hold.congr (hem.outline_of_ne htable ?_).symm
      rintro rfl
      have hpresent := hold.present
      rw [hem.outline htable, Function.update_self] at hpresent
      cases hpresent
    · intro ht
      -- Both slots link the same table, so they stand at one height.
      have htheight : C.height t.table = some (k + 1) := by
        obtain ⟨j, hj⟩ := ht.inner
        have heq := (hfit.child ht hj).symm.trans (hfit.child hlinks hheight)
        rw [hj, Option.some.inj heq]
      have hne : t ≠ x := by
        rintro rfl
        rw [hx, Option.some.injEq] at htheight
        omega
      refine links_drop.mpr ⟨ht.congr (hem.outline_of_ne ⟨k + 1, htheight⟩ hne), ?_⟩
      intro heq
      have hf := hfit.height_of_leads hroot hl
      rw [← heq, htheight, Option.some.injEq] at hf
      omega

/-- The slot was one of a page, and links nothing. -/
lemma withdraws_page_iff (hem : C.Emptied o n x above o' n') (hfit : C.Fits o)
    (hroot : C.IsRoot root) (hl : o.Leads root va above x.table 0)
    (hpos : ∀ z, above.head? = some z → (o z).owned = true → n z ≠ 0) :
    C.Withdraws o' n' 0 above ↔ C.Withdraws o n 1 above := by
  refine hem.withdraws_iff hfit hroot hl hpos fun z hz t => ?_
  have hsame : (∃ k, C.height t.table = some (k + 1)) → o' t = o t := by
    rintro ⟨k, hk⟩
    refine hem.outline_of_ne ⟨k + 1, hk⟩ ?_
    rintro rfl
    rw [hfit.height_of_leads hroot hl] at hk
    cases hk
  exact ⟨fun ht => ht.congr (hsame ht.inner).symm, fun ht => ht.congr (hsame ht.inner)⟩

end Emptied

end Chart

namespace Space

open Chart KernelMemory.Action

variable {C : Chart} {s : Store A} {root table : Frame} {va : VirtAddr} {h k : Nat} {x : Slot}
  {above holders : List Slot} {excuse : Panic → Prop} {lowest : Prop}

/-! ## One step up -/

lemma room_pred {m : Memory} : m.Room holders (· - 1) :=
  fun x _ _ => Nat.lt_of_le_of_lt (Nat.sub_le _ _) (m.entry x).liveChildren.isLt

/-- A slot in use is emptied. -/
lemma vacate_describes {path : Path} (hd : C.Describes s)
    (hway : C.Way s.memory.outline root va h path)
    (hold : (s.memory.entry path.slot).present = true) (hexcuse : C.lending → ∀ p, excuse p) :
    Ensures (vacate path) excuse s fun _ s' =>
      s' = { s with memory := s.memory.put path .absent (· - 1) } ∧ C.Describes s' := by
  refine (vacate_ensures (hd.ready hway) hold (hd.live_ne_zero hway hold hexcuse)).mono ?_
  rintro _ s' rfl
  refine ⟨rfl, hd.put hway room_pred canWrite_absent ?_ fun _ _ htable => by cases htable⟩
  have hcount := Outline.count_vacate (o := s.memory.outline) (s := path.slot) (by simpa using hold)
  rw [Entry.outline_absent]
  omega

/-- The slot that links a table is emptied. -/
lemma vacate_holder_ensures (hd : C.Describes s) (hroot : C.IsRoot root)
    (hl : s.memory.outline.Leads root va (x :: above) table h)
    (hexcuse : C.lending → ∀ p, excuse p) :
    Ensures (vacate { slot := x, holders := above }) excuse s fun _ s' =>
      s' = { s with memory := s.memory.put { slot := x, holders := above } .absent (· - 1) } ∧
        C.Describes s' :=
  vacate_describes hd (.ofHolder hroot hl)
    (by simpa using (hd.fits.links_of_leads hroot hl).1.present) hexcuse

lemma empty_iff {e : Entry} :
    (e.owned && e.liveChildren == 0) = true ↔ e.owned = true ∧ e.liveChildren.val = 0 := by
  rw [Bool.and_eq_true, beq_iff_eq, Fin.ext_iff]
  rfl

/-- Memory after the edit has the slot emptied, also where only the tables are known. -/
lemma emptied_put {m m' : Memory} {path : Path} (hfit : C.Fits m.outline)
    (hway : C.Way m.outline root va h path)
    (hsame : C.SameTables (m.put path .absent (· - 1)) m') :
    C.Emptied m.outline m.live path.slot path.holders m'.outline m'.live := by
  constructor
  · intro t ht
    rw [hsame.outline t ht, Memory.outline_put (hway.head_ne hfit), Entry.outline_absent]
  · intro t ht hne
    rw [hsame.live t ht]
    exact Memory.live_put room_pred hne

omit [LawfulSource A] in
/-- The source takes a frame back between two states. -/
def TakesBack (f : Frame) (s s' : Store A) : Prop :=
  ∃ s₁ s₂, s₁.source = s.source ∧ (FrameSource.free f).run s₁ = .ok () s₂ ∧ s'.source = s₂.source

/-- **One step up**: a table that is linked from one slot is unlinked and given back. -/
theorem unlink_ensures {β : Type} {next : Action (Store A) β} {post : β → Store A → Prop}
    {event : Log.Event} (hd : C.Describes s) (hroot : C.IsRoot root)
    (hl : s.memory.outline.Leads root va (x :: above) table h)
    (howned : (s.memory.entry x).owned = true)
    (honly : ∀ t, C.Links s.memory.outline t table → t = x)
    (hexcuse : C.lending → ∀ p, excuse p)
    (hnext : ∀ s', (C.drop table).Describes s' →
      C.Emptied s.memory.outline s.memory.live x above s'.memory.outline s'.memory.live →
      freeFrames s' = insert table (freeFrames s) →
      TakesBack table s s' → Ensures next excuse s' post) :
    Ensures (do
      vacate { slot := x, holders := above }
      FrameSource.free table
      Store.note event
      next) excuse s post := by
  have hlinks := (hd.fits.links_of_leads hroot hl).1
  refine (vacate_holder_ensures hd hroot hl hexcuse).bind ?_
  rintro _ s₁ ⟨rfl, hd₁⟩
  have hway := Way.ofHolder hroot hl
  have hem := emptied_put hd.fits hway (.refl _)
  have hnone : ∀ t, ¬ C.Links (Memory.outline
      (s.memory.put { slot := x, holders := above } .absent (· - 1))) t table := by
    intro t ht
    have htable := ht.table
    rcases links_update (ht.congr (hem.outline htable).symm) with ⟨-, -, hcontra, -⟩ | ⟨hne, ht⟩
    · cases hcontra
    · exact hne (honly t ht)
  obtain ⟨s₂, hrun, hd₂, hsame, hfree⟩ := hd₁.give (hd.fits.isTable_of_links hlinks)
    (hd.fits.ours hlinks (by simpa using howned)) hnone
  refine .bind_run hrun (.bind_run Store.run_note ?_)
  have hgives : TakesBack table s { s₂ with log := s₂.log.push event } :=
    ⟨{ s with memory := s.memory.put { slot := x, holders := above } .absent (· - 1) }, s₂, rfl,
      hrun, rfl⟩
  refine hnext _ (hd₂.of_eq rfl rfl) (emptied_put hd.fits hway hsame) ?_ hgives
  have hnote : freeFrames { s₂ with log := s₂.log.push event } = freeFrames s₂ :=
    hd₂.freeFrames_of_eq rfl rfl
  rw [hnote, hfree, hd.freeFrames_put hway]

/-! ## All the way up -/

lemma not_lends {o : Outline} {y : Slot} (hfit : C.Fits o) (hroot : C.IsRoot root)
    (hl : o.Leads root va (x :: y :: above) table h) : ¬ C.Lends x :=
  fun hlends => hfit.not_isRoot (hfit.links_of_leads hroot hl.uncons.1).1 hlends.2

/-- The nearest holder is the only slot that links its table, unless the table is withdrawn. -/
lemma only_of_not_withdraws {o : Outline} {n : Slot → Nat} (hfit : C.Fits o)
    (hroot : C.IsRoot root) (hl : o.Leads root va (x :: above) table h)
    (howned : (o x).owned = true) (hn : n x = k) (hkeep : ¬ C.Withdraws o n k (x :: above))
    {t : Slot} (ht : C.Links o t table) : t = x := by
  obtain ⟨hlinks, hx⟩ := hfit.links_of_leads hroot hl
  rcases hfit.sole hlinks howned ht with heq | ⟨hlends, -⟩
  · exact heq
  · by_contra hne
    cases above with
    | nil => exact hkeep ⟨howned, hn, t, hne, hlinks.frame ▸ ht⟩
    | cons y rest => exact not_lends hfit hroot hl hlends

/-- **A release that withdraws no table** keeps the invariant, leaves no owned table empty, and is
not noticed by any address. -/
theorem release_keeps (hd : C.Describes s) (hroot : C.IsRoot root)
    (hl : s.memory.outline.Leads root va holders table h)
    (hbusy : C.BusyBut lowest s.memory.outline s.memory.live holders.head?)
    (hkeep : ¬ C.Withdraws s.memory.outline s.memory.live 0 holders)
    (hexcuse : C.lending → ∀ p, excuse p) :
    Ensures (release table holders) excuse s fun _ s' => ∃ C', C.Evolves C' root va s s' ∧
      C'.Describes s' ∧ C'.Busy lowest s'.memory.outline s'.memory.live ∧
      (¬ C.lending → C.Unseen s.memory.outline s'.memory.outline) := by
  induction holders generalizing table h C s with
  | nil => exact .pure ⟨C, .refl .., hd, hbusy, fun _ => .refl _⟩
  | cons x above ih =>
      obtain ⟨hlinks, hx⟩ := hd.fits.links_of_leads hroot hl
      refine .bind_run (Store.run_entry (hd.shown ⟨_, hx⟩)) ?_
      by_cases hempty : (s.memory.entry x).owned = true ∧ s.memory.live x = 0
      · rw [if_pos (empty_iff.mpr hempty)]
        obtain ⟨howned, hzero⟩ := hempty
        have howned' : (s.memory.outline x).owned = true := by simpa using howned
        have hcount : ¬ C.lending → s.memory.outline.count table = 0 := fun hlending =>
          (hd.counted x table hlinks howned' fun hlends => hlending hlends.1) ▸ hzero
        refine unlink_ensures hd hroot hl howned
          (fun t => only_of_not_withdraws hd.fits hroot hl howned' hzero hkeep) hexcuse ?_
        intro s₁ hd₁ hem hfree _
        have hev := hem.evolves hd.fits hroot hl howned' hcount hfree
        refine (ih hd₁ ((hev.isRoot root).mpr hroot) (hem.leads hd.fits hroot hl) (hem.busy hbusy)
          ?_ hexcuse).mono ?_
        · rw [hem.withdraws_drop_iff hd.fits hroot hl hbusy]
          intro hw
          cases above with
          | nil => exact hw
          | cons y rest => exact hkeep ⟨howned', hzero, hw⟩
        · rintro _ s₂ ⟨C', hev', hd₂, hbusy₂, hunseen⟩
          refine ⟨C', hev.trans hev', hd₂, hbusy₂, fun hlending => ?_⟩
          exact (hem.unseen hd.fits hroot hl (hcount hlending)).trans hev.toKin (hunseen hlending)
      · rw [if_neg fun htest => hempty (empty_iff.mp htest)]
        refine .pure ⟨C, .refl .., hd, ?_, fun _ => .refl _⟩
        exact hbusy.settle fun f k _ howned _ _ hzero => hempty ⟨by simpa using howned, hzero⟩

/-- The last step of a release that withdraws a table. -/
lemma withdraw_ensures {event : Log.Event} (hd : C.Describes s) (hroot : C.IsRoot root)
    (hl : s.memory.outline.Leads root va [x] table h) (howned : (s.memory.outline x).owned = true)
    {t : Slot} (hne : t ≠ x) (ht : C.Links s.memory.outline t table)
    (hexcuse : C.lending → ∀ p, excuse p) :
    Ensures (do
      vacate { slot := x }
      FrameSource.free table
      Store.note event) excuse s fun _ s' => C.IsRoot t.table ∧
        (s'.memory.entry t).isTable = true ∧ (s'.memory.entry t).frame = table ∧
        table ∈ freeFrames s' := by
  have hlinks := (hd.fits.links_of_leads hroot hl).1
  have htable := ht.table
  refine (vacate_holder_ensures hd hroot hl hexcuse).bind ?_
  rintro _ s₁ ⟨rfl, hd₁⟩
  obtain ⟨held, hheld, hmem⟩ := hd₁.held
  obtain ⟨s₂, hrun, hheld₂, hfree, -, hagree⟩ := LawfulSource.free_returns hheld
    (hmem table (hd.fits.isTable_of_links hlinks) (hd.fits.ours hlinks howned))
  have hsame := hagree.anti fun _ hf => hd₁.notBooks hf
  have hentry := (emptied_put hd.fits (.ofHolder hroot hl) hsame).outline_of_ne htable hne
  have hlends : C.Lends t := by
    rcases hd.fits.sole hlinks howned ht with heq | ⟨-, hlends, -⟩
    · exact absurd heq hne
    · exact hlends
  refine .bind_run hrun (.of_run Store.run_note ⟨hlends.2, ?_, ?_, ?_⟩)
  · rw [← Entry.outline_isTable, ← Memory.outline_apply]
    exact hentry ▸ ht.isTable
  · rw [← Entry.outline_frame, ← Memory.outline_apply]
    exact hentry ▸ ht.frame
  · obtain ⟨-, hfree'⟩ := LawfulSource.congr hheld₂
      (show ({ s₂ with log := s₂.log.push event } : Store A).source = s₂.source from rfl) (.refl _)
    rw [hfree', hfree]
    exact Finset.mem_insert_self table _

/-- **A release that withdraws a table** frees it while another slot still links it. -/
theorem release_withdraws (hd : C.Describes s) (hroot : C.IsRoot root)
    (hl : s.memory.outline.Leads root va holders table h)
    (hbusy : C.BusyBut lowest s.memory.outline s.memory.live holders.head?)
    (hw : C.Withdraws s.memory.outline s.memory.live 0 holders)
    (hexcuse : C.lending → ∀ p, excuse p) :
    Ensures (release table holders) excuse s fun _ s' => ∃ t, C.IsRoot t.table ∧
      (s'.memory.entry t).isTable = true ∧ (s'.memory.entry t).frame ∈ freeFrames s' := by
  induction holders generalizing table h C s with
  | nil => exact hw.elim
  | cons x above ih =>
      obtain ⟨hlinks, hx⟩ := hd.fits.links_of_leads hroot hl
      refine .bind_run (Store.run_entry (hd.shown ⟨_, hx⟩)) ?_
      cases above with
      | nil =>
          obtain ⟨howned, hzero, t, hne, ht⟩ := hw
          rw [if_pos (empty_iff.mpr ⟨by simpa using howned, hzero⟩)]
          rw [hlinks.frame] at ht
          refine (withdraw_ensures hd hroot hl howned hne ht hexcuse).mono ?_
          rintro _ s' ⟨hroot', htable, hframe, hfree⟩
          exact ⟨t, hroot', htable, hframe ▸ hfree⟩
      | cons y rest =>
          obtain ⟨howned, hzero, hrest⟩ := hw
          have howned' : (s.memory.entry x).owned = true := by simpa using howned
          rw [if_pos (empty_iff.mpr ⟨howned', hzero⟩)]
          refine unlink_ensures hd hroot hl howned'
            (fun t => hd.fits.eq_of_links hlinks howned (not_lends hd.fits hroot hl)) hexcuse ?_
          intro s₁ hd₁ hem _ _
          have hkin : C.Kin (C.drop table) := .drop (hd.fits.not_isRoot hlinks)
          refine (ih hd₁ ((hkin.isRoot root).mpr hroot) (hem.leads hd.fits hroot hl)
            (hem.busy hbusy) ((hem.withdraws_drop_iff hd.fits hroot hl hbusy).mpr hrest)
            hexcuse).mono ?_
          rintro _ s₂ ⟨t, hroot', htable, hfree⟩
          exact ⟨t, (hkin.isRoot t.table).mp hroot', htable, hfree⟩

end Space

end KernelMemory
