import KernelMemory.Proofs.Frames.Lawful
import KernelMemory.Proofs.Space.Edits
import KernelMemory.Space.Map

/-!
# Where operations on a root tread

Whatever stands in the entries of a root's tables, an operation on the root writes to nothing but
these tables, to frames that were free, and to the books of the source.  Nothing needs to be known
of counts, and nothing of entries that are not present; but no frame may serve as tables of two
heights, or else a page that is mapped could become a link to some other frame.

* `Space.Grounds` — what is known of the frames while the tables of a root change.
* `Grounds.Describes` — a state is as the grounds say; **`Grounds.Treads`** — a step on them.
* **`Space.release_treads`**, **`Space.reach_treads`** — up and down along a way.
* **`AddressSpace.map_treads`**, **`AddressSpace.unmap_treads`** — the operations.
-/

namespace KernelMemory

open KernelMemory.Action

/-! ## Accesses that may panic -/

namespace Store

variable {A : Type} {s : Store A} {slot : Slot} {f : Frame} {e : Entry}

lemma lookup_returns {α : Type} {look : Memory → Except Panic α} :
    Ensures (Store.lookup look : Action (Store A) α) anyPanic s fun a s' =>
      look s.memory = .ok a ∧ s' = s :=
  .bind_run (EStateM.run_get s) (ofExcept_ensures fun _ _ => trivial)

lemma entry_ensures : Ensures (Store.entry slot) anyPanic s fun e s' =>
    e = s.memory.entry slot ∧ s' = s := by
  refine lookup_returns.mono fun e s' ⟨hread, hs⟩ => ⟨?_, hs⟩
  obtain ⟨_, -, he⟩ := Checked.bind_eq_ok.mp hread
  exact (Except.ok.inj he).symm

lemma change_ensures {change : Memory → Memory} :
    Ensures (do Store.touch f; Store.change change : Action (Store A) Unit) anyPanic s
      fun _ s' => s' = { s with memory := change s.memory } := by
  refine lookup_returns.bind fun _ s' ⟨_, hs⟩ => ?_
  subst hs
  exact .of_run rfl rfl

lemma setEntry_ensures : Ensures (Store.setEntry slot e) anyPanic s fun _ s' =>
    s' = { s with memory := s.memory.setEntry slot e } :=
  change_ensures

lemma clearFrame_ensures : Ensures (Store.clearFrame f) anyPanic s fun _ s' =>
    s' = { s with memory := s.memory.clear f } :=
  change_ensures

end Store

/-- A way in memory goes on below an entry that links a table. -/
lemma Memory.leads_down {m : Memory} {root : Frame} {va : VirtAddr} {h : Nat} {path : Path}
    (hl : m.outline.Leads root va path.holders path.slot.table (h + 1))
    (hindex : path.slot.index = va.index (h + 1)) (hisTable : (m.entry path.slot).isTable = true) :
    m.outline.Leads root va (path.slot :: path.holders) (m.entry path.slot).frame h := by
  have hdown := hl.through hindex (by simpa using hisTable)
  rwa [Memory.outline_apply, Entry.outline_frame] at hdown

/-- Clearing a frame leaves the others alone. -/
lemma Memory.agreesOn_clear {m : Memory} {f : Frame} : m.AgreesOn (· ≠ f) (m.clear f) :=
  ⟨rfl, fun x hx => by rw [Memory.word_clear, if_neg (Ne.symm hx)]⟩

namespace Space

/-! ## Grounds -/

/-- **What is known of the frames** while the tables of a root change. -/
structure Grounds where
  root : Frame
  /-- The heights of the tables. -/
  height : Frame → Option Nat
  /-- The frames that were handed out and not given back. -/
  held : Finset Frame
  /-- The height from which on no table has been given back. -/
  kept : Nat := 0
  /-- The frames that are left alone. -/
  Aside : Frame → Prop

namespace Grounds

variable {A : Type} [FrameSource A] [LawfulSource A] {G G' G'' : Grounds} {s s' s'' : Store A}
  {f t : Frame} {h : Nat} {x : Slot} {e : Entry} {va : VirtAddr} {holders : List Slot}

/-- An entry that may stand in a table of a height: if it links a table, then one of the height
below. -/
def Allows (G : Grounds) (h : Nat) (e : Entry) : Prop :=
  ∀ k, h = k + 1 → e.isTable = true →
    G.height e.frame = some k ∧ (e.owned = true → G.kept ≤ k → e.frame ∈ G.held)

/-- **A state is as the grounds say.** -/
structure Describes (G : Grounds) (s : Store A) : Prop where
  root : G.height G.root = some rootHeight
  /-- Links of tables lead to tables. -/
  allows {x : Slot} {h : Nat} : G.height x.table = some h → G.Allows h (s.memory.entry x)
  holds : Holds s G.held
  notFree {t : Frame} {h : Nat} : G.height t = some h → G.kept ≤ h → t ∉ freeFrames s
  notBooks {t : Frame} {h : Nat} : G.height t = some h → ¬ Books s.source t
  /-- What is left alone is no table, is not free and holds no books. -/
  aside {f : Frame} : G.Aside f → G.height f = none ∧ f ∉ freeFrames s ∧ ¬ Books s.source f

/-- **A step on the grounds**: tables come, and go back to the source, and what is to be left alone
is left alone. -/
structure Treads (G : Grounds) (s : Store A) (G' : Grounds) (s' : Store A) : Prop where
  describes : G'.Describes s'
  root : G'.root = G.root
  aside : G'.Aside = G.Aside
  held {f : Frame} : G.Aside f → f ∈ G.held → f ∈ G'.held
  memory : s.memory.AgreesOn G.Aside s'.memory

lemma Treads.refl (hd : G.Describes s) : G.Treads s G s :=
  ⟨hd, rfl, rfl, fun _ h => h, .refl _⟩

lemma Treads.trans (h : G.Treads s G' s') (h' : G'.Treads s' G'' s'') : G.Treads s G'' s'' where
  describes := h'.describes
  root := h'.root.trans h.root
  aside := h'.aside.trans h.aside
  held hf hheld := h'.held (h.aside ▸ hf) (h.held hf hheld)
  memory := h.memory.trans (h.aside ▸ h'.memory)

/-! ### Ways -/

/-- The tables on a way are tables of the grounds. -/
lemma Describes.height_of_leads (hd : G.Describes s)
    (hl : s.memory.outline.Leads G.root va holders t h) : G.height t = some h := by
  induction hl with
  | root => exact hd.root
  | down _ htable ih =>
      rw [Memory.outline_apply, Entry.outline_frame]
      exact (hd.allows ih _ rfl (by simpa using htable)).1

/-- The holders of a way stand in tables above its end. -/
lemma Describes.height_of_mem (hd : G.Describes s)
    (hl : s.memory.outline.Leads G.root va holders t h) (hx : x ∈ holders) :
    ∃ k, h < k ∧ G.height x.table = some k := by
  induction hl with
  | root => cases hx
  | @down _ _ h hl _ ih =>
      rcases List.mem_cons.mp hx with rfl | hx
      · exact ⟨h + 1, Nat.lt_succ_self h, hd.height_of_leads hl⟩
      · obtain ⟨k, hk, hheight⟩ := ih hx
        exact ⟨k, Nat.lt_of_succ_lt hk, hheight⟩

/-- A way stays the same if its tables do, but for the entries at its end and below. -/
lemma Describes.leads_congr {m' : Memory} (hd : G.Describes s)
    (hl : s.memory.outline.Leads G.root va holders t h)
    (hsame : ∀ x k, G.height x.table = some k → h < k → m'.outline x = s.memory.outline x) :
    m'.outline.Leads G.root va holders t h := by
  refine hl.congr fun x hx => ?_
  obtain ⟨k, hk, hheight⟩ := hd.height_of_mem hl hx
  exact hsame x k hheight hk

/-- A way stays the same if all tables do. -/
lemma Describes.leads_agrees {on : Frame → Prop} {m' : Memory} (hd : G.Describes s)
    (hl : s.memory.outline.Leads G.root va holders t h) (hm : s.memory.AgreesOn on m')
    (hon : ∀ {t h}, G.height t = some h → on t) : m'.outline.Leads G.root va holders t h := by
  refine hd.leads_congr hl fun x k hx _ => ?_
  rw [Memory.outline_apply, Memory.outline_apply, hm.entry (hon hx)]

/-- A way stays the same if an entry at its end changes. -/
lemma Describes.leads_update {m' : Memory} (hd : G.Describes s)
    (hl : s.memory.outline.Leads G.root va holders x.table h)
    (hm : m'.outline = Function.update s.memory.outline x e) :
    m'.outline.Leads G.root va holders x.table h := by
  refine hd.leads_congr hl fun y k hy hk => ?_
  rw [hm, Function.update_of_ne]
  rintro rfl
  have heq := hy.symm.trans (hd.height_of_leads hl)
  rw [Option.some.injEq] at heq
  omega

/-! ### Memory -/

/-- Memory changes in tables only, to entries that may stand there. -/
lemma Describes.rewrite {m' : Memory} {log : Array Log.Event} (hd : G.Describes s)
    (hm : s.memory.AgreesOn (fun f => ∀ h, G.height f ≠ some h) m')
    (hallows : ∀ x h, G.height x.table = some h → G.Allows h (m'.entry x)) :
    G.Treads s G { s with memory := m', log } := by
  have hbooks : s.memory.AgreesOn (Books s.source) m' :=
    hm.anti fun f hf h hheight => hd.notBooks hheight hf
  have haside : s.memory.AgreesOn G.Aside m' :=
    hm.anti fun f hf h hheight => by
      rw [(hd.aside hf).1] at hheight
      cases hheight
  obtain ⟨hholds, hfree⟩ : Holds { s with memory := m', log } G.held ∧ _ :=
    LawfulSource.congr hd.holds rfl hbooks
  refine ⟨⟨hd.root, hallows _ _, hholds, ?_, hd.notBooks, ?_⟩, rfl, rfl, fun _ h => h, haside⟩
  · rw [hfree]
    exact hd.notFree
  · rw [hfree]
    exact hd.aside

lemma Describes.setEntry (hd : G.Describes s) (hx : G.height x.table = some h)
    (he : G.Allows h e) : G.Treads s G { s with memory := s.memory.setEntry x e } := by
  refine hd.rewrite ⟨rfl, fun y hy => ?_⟩ fun y k hy => ?_
  · rw [Memory.setEntry, Memory.word_setWord, if_neg]
    rintro rfl
    exact hy h hx
  · rw [Memory.entry_setEntry]
    split
    case isTrue heq =>
      subst heq
      obtain rfl : h = k := Option.some.inj (hx.symm.trans hy)
      exact he
    case isFalse => exact hd.allows hy

lemma Describes.note (hd : G.Describes s) (event : Log.Event) :
    Ensures (Store.note event) anyPanic s fun _ s' =>
      G.Treads s G s' ∧ s'.memory = s.memory :=
  .of_run rfl ⟨hd.rewrite (.refl _) fun _ _ => hd.allows, rfl⟩

/-- A count changes beside a link. -/
lemma Describes.recount (hd : G.Describes s) (hx : G.height x.table = some h)
    (howned : (s.memory.entry x).owned = true) (n : Fin 2048) :
    G.Treads s G
      { s with memory := s.memory.setEntry x { s.memory.entry x with liveChildren := n } } ∧
    (s.memory.setEntry x { s.memory.entry x with liveChildren := n }).outline =
      s.memory.outline := by
  refine ⟨hd.setEntry hx (hd.allows hx), funext fun y => ?_⟩
  rw [Memory.outline_apply, Memory.outline_apply, Memory.entry_setEntry]
  split
  case isTrue heq =>
    subst heq
    rw [Entry.outline, Entry.outline, if_pos howned, if_pos howned]
  case isFalse => rfl

/-! ### The source -/

/-- The source hands frames out and takes them back. -/
lemma Describes.trade {held : Finset Frame} {kept : Nat} (hd : G.Describes s)
    (hholds : Holds s' held) (hbooks : Books s'.source = Books s.source)
    (hm : s.memory.AgreesOn (fun f => ¬ Books s.source f) s'.memory)
    (htable : ∀ t h, G.height t = some h → kept ≤ h →
      G.kept ≤ h ∧ (t ∈ G.held → t ∈ held) ∧ (t ∈ freeFrames s' → t ∈ freeFrames s))
    (haside : ∀ f, G.Aside f →
      (f ∈ G.held → f ∈ held) ∧ (f ∈ freeFrames s' → f ∈ freeFrames s)) :
    G.Treads s { G with held, kept } s' := by
  have hallows : ∀ {x h}, G.height x.table = some h →
      Allows { G with held, kept } h (s'.memory.entry x) := by
    intro x h hx k hk hisTable
    rw [hm.entry (hd.notBooks hx)] at hisTable ⊢
    obtain ⟨hheight, hheld⟩ := hd.allows hx k hk hisTable
    refine ⟨hheight, fun howned hle => ?_⟩
    obtain ⟨hle', hin, -⟩ := htable _ k hheight hle
    exact hin (hheld howned hle')
  refine ⟨⟨hd.root, hallows, hholds, fun ht hle hfree => ?_, fun ht => ?_, fun hf => ?_⟩, rfl, rfl,
    fun hf => (haside _ hf).1, hm.anti fun f hf => (hd.aside hf).2.2⟩
  · obtain ⟨hle', -, hback⟩ := htable _ _ ht hle
    exact hd.notFree ht hle' (hback hfree)
  · rw [hbooks]
    exact hd.notBooks ht
  · obtain ⟨hheight, hfree, hnot⟩ := hd.aside hf
    exact ⟨hheight, fun hin => hfree ((haside _ hf).2 hin), hbooks ▸ hnot⟩

/-- A frame that was handed out and is not in use. -/
structure Fresh (G : Grounds) (s : Store A) (f : Frame) : Prop where
  height : G.height f = none
  held : f ∈ G.held
  notAside : ¬ G.Aside f
  notFree : f ∉ freeFrames s
  notBooks : ¬ Books s.source f

/-- A frame that is not in use may be left alone as well. -/
lemma Describes.spare (hd : G.Describes s) (hfresh : G.Fresh s f) :
    Describes { G with Aside := fun g => G.Aside g ∨ g = f } s := by
  refine ⟨hd.root, hd.allows, hd.holds, hd.notFree, hd.notBooks, fun hg => ?_⟩
  rcases hg with hg | rfl
  · exact hd.aside hg
  · exact ⟨hfresh.height, hfresh.notFree, hfresh.notBooks⟩

/-- **A request for a frame** is refused, or gives a frame that is not in use. -/
theorem Describes.alloc (hd : G.Describes s) (hkept : G.kept = 0) :
    Ensures (FrameSource.alloc : Action (Store A) _) anyPanic s fun r s' =>
      s.memory.AgreesOn (fun f => ¬ Books s.source f) s'.memory ∧ match r with
        | none => G.Treads s G s'
        | some f => G.Treads s { G with held := insert f G.held } s' ∧
            Fresh { G with held := insert f G.held } s' f := by
  refine ensures_run.mono fun r s' hrun => ?_
  cases r with
  | none =>
      obtain ⟨hholds, hfree, hbooks, hm⟩ := LawfulSource.alloc_none hd.holds hrun
      refine ⟨hm, hd.trade hholds hbooks hm (fun t h _ hle => ⟨hle, id, ?_⟩) fun f _ => ⟨id, ?_⟩⟩
      · exact fun hin => hfree ▸ hin
      · exact fun hin => hfree ▸ hin
  | some f =>
      obtain ⟨hf, hholds, hfree, hbooks, hm⟩ := LawfulSource.alloc_some hd.holds hrun
      have hback : ∀ g, g ∈ freeFrames s' → g ∈ freeFrames s := fun g hg => by
        rw [hfree] at hg
        exact Finset.mem_of_mem_erase hg
      refine ⟨hm, hd.trade hholds hbooks hm (fun t h _ hle => ?_) fun g _ => ?_, ?_⟩
      · exact ⟨hle, Finset.mem_insert_of_mem, hback t⟩
      · exact ⟨Finset.mem_insert_of_mem, hback g⟩
      · constructor
        case height =>
          cases hheight : G.height f with
          | none => rfl
          | some h => exact absurd hf (hd.notFree hheight (hkept ▸ Nat.zero_le h))
        case held => exact Finset.mem_insert_self f _
        case notAside => exact fun haside => (hd.aside haside).2.1 hf
        case notFree =>
          rw [hfree]
          exact Finset.notMem_erase f _
        case notBooks =>
          rw [hbooks]
          exact LawfulSource.notBooks hd.holds hf

/-- **A table is given back**, and after it only tables above it. -/
theorem Describes.free (hd : G.Describes s) (ht : G.height t = some h) (hkept : G.kept ≤ h)
    (hheld : t ∈ G.held) :
    Ensures (FrameSource.free t : Action (Store A) _) anyPanic s fun _ s' =>
      s.memory.AgreesOn (fun f => ¬ Books s.source f) s'.memory ∧
        G.Treads s { G with held := G.held.erase t, kept := h + 1 } s' := by
  obtain ⟨s', hrun, hholds, hfree, hbooks, hm⟩ := LawfulSource.free_returns hd.holds hheld
  have hother : ∀ g, g ≠ t → (g ∈ G.held → g ∈ G.held.erase t) ∧
      (g ∈ freeFrames s' → g ∈ freeFrames s) := by
    refine fun g hne => ⟨Finset.mem_erase_of_ne_of_mem hne, fun hg => ?_⟩
    rw [hfree] at hg
    exact Finset.mem_of_mem_insert_of_ne hg hne
  refine .of_run hrun ⟨hm, hd.trade hholds hbooks hm (fun g k hg hle => ?_) fun g hg => ?_⟩
  · refine ⟨by omega, hother g ?_⟩
    rintro rfl
    have heq := hg.symm.trans ht
    rw [Option.some.injEq] at heq
    omega
  · refine hother g ?_
    rintro rfl
    rw [(hd.aside hg).1] at ht
    cases ht

/-! ### New tables -/

/-- The grounds with a new table. -/
def add (G : Grounds) (f : Frame) (h : Nat) : Grounds :=
  { G with height := Function.update G.height f (some h) }

lemma height_add (hf : G.height f = none) (ht : G.height t = some h) (k : Nat) :
    (G.add f k).height t = some h := by
  have hne : t ≠ f := by
    rintro rfl
    rw [hf] at ht
    cases ht
  exact (Function.update_of_ne hne _ _).trans ht

lemma height_add_self (G : Grounds) (f : Frame) (h : Nat) : (G.add f h).height f = some h :=
  Function.update_self ..

lemma eq_or_of_height_add {k : Nat} (ht : (G.add f k).height t = some h) :
    t = f ∧ h = k ∨ G.height t = some h := by
  rcases eq_or_ne t f with rfl | hne
  · exact .inl ⟨rfl, Option.some.inj (ht.symm.trans (height_add_self ..))⟩
  · exact .inr ((Function.update_of_ne hne _ _).symm.trans ht)

lemma Allows.add (he : G.Allows h e) (hf : G.height f = none) (k : Nat) :
    (G.add f k).Allows h e := by
  intro j hj hisTable
  obtain ⟨hheight, hheld⟩ := he j hj hisTable
  exact ⟨height_add hf hheight k, hheld⟩

/-- **A fresh frame becomes a table** when it has been cleared. -/
theorem Describes.clear (hd : G.Describes s) (hfresh : G.Fresh s f) (h : Nat) :
    G.Treads s (G.add f h) { s with memory := s.memory.clear f } := by
  have hm : s.memory.AgreesOn (· ≠ f) (s.memory.clear f) := Memory.agreesOn_clear
  have hbooks : s.memory.AgreesOn (Books s.source) (s.memory.clear f) :=
    hm.anti fun g hg heq => hfresh.notBooks (heq ▸ hg)
  obtain ⟨hholds, hfree⟩ : Holds { s with memory := s.memory.clear f } G.held ∧ _ :=
    LawfulSource.congr hd.holds rfl hbooks
  have hallows : ∀ {x k}, (G.add f h).height x.table = some k →
      (G.add f h).Allows k ((s.memory.clear f).entry x) := by
    intro x k hx
    rcases eq_or_ne x.table f with heq | hne
    · rw [Memory.entry_clear, if_pos heq.symm]
      exact fun _ _ hisTable => (by cases hisTable)
    · rw [hm.entry hne]
      exact (hd.allows ((Function.update_of_ne hne _ _).symm.trans hx)).add hfresh.height h
  have hne : ∀ {g}, G.Aside g → g ≠ f := fun hg heq => hfresh.notAside (heq ▸ hg)
  refine ⟨⟨height_add hfresh.height hd.root h, hallows, hholds, fun ht hle => ?_, fun ht => ?_,
    fun hg => ?_⟩, rfl, rfl, fun _ hin => hin, hm.anti fun g hg => hne hg⟩
  · rw [hfree]
    rcases eq_or_of_height_add ht with ⟨rfl, -⟩ | ht
    · exact hfresh.notFree
    · exact hd.notFree ht hle
  · rcases eq_or_of_height_add ht with ⟨rfl, -⟩ | ht
    · exact hfresh.notBooks
    · exact hd.notBooks ht
  · obtain ⟨hheight, hrest⟩ := hd.aside hg
    rw [hfree]
    exact ⟨(Function.update_of_ne (hne hg) _ _).trans hheight, hrest⟩

end Grounds

/-! ## Edits -/

section

variable {A : Type} [FrameSource A] [LawfulSource A] {G : Grounds} {s : Store A} {path : Path}
  {t table : Frame} {h : Nat} {e : Entry} {va : VirtAddr} {holders : List Slot}

/-- The nearest holder stands in a table. -/
def HeadStands (G : Grounds) (holders : List Slot) : Prop :=
  ∀ x, holders.head? = some x → ∃ h, G.height x.table = some h

lemma Grounds.Describes.headStands (hd : G.Describes s)
    (hl : s.memory.outline.Leads G.root va holders t h) : HeadStands G holders := by
  intro x hx
  obtain ⟨k, -, hk⟩ := hd.height_of_mem hl (List.mem_of_mem_head? hx)
  exact ⟨k, hk⟩

lemma gainChild_treads (hd : G.Describes s) (hhead : HeadStands G holders) :
    Ensures (gainChild holders) anyPanic s fun _ s' =>
      G.Treads s G s' ∧ s'.memory.outline = s.memory.outline := by
  cases holders with
  | nil => exact .pure ⟨.refl hd, rfl⟩
  | cons x above =>
      obtain ⟨k, hx⟩ := hhead x rfl
      refine Store.entry_ensures.bind ?_
      rintro _ _ ⟨rfl, rfl⟩
      split
      case isTrue howned =>
        rw [Entry.withLiveChildren?]
        split
        case h_1 link hlink =>
          split at hlink
          case isTrue hlt =>
            obtain rfl := Option.some.inj hlink
            refine Store.setEntry_ensures.mono ?_
            rintro _ _ rfl
            exact hd.recount hx howned _
          case isFalse => cases hlink
        case h_2 => exact .throw trivial
      case isFalse => exact .pure ⟨.refl hd, rfl⟩

lemma loseChild_treads (hd : G.Describes s) (hhead : HeadStands G holders) :
    Ensures (loseChild table holders) anyPanic s fun _ s' =>
      G.Treads s G s' ∧ s'.memory.outline = s.memory.outline := by
  cases holders with
  | nil => exact .pure ⟨.refl hd, rfl⟩
  | cons x above =>
      obtain ⟨k, hx⟩ := hhead x rfl
      refine Store.entry_ensures.bind ?_
      rintro _ _ ⟨rfl, rfl⟩
      split
      case isTrue howned =>
        split
        case h_1 => exact .throw trivial
        case h_2 live _ =>
          refine Store.setEntry_ensures.mono ?_
          rintro _ _ rfl
          exact hd.recount hx howned _
      case isFalse => exact .pure ⟨.refl hd, rfl⟩

/-- **An entry is written** at the end of a way, and the table recounted. -/
theorem write_treads {act : Action (Store A) Unit} (hd : G.Describes s)
    (hl : s.memory.outline.Leads G.root va path.holders path.slot.table h) (he : G.Allows h e)
    (hact : ∀ s₁, G.Describes s₁ → Ensures act anyPanic s₁ fun _ s' =>
      G.Treads s₁ G s' ∧ s'.memory.outline = s₁.memory.outline) :
    Ensures (do Store.setEntry path.slot e; act) anyPanic s fun _ s' =>
      G.Treads s G s' ∧
        s'.memory.outline = Function.update s.memory.outline path.slot e.outline := by
  have hset := hd.setEntry (hd.height_of_leads hl) he
  refine Store.setEntry_ensures.bind ?_
  rintro _ _ rfl
  refine (hact _ hset.describes).mono ?_
  rintro _ s' ⟨htreads, houtline⟩
  refine ⟨hset.trans htreads, houtline.trans (funext fun y => ?_)⟩
  rw [Memory.outline_apply, Memory.entry_setEntry]
  split
  case isTrue heq => rw [← heq, Function.update_self]
  case isFalse hne => rw [Function.update_of_ne (Ne.symm hne), Memory.outline_apply]

lemma fill_treads (hd : G.Describes s)
    (hl : s.memory.outline.Leads G.root va path.holders path.slot.table h) (he : G.Allows h e) :
    Ensures (fill path e) anyPanic s fun _ s' => G.Treads s G s' ∧
      s'.memory.outline = Function.update s.memory.outline path.slot e.outline := by
  refine Store.entry_ensures.bind ?_
  rintro _ _ ⟨rfl, rfl⟩
  refine write_treads hd hl he fun s₁ hd₁ => ?_
  split
  · exact .pure ⟨.refl hd₁, rfl⟩
  · exact gainChild_treads hd₁ (hd.headStands hl)

lemma vacate_treads (path : Path) (hd : G.Describes s)
    (hl : s.memory.outline.Leads G.root va path.holders path.slot.table h) :
    Ensures (vacate path) anyPanic s fun _ s' => G.Treads s G s' ∧
      s'.memory.outline = Function.update s.memory.outline path.slot .absent := by
  refine Store.entry_ensures.bind ?_
  rintro _ _ ⟨rfl, rfl⟩
  have habsent : G.Allows h .absent := fun _ _ hisTable => (by cases hisTable)
  refine write_treads hd hl habsent fun s₁ hd₁ => ?_
  split
  · exact loseChild_treads hd₁ (hd.headStands hl)
  · exact .pure ⟨.refl hd₁, rfl⟩

/-! ## Along a way -/

/-- **Giving tables back** goes up a way: after a table only tables above it are given back. -/
theorem release_treads (hd : G.Describes s) (hkept : G.kept ≤ h)
    (hl : s.memory.outline.Leads G.root va holders t h) :
    Ensures (release t holders) anyPanic s fun _ s' => ∃ G', G.Treads s G' s' := by
  induction holders generalizing G s t h with
  | nil => exact .pure ⟨G, .refl hd⟩
  | cons x above ih =>
      obtain ⟨habove, -, hisTable, hframe⟩ := hl.uncons
      rw [Memory.outline_apply, Entry.outline_isTable] at hisTable
      rw [Memory.outline_apply, Entry.outline_frame] at hframe
      have hx := hd.height_of_leads habove
      refine Store.entry_ensures.bind ?_
      rintro _ _ ⟨rfl, rfl⟩
      split
      case isFalse => exact .pure ⟨G, .refl hd⟩
      case isTrue hempty =>
        have howned := (Bool.and_eq_true_iff.mp hempty).1
        obtain ⟨ht, hheld⟩ := hd.allows hx h rfl hisTable
        rw [hframe] at ht hheld
        refine (vacate_treads { slot := x, holders := above } hd habove).bind ?_
        rintro _ s₁ ⟨htreads₁, houtline⟩
        have hl₁ := hd.leads_update habove houtline
        refine (htreads₁.describes.free ht hkept (hheld howned hkept)).bind ?_
        rintro _ s₂ ⟨hm, htreads₂⟩
        have hl₂ := htreads₁.describes.leads_agrees hl₁ hm htreads₁.describes.notBooks
        refine (htreads₂.describes.note _).bind ?_
        rintro _ s₃ ⟨htreads₃, hmemory⟩
        refine (ih htreads₃.describes (Nat.le_refl (h + 1)) (hmemory ▸ hl₂)).mono ?_
        rintro _ s' ⟨G', htreads⟩
        exact ⟨G', ((htreads₁.trans htreads₂).trans htreads₃).trans htreads⟩

/-- **A new table is linked** at the end of a way, and the way goes on into it. -/
theorem linkTable_treads (hd : G.Describes s)
    (hl : s.memory.outline.Leads G.root va path.holders path.slot.table (h + 1))
    (hindex : path.slot.index = va.index (h + 1)) (hfresh : G.Fresh s table) :
    Ensures (linkTable path table va) anyPanic s fun _ s' => G.Treads s (G.add table h) s' ∧
      s'.memory.outline.Leads G.root va (path.slot :: path.holders) table h := by
  have hclear := hd.clear hfresh h
  refine Store.clearFrame_ensures.bind ?_
  rintro _ _ rfl
  have hl₁ := hd.leads_agrees hl Memory.agreesOn_clear fun ht heq => by
    rw [heq, hfresh.height] at ht
    cases ht
  refine (ofExcept_ensures fun _ _ => trivial).bind ?_
  rintro link s₁ ⟨hlink, rfl⟩
  obtain ⟨hframe, hisTable⟩ : link.frame = table ∧ link.outline.isTable = true := by
    rw [Entry.ownedTable] at hlink
    split at hlink
    · cases hlink
      exact ⟨rfl, rfl⟩
    · cases hlink
  have hallows : (G.add table h).Allows (h + 1) link := by
    intro k hk _
    obtain rfl := Nat.succ.inj hk
    rw [hframe]
    exact ⟨Grounds.height_add_self .., fun _ _ => hfresh.held⟩
  refine (fill_treads hclear.describes hl₁ hallows).bind ?_
  rintro _ s₂ ⟨htreads₂, houtline⟩
  have hl₂ := hclear.describes.leads_update hl₁ houtline
  refine (htreads₂.describes.note _).mono ?_
  rintro _ s₃ ⟨htreads₃, hmemory⟩
  refine ⟨(hclear.trans htreads₂).trans htreads₃, ?_⟩
  have hentry : s₂.memory.outline path.slot = link.outline := by
    rw [houtline, Function.update_self]
  have hdown := hl₂.through hindex (by rw [hentry, hisTable])
  rw [hentry, Entry.outline_frame, hframe] at hdown
  exact hmemory ▸ hdown

/-- **A walk that makes missing tables** comes to a slot at the end of its way, or gives tables back
because a frame is missing. -/
theorem reach_treads (path : Path) (hd : G.Describes s) (hkept : G.kept = 0)
    (hl : s.memory.outline.Leads G.root va path.holders path.slot.table h)
    (hindex : path.slot.index = va.index h) :
    Ensures (reach va h path) anyPanic s fun r s' => ∃ G', G.Treads s G' s' ∧ match r with
      | .ok (.slot path) => G'.kept = 0 ∧
          s'.memory.outline.Leads G'.root va path.holders path.slot.table 0
      | .ok (.large ..) => G'.kept = 0
      | .error e => e = .outOfMemory := by
  induction h generalizing G s path with
  | zero => exact .pure ⟨G, .refl hd, hkept, hl⟩
  | succ h ih =>
      have hheight := hd.height_of_leads hl
      refine Store.entry_ensures.bind ?_
      rintro _ _ ⟨rfl, rfl⟩
      split
      case isTrue hisTable =>
        exact ih (path.down _ _) hd hkept (Memory.leads_down hl hindex hisTable) rfl
      case isFalse =>
        split
        case isTrue => exact .pure ⟨G, .refl hd, hkept⟩
        case isFalse =>
          refine (hd.alloc hkept).bind fun frame? s₁ ⟨hm, hend⟩ => ?_
          have hl₁ := hd.leads_agrees hl hm hd.notBooks
          cases frame? with
          | none =>
              refine (release_treads hend.describes (hkept ▸ Nat.zero_le _) hl₁).bind ?_
              rintro _ s₂ ⟨G', htreads⟩
              exact .pure ⟨G', hend.trans htreads, rfl⟩
          | some table =>
              obtain ⟨htreads₁, hfresh⟩ := hend
              refine (linkTable_treads htreads₁.describes hl₁ hindex hfresh).bind ?_
              rintro _ s₂ ⟨htreads₂, hl₂⟩
              refine (ih (path.down table _) htreads₂.describes hkept hl₂ rfl).mono ?_
              rintro r s' ⟨G', htreads, hend⟩
              exact ⟨G', (htreads₁.trans htreads₂).trans htreads, hend⟩

end

end Space

/-! ## Operations -/

namespace AddressSpace

open Space

variable {A : Type} [FrameSource A] [LawfulSource A] {G : Grounds} {s : Store A} {va : VirtAddr}
  {pa : PhysAddr} {flags : Flags}

/-- **Mapping a page** treads on the grounds of its root.  Tables are given back only if a frame is
missing. -/
theorem map_treads (hd : G.Describes s) (hkept : G.kept = 0) :
    Ensures (AddressSpace.map ⟨G.root⟩ va pa flags) anyPanic s fun r s' =>
      ∃ G', G.Treads s G' s' ∧ (r ≠ .error .outOfMemory → G'.kept = 0) := by
  by_cases hpa : 2 ^ physicalAddressBits ≤ pa.value.toNat
  · rw [map, if_pos hpa]
    exact .pure ⟨G, .refl hd, fun _ => hkept⟩
  rw [map, if_neg hpa, reach]
  by_cases hva : va.isCanonical = true
  · rw [if_pos hva]
    refine (reach_treads (.ofRoot G.root va) hd hkept .root rfl).bind ?_
    rintro r s₁ ⟨G', htreads, hend⟩
    rcases r with err | path | ⟨large, k⟩
    · obtain rfl := hend
      exact .pure ⟨G', htreads, fun h => absurd rfl h⟩
    · obtain ⟨hkept', hl⟩ := hend
      refine Store.entry_ensures.bind ?_
      rintro _ _ ⟨rfl, rfl⟩
      split
      case isTrue => exact .pure ⟨G', htreads, fun _ => hkept'⟩
      case isFalse =>
        refine (ofExcept_ensures fun _ _ => trivial).bind ?_
        rintro leaf _ ⟨-, rfl⟩
        -- What stands in a table of height zero is no link.
        have hallows : G'.Allows 0 leaf := fun _ hk => (by cases hk)
        refine (fill_treads htreads.describes hl hallows).bind ?_
        rintro _ s₂ ⟨htreads₂, -⟩
        exact .pure ⟨G', htreads.trans htreads₂, fun _ => hkept'⟩
    · exact .pure ⟨G', htreads, fun _ => hend⟩
  · rw [if_neg hva]
    exact .pure ⟨G, .refl hd, fun _ => hkept⟩

/-- The read-only walk ends on a way. -/
lemma leads_of_descend {m : Memory} {root : Frame} {h : Nat} {path' : Path} (path : Path)
    (hrun : m.descend va h path = .ok (.ok (.slot path')))
    (hl : m.outline.Leads root va path.holders path.slot.table h)
    (hindex : path.slot.index = va.index h) :
    m.outline.Leads root va path'.holders path'.slot.table 0 := by
  induction h generalizing path with
  | zero =>
      cases hrun
      exact hl
  | succ h ih =>
      rw [Memory.descend, Checked.bind_eq_ok] at hrun
      obtain ⟨entry, hread, hrun⟩ := hrun
      obtain ⟨_, -, hentry⟩ := Checked.bind_eq_ok.mp hread
      obtain rfl := Except.ok.inj hentry
      split at hrun
      case isTrue hisTable =>
        exact ih (path.down _ _) hrun (Memory.leads_down hl hindex hisTable) rfl
      case isFalse =>
        split at hrun <;> cases hrun

/-- The walk that finds a slot ends there. -/
lemma find_of_walk {m : Memory} {space : AddressSpace} {path : Path}
    (hwalk : space.walk m va = .ok (.ok path)) : space.find m va = .ok (.ok (.slot path)) := by
  rw [walk, Checked.bind_eq_ok] at hwalk
  obtain ⟨found, hfind, hpath⟩ := hwalk
  rcases found with err | path' | large
  · cases hpath
  · cases hpath
    exact hfind
  · cases hpath

/-- A walk that finds a slot has come to it on a way. -/
lemma leads_of_walk {m : Memory} {root : Frame} {path : Path}
    (hwalk : (AddressSpace.mk root).walk m va = .ok (.ok path)) :
    m.outline.Leads root va path.holders path.slot.table 0 := by
  have hfind := find_of_walk hwalk
  rw [find] at hfind
  split at hfind
  case isFalse => cases hfind
  case isTrue => exact leads_of_descend (.ofRoot root va) hfind .root rfl

/-- **Unmapping a page** treads on the grounds of its root. -/
theorem unmap_treads (hd : G.Describes s) (hkept : G.kept = 0) :
    Ensures (AddressSpace.unmap ⟨G.root⟩ va) anyPanic s fun _ s' => ∃ G', G.Treads s G' s' := by
  refine Store.lookup_returns.bind ?_
  rintro r _ ⟨hwalk, rfl⟩
  rcases r with err | path
  · exact .pure ⟨G, .refl hd⟩
  have hl := leads_of_walk hwalk
  refine Store.entry_ensures.bind ?_
  rintro _ _ ⟨rfl, rfl⟩
  split
  case isTrue => exact .pure ⟨G, .refl hd⟩
  case isFalse =>
    refine (vacate_treads path hd hl).bind ?_
    rintro _ s₁ ⟨htreads, houtline⟩
    have hl₁ := hd.leads_update hl houtline
    refine (release_treads htreads.describes (Nat.le_of_eq hkept) hl₁).bind ?_
    rintro _ s₂ ⟨G', htreads'⟩
    exact .pure ⟨G', htreads.trans htreads'⟩

end AddressSpace

end KernelMemory
