import KernelMemory.Proofs.Space.Undo

/-!
# The walk that makes missing tables

The walk for an address first follows links that are there and then makes every table that is
missing. What it guarantees is proved by induction on the height, with two cases to tell apart at
each step: the state is still the one that the walk began with, or the table that was reached is new
and blank.

* `Space.Arrival` — what the ways in which the walk can end say about the state.
* **`Space.reach_ensures`** — every walk ends in one of these ways.
-/

namespace KernelMemory

variable {A : Type} [FrameSource A] [LawfulSource A]

namespace Space

open Chart KernelMemory.Action

variable {C : Chart} {s base : Store A} {root : Frame} {va : VirtAddr} {h : Nat} {path : Path}
  {excuse : Panic → Prop} {exact lowest : Prop}

/-- **The ends of a walk that makes missing tables.**  At the slot of a page, on a chart that has
the new tables, of which the last may be empty, and a release undoes their making; at a large page,
and nothing has changed; or without a frame for a table that is missing, and everything that matters
is as it was. -/
def Arrival (C : Chart) (excuse : Panic → Prop) (exact lowest : Prop) (base s : Store A)
    (root : Frame) (va : VirtAddr) (result : Except MapError Walk) (s' : Store A) : Prop :=
  match result with
  | .ok (.slot path) => ∃ C', C.Evolves C' root va s s' ∧ C'.Describes s' ∧
      C'.BusyBut lowest s'.memory.outline s'.memory.live path.holders.head? ∧
      C.Unseen s.memory.outline s'.memory.outline ∧ C'.Way s'.memory.outline root va 0 path ∧
      (s' = base ∨ (s'.memory.entry path.slot).present = false) ∧
      (lowest → Undoes excuse exact base path.slot.table path.holders s')
  | .ok (.large ..) => s' = base ∧ ¬ C.tidy ∧ (s.memory.outline.resolve root va).isSome = true
  | .error e => e = .outOfMemory ∧ Restored exact base s' ∧ s.memory.outline.resolve root va = none

/-- The end of a walk that first linked a new table. -/
lemma Arrival.of_linked {C' : Chart} {s₁ : Store A} {result : Except MapError Walk} {s' : Store A}
    (hend : Arrival C' excuse exact lowest base s₁ root va result s')
    (hev : C.Evolves C' root va s s₁) (hunseen : C.Unseen s.memory.outline s₁.memory.outline)
    (hroot : C.IsRoot root) :
    Arrival C excuse exact lowest base s root va result s' := by
  rcases result with e | path | ⟨e, k⟩
  · exact ⟨hend.1, hend.2.1, hunseen root va hroot ▸ hend.2.2⟩
  · obtain ⟨C'', hev', hd, hbusy, hunseen', hway, hslot⟩ := hend
    exact ⟨C'', hev.trans hev', hd, hbusy, hunseen.trans hev.toKin hunseen', hway, hslot⟩
  · exact ⟨hend.1, hev.tidy ▸ hend.2.1, hunseen root va hroot ▸ hend.2.2⟩

/-- **A walk that makes missing tables ends in one of its ways.**  While it follows links that are
there, the state is the one it began with; from the first new table on, the tables it reaches are
blank. -/
theorem reach_ensures (hd : C.Describes s) (hway : C.Way s.memory.outline root va h path)
    (hmode : s = base ∧ C.Busy lowest s.memory.outline s.memory.live ∨
      s.memory.outline.Blank path.slot.table ∧
        C.BusyBut lowest s.memory.outline s.memory.live path.holders.head?)
    (hundo : 0 < h ∨ lowest → Undoes excuse exact base path.slot.table path.holders s)
    (hexact : exact → RestoringSource A) (hexcuse : C.lending → ∀ p, excuse p) :
    Ensures (reach va h path) excuse s fun r s' =>
      Arrival C excuse exact lowest base s root va r s' := by
  induction h generalizing C s path with
  | zero =>
      have hbusy : C.BusyBut lowest s.memory.outline s.memory.live path.holders.head? :=
        hmode.elim (fun hmode => hmode.2.weaken) And.right
      refine .pure ⟨C, .refl .., hd, hbusy, .refl _, hway, ?_, fun hlow => hundo (.inr hlow)⟩
      rcases hmode with ⟨rfl, -⟩ | ⟨hblank, -⟩
      · exact .inl rfl
      · exact .inr hblank.not_present
  | succ h ih =>
      have hslot := hway.height hd.fits
      have hle : h < rootHeight := hd.fits.height_le hslot
      -- Nothing has been made so far if an entry is there.
      have hold : (s.memory.entry path.slot).present = true →
          s = base ∧ C.Busy lowest s.memory.outline s.memory.live := by
        intro hpresent
        refine hmode.resolve_right fun ⟨hblank, _⟩ => ?_
        rw [hblank.not_present] at hpresent
        cases hpresent
      refine .bind_run (Store.run_entry (hd.shown ⟨_, hslot⟩)) ?_
      by_cases htable : (s.memory.entry path.slot).isTable = true
      · rw [if_pos htable]
        obtain ⟨rfl, hbusy⟩ := hold (Entry.present_of_isTable htable)
        have hdown := hway.down (by simpa using htable)
        rw [Memory.outline_apply, Entry.outline_frame] at hdown
        refine ih hd hdown (.inl ⟨rfl, hbusy⟩) (fun hpos => .stop hd hdown ?_) hexcuse
        rintro x hx howned hzero
        have hhead := hdown.head hd.fits hx
        have hnone := hbusy x _ h hhead.1 (by simpa using howned) (hdown.height hd.fits) hpos hzero
        cases hnone
      · rw [if_neg htable]
        by_cases hpresent : (s.memory.entry path.slot).present = true
        · rw [if_pos hpresent]
          refine .pure ⟨(hold hpresent).1, fun htidy => htable ?_, ?_⟩
          · simpa using (hd.fits.inner htidy hslot (by simpa using hpresent)).1
          · simp [hway.resolve_eq, Outline.follow, htable, hpresent]
        · rw [if_neg hpresent]
          have hunused : (s.memory.entry path.slot).present = false := by simpa using hpresent
          have hbusy : C.BusyBut lowest s.memory.outline s.memory.live path.holders.head? :=
            hmode.elim (fun hmode => hmode.2.weaken) And.right
          obtain ⟨held, hheld, -⟩ := hd.held
          obtain ⟨r, s₁, hrun⟩ := LawfulSource.alloc_returns hheld
          refine .bind_run hrun ?_
          cases r with
          | none =>
              have hrefused := Restored.of_alloc_none hheld hrun hexact
              refine (hundo (.inl (Nat.succ_pos h)) s₁ hrefused).bind fun _ s₂ hrestored => ?_
              refine .pure ⟨rfl, hrestored, ?_⟩
              rw [hway.resolve_eq, Outline.follow_of_not_present (by simpa using hunused)]
          | some f =>
              refine (linkTable_ensures hd hway hunused hrun hexcuse).bind ?_
              rintro _ s₂ ⟨e, hlinked⟩
              refine (ih hlinked.describes (hlinked.way hd hle hway)
                (.inr ⟨hlinked.blank hd hway, hlinked.busy hd hle hway hbusy⟩)
                (fun _ => (hundo (.inl (Nat.succ_pos h))).link hlinked hd hway hunused hle hexact
                  hexcuse) hexcuse).mono fun r s' hend => ?_
              exact hend.of_linked (hlinked.evolves hd hle hway hunused)
                (hlinked.unseen hd hle hway hunused) hway.isRoot

end Space

end KernelMemory
