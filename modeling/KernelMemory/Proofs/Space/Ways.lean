import KernelMemory.Proofs.Space.Calls
import KernelMemory.Proofs.Space.Trail

/-!
# Tables and the pages below them

A page has its tables, one at each height, and a table that has an entry has a page somewhere below
it, where no owned table is empty.  So tables and pages are found from each other.

* **`Chart.Fits.leads_of_resolve`** — a page has a table at every height of its way.
* **`Chart.Fits.exists_leads`** — a table is on the way of some address.
* **`Chart.Fits.exists_page`** — below every table with an entry there is a page.
-/

namespace KernelMemory

namespace Chart

variable {C : Chart} {o : Outline} {root f : Frame} {va : VirtAddr} {h : Nat} {x : Slot}
  {holders : List Slot}

namespace Fits

/-- Every present entry above the lowest level links a table that it owns, where the kernel wrote
all entries and no root lends its tables. -/
lemma owns (hfit : C.Fits o) (htidy : C.tidy) (hlending : ¬ C.lending)
    (hx : C.height x.table = some (h + 1)) (hpresent : (o x).present = true) :
    C.Links o x (o x).frame ∧ (o x).owned = true := by
  obtain ⟨htable, howned⟩ := hfit.inner htidy hx hpresent
  exact ⟨⟨⟨h, hx⟩, htable, rfl⟩, howned.resolve_right fun hlends => hlending hlends.1⟩

/-- **A page has a table at every height of its way.** -/
theorem leads_of_resolve (hfit : C.Fits o) (htidy : C.tidy) (hroot : C.IsRoot root)
    (hresolve : (o.resolve root va).isSome = true) (hh : h ≤ rootHeight) :
    ∃ holders t, o.Leads root va holders t h := by
  induction hh using Nat.decreasingInduction with
  | self => exact ⟨[], root, .root⟩
  | of_succ h hh ih =>
      obtain ⟨holders, t, hl⟩ := ih
      have hpresent : (o ⟨t, va.index (h + 1)⟩).present = true := by
        by_contra habsent
        rw [hl.resolve_eq, Outline.follow_of_not_present (by simpa using habsent)] at hresolve
        cases hresolve
      have hheight := hfit.height_of_leads hroot hl
      exact ⟨_, _, hl.down (hfit.inner htidy hheight hpresent).1⟩

/-- **Every table of the chart is on the way of some address**, where all but the roots are linked.
-/
theorem exists_leads (hfit : C.Fits o)
    (hlinked : ∀ f, C.IsTable f → C.IsRoot f ∨ ∃ x, C.Links o x f) (hf : C.height f = some h) :
    ∃ root va holders, C.IsRoot root ∧ o.Leads root va holders f h := by
  have hle := hfit.height_le hf
  -- Every link is followed upwards, to a table that is one higher.
  induction hle using Nat.decreasingInduction generalizing f with
  | self => exact ⟨f, default, [], hf, .root⟩
  | of_succ h hh ih =>
      obtain hroot | ⟨x, hx⟩ := hlinked f ⟨h, hf⟩
      · rw [IsRoot, hf, Option.some.injEq] at hroot
        omega
      · obtain ⟨k, hk⟩ := hx.inner
        obtain rfl : k = h := Option.some.inj ((hfit.child hx hk).symm.trans hf)
        obtain ⟨root, va, holders, hroot, hl⟩ := ih hk
        obtain ⟨va', -, hself, habove⟩ := va.exists_index_update hh x.index
        have hslot : x = ⟨x.table, va'.index (k + 1)⟩ := Slot.ext rfl hself.symm
        have hdown := (hl.of_index habove).down (hslot ▸ hx.isTable)
        rw [← hslot, hx.frame] at hdown
        exact ⟨root, va', _, hroot, hdown⟩

/-- A table that no root is has an entry, where no owned table is empty. -/
lemma exists_present {n : Slot → Nat} (hcount : C.Counted o n) (hbusy : C.Busy True o n)
    (hlending : ¬ C.lending) (hx : C.Links o x f) (howned : (o x).owned = true)
    (hf : C.height f = some h) : ∃ i, (o ⟨f, i⟩).present = true := by
  by_contra hnone
  have hzero : o.count f = 0 :=
    Outline.count_eq_zero_iff.mpr fun i => by simpa using fun hi => hnone ⟨i, hi⟩
  have hlive : n x = 0 := (hcount x f hx howned fun hlends => hlending hlends.1).trans hzero
  cases hbusy x f h hx howned hf (.inr trivial) hlive

/-- **Below every table with an entry there is a page.** -/
theorem exists_page {n : Slot → Nat} (hfit : C.Fits o) (hcount : C.Counted o n)
    (hbusy : C.Busy True o n) (htidy : C.tidy) (hlending : ¬ C.lending) (hroot : C.IsRoot root)
    (hl : o.Leads root va holders f h) {i : Index} (hi : (o ⟨f, i⟩).present = true) :
    ∃ va', va'.isCanonical = true ∧ (∀ k, h < k → k ≤ rootHeight → va'.index k = va.index k) ∧
      (o.resolve root va').isSome = true := by
  induction h generalizing va holders f i with
  | zero =>
      obtain ⟨va', hcanonical, hself, habove⟩ := va.exists_index_update (Nat.zero_le _) i
      refine ⟨va', hcanonical, habove, ?_⟩
      rw [(hl.of_index habove).resolve_eq, hself, Outline.follow, if_pos hi]
      rfl
  | succ h ih =>
      obtain ⟨va', -, hself, habove⟩ := va.exists_index_update hl.height_le i
      have hheight := hfit.height_of_leads hroot hl
      obtain ⟨hlinks, howned⟩ := hfit.owns (x := ⟨f, i⟩) htidy hlending hheight hi
      have hdown := (hl.of_index habove).down (hself ▸ hlinks.isTable)
      rw [hself] at hdown
      obtain ⟨j, hj⟩ := exists_present hcount hbusy hlending hlinks howned
        (hfit.height_of_leads hroot hdown)
      obtain ⟨va'', hcanonical, hbelow, hresolve⟩ := ih hdown hj
      refine ⟨va'', hcanonical, fun k hk hle => ?_, hresolve⟩
      rw [hbelow k (Nat.lt_of_succ_lt hk) hle, habove k hk hle]

end Fits

end Chart

end KernelMemory
