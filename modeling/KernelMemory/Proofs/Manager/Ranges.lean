import KernelMemory.Proofs.Manager.Invalidation
import KernelMemory.Proofs.Space.Failure
import KernelMemory.Proofs.Space.Room
import Mathlib.Data.Nat.Count

/-!
# What mapping a range makes of memory

The loop of `identityMap` takes the pages of a range one after the other, and stops at the first one
that cannot be mapped.  A page that is mapped already is left alone.  Earlier pages do not notice
what happens to later ones, because the pages of a range are different as long as no address passes
the last one.

* `Manager.RangeMapped` — the first pages of a range are mapped, and all others are as they were.
* `Manager.RangeError` — why a page of a range cannot be mapped.
* `Manager.RangeReached` — the loop has come to a page; **`RangeReached.step`** — one page more.
* **`Manager.mapRange_ends`** — the loop ends behind the last page, or at a page with an error.
* **`Manager.identityMap_exact`** — a range is mapped exactly, or up to the page of the error.
-/

namespace KernelMemory

/-- The address as many pages further on; past the last address it goes on with the first one. -/
def Address.afterPages {kind : AddressKind} (a : Address kind) (k : Nat) : Address kind :=
  .ofNat (a.value.toNat + k * pageSize)

namespace Manager

open KernelMemory.Action Chart

/-! ## Addresses of a range -/

section Addresses

variable {kind : AddressKind} {a a' : Address kind} {j k : Nat} {wraps : InvalidRequest}
  {e : MapError}

lemma advance_eq_ok : advance a (k * pageSize) wraps = .ok a' ↔
    a.value.toNat + k * pageSize < 2 ^ 64 ∧ a' = a.afterPages k := by
  rw [advance]
  split
  case isTrue hlt =>
    rw [Except.ok.injEq, eq_comm, and_iff_right hlt]
    rfl
  case isFalse hge => exact iff_of_false (fun h => by cases h) fun h => hge h.1

lemma advance_eq_error : advance a (k * pageSize) wraps = .error e ↔
    2 ^ 64 ≤ a.value.toNat + k * pageSize ∧ e = .invalidRequest wraps := by
  rw [advance]
  split
  case isTrue hlt => exact iff_of_false (fun h => by cases h) fun h => Nat.not_le.mpr hlt h.1
  case isFalse hge =>
    rw [Except.error.injEq, eq_comm, and_iff_right (Nat.not_lt.mp hge)]

lemma toNat_afterPages (hk : a.value.toNat + k * pageSize < 2 ^ 64) :
    (a.afterPages k).value.toNat = a.value.toNat + k * pageSize := by
  rw [Address.afterPages, Address.ofNat, UInt64.toNat_ofNat', Nat.mod_eq_of_lt hk]

/-- **The pages of a range are different.** -/
theorem afterPages_page_ne (hjk : j < k) (hk : a.value.toNat + k * pageSize < 2 ^ 64) :
    (a.afterPages j).page ≠ (a.afterPages k).page := by
  have hj : a.value.toNat + j * pageSize < 2 ^ 64 := by
    have hle : j * pageSize ≤ k * pageSize := Nat.mul_le_mul_right _ (Nat.le_of_lt hjk)
    exact Nat.lt_of_le_of_lt (Nat.add_le_add_left hle _) hk
  have hpage : ∀ {i}, a.value.toNat + i * pageSize < 2 ^ 64 →
      (a.afterPages i).page.number = a.page.number + i := by
    intro i hi
    have hadvance : advance a (i * pageSize) .virtualWraps = .ok (a.afterPages i) :=
      advance_eq_ok.mpr ⟨hi, rfl⟩
    exact page_advance hadvance
  intro heq
  have hnumber := congrArg Page.number heq
  rw [hpage hj, hpage hk] at hnumber
  omega

end Addresses

/-! ## What a range makes of memory -/

/-- **The first pages of a range are mapped**, from one memory to another: those that were mapped
stand for what they stood for, those that were not stand for the frames of the range, and all other
addresses are as they were. -/
structure RangeMapped (root : Frame) (va : VirtAddr) (pa : PhysAddr) (flags : Flags) (n : Nat)
    (m m' : Memory) : Prop where
  /-- No address passes the last one. -/
  inside {k : Nat} : k < n →
    va.value.toNat + k * pageSize < 2 ^ 64 ∧ pa.value.toNat + k * pageSize < 2 ^ 64
  /-- A page was mapped and is as it was, or it was not and is mapped as it should be. -/
  page {k : Nat} : k < n →
    (AddressSpace.isMapped ⟨root⟩ m (va.afterPages k) = .ok true ∧
      ∀ x : VirtAddr, x.page = (va.afterPages k).page → m.SameAt root m' x) ∨
    (AddressSpace.isMapped ⟨root⟩ m (va.afterPages k) = .ok false ∧
      ∀ x : VirtAddr, x.page = (va.afterPages k).page →
        AddressSpace.isMapped ⟨root⟩ m' x = .ok true ∧
          AddressSpace.translate ⟨root⟩ m' x = .ok (.ok
            { address := (pa.afterPages k).page.join x.offset
              flags := flags.forPage
              pageBytes := pageSize }))
  /-- Other pages are as they were. -/
  others {x : VirtAddr} : (∀ k < n, x.page ≠ (va.afterPages k).page) → m.SameAt root m' x

/-- How many of the first pages of a range are not mapped. -/
def freshPages (root : Frame) (va : VirtAddr) (m : Memory) (n : Nat) : Nat :=
  Nat.count (fun k => AddressSpace.isMapped ⟨root⟩ m (va.afterPages k) = .ok false) n

namespace RangeMapped

variable {root : Frame} {va : VirtAddr} {pa : PhysAddr} {flags : Flags} {k n : Nat}
  {m m' m'' : Memory}

lemma zero : RangeMapped root va pa flags 0 m m where
  inside hk := absurd hk (Nat.not_lt_zero _)
  page hk := absurd hk (Nat.not_lt_zero _)
  others _ := .refl

/-- The pages are mapped in the end. -/
lemma isMapped (h : RangeMapped root va pa flags n m m') (hk : k < n) :
    AddressSpace.isMapped ⟨root⟩ m' (va.afterPages k) = .ok true := by
  rcases h.page hk with ⟨hmapped, hsame⟩ | ⟨-, hnew⟩
  · rw [(hsame _ rfl).isMapped, hmapped]
  · exact (hnew _ rfl).1

/-- What is not seen does not matter. -/
lemma same (h : RangeMapped root va pa flags n m m') (hsame : ∀ x, m'.SameAt root m'' x) :
    RangeMapped root va pa flags n m m'' where
  inside := h.inside
  page hk := by
    refine (h.page hk).imp (And.imp_right ?_) (And.imp_right ?_)
    · intro hkept x hx
      exact (hkept x hx).trans (hsame x)
    · intro hnew x hx
      rw [(hsame x).isMapped, (hsame x).translate]
      exact hnew x hx
  others hx := (h.others hx).trans (hsame _)

/-- The next page of the range is as it was before the loop. -/
lemma next (h : RangeMapped root va pa flags n m m')
    (hva : va.value.toNat + n * pageSize < 2 ^ 64) {x : VirtAddr}
    (hx : x.page = (va.afterPages n).page) : m.SameAt root m' x := by
  refine h.others ?_
  intro k hk heq
  exact afterPages_page_ne hk hva (heq.symm.trans hx)

/-- **One page more** that was mapped. -/
theorem mapped (h : RangeMapped root va pa flags n m m')
    (hva : va.value.toNat + n * pageSize < 2 ^ 64) (hpa : pa.value.toNat + n * pageSize < 2 ^ 64)
    (hmapped : AddressSpace.isMapped ⟨root⟩ m' (va.afterPages n) = .ok true)
    (hsame : ∀ x, m'.SameAt root m'' x) : RangeMapped root va pa flags (n + 1) m m'' := by
  have hsame' := h.same hsame
  constructor
  case inside =>
    intro k hk
    rcases Nat.lt_succ_iff_lt_or_eq.mp hk with hk | rfl
    · exact h.inside hk
    · exact ⟨hva, hpa⟩
  case page =>
    intro k hk
    rcases Nat.lt_succ_iff_lt_or_eq.mp hk with hk | rfl
    · exact hsame'.page hk
    · rw [(h.next hva rfl).isMapped] at hmapped
      exact .inl ⟨hmapped, fun x hx => hsame'.next hva hx⟩
  case others => exact fun hx => hsame'.others fun k hk => hx k (Nat.lt_succ_of_lt hk)

/-- **One page more** that was not mapped. -/
theorem fresh (h : RangeMapped root va pa flags n m m')
    (hva : va.value.toNat + n * pageSize < 2 ^ 64) (hpa : pa.value.toNat + n * pageSize < 2 ^ 64)
    (hunmapped : AddressSpace.isMapped ⟨root⟩ m' (va.afterPages n) = .ok false)
    (hhere : ∀ x : VirtAddr, x.page = (va.afterPages n).page →
      AddressSpace.isMapped ⟨root⟩ m'' x = .ok true ∧
        AddressSpace.translate ⟨root⟩ m'' x = .ok (.ok
          { address := (pa.afterPages n).page.join x.offset
            flags := flags.forPage
            pageBytes := pageSize }))
    (helsewhere : ∀ x : VirtAddr, x.page ≠ (va.afterPages n).page → m'.SameAt root m'' x) :
    RangeMapped root va pa flags (n + 1) m m'' := by
  constructor
  case inside =>
    intro k hk
    rcases Nat.lt_succ_iff_lt_or_eq.mp hk with hk | rfl
    · exact h.inside hk
    · exact ⟨hva, hpa⟩
  case page =>
    intro k hk
    rcases Nat.lt_succ_iff_lt_or_eq.mp hk with hk | rfl
    · -- An earlier page is another one.
      have hne : ∀ {x : VirtAddr}, x.page = (va.afterPages k).page → m'.SameAt root m'' x :=
        fun {x} hx => helsewhere x fun heq => afterPages_page_ne hk hva (hx.symm.trans heq)
      refine (h.page hk).imp (And.imp_right ?_) (And.imp_right ?_)
      · intro hkept x hx
        exact (hkept x hx).trans (hne hx)
      · intro hnew x hx
        rw [(hne hx).isMapped, (hne hx).translate]
        exact hnew x hx
    · rw [(h.next hva rfl).isMapped] at hunmapped
      exact .inr ⟨hunmapped, hhere⟩
  case others =>
    intro x hx
    refine (h.others fun k hk => hx k (Nat.lt_succ_of_lt hk)).trans ?_
    exact helsewhere x (hx n (Nat.lt_succ_self n))

end RangeMapped

/-! ## The loop -/

variable {A P : Type} [FrameSource A] [PagingControl P] {va : VirtAddr} {pa : PhysAddr}
  {flags : Flags} {m m' : Manager A P} {k fresh n : Nat} {e : MapError}

/-- **Mapping more pages** goes on where the first ones ended. -/
theorem mapRangeFrom_add (count : Nat) :
    (mapRangeFrom va pa flags k fresh (n + count) : Action (Manager A P) _) = (do
      match ← mapRangeFrom va pa flags k fresh n with
      | .error e => return .error e
      | .ok fresh => mapRangeFrom va pa flags (k + n) fresh count) := by
  induction n generalizing k fresh with
  | zero => simp [mapRangeFrom]
  | succ n ih =>
      rw [Nat.add_right_comm, mapRangeFrom, mapRangeFrom, bind_assoc]
      congr 1
      funext r
      rcases r with e | isFresh
      · simp
      · simp only [bind_assoc]
        congr 1
        funext fresh
        rw [ih, Nat.add_right_comm, Nat.add_assoc]

variable [LawfulSource A]

/-- **Why page `k` of a range cannot be mapped**, in a state in which the pages before it are. -/
def RangeError (s : Store A) (root : Frame) (va : VirtAddr) (pa : PhysAddr) (k : Nat)
    (e : MapError) : Prop :=
  if 2 ^ 64 ≤ va.value.toNat + k * pageSize then e = .invalidRequest .virtualWraps
  else if 2 ^ 64 ≤ pa.value.toNat + k * pageSize then e = .invalidRequest .physicalWraps
  else if 2 ^ physicalAddressBits ≤ pa.value.toNat + k * pageSize then
    e = .invalidRequest .beyondPhysical
  else if (va.afterPages k).isCanonical = false then e = .invalidRequest .nonCanonical
  else e = .outOfMemory ∧ AddressSpace.isMapped ⟨root⟩ s.memory (va.afterPages k) = .ok false ∧
    ∀ [GenerousSource A], (freeFrames s).card < s.memory.outline.missing root (va.afterPages k)

/-- A page is never refused for being mapped, nor for not being mapped. -/
lemma RangeError.ne {s : Store A} {root : Frame} (h : RangeError s root va pa k e) :
    e ≠ .alreadyMapped ∧ e ≠ .notMapped := by
  constructor
  · rintro rfl
    simp [RangeError] at h
  · rintro rfl
    simp [RangeError] at h

/-! ### One page -/

/-- **A page that ends with an error** leaves everything that matters as it was. -/
theorem RangePage.rangeError {C : Chart} (h : RangePage C False va pa flags k m (.error e) m')
    (hs : C.Serves False m.kernelRoot m.store) :
    RangeError m.store m.kernelRoot va pa k e ∧
      ∃ s', m' = { m with store := s' } ∧ Restored False m.store s' := by
  rw [RangeError]
  cases h with
  | virtualWraps hva =>
      obtain ⟨hge, rfl⟩ := advance_eq_error.mp hva
      rw [if_pos hge]
      exact ⟨rfl, m.store, rfl, .refl _⟩
  | physicalWraps hva hpa =>
      obtain ⟨hlt, -⟩ := advance_eq_ok.mp hva
      obtain ⟨hge, rfl⟩ := advance_eq_error.mp hpa
      rw [if_neg (Nat.not_le.mpr hlt), if_pos hge]
      exact ⟨rfl, m.store, rfl, .refl _⟩
  | @refused va' pa' _ s' hva hpa hrun hrefuses hne hrestored =>
      obtain ⟨hvlt, rfl⟩ := advance_eq_ok.mp hva
      obtain ⟨hplt, rfl⟩ := advance_eq_ok.mp hpa
      have hvalue := toNat_afterPages hplt
      refine ⟨?_, s', rfl, hrestored⟩
      rw [if_neg (Nat.not_le.mpr hvlt), if_neg (Nat.not_le.mpr hplt), ← hvalue]
      cases e with
      | alreadyMapped => exact absurd rfl hne
      | notMapped => exact hrefuses.elim
      | outOfMemory =>
          obtain ⟨hlt, hcanonical, hnone⟩ := hrefuses
          rw [if_neg (Nat.not_le.mpr hlt), if_neg (by simp [hcanonical])]
          refine ⟨rfl, ?_, ?_⟩
          · rw [hs.isMapped_eq hcanonical, hnone]
            rfl
          · intro _
            exact (AddressSpace.map_fits hs).of_ok hrun
      | invalidRequest reason =>
          cases reason
          case beyondPhysical => exact (if_pos hrefuses).symm ▸ rfl
          case nonCanonical => rw [if_neg (Nat.not_le.mpr hrefuses.1), if_pos hrefuses.2]
          all_goals exact hrefuses.elim

/-- **A page that is mapped in the end** makes one page more of the range. -/
theorem RangePage.rangeMapped {C : Chart} {m₀ : Memory} {isFresh : Bool}
    (h : RangePage C False va pa flags k m (.ok isFresh) m')
    (hs : C.Serves False m.kernelRoot m.store)
    (hmapped : RangeMapped m.kernelRoot va pa flags k m₀ m.store.memory) :
    RangeMapped m.kernelRoot va pa flags (k + 1) m₀ m'.store.memory ∧
      AddressSpace.isMapped ⟨m.kernelRoot⟩ m₀ (va.afterPages k) = .ok !isFresh := by
  cases h with
  | mapped hva hpa hrefuses hrestored =>
      obtain ⟨hvlt, rfl⟩ := advance_eq_ok.mp hva
      obtain ⟨hplt, rfl⟩ := advance_eq_ok.mp hpa
      obtain ⟨-, hcanonical, hsome⟩ := hrefuses
      have hhere := hs.isMapped_eq hcanonical
      rw [hsome] at hhere
      refine ⟨hmapped.mapped hvlt hplt hhere (Effect.of_restored hs hrestored).sameAt, ?_⟩
      rw [← (hmapped.next hvlt rfl).isMapped]
      exact hhere
  | fresh hva hpa hrebound hpresent hframe hflags _ =>
      obtain ⟨hvlt, rfl⟩ := advance_eq_ok.mp hva
      obtain ⟨hplt, rfl⟩ := advance_eq_ok.mp hpa
      have hhere := hs.isMapped_eq hrebound.canonical
      rw [hrebound.turns] at hhere
      refine ⟨hmapped.fresh hvlt hplt hhere ?_ ?_, ?_⟩
      · intro x hx
        have hlookup := hrebound.lookup hs hpresent hx
        rwa [hframe, hflags] at hlookup
      · intro x hx
        exact (hrebound.flips hs).elsewhere hx
      · rw [← (hmapped.next hvlt rfl).isMapped]
        exact hhere

/-! ### All pages -/

/-- **The loop has come to page `k`** of a range, after as many pages that were not mapped. -/
structure RangeReached (va : VirtAddr) (pa : PhysAddr) (flags : Flags) (m : Manager A P)
    (k fresh : Nat) (m' : Manager A P) : Prop where
  run : (mapRangeFrom va pa flags 0 0 k).run m = .ok (.ok fresh) m'
  wellFormed : Space.WellFormed m'.store m.kernelRoot
  kernelRoot : m'.kernelRoot = m.kernelRoot
  mapped : RangeMapped m.kernelRoot va pa flags k m.store.memory m'.store.memory
  fresh_eq : fresh = freshPages m.kernelRoot va m.store.memory k

/-- **The loop has stopped at page `k`** of a range, in the state that it had come to. -/
structure RangeStopped (va : VirtAddr) (pa : PhysAddr) (flags : Flags) (m : Manager A P)
    (k fresh : Nat) (m₁ : Manager A P) (e : MapError) (m' : Manager A P) : Prop where
  reached : RangeReached va pa flags m k fresh m₁
  error : RangeError m₁.store m.kernelRoot va pa k e
  kernelRoot : m'.kernelRoot = m.kernelRoot
  restored : Restored False m₁.store m'.store

namespace RangeReached

variable {m₁ : Manager A P}

/-- **One page more**, or an error there. -/
theorem step (hr : RangeReached va pa flags m k fresh m₁) (hk : k < 2 ^ 52) :
    (∃ fresh' m', RangeReached va pa flags m (k + 1) fresh' m') ∨
    ∃ e m', (mapRangeFrom va pa flags 0 0 (k + 1)).run m = .ok (.error e) m' ∧
      RangeStopped va pa flags m k fresh m₁ e m' := by
  obtain ⟨C, hs, hclean⟩ := wellFormed_iff_serves.mp hr.wellFormed
  rw [← hr.kernelRoot] at hs
  obtain ⟨r, m', hrun, hend⟩ := (mapRangePage_ends hs hk).returns
  have hloop : (mapRangeFrom va pa flags 0 0 (k + 1)).run m =
      (mapRangeFrom va pa flags k fresh 1).run m₁ := by
    rw [mapRangeFrom_add, run_bind hr.run, Nat.zero_add]
  rcases r with e | isFresh
  · obtain ⟨herror, s', rfl, hrestored⟩ := hend.rangeError hs
    rw [hr.kernelRoot] at herror
    refine .inr ⟨e, { m₁ with store := s' }, ?_, hr, herror, hr.kernelRoot, hrestored⟩
    rw [hloop, mapRangeFrom, run_bind hrun]
    rfl
  · obtain ⟨C', l, heffect, -⟩ := hend.effect hs
    obtain ⟨hmapped, hbefore⟩ := hend.rangeMapped hs (hr.kernelRoot ▸ hr.mapped)
    rw [hr.kernelRoot] at hmapped hbefore
    have hle : fresh ≤ k := hr.fresh_eq ▸ Nat.count_le _
    have hadd : Checked.add fresh isFresh.toNat = .ok (fresh + isFresh.toNat) :=
      Checked.add_eq_ok_iff.mpr ⟨by have := isFresh.toNat_le; omega, rfl⟩
    refine .inl ⟨fresh + isFresh.toNat, m', ?_, ?_, heffect.kernelRoot.trans hr.kernelRoot, hmapped,
      ?_⟩
    · rw [hloop, mapRangeFrom, run_bind hrun]
      simp only []
      rw [run_bind (run_ofExcept hadd)]
      rfl
    · rw [← hr.kernelRoot]
      exact wellFormed_iff_serves.mpr ⟨C', heffect.serves, heffect.carries.clean ▸ hclean⟩
    · rw [freshPages, Nat.count_succ, hbefore, ← freshPages, ← hr.fresh_eq]
      cases isFresh <;> simp

end RangeReached

/-- **The loop ends behind the last page, or at a page with an error.** -/
theorem mapRange_ends (va : VirtAddr) (pa : PhysAddr) (flags : Flags)
    (hwell : Space.WellFormed m.store m.kernelRoot) (hn : n ≤ 2 ^ 52) :
    (∃ fresh m', RangeReached va pa flags m n fresh m') ∨
    ∃ k < n, ∃ fresh m₁ e m', (mapRangeFrom va pa flags 0 0 n).run m = .ok (.error e) m' ∧
      RangeStopped va pa flags m k fresh m₁ e m' := by
  induction n with
  | zero => exact .inl ⟨0, m, rfl, hwell, rfl, .zero, rfl⟩
  | succ n ih =>
      rcases ih (by omega) with ⟨fresh, m₁, hr⟩ | ⟨k, hk, fresh, m₁, e, m', hrun, hstopped⟩
      · refine (hr.step (by omega)).imp id ?_
        rintro ⟨e, m', hrun, hstopped⟩
        exact ⟨n, Nat.lt_succ_self n, fresh, m₁, e, m', hrun, hstopped⟩
      · refine .inr ⟨k, Nat.lt_succ_of_lt hk, fresh, m₁, e, m', ?_, hstopped⟩
        rw [mapRangeFrom_add, run_bind hrun]
        rfl

/-- **A range is mapped exactly.**  If the call succeeds, the pages of the range are mapped: those
that were not mapped before, of which it gives the number, to the frames of the range, and the
others as they were; no other page has changed.  If it fails, so it is with the pages before the one
of the error, and nothing is left of the attempt to map that one: the tables and the free frames are
those that the shorter range leaves. -/
theorem identityMap_exact (hwell : Space.WellFormed m.store m.kernelRoot) (va : VirtAddr)
    (pa : PhysAddr) (size : UInt64) (flags : Flags) :
    ∃ r m', (identityMap va pa size flags).run m = .ok r m' ∧ match r with
      | .ok fresh =>
          RangeMapped m.kernelRoot va pa flags (size.toNat / pageSize) m.store.memory
            m'.store.memory ∧
          fresh = freshPages m.kernelRoot va m.store.memory (size.toNat / pageSize)
      | .error e => ∃ k < size.toNat / pageSize,
          RangeMapped m.kernelRoot va pa flags k m.store.memory m'.store.memory ∧
          e ≠ .alreadyMapped ∧ e ≠ .notMapped ∧ ∃ fresh m₁,
            (identityMap va pa (.ofNat (k * pageSize)) flags).run m = .ok (.ok fresh) m₁ ∧
            RangeError m₁.store m.kernelRoot va pa k e ∧
            Space.TablesKept m₁.store m'.store m.kernelRoot ∧
            freeFrames m'.store = freeFrames m₁.store := by
  have hsize := size.toNat_lt
  have hcount : size.toNat / pageSize ≤ 2 ^ 52 := by
    simp only [pageSize]
    omega
  rcases mapRange_ends va pa flags hwell hcount with
    ⟨fresh, m', hr⟩ | ⟨k, hk, fresh, m₁, e, m', hrun, hstopped⟩
  · exact ⟨.ok fresh, m', hr.run, hr.mapped, hr.fresh_eq⟩
  · obtain ⟨hr, herror, -, hrestored⟩ := hstopped
    obtain ⟨C, hs, hclean⟩ := wellFormed_iff_serves.mp hr.wellFormed
    have hshorter : (UInt64.ofNat (k * pageSize)).toNat / pageSize = k := by
      rw [UInt64.toNat_ofNat', Nat.mod_eq_of_lt (by simp only [pageSize] at hk ⊢; omega),
        Nat.mul_div_cancel k (by decide)]
    refine ⟨.error e, m', hrun, k, hk, hr.mapped.same ?_, herror.ne.1,
      herror.ne.2, fresh, m₁, ?_, herror, ?_, hrestored.free⟩
    · exact (hs.keeps (hs.toSettled.restored hrestored)
        (hrestored.keepsTables hs.describes).outline).2
    · rw [identityMap, hshorter]
      exact hr.run
    · exact Space.tablesKept_of_restored ⟨hs.toSettled, hclean⟩ hs.isRoot hrestored

/-- A range that passes the last address stops there. -/
theorem identityMap_exact_sample :
    Space.WellFormed World.sample.manager.store World.sample.manager.kernelRoot ∧
      ∃ e m', (identityMap ⟨0xfffffffffffff000⟩ ⟨0x5000⟩ 0x2000 ⟨2⟩).run World.sample.manager =
        .ok (.error e) m' := by
  refine ⟨wellFormed_sample, ?_⟩
  obtain ⟨r, m', hrun, hend⟩ :=
    identityMap_exact wellFormed_sample ⟨0xfffffffffffff000⟩ ⟨0x5000⟩ 0x2000 ⟨2⟩
  rcases r with e | fresh
  · exact ⟨e, m', hrun⟩
  · obtain ⟨hlt, -⟩ := hend.1.inside (k := 1) (by decide)
    exact absurd hlt (by decide)

end Manager

end KernelMemory
