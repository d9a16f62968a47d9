/-
Blocks that are out never overlap.

A tenancy is an arena together with what it has taken and what it has given:
the pages it has fetched, and the blocks that are out. `Tenancy.Served` says
which tenancies there can be: those that come about by requests and returns,
in any order, as long as the memory from outside is any good. That is all that
is assumed of it (`Tenancy.Offers`): a page lies at a multiple of its size, a
large block at a multiple of the strictest alignment, and neither touches
pages or blocks that have not been given back.

# The invariant

`Tenancy.Sound` says where blocks may lie, and that the stretch from the cursor
to the end of its page is nobody's. The second part is what a request needs,
and the first is what a return needs: the block that is taken back lies in one
page, and ended where the cursor stood, so the stretch that becomes free is the
block, followed by what was free before, or by nothing if the block filled its
page. The cursor need not have been in the same page then: where a page is
full, its end is also the start of the page behind it.

The heap of the model meets what is assumed of memory (`Tenancy.Supplied.served`).
-/
import Mathlib.Order.CompletePartialOrder
import Mathlib.Order.Interval.Set.Disjoint
import TypeRecords.Proofs.Arena.Paging

namespace TypeRecords

open Set

/-- A block that is out: where it starts, and the size and the alignment it was
requested with. -/
structure Lease where
  address : Nat
  size : Nat
  align : Nat
  deriving DecidableEq

namespace Lease

/-- Its length, in whole words. -/
def length (b : Lease) : Nat := Arena.wholeWords b.size

/-- The bytes that belong to it. -/
def bytes (b : Lease) : Set Nat := Ico b.address (b.address + b.length)

end Lease

/-- An arena, the pages it has fetched, and the blocks that are out. -/
structure Tenancy where
  arena : Arena
  pages : List Nat := []
  live : List Lease := []

namespace Tenancy

/-- The bytes of the page that starts at an address. -/
def page (t : Tenancy) (start : Nat) : Set Nat := Ico start (start + t.arena.limits.pageSize)

-- ====================================================== requests and returns

/-- A request is served; `fresh` is where memory is that has to be taken from
outside. -/
def allocate (t : Tenancy) (fresh size align : Nat) : Tenancy :=
  let grant := t.arena.allocate fresh size align
  { arena := grant.arena
    pages := if grant.pooled ∧ grant.fetched ≠ 0 then fresh :: t.pages else t.pages
    live := ⟨grant.address, size, align⟩ :: t.live }

/-- A block is handed back. -/
def deallocate (t : Tenancy) (b : Lease) : Tenancy :=
  { t with
    arena := (t.arena.deallocate b.address b.size).1
    live := t.live.erase b }

/-- What is taken from outside: it is aligned as was asked for, and it touches
nothing that is still in use. -/
structure Offers (t : Tenancy) (fresh : Nat) (grant : Arena.Grant) : Prop where
  aligned : (if grant.pooled then t.arena.limits.pageSize else maxAlignment) ∣ fresh
  pages : ∀ p ∈ t.pages, Disjoint (Ico fresh (fresh + grant.fetched)) (t.page p)
  live : ∀ b ∈ t.live, Disjoint (Ico fresh (fresh + grant.fetched)) b.bytes

/-- What an arena that is made for a configuration can come to by requests for
blocks and returns of blocks that are out. -/
inductive Served (c : Config) : Tenancy → Prop
  | new : Served c { arena := .new c }
  | allocate {t : Tenancy} {fresh size align : Nat} (h : Served c t)
      (halign : servesAlignment align)
      (hfresh : (t.arena.allocate fresh size align).fetched ≠ 0 →
        t.Offers fresh (t.arena.allocate fresh size align)) :
      Served c (t.allocate fresh size align)
  | deallocate {t : Tenancy} {b : Lease} (h : Served c t) (hb : b ∈ t.live) :
      Served c (t.deallocate b)

-- ====================================================== the invariant

/-- The page that starts at `start` has been fetched. -/
structure Fetched (t : Tenancy) (start : Nat) : Prop where
  mem : start ∈ t.pages
  aligned : t.arena.limits.pageSize ∣ start

/-- A block lies where blocks may lie: at a multiple of its alignment, and in
one page if it is not too large for the pool. -/
structure Placed (t : Tenancy) (b : Lease) : Prop where
  serves : servesAlignment b.align
  aligned : max b.align wordSize ∣ b.address
  pooled : b.length ≤ t.arena.limits.poolLimit →
    ∃ start, t.Fetched start ∧ b.bytes ⊆ t.page start

/-- The stretch from `address` to `pageEnd` is the end of a page, and nobody's. -/
structure Spare (t : Tenancy) (address pageEnd : Nat) : Prop where
  place : Arena.Place t.arena.limits.pageSize address pageEnd
  page : ∃ start, t.Fetched start ∧ start ≤ address ∧ pageEnd = start + t.arena.limits.pageSize
  free : ∀ b ∈ t.live, Disjoint b.bytes (Ico address pageEnd)

structure Sound (t : Tenancy) : Prop where
  limits : t.arena.limits.Fit
  placed : ∀ b ∈ t.live, t.Placed b
  apart : t.live.Pairwise fun b b' => Disjoint b.bytes b'.bytes
  cursor : ∀ address pageEnd, t.arena.decode? = some (address, pageEnd) → t.Spare address pageEnd

variable {t t' : Tenancy} {b : Lease} {fresh size align address pageEnd : Nat}

theorem Spare.subset_page (h : t.Spare address pageEnd) :
    ∃ start, t.Fetched start ∧ Ico address pageEnd ⊆ t.page start := by
  obtain ⟨start, hstart, hle, rfl⟩ := h.page
  exact ⟨start, hstart, Ico_subset_Ico_left hle⟩

/-- What has been fetched stays fetched. -/
theorem Fetched.mono (h : t.Fetched address) (hl : t'.arena.limits = t.arena.limits)
    (hp : t.pages ⊆ t'.pages) : t'.Fetched address :=
  ⟨hp h.mem, hl ▸ h.aligned⟩

theorem Placed.mono (h : t.Placed b) (hl : t'.arena.limits = t.arena.limits)
    (hp : t.pages ⊆ t'.pages) : t'.Placed b := by
  refine ⟨h.serves, h.aligned, fun hpool => ?_⟩
  obtain ⟨start, hstart, hsub⟩ := h.pooled (hl ▸ hpool)
  refine ⟨start, hstart.mono hl hp, ?_⟩
  unfold page
  rw [hl]
  exact hsub

-- ====================================================== a request

/-- One more block is out. -/
theorem Sound.lease (h : t.Sound) (hl : t'.arena.limits = t.arena.limits)
    (hp : t.pages ⊆ t'.pages) (hlive : t'.live = b :: t.live) (hb : t'.Placed b)
    (hapart : ∀ x ∈ t.live, Disjoint b.bytes x.bytes)
    (hcursor : ∀ address pageEnd, t'.arena.decode? = some (address, pageEnd) →
      t'.Spare address pageEnd) : t'.Sound where
  limits := hl ▸ h.limits
  placed x hx := by
    rw [hlive] at hx
    rcases List.mem_cons.mp hx with rfl | hx
    · exact hb
    · exact (h.placed x hx).mono hl hp
  apart := by
    rw [hlive]
    exact List.pairwise_cons.mpr ⟨hapart, h.apart⟩
  cursor := hcursor

/-- A block that is too large for the pool comes from outside. -/
theorem Sound.allocate_large (h : t.Sound) (halign : servesAlignment align)
    (hlarge : t.arena.limits.poolLimit < Arena.wholeWords size)
    (hfresh : t.Offers fresh (t.arena.allocate fresh size align)) :
    (t.allocate fresh size align).Sound := by
  obtain ⟨haligned, hpages, hlive⟩ := hfresh
  unfold Tenancy.allocate
  rw [Arena.allocate_of_large hlarge] at haligned hpages hlive ⊢
  refine h.lease (b := ⟨fresh, size, align⟩) rfl (List.Subset.refl _) rfl
    ⟨halign, ?_, fun hpool => ?_⟩ hlive fun address pageEnd hcursor => ?_
  · exact Nat.dvd_trans (max_dvd_maxAlignment halign) haligned
  · exact (Nat.not_lt.mpr hpool hlarge).elim
  · -- what was free lies in a page, and the block touches none
    have hspare := h.cursor address pageEnd hcursor
    refine ⟨hspare.place, ?_, fun x hx => ?_⟩
    · obtain ⟨start, hstart, hrest⟩ := hspare.page
      exact ⟨start, hstart.mono rfl (List.Subset.refl _), hrest⟩
    · rcases List.mem_cons.mp hx with rfl | hx
      · obtain ⟨start, hstart, hsub⟩ := hspare.subset_page
        exact (hpages start hstart.mem).mono_right hsub
      · exact hspare.free x hx

/-- A block that fits is carved from the current page. -/
theorem Sound.allocate_room (h : t.Sound) (halign : servesAlignment align)
    (hsmall : Arena.wholeWords size ≤ t.arena.limits.poolLimit) {start : Nat}
    (hroom : t.arena.room? (Arena.wholeWords size) (clamp align wordSize maxAlignment)
      = some (start, pageEnd)) :
    (t.allocate fresh size align).Sound := by
  unfold Tenancy.allocate
  rw [Arena.allocate_of_room hsmall hroom]
  rw [clamp_align halign] at hroom
  obtain ⟨address, hcursor, hstart, hfits⟩ := Arena.room?_eq_some.mp hroom
  have hspare := h.cursor address pageEnd hcursor
  have hdvd : max align wordSize ∣ start := hstart ▸ dvd_roundUp (isPowerOfTwo_max halign)
  have hle : address ≤ start :=
    hstart ▸ le_roundUp address (Nat.pos_of_isPowerOfTwo (isPowerOfTwo_max halign))
  -- the block and what is left after it are two pieces of what was free
  have hbytes : Ico start (start + Arena.wholeWords size) ⊆ Ico address pageEnd :=
    Ico_subset_Ico hle hfits
  refine h.lease (b := ⟨start, size, align⟩) rfl (List.Subset.refl _) rfl
    ⟨halign, hdvd, fun _ => ?_⟩ (fun x hx => (hspare.free x hx).symm.mono_left hbytes) ?_
  · obtain ⟨page, hpage, hsub⟩ := hspare.subset_page
    exact ⟨page, hpage.mono rfl (List.Subset.refl _), hbytes.trans hsub⟩
  · intro address' pageEnd' hcursor'
    have hplace : Arena.Place t.arena.limits.pageSize (start + Arena.wholeWords size) pageEnd :=
      { word := Nat.dvd_add (Nat.dvd_trans (wordSize_dvd_max halign) hdvd)
          (Arena.wordSize_dvd_wholeWords _)
        page := hspare.place.page
        low := Nat.le_trans hspare.place.low (by omega)
        high := hfits }
    obtain ⟨rfl, rfl⟩ := Arena.decode?_eq_some hcursor' h.limits hplace rfl
    refine ⟨hplace, ?_, fun x hx => ?_⟩
    · obtain ⟨page, hpage, hlow, hend⟩ := hspare.page
      exact ⟨page, hpage.mono rfl (List.Subset.refl _), by omega, hend⟩
    · rcases List.mem_cons.mp hx with rfl | hx
      · exact Ico_disjoint_Ico_same
      · exact (hspare.free x hx).mono_right (Ico_subset_Ico_left (by omega))

/-- A block that does not fit starts a page of its own. -/
theorem Sound.allocate_full (h : t.Sound) (halign : servesAlignment align)
    (hsmall : Arena.wholeWords size ≤ t.arena.limits.poolLimit)
    (hroom : t.arena.room? (Arena.wholeWords size) (clamp align wordSize maxAlignment) = none)
    (hfresh : t.Offers fresh (t.arena.allocate fresh size align)) :
    (t.allocate fresh size align).Sound := by
  obtain ⟨haligned, -, hlive⟩ := hfresh
  simp only [Tenancy.allocate, Arena.allocate_of_full hsmall hroom, if_true] at haligned hlive ⊢
  have hdvd : max align wordSize ∣ fresh :=
    Nat.dvd_trans (max_dvd_maxAlignment halign)
      (Nat.dvd_trans h.limits.maxAlignment_dvd haligned)
  -- the block is the front of the page, and what is left is the rest of it
  have hsize : Arena.wholeWords size ≤ t.arena.limits.pageSize :=
    Nat.le_trans hsmall h.limits.pool
  have hbytes : Ico fresh (fresh + Arena.wholeWords size)
      ⊆ Ico fresh (fresh + t.arena.limits.pageSize) :=
    Ico_subset_Ico_right (Nat.add_le_add_left hsize _)
  rw [if_pos ⟨trivial, h.limits.pos.ne'⟩]
  refine h.lease (b := ⟨fresh, size, align⟩) rfl (List.subset_cons_self ..) rfl
    ⟨halign, hdvd, fun _ => ⟨fresh, ⟨List.mem_cons_self, haligned⟩, hbytes⟩⟩
    (fun x hx => (hlive x hx).mono_left hbytes) ?_
  intro address pageEnd hcursor
  have hplace : Arena.Place t.arena.limits.pageSize (fresh + Arena.wholeWords size)
      (fresh + t.arena.limits.pageSize) :=
    { word := Nat.dvd_add (Nat.dvd_trans h.limits.wordSize_dvd haligned)
        (Arena.wordSize_dvd_wholeWords _)
      page := Nat.dvd_add haligned (Nat.dvd_refl _)
      low := by omega
      high := Nat.add_le_add_left hsize _ }
  obtain ⟨rfl, rfl⟩ := Arena.decode?_eq_some hcursor h.limits hplace rfl
  refine ⟨hplace, ⟨fresh, ⟨List.mem_cons_self, haligned⟩, by omega, rfl⟩, fun x hx => ?_⟩
  rcases List.mem_cons.mp hx with rfl | hx
  · exact Ico_disjoint_Ico_same
  · exact (hlive x hx).symm.mono_right (Ico_subset_Ico_left (by omega))

theorem Sound.allocate (h : t.Sound) (halign : servesAlignment align)
    (hfresh : (t.arena.allocate fresh size align).fetched ≠ 0 →
      t.Offers fresh (t.arena.allocate fresh size align)) :
    (t.allocate fresh size align).Sound := by
  by_cases hlarge : t.arena.limits.poolLimit < Arena.wholeWords size
  · refine h.allocate_large halign hlarge (hfresh ?_)
    rw [Arena.allocate_of_large hlarge]
    exact (Arena.wholeWords_pos size).ne'
  · have hsmall := Nat.not_lt.mp hlarge
    cases hroom : t.arena.room? (Arena.wholeWords size) (clamp align wordSize maxAlignment) with
    | some place => exact h.allocate_room halign hsmall hroom
    | none =>
      refine h.allocate_full halign hsmall hroom (hfresh ?_)
      rw [Arena.allocate_of_full hsmall hroom]
      exact h.limits.pos.ne'

-- ====================================================== a return

/-- One block less is out. -/
theorem Sound.release (h : t.Sound) (hl : t'.arena.limits = t.arena.limits)
    (hp : t'.pages = t.pages) (hlive : t'.live = t.live.erase b)
    (hcursor : ∀ address pageEnd, t'.arena.decode? = some (address, pageEnd) →
      t'.Spare address pageEnd) : t'.Sound where
  limits := hl ▸ h.limits
  placed x hx := by
    rw [hlive] at hx
    exact (h.placed x (List.mem_of_mem_erase hx)).mono hl (hp ▸ List.Subset.refl _)
  apart := by
    rw [hlive]
    exact h.apart.sublist List.erase_sublist
  cursor := hcursor

/-- What was nobody's stays so. -/
theorem Spare.release (h : t.Spare address pageEnd) (hl : t'.arena.limits = t.arena.limits)
    (hp : t'.pages = t.pages) (hlive : t'.live = t.live.erase b) : t'.Spare address pageEnd where
  place := hl ▸ h.place
  page := by
    obtain ⟨start, hstart, hrest⟩ := h.page
    exact ⟨start, hstart.mono hl (hp ▸ List.Subset.refl _), hl ▸ hrest⟩
  free x hx := h.free x (List.mem_of_mem_erase (hlive ▸ hx))

/-- A block that is out is no longer among those that are out once it is handed
back, and touches none of them. -/
theorem Sound.apart_erase (h : t.Sound) (hb : b ∈ t.live) :
    ∀ x ∈ t.live.erase b, Disjoint x.bytes b.bytes := by
  have hpairs := (List.perm_cons_erase hb).pairwise_iff (fun hxy => hxy.symm) |>.mp h.apart
  exact fun x hx => ((List.pairwise_cons.mp hpairs).1 x hx).symm

/-- What is free behind a block that ends at the cursor is free from the start
of the block on, to the end of the page the block is in. -/
theorem Sound.reclaim (h : t.Sound) (hb : b ∈ t.live)
    (hpool : b.length ≤ t.arena.limits.poolLimit)
    (hspare : t.Spare (b.address + b.length) pageEnd) :
    ∃ start, t.Fetched start ∧ start ≤ b.address ∧
      b.address < start + t.arena.limits.pageSize ∧
      ∀ x ∈ t.live.erase b, Disjoint x.bytes (Ico b.address (start + t.arena.limits.pageSize)) := by
  obtain ⟨start, hstart, hsub⟩ := (h.placed b hb).pooled hpool
  have hpos : 0 < b.length := Arena.wholeWords_pos _
  obtain ⟨hlow, hhigh⟩ := (Ico_subset_Ico_iff (Nat.lt_add_of_pos_right hpos)).mp hsub
  refine ⟨start, hstart, hlow, by omega, fun x hx => ?_⟩
  have hbytes := h.apart_erase hb x hx
  rcases Nat.lt_or_eq_of_le hhigh with hlt | heq
  · -- the page does not end with the block, so what follows is the rest of it
    have hend : pageEnd = start + t.arena.limits.pageSize :=
      hspare.place.pageEnd_eq hstart.aligned (by have := hspare.place.high; omega) hlt
    rw [← hend, ← Ico_union_Ico_eq_Ico (Nat.le_add_right b.address b.length) hspare.place.high]
    exact hbytes.union_right (hspare.free x (List.mem_of_mem_erase hx))
  · rw [← heq]
    exact hbytes

theorem Sound.deallocate (h : t.Sound) (hb : b ∈ t.live) : (t.deallocate b).Sound := by
  by_cases hlarge : t.arena.limits.poolLimit < Arena.wholeWords b.size
  · simp only [Tenancy.deallocate, Arena.deallocate, if_pos hlarge]
    exact h.release rfl rfl rfl fun address pageEnd hcursor =>
      (h.cursor address pageEnd hcursor).release rfl rfl rfl
  by_cases hlast : t.arena.decode?.any (·.1 == b.address + Arena.wholeWords b.size)
  · simp only [Tenancy.deallocate, Arena.deallocate, if_neg hlarge, if_pos hlast]
    obtain ⟨⟨last, pageEnd⟩, hcursor, hend⟩ := Option.any_eq_true .. |>.mp hlast
    obtain rfl : last = b.address + b.length := by simpa [Lease.length] using hend
    obtain ⟨start, hstart, hlow, hhigh, hfree⟩ :=
      h.reclaim hb (Nat.not_lt.mp hlarge) (h.cursor _ _ hcursor)
    refine h.release rfl rfl rfl fun address' pageEnd' hcursor' => ?_
    have hplace : Arena.Place t.arena.limits.pageSize b.address
        (start + t.arena.limits.pageSize) :=
      { word := Nat.dvd_trans (wordSize_dvd_max (h.placed b hb).serves) (h.placed b hb).aligned
        page := Nat.dvd_add hstart.aligned (Nat.dvd_refl _)
        low := Nat.add_le_add_right hlow _
        high := hhigh.le }
    obtain ⟨rfl, rfl⟩ := Arena.decode?_eq_some hcursor' h.limits hplace (if_neg hhigh.ne).symm
    exact ⟨hplace, ⟨start, hstart.mono rfl (List.Subset.refl _), hlow, rfl⟩, hfree⟩
  · simp only [Tenancy.deallocate, Arena.deallocate, if_neg hlarge, if_neg hlast]
    exact h.release rfl rfl rfl fun address pageEnd hcursor =>
      (h.cursor address pageEnd hcursor).release rfl rfl rfl

-- ====================================================== whole runs

variable {c : Config}

theorem Served.sound (h : Served c t) : t.Sound := by
  induction h with
  | new =>
    exact
      { limits := ArenaLimits.fit c
        placed := fun b hb => absurd hb List.not_mem_nil
        apart := List.Pairwise.nil
        cursor := fun address pageEnd hcursor => by cases hcursor }
  | allocate _ halign hfresh ih => exact ih.allocate halign hfresh
  | deallocate _ hb ih => exact ih.deallocate hb

-- ====================================================== memory from a heap

/-- Everything a tenancy has taken lies below the top of a heap. -/
structure Within (t : Tenancy) (heap : Heap) : Prop where
  pages : ∀ p ∈ t.pages, p + t.arena.limits.pageSize ≤ heap.top
  live : ∀ b ∈ t.live, b.address + b.length ≤ heap.top

variable {heap heap' : Heap}

/-- What a heap has next is as good as is assumed of memory from outside. -/
theorem Within.offers (h : t.Within heap) (hs : t.Sound) (grant : Arena.Grant) :
    t.Offers (heap.next t.arena.limits.pageSize) grant := by
  have hdvd := heap.dvd_next hs.limits
  have htop := heap.top_le_next t.arena.limits.pageSize
  refine ⟨?_, fun p hp => ?_, fun b hb => ?_⟩
  · split
    · exact hdvd
    · exact Nat.dvd_trans hs.limits.maxAlignment_dvd hdvd
  · exact (Ico_disjoint_Ico_same.mono_right
      (Ico_subset_Ico_left (Nat.le_trans (h.pages p hp) htop))).symm
  · exact (Ico_disjoint_Ico_same.mono_right
      (Ico_subset_Ico_left (Nat.le_trans (h.live b hb) htop))).symm

theorem Within.grow (h : t.Within heap) (hl : t'.arena.limits = t.arena.limits)
    (htop : heap.top ≤ heap'.top)
    (hpages : ∀ p ∈ t'.pages, p ∈ t.pages ∨ p + t.arena.limits.pageSize ≤ heap'.top)
    (hlive : ∀ b ∈ t'.live, b ∈ t.live ∨ b.address + b.length ≤ heap'.top) :
    t'.Within heap' where
  pages p hp := by
    rw [hl]
    exact (hpages p hp).elim (fun hold => Nat.le_trans (h.pages p hold) htop) id
  live b hb := (hlive b hb).elim (fun hold => Nat.le_trans (h.live b hold) htop) id

/-- A request is served with what the heap has next. -/
def supply (t : Tenancy) (heap : Heap) (size align : Nat) : Tenancy × Heap :=
  (t.allocate (heap.next t.arena.limits.pageSize) size align,
    (t.arena.allocateFrom heap size align).2)

/-- That leaves everything below its top. -/
theorem Within.supply (h : t.Within heap) (hs : t.Sound) (halign : servesAlignment align) :
    (t.supply heap size align).1.Within (t.supply heap size align).2 := by
  have htop := heap.top_le_next t.arena.limits.pageSize
  have hs' : (t.allocate (heap.next t.arena.limits.pageSize) size align).Sound :=
    hs.allocate halign fun _ => h.offers hs _
  unfold Tenancy.supply Arena.allocateFrom
  generalize heap.next t.arena.limits.pageSize = fresh at htop hs' ⊢
  by_cases hlarge : t.arena.limits.poolLimit < Arena.wholeWords size
  · simp only [Tenancy.allocate, Arena.allocate_of_large hlarge]
    have hheap := heap.top_take fresh (Arena.wholeWords_pos size)
    refine h.grow rfl (by omega) (fun p hp => .inl hp) fun b hb => ?_
    rcases List.mem_cons.mp hb with rfl | hb
    · exact .inr hheap.ge
    · exact .inl hb
  have hsmall := Nat.not_lt.mp hlarge
  cases hroom : t.arena.room? (Arena.wholeWords size) (clamp align wordSize maxAlignment) with
  | some place =>
    -- the block lies in a page that has been there
    have hblock := hs'.placed ⟨place.1, size, align⟩
    simp only [Tenancy.allocate, Arena.allocate_of_room hsmall hroom] at hblock ⊢
    obtain ⟨start, hstart, hsub⟩ := (hblock List.mem_cons_self).pooled hsmall
    refine h.grow rfl (Nat.le_refl _) (fun p hp => .inl hp) fun b hb => ?_
    rcases List.mem_cons.mp hb with rfl | hb
    · have hend := ((Ico_subset_Ico_iff
        (Nat.lt_add_of_pos_right (Arena.wholeWords_pos size))).mp hsub).2
      exact .inr (Nat.le_trans hend (h.pages start hstart.mem))
    · exact .inl hb
  | none =>
    simp only [Tenancy.allocate, Arena.allocate_of_full hsmall hroom]
    have hheap := heap.top_take fresh hs.limits.pos
    have hpool := hs.limits.pool
    refine h.grow rfl (by omega) (fun p hp => ?_) fun b hb => ?_
    · rw [if_pos ⟨trivial, hs.limits.pos.ne'⟩] at hp
      rcases List.mem_cons.mp hp with rfl | hp
      · exact .inr hheap.ge
      · exact .inl hp
    · rcases List.mem_cons.mp hb with rfl | hb
      · refine .inr ?_
        rw [hheap]
        exact Nat.add_le_add_left (Nat.le_trans hsmall hpool) _
      · exact .inl hb

theorem Within.deallocate (h : t.Within heap) : (t.deallocate b).Within heap :=
  h.grow Arena.deallocate_limits (Nat.le_refl _) (fun _ hp => .inl hp)
    fun _ hx => .inl (List.mem_of_mem_erase hx)

/-- What an arena with a heap behind it can come to. -/
inductive Supplied (c : Config) : Tenancy × Heap → Prop
  | new : Supplied c ({ arena := .new c }, {})
  | allocate {t : Tenancy} {heap : Heap} {size align : Nat} (h : Supplied c (t, heap))
      (halign : servesAlignment align) : Supplied c (t.supply heap size align)
  | deallocate {t : Tenancy} {heap : Heap} {b : Lease} (h : Supplied c (t, heap))
      (hb : b ∈ t.live) : Supplied c (t.deallocate b, heap)

/-- With a heap, nothing has to be assumed of the memory. -/
theorem Supplied.served {s : Tenancy × Heap} (h : Supplied c s) :
    Served c s.1 ∧ s.1.Within s.2 := by
  induction h with
  | new =>
    exact ⟨.new, fun p hp => absurd hp List.not_mem_nil, fun b hb => absurd hb List.not_mem_nil⟩
  | allocate _ halign ih =>
    obtain ⟨hserved, hwithin⟩ := ih
    exact ⟨hserved.allocate halign fun _ => hwithin.offers hserved.sound _,
      hwithin.supply hserved.sound halign⟩
  | deallocate _ hb ih => exact ⟨ih.1.deallocate hb, ih.2.deallocate⟩

-- ====================================================== what may be relied on

/-- The limits are those of the configuration. -/
theorem Served.limits (h : Served c t) : t.arena.limits = ArenaLimits.of c := by
  induction h with
  | new => rfl
  | allocate _ _ _ ih => rw [← ih, Tenancy.allocate, Arena.allocate_limits]
  | deallocate _ _ ih => rw [← ih, Tenancy.deallocate, Arena.deallocate_limits]

/-- What an arena may be relied on for. No two blocks that are out overlap;
each one starts at a multiple of its alignment and of a word; one that is not
too large for the pool lies in one page; and the bytes from the cursor to the
end of its page are in a page too, and belong to no block. -/
theorem Served.blocks (h : Served c t) :
    t.live.Pairwise (fun b b' => Disjoint b.bytes b'.bytes) ∧
    (∀ b ∈ t.live, max b.align wordSize ∣ b.address) ∧
    (∀ b ∈ t.live, b.length ≤ (ArenaLimits.of c).poolLimit →
      ∃ start ∈ t.pages, (ArenaLimits.of c).pageSize ∣ start ∧ b.bytes ⊆ t.page start) ∧
    (∀ address pageEnd, t.arena.decode? = some (address, pageEnd) →
      (∃ start ∈ t.pages, (ArenaLimits.of c).pageSize ∣ start ∧ start ≤ address ∧
        address ≤ pageEnd ∧ pageEnd = start + (ArenaLimits.of c).pageSize) ∧
      ∀ b ∈ t.live, Disjoint b.bytes (Ico address pageEnd)) := by
  have hs := h.sound
  rw [← h.limits]
  refine ⟨hs.apart, fun b hb => (hs.placed b hb).aligned, fun b hb hpool => ?_,
    fun address pageEnd hcursor => ⟨?_, (hs.cursor address pageEnd hcursor).free⟩⟩
  · obtain ⟨start, hstart, hsub⟩ := (hs.placed b hb).pooled hpool
    exact ⟨start, hstart.mem, hstart.aligned, hsub⟩
  · have hspare := hs.cursor address pageEnd hcursor
    obtain ⟨start, hstart, hle, hend⟩ := hspare.page
    exact ⟨start, hstart.mem, hstart.aligned, hle, hspare.place.high, hend⟩

/-- A page of 4096 bytes that is filled to the last byte, with padding in front
of its second block; its last block is handed back and taken again, and a block
that is too large for the pool follows. -/
def brimful : Tenancy × Heap :=
  let s := supply { arena := .new { pageSize := 4096, poolLimit := 2048 } } {} 2000 8
  let s := supply s.1 s.2 1 64
  let s := supply s.1 s.2 2040 8
  let s := supply (s.1.deallocate ⟨6152, 2040, 8⟩) s.2 2040 8
  supply s.1 s.2 2100 8

theorem brimful_supplied : Supplied { pageSize := 4096, poolLimit := 2048 } brimful := by
  have hword : servesAlignment 8 := ⟨⟨3, rfl⟩, by decide⟩
  refine .allocate (.allocate (.deallocate ?_ (by decide +kernel)) hword) hword
  exact .allocate (.allocate (.allocate .new hword) ⟨⟨6, rfl⟩, by decide⟩) hword

/-- There, nothing is left behind the cursor, and no two of the four blocks that
are out overlap. -/
theorem Served.blocks_brimful :
    brimful.1.arena.decode? = some (8192, 8192) ∧
    brimful.1.live = [⟨12288, 2100, 8⟩, ⟨6152, 2040, 8⟩, ⟨6144, 1, 64⟩, ⟨4096, 2000, 8⟩] ∧
    brimful.1.live.Pairwise (fun b b' => Disjoint b.bytes b'.bytes) ∧
    (∀ b ∈ brimful.1.live, max b.align wordSize ∣ b.address) ∧
    (∀ b ∈ brimful.1.live, b.length ≤ 2048 →
      ∃ start ∈ brimful.1.pages, 4096 ∣ start ∧ b.bytes ⊆ brimful.1.page start) ∧
    (∀ b ∈ brimful.1.live, Disjoint b.bytes (Ico 8192 8192)) := by
  have hblocks := Served.blocks brimful_supplied.served.1
  exact ⟨by decide +kernel, by decide +kernel, hblocks.1, hblocks.2.1, hblocks.2.2.1,
    (hblocks.2.2.2 8192 8192 (by decide +kernel)).2⟩

end Tenancy
end TypeRecords
