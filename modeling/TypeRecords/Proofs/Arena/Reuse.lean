/-
The latest block is used again, and no other.

Only a block that ends at the cursor is reclaimed. So it matters where the
cursor stands, and with it the order in which blocks were handed out.

# There and back

A block from a page starts at a place of that page, aligned as was asked for,
and the cursor is written behind it (`Arena.Carved`), whether there was padding
in front of the block, whether the block filled its page, or was the first one
in it. Handing the block back writes the cursor to its start. From there the
next request of that size needs no padding, if it is not aligned more strictly,
and comes to the same place (`Arena.Carved.again`).

# Everything else leaks

The blocks that lie where they were put, be they out or leaked, are kept in a
list with the latest first (`Tenancy.Logged`). None of them is ever touched
again: as far as the invariant of the arena is concerned they might all be out
(`Logged.sound`). So what is carved from a page lies above all of them that are
in the page (`Logged.ascending`), and the cursor stands above what was carved.
A block with a later one above it does not end at the cursor, unless the cursor
were in another page, and there it is not above anything.
-/
import TypeRecords.Proofs.Arena.Tenancy

namespace TypeRecords

open Set

-- ====================================================== there and back

namespace Arena

/-- A block from a page that ends at `pageEnd`, and the cursor behind it. -/
structure Carved (g : Grant) (size align pageEnd : Nat) : Prop where
  pooled : g.pooled = true
  cursor : g.arena.cursor = encode (g.address + wholeWords size) pageEnd
  place : Place g.arena.limits.pageSize g.address pageEnd
  fits : g.address + wholeWords size ≤ pageEnd
  aligned : max align wordSize ∣ g.address

variable {a : Arena} {g : Grant} {fresh size align align' pageEnd : Nat}

/-- What is nobody's after the block begins where the block ends. -/
theorem Carved.decode? (h : Carved g size align pageEnd) (hl : g.arena.limits.Fit) :
    g.arena.decode? = some (g.address + wholeWords size, pageEnd) := by
  have hpos := wholeWords_pos size
  have hplace : Place g.arena.limits.pageSize (g.address + wholeWords size) pageEnd :=
    { word := Nat.dvd_add h.place.word (wordSize_dvd_wholeWords size)
      page := h.place.page
      low := Nat.le_trans h.place.low (by omega)
      high := h.fits }
  rw [decode?_encode hl hplace h.cursor, if_neg]
  rw [h.cursor]
  unfold encode
  split
  · rw [mark_word hplace.word]
    exact Nat.succ_ne_zero _
  · omega

/-- The block is reclaimed when it is handed back. -/
theorem Carved.deallocate (h : Carved g size align pageEnd) (hl : g.arena.limits.Fit)
    (hs : wholeWords size ≤ g.arena.limits.poolLimit) :
    g.arena.deallocate g.address size
      = ({ g.arena with
          cursor := g.address
          tally := { g.arena.tally with reclaimed := g.arena.tally.reclaimed + 1 } },
        .reclaimed) := by
  unfold Arena.deallocate
  simp only [if_neg (Nat.not_lt.mpr hs), h.decode? hl, Option.any_some, beq_self_eq_true, if_true]

/-- A request of the same size that comes next is served with the same block. -/
theorem Carved.again (h : Carved g size align pageEnd) (hl : g.arena.limits.Fit)
    (hs : wholeWords size ≤ g.arena.limits.poolLimit) (haddress : g.address ≠ 0)
    (halign : servesAlignment align) (halign' : servesAlignment align') (hle : align' ≤ align) :
    ((g.arena.deallocate g.address size).1.allocate fresh size align')
      = { g with
          arena := { g.arena with tally := { g.arena.tally with
            pooled := g.arena.tally.pooled + 1
            bytes := g.arena.tally.bytes + wholeWords size
            reclaimed := g.arena.tally.reclaimed + 1 } }
          fetched := 0 } := by
  have hpos := wholeWords_pos size
  have hfits := h.fits
  have hlt : g.address < pageEnd := by omega
  rw [h.deallocate hl hs]
  generalize hb : { g.arena with
    cursor := g.address
    tally := { g.arena.tally with reclaimed := g.arena.tally.reclaimed + 1 } } = back
  have hlimits : back.limits = g.arena.limits := hb ▸ rfl
  have hcursor : back.cursor = g.address := hb ▸ rfl
  have hplace : Place back.limits.pageSize g.address pageEnd := hlimits ▸ h.place
  have hat : back.cursor = encode g.address pageEnd := by rw [hcursor, encode, if_neg hlt.ne]
  have hdecode : back.decode? = some (g.address, pageEnd) := by
    rw [decode?_encode (hlimits ▸ hl) hplace hat, hcursor, if_neg haddress]
  -- the start of the block is aligned strictly enough, so there is no padding
  have hdvd : max align' wordSize ∣ g.address :=
    Nat.dvd_trans (dvd_of_le_of_isPowerOfTwo (isPowerOfTwo_max halign') (isPowerOfTwo_max halign)
      (max_le_max_right _ hle)) h.aligned
  have hroom : back.room? (wholeWords size) (clamp align' wordSize maxAlignment)
      = some (g.address, pageEnd) := by
    rw [clamp_align halign', room?_eq_some]
    exact ⟨g.address, hdecode, (roundUp_of_dvd (isPowerOfTwo_max halign') hdvd).symm, hfits⟩
  rw [allocate_of_room (hlimits.symm ▸ hs) hroom]
  obtain ⟨arena, address, pooled, fetched⟩ := g
  obtain rfl : pooled = true := h.pooled
  subst hb
  simp only [Grant.mk.injEq, Arena.mk.injEq, true_and, and_true]
  exact h.cursor.symm

/-- There is no cursor at address zero. -/
theorem decode?_pos {address : Nat} (h : a.decode? = some (address, pageEnd)) (hend : 0 < pageEnd) :
    0 < address := by
  unfold Arena.decode? at h
  simp only at h
  split at h
  · cases h
  · split at h
    · cases h
      exact hend
    · cases h
      omega

/-- A request returns nothing. -/
theorem allocate_returns :
    (a.allocate fresh size align).arena.tally.reclaimed = a.tally.reclaimed
    ∧ (a.allocate fresh size align).arena.tally.leaked = a.tally.leaked := by
  unfold allocate
  simp only
  split
  · exact ⟨rfl, rfl⟩
  · split <;> exact ⟨rfl, rfl⟩

/-- A block that leaks leaves the cursor where it is. -/
theorem deallocate_of_leaked {address : Nat} (h : (a.deallocate address size).2 = .leaked) :
    wholeWords size ≤ a.limits.poolLimit
    ∧ a.deallocate address size
      = ({ a with tally := { a.tally with leaked := a.tally.leaked + 1 } }, .leaked) := by
  unfold deallocate at h ⊢
  simp only at h ⊢
  split at h
  · cases h
  · rename_i hs
    split at h
    · cases h
    · rename_i hlast
      rw [if_neg hs, if_neg hlast]
      exact ⟨Nat.not_lt.mp hs, rfl⟩

/-- A block that the cursor is not behind leaks. -/
theorem deallocate_eq_leaked {address : Nat} (hs : wholeWords size ≤ a.limits.poolLimit)
    (hlast : ∀ pageEnd, a.decode? ≠ some (address + wholeWords size, pageEnd)) :
    a.deallocate address size
      = ({ a with tally := { a.tally with leaked := a.tally.leaked + 1 } }, .leaked) := by
  have hany : ¬ a.decode?.any (·.1 == address + wholeWords size) = true := by
    intro hany
    obtain ⟨⟨last, pageEnd⟩, hcursor, hend⟩ := Option.any_eq_true .. |>.mp hany
    obtain rfl : last = address + wholeWords size := beq_iff_eq.mp hend
    exact hlast pageEnd hcursor
  unfold deallocate
  simp only [if_neg (Nat.not_lt.mpr hs), if_neg hany]

end Arena

-- ====================================================== blocks in order

namespace Tenancy

/-- A tenancy in which other blocks are out. -/
def keeping (t : Tenancy) (blocks : List Lease) : Tenancy := { t with live := blocks }

/-- Two blocks from pages, the later one first. If they are in the same page the
later one lies above the other one. -/
def Above (l : ArenaLimits) (later earlier : Lease) : Prop :=
  later.length ≤ l.poolLimit → earlier.length ≤ l.poolLimit →
    later.address / l.pageSize = earlier.address / l.pageSize →
    earlier.address + earlier.length ≤ later.address

/-- What an arena can come to, and the blocks that have been handed out and are
not free for others again: those that are out, and those that have leaked. The
latest one comes first. -/
inductive Logged (c : Config) : Tenancy → List Lease → Prop
  | new : Logged c { arena := .new c } []
  | allocate {t : Tenancy} {blocks : List Lease} {fresh size align : Nat} (h : Logged c t blocks)
      (halign : servesAlignment align)
      (hfresh : (t.arena.allocate fresh size align).fetched ≠ 0 →
        t.Offers fresh (t.arena.allocate fresh size align)) :
      Logged c (t.allocate fresh size align)
        (⟨(t.arena.allocate fresh size align).address, size, align⟩ :: blocks)
  | deallocate {t : Tenancy} {blocks : List Lease} {b : Lease} (h : Logged c t blocks)
      (hb : b ∈ t.live) :
      Logged c (t.deallocate b)
        (if (t.arena.deallocate b.address b.size).2 = .leaked then blocks else blocks.erase b)

variable {c : Config} {t : Tenancy} {blocks : List Lease} {b b' : Lease}
  {fresh size align address pageEnd start : Nat}

theorem Logged.served (h : Logged c t blocks) : Served c t := by
  induction h with
  | new => exact .new
  | allocate _ halign hfresh ih => exact ih.allocate halign hfresh
  | deallocate _ hb ih => exact ih.deallocate hb

/-- Whatever an arena has come to, there is a log of it. -/
theorem Served.logged (h : Served c t) : ∃ blocks, Logged c t blocks := by
  induction h with
  | new => exact ⟨_, .new⟩
  | allocate _ halign hfresh ih =>
    obtain ⟨blocks, ih⟩ := ih
    exact ⟨_, ih.allocate halign hfresh⟩
  | deallocate _ hb ih =>
    obtain ⟨blocks, ih⟩ := ih
    exact ⟨_, ih.deallocate hb⟩

-- ====================================================== pages by number

/-- The page that a place lies in can be computed from the place. -/
theorem page_eq {pageSize : Nat} (hs : pageSize ∣ start) (hlow : start ≤ address)
    (hhigh : address < start + pageSize) : address / pageSize * pageSize = start := by
  obtain ⟨n, rfl⟩ := hs
  rw [Nat.div_eq_of_lt_le (k := n) (by rw [Nat.mul_comm]; exact hlow)
    (by rw [Nat.succ_mul, Nat.mul_comm]; exact hhigh), Nat.mul_comm]

/-- A block from a page has a first byte and a last one, both in the page. -/
theorem Placed.bounds (h : t.Placed b) (hpool : b.length ≤ t.arena.limits.poolLimit) :
    t.Fetched (b.address / t.arena.limits.pageSize * t.arena.limits.pageSize)
    ∧ b.address / t.arena.limits.pageSize * t.arena.limits.pageSize ≤ b.address
    ∧ b.address + b.length
      ≤ b.address / t.arena.limits.pageSize * t.arena.limits.pageSize
        + t.arena.limits.pageSize := by
  obtain ⟨start, hstart, hsub⟩ := h.pooled hpool
  have hpos : 0 < b.length := Arena.wholeWords_pos _
  obtain ⟨hlow, hhigh⟩ := (Ico_subset_Ico_iff (Nat.lt_add_of_pos_right hpos)).mp hsub
  rw [page_eq hstart.aligned hlow (by omega)]
  exact ⟨hstart, hlow, hhigh⟩

-- ====================================================== what is carved

/-- A request that is not too large is served from a page. -/
theorem Sound.carved (h : t.Sound) (halign : servesAlignment align)
    (hs : Arena.wholeWords size ≤ t.arena.limits.poolLimit)
    (hfresh : (t.arena.allocate fresh size align).fetched ≠ 0 →
      t.Offers fresh (t.arena.allocate fresh size align)) :
    ∃ pageEnd, Arena.Carved (t.arena.allocate fresh size align) size align pageEnd := by
  cases hroom : t.arena.room? (Arena.wholeWords size) (clamp align wordSize maxAlignment) with
  | some place =>
    obtain ⟨start, pageEnd⟩ := place
    rw [Arena.allocate_of_room hs hroom]
    rw [clamp_align halign] at hroom
    obtain ⟨address, hcursor, hstart, hfits⟩ := Arena.room?_eq_some.mp hroom
    have hspare := h.cursor address pageEnd hcursor
    have hdvd : max align wordSize ∣ start := hstart ▸ dvd_roundUp (isPowerOfTwo_max halign)
    have hle : address ≤ start :=
      hstart ▸ le_roundUp address (Nat.pos_of_isPowerOfTwo (isPowerOfTwo_max halign))
    exact ⟨pageEnd,
      { pooled := rfl
        cursor := rfl
        place :=
          { word := Nat.dvd_trans (wordSize_dvd_max halign) hdvd
            page := hspare.place.page
            low := Nat.le_trans hspare.place.low (Nat.add_le_add_right hle _)
            high := Nat.le_trans (Nat.le_add_right ..) hfits }
        fits := hfits
        aligned := hdvd }⟩
  | none =>
    rw [Arena.allocate_of_full hs hroom] at hfresh ⊢
    obtain ⟨haligned, -, -⟩ := hfresh h.limits.pos.ne'
    replace haligned : t.arena.limits.pageSize ∣ fresh := haligned
    exact ⟨fresh + t.arena.limits.pageSize,
      { pooled := rfl
        cursor := rfl
        place :=
          { word := Nat.dvd_trans h.limits.wordSize_dvd haligned
            page := Nat.dvd_add haligned (Nat.dvd_refl _)
            low := Nat.le_refl _
            high := Nat.le_add_right .. }
        fits := Nat.add_le_add_left (Nat.le_trans hs h.limits.pool) fresh
        aligned := Nat.dvd_trans (max_dvd_maxAlignment halign)
          (Nat.dvd_trans h.limits.maxAlignment_dvd haligned) }⟩

/-- Nothing is carved at address zero, unless a page is there. -/
theorem Sound.carved_ne_zero (h : t.Sound) (halign : servesAlignment align)
    (hs : Arena.wholeWords size ≤ t.arena.limits.poolLimit)
    (hfresh : (t.arena.allocate fresh size align).fetched ≠ 0 → fresh ≠ 0) :
    (t.arena.allocate fresh size align).address ≠ 0 := by
  cases hroom : t.arena.room? (Arena.wholeWords size) (clamp align wordSize maxAlignment) with
  | some place =>
    obtain ⟨start, pageEnd⟩ := place
    rw [Arena.allocate_of_room hs hroom]
    rw [clamp_align halign] at hroom
    obtain ⟨address, hcursor, rfl, hfits⟩ := Arena.room?_eq_some.mp hroom
    have hpos := Arena.wholeWords_pos size
    have haddress := Arena.decode?_pos hcursor (by omega)
    have hle := le_roundUp address (Nat.pos_of_isPowerOfTwo (isPowerOfTwo_max halign))
    show roundUp address (max align wordSize) ≠ 0
    omega
  | none =>
    rw [Arena.allocate_of_full hs hroom] at hfresh ⊢
    exact hfresh h.limits.pos.ne'

/-- A block that has just been carved from a page lies above all others in it:
what is behind the block is nobody's, up to the end of the page. -/
theorem Sound.carved_above (h : t.Sound) (halign : servesAlignment align)
    (hs : Arena.wholeWords size ≤ t.arena.limits.poolLimit)
    (hfresh : (t.arena.allocate fresh size align).fetched ≠ 0 →
      t.Offers fresh (t.arena.allocate fresh size align))
    (hb : b ∈ t.live) (hpool : b.length ≤ t.arena.limits.poolLimit)
    (hpage : (t.arena.allocate fresh size align).address / t.arena.limits.pageSize
      = b.address / t.arena.limits.pageSize) :
    b.address + b.length ≤ (t.arena.allocate fresh size align).address := by
  have hsound := h.allocate halign hfresh
  obtain ⟨pageEnd, hcarved⟩ := h.carved halign hs hfresh
  have hlimits : (t.arena.allocate fresh size align).arena.limits = t.arena.limits :=
    Arena.allocate_limits
  have hspare := hsound.cursor _ _ (hcarved.decode? (hlimits ▸ h.limits))
  have hblock := ((List.pairwise_cons.mp hsound.apart).1 b hb).symm
  have hrest := hspare.free b (List.mem_cons_of_mem _ hb)
  have hplace := hlimits ▸ hcarved.place
  have hfits := hcarved.fits
  -- the page of the other block ends where this one does
  generalize (t.arena.allocate fresh size align).address = address at *
  obtain ⟨hstart, hlow, hhigh⟩ := (h.placed b hb).bounds hpool
  have hin := Nat.lt_div_mul_add (a := address) h.limits.pos
  have hdown := Nat.div_mul_le_self address t.arena.limits.pageSize
  rw [hpage] at hin hdown
  have hpos := Arena.wholeWords_pos size
  have hend := hplace.pageEnd_eq hstart.aligned (by omega) hin
  -- the other block ends before this one starts, or they would overlap
  have hboth : Disjoint b.bytes (Ico address pageEnd) :=
    Ico_union_Ico_eq_Ico (Nat.le_add_right _ _) hfits ▸ hblock.union_right hrest
  have hpos' : 0 < b.length := Arena.wholeWords_pos _
  have hmin := Ico_disjoint_Ico.mp hboth
  omega

-- ====================================================== the order is kept

/-- What is true of an arena and its log. All blocks of the log might be out. -/
structure Ascending (t : Tenancy) (blocks : List Lease) : Prop where
  sound : (t.keeping blocks).Sound
  live : t.live.Sublist blocks
  /-- What has leaked lies in a page. -/
  large : ∀ x ∈ blocks, t.arena.limits.poolLimit < x.length → x ∈ t.live
  above : blocks.Pairwise (Above t.arena.limits)

/-- What is new touches nothing that has leaked either. -/
theorem Ascending.offers (h : t.Ascending blocks) {grant : Arena.Grant}
    (ho : t.Offers fresh grant) : (t.keeping blocks).Offers fresh grant where
  aligned := ho.aligned
  pages := ho.pages
  live x hx := by
    by_cases hpool : x.length ≤ t.arena.limits.poolLimit
    · obtain ⟨start, hstart, hsub⟩ := (h.sound.placed x hx).pooled hpool
      exact (ho.pages start hstart.mem).mono_right hsub
    · exact ho.live x (h.large x hx (Nat.not_le.mp hpool))

/-- What is left when a block has been handed back is not that block. -/
theorem Sound.ne_of_mem_erase (h : t.Sound) (hb : b ∈ t.live) {x : Lease}
    (hx : x ∈ t.live.erase b) : x ≠ b := by
  rintro rfl
  have hpos : 0 < x.length := Arena.wholeWords_pos _
  have hempty : x.bytes = ∅ := disjoint_self.mp (h.apart_erase hb x hx)
  exact (nonempty_Ico.mpr (Nat.lt_add_of_pos_right hpos)).ne_empty hempty

theorem Ascending.allocate (h : t.Ascending blocks) (halign : servesAlignment align)
    (hfresh : (t.arena.allocate fresh size align).fetched ≠ 0 →
      t.Offers fresh (t.arena.allocate fresh size align)) :
    (t.allocate fresh size align).Ascending
      (⟨(t.arena.allocate fresh size align).address, size, align⟩ :: blocks) where
  sound := h.sound.allocate halign fun hf => h.offers (hfresh hf)
  live := h.live.cons_cons _
  large x hx hlarge := by
    rcases List.mem_cons.mp hx with rfl | hx
    · exact List.mem_cons_self
    · refine List.mem_cons_of_mem _ (h.large x hx ?_)
      rwa [show (t.allocate fresh size align).arena.limits = t.arena.limits from
        Arena.allocate_limits] at hlarge
  above := by
    rw [show (t.allocate fresh size align).arena.limits = t.arena.limits from
      Arena.allocate_limits]
    exact List.pairwise_cons.mpr ⟨fun x hx hs hpool hpage =>
      h.sound.carved_above halign hs (fun hf => h.offers (hfresh hf)) hx hpool hpage, h.above⟩

/-- A block that leaks stays where it is. -/
theorem Ascending.leak (h : t.Ascending blocks) (hb : b ∈ t.live)
    (hleak : (t.arena.deallocate b.address b.size).2 = .leaked) :
    (t.deallocate b).Ascending blocks := by
  obtain ⟨hpool, hback⟩ := Arena.deallocate_of_leaked hleak
  unfold Tenancy.deallocate
  rw [hback]
  exact
    { sound :=
        { limits := h.sound.limits
          placed := fun x hx => (h.sound.placed x hx).mono rfl (List.Subset.refl _)
          apart := h.sound.apart
          cursor := fun address pageEnd hcursor =>
            have hspare := h.sound.cursor address pageEnd hcursor
            ⟨hspare.place, by
              obtain ⟨start, hstart, hrest⟩ := hspare.page
              exact ⟨start, hstart.mono rfl (List.Subset.refl _), hrest⟩, hspare.free⟩ }
      live := List.erase_sublist.trans h.live
      large := fun x hx hlarge => by
        refine (List.mem_erase_of_ne ?_).mpr (h.large x hx hlarge)
        rintro rfl
        exact Nat.not_lt.mpr hpool hlarge
      above := h.above }

/-- Any other block is free for others again. -/
theorem Ascending.free (h : t.Ascending blocks) (hb : b ∈ t.live) :
    (t.deallocate b).Ascending (blocks.erase b) where
  sound := h.sound.deallocate (h.live.subset hb)
  live := h.live.erase b
  large x hx hlarge := by
    rw [show (t.deallocate b).arena.limits = t.arena.limits from Arena.deallocate_limits] at hlarge
    exact (List.mem_erase_of_ne (h.sound.ne_of_mem_erase (h.live.subset hb) hx)).mpr
      (h.large x (List.mem_of_mem_erase hx) hlarge)
  above := by
    rw [show (t.deallocate b).arena.limits = t.arena.limits from Arena.deallocate_limits]
    exact h.above.sublist List.erase_sublist

theorem Logged.ascending (h : Logged c t blocks) : t.Ascending blocks := by
  induction h with
  | new =>
    exact
      { sound := Served.new.sound
        live := List.Sublist.refl _
        large := fun x hx => absurd hx List.not_mem_nil
        above := List.Pairwise.nil }
  | allocate _ halign hfresh ih => exact ih.allocate halign hfresh
  | deallocate _ hb ih =>
    split
    · exact ih.leak hb ‹_›
    · exact ih.free hb

-- ====================================================== what may be relied on

/-- The cursor does not stand at the end of a block with another one above it in
its page. -/
theorem Sound.cursor_ne (h : t.Sound) (hb : b ∈ t.live)
    (hpool : b.length ≤ t.arena.limits.poolLimit) (hb' : b' ∈ t.live)
    (hpool' : b'.length ≤ t.arena.limits.poolLimit)
    (hpage : b'.address / t.arena.limits.pageSize = b.address / t.arena.limits.pageSize)
    (habove : b.address + b.length ≤ b'.address) :
    t.arena.decode? ≠ some (b.address + b.length, pageEnd) := by
  intro hcursor
  obtain ⟨hstart, hlow, -⟩ := (h.placed b hb).bounds hpool
  obtain ⟨-, -, hhigh⟩ := (h.placed b' hb').bounds hpool'
  rw [hpage] at hhigh
  have hpos : 0 < b.length := Arena.wholeWords_pos _
  have hpos' : 0 < b'.length := Arena.wholeWords_pos _
  -- it would stand in that page, and the other block lie in what is nobody's
  have hspare := h.cursor _ _ hcursor
  have hhere := hspare.place.high
  have hend := hspare.place.pageEnd_eq hstart.aligned (by omega) (by omega)
  have hmin := Ico_disjoint_Ico.mp (hspare.free b' hb')
  omega

/-- What the order of requests decides:

- A request that is not too large for the pool is served from a page. If the
  block is handed back at once it is reclaimed, and the next request of that
  size that is aligned as strictly or less strictly is served with the same
  block. Nothing is taken from outside for it, one block more has been
  reclaimed and none more has leaked, and the cursor stands where it stood after
  the first of the two requests.
- A block that is handed back leaks if a later one has been carved from its page
  and has not been reclaimed. One block more has leaked, and nothing else is
  changed.

It is assumed of memory from outside that it does not lie at address zero. -/
theorem Logged.latest_reused (h : Logged c t blocks) :
    (∀ {fresh fresh' size align align' : Nat},
      Arena.wholeWords size ≤ (ArenaLimits.of c).poolLimit →
      servesAlignment align → servesAlignment align' → align' ≤ align →
      ((t.arena.allocate fresh size align).fetched ≠ 0 →
        fresh ≠ 0 ∧ t.Offers fresh (t.arena.allocate fresh size align)) →
      let first := t.arena.allocate fresh size align
      let back := first.arena.deallocate first.address size
      let again := back.1.allocate fresh' size align'
      first.pooled = true ∧ back.2 = .reclaimed
        ∧ again.address = first.address ∧ again.pooled = true ∧ again.fetched = 0
        ∧ again.arena.cursor = first.arena.cursor
        ∧ again.arena.tally.reclaimed = t.arena.tally.reclaimed + 1
        ∧ again.arena.tally.leaked = t.arena.tally.leaked
        ∧ again.arena.tally.pages = first.arena.tally.pages)
    ∧ ∀ {b b' : Lease}, b ∈ t.live → [b', b].Sublist blocks →
      b.length ≤ (ArenaLimits.of c).poolLimit → b'.length ≤ (ArenaLimits.of c).poolLimit →
      b'.address / (ArenaLimits.of c).pageSize = b.address / (ArenaLimits.of c).pageSize →
      t.arena.deallocate b.address b.size
        = ({ t.arena with tally := { t.arena.tally with leaked := t.arena.tally.leaked + 1 } },
          .leaked) := by
  have hlimits := h.served.limits
  rw [← hlimits]
  constructor
  · intro fresh fresh' size align align' hs halign halign' hle hfresh
    have hkept : (t.arena.allocate fresh size align).arena.limits = t.arena.limits :=
      Arena.allocate_limits
    have hsound := h.served.sound
    obtain ⟨pageEnd, hcarved⟩ := hsound.carved halign hs fun hf => (hfresh hf).2
    have hne := hsound.carved_ne_zero halign hs fun hf => (hfresh hf).1
    have hback := hcarved.deallocate (hkept ▸ hsound.limits) (hkept ▸ hs)
    have hagain := @Arena.Carved.again _ fresh' _ _ _ _ hcarved (hkept ▸ hsound.limits)
      (hkept ▸ hs) hne halign halign' hle
    obtain ⟨hreclaimed, hleaked⟩ := @Arena.allocate_returns t.arena fresh size align
    simp only [hagain, hreclaimed, hleaked]
    exact ⟨hcarved.pooled, congrArg Prod.snd hback, trivial, hcarved.pooled, trivial, trivial,
      trivial, trivial, trivial⟩
  · intro b b' hb hlater hpool hpool' hpage
    have hasc := h.ascending
    have habove := List.pairwise_pair.mp (hasc.above.sublist hlater) hpool' hpool hpage
    exact Arena.deallocate_eq_leaked hpool fun pageEnd =>
      hasc.sound.cursor_ne (hasc.live.subset hb) hpool (hlater.subset List.mem_cons_self) hpool'
        hpage habove

/-- A page of 4096 bytes with two blocks in it, and padding in front of the
second one. -/
def padded : Tenancy :=
  Tenancy.allocate
    (Tenancy.allocate { arena := .new { pageSize := 4096, poolLimit := 2048 } } 4096 2000 8) 0 1 64

theorem padded_logged :
    Logged { pageSize := 4096, poolLimit := 2048 } padded [⟨6144, 1, 64⟩, ⟨4096, 2000, 8⟩] := by
  have hword : servesAlignment 8 := ⟨⟨3, rfl⟩, by decide⟩
  have hfirst : Logged { pageSize := 4096, poolLimit := 2048 } _ _ :=
    @Logged.allocate _ _ _ 4096 2000 8 .new hword fun _ => ⟨by decide +kernel, nofun, nofun⟩
  exact @Logged.allocate _ _ _ 0 1 64 hfirst ⟨⟨6, rfl⟩, by decide⟩
    fun hf => (hf (by decide +kernel)).elim

/-- There, a request that fills the page to the last byte is served with the
same block once more, and the older of the two blocks leaks. -/
theorem latest_reused_padded :
    let first := padded.arena.allocate 0 2040 8
    let back := first.arena.deallocate first.address 2040
    let again := back.1.allocate 0 2040 8
    first.arena.decode? = some (8192, 8192)
      ∧ back.2 = .reclaimed ∧ again.address = first.address ∧ again.fetched = 0
      ∧ again.arena.cursor = first.arena.cursor ∧ again.arena.tally.reclaimed = 1
      ∧ again.arena.tally.pages = 1
      ∧ (padded.arena.deallocate 4096 2000).2 = .leaked
      ∧ (padded.arena.deallocate 4096 2000).1.cursor = padded.arena.cursor := by
  have hword : servesAlignment 8 := ⟨⟨3, rfl⟩, by decide⟩
  obtain ⟨hagain, hleaks⟩ := Logged.latest_reused padded_logged
  obtain ⟨-, hback, haddress, -, hfetched, hcursor, hreclaimed, -, hpages⟩ :=
    @hagain 0 0 2040 8 8 (by decide +kernel) hword hword (Nat.le_refl 8)
      fun hf => (hf (by decide +kernel)).elim
  have hleak := @hleaks ⟨4096, 2000, 8⟩ ⟨6144, 1, 64⟩ (by decide +kernel)
    (List.Sublist.refl _) (by decide +kernel) (by decide +kernel) (by decide +kernel)
  refine ⟨by decide +kernel, hback, haddress, hfetched, hcursor, ?_, ?_,
    congrArg Prod.snd hleak, congrArg (·.1.cursor) hleak⟩
  · exact hreclaimed.trans (by decide +kernel)
  · exact hpages.trans (by decide +kernel)

end Tenancy

end TypeRecords
