/-
Pages and cursors.

A cursor is one word for two numbers: the first free byte of the current page
and the end of that page. `Arena.decode?_encode` says that both can be read
off it again, for every place in a page, the end included. For that the page
size has to be a power of two, pages have to lie at multiples of it, and
cursors have to be whole words; `ArenaLimits.fit` says what the limits of an
arena are good for, whatever was configured.
-/
import TypeRecords.Arena
import TypeRecords.Proofs.Layout.Rounding

namespace TypeRecords

-- ====================================================== limits

/-- Whatever is rounded up to a power of two is one. -/
theorem isPowerOfTwo_ceilPowerOfTwo (n : Nat) : (ceilPowerOfTwo n).isPowerOfTwo := by
  unfold ceilPowerOfTwo
  split
  · exact ⟨0, rfl⟩
  · exact ⟨_, Nat.one_shiftLeft _⟩

/-- Rounding up to a power of two never goes down. -/
theorem le_ceilPowerOfTwo (n : Nat) : n ≤ ceilPowerOfTwo n := by
  unfold ceilPowerOfTwo
  split
  · assumption
  · rw [Nat.one_shiftLeft]
    have hlt : n - 1 < 2 ^ ((n - 1).log2 + 1) := Nat.lt_log2_self
    omega

/-- Limits an arena can work with. -/
structure ArenaLimits.Fit (l : ArenaLimits) : Prop where
  power : l.pageSize.isPowerOfTwo
  page : minPageSize ≤ l.pageSize
  pool : l.poolLimit ≤ l.pageSize

/-- Whatever is configured, an arena can work with what it makes of it. -/
theorem ArenaLimits.fit (c : Config) : (ArenaLimits.of c).Fit where
  power := isPowerOfTwo_ceilPowerOfTwo _
  page := Nat.le_trans (Nat.le_max_left ..) (le_ceilPowerOfTwo _)
  pool := by
    show max wordSize (min c.poolLimit (ceilPowerOfTwo _)) ≤ ceilPowerOfTwo _
    refine Nat.max_le.mpr ⟨?_, Nat.min_le_right ..⟩
    exact Nat.le_trans (by decide : wordSize ≤ minPageSize)
      (Nat.le_trans (Nat.le_max_left ..) (le_ceilPowerOfTwo _))

namespace ArenaLimits.Fit

variable {l : ArenaLimits}

/-- Pages are not empty. -/
theorem pos (h : l.Fit) : 0 < l.pageSize := Nat.pos_of_isPowerOfTwo h.power

/-- Pages are aligned as strictly as any block. -/
theorem maxAlignment_dvd (h : l.Fit) : maxAlignment ∣ l.pageSize :=
  dvd_of_le_of_isPowerOfTwo ⟨6, rfl⟩ h.power
    (Nat.le_trans (by decide : maxAlignment ≤ minPageSize) h.page)

/-- A page is a whole number of words. -/
theorem wordSize_dvd (h : l.Fit) : wordSize ∣ l.pageSize :=
  Nat.dvd_trans (by decide : wordSize ∣ maxAlignment) h.maxAlignment_dvd

end ArenaLimits.Fit

/-- The alignments that may be asked for. -/
def servesAlignment (align : Nat) : Prop := align.isPowerOfTwo ∧ align ≤ maxAlignment

/-- An alignment that may be asked for is raised to a word and never lowered. -/
theorem clamp_align {align : Nat} (h : servesAlignment align) :
    clamp align wordSize maxAlignment = max align wordSize := by
  unfold clamp
  rw [Nat.min_eq_left h.2, Nat.max_comm]

/-- It stays a power of two when it is raised to a word. -/
theorem isPowerOfTwo_max {align : Nat} (h : servesAlignment align) :
    (max align wordSize).isPowerOfTwo := by
  rcases Nat.le_total align wordSize with hle | hle
  · rw [Nat.max_eq_right hle]
    exact ⟨3, rfl⟩
  · rw [Nat.max_eq_left hle]
    exact h.1

/-- What is aligned that way is aligned to words. -/
theorem wordSize_dvd_max {align : Nat} (h : servesAlignment align) :
    wordSize ∣ max align wordSize :=
  dvd_of_le_of_isPowerOfTwo ⟨3, rfl⟩ (isPowerOfTwo_max h) (Nat.le_max_right ..)

/-- Memory that is aligned as strictly as can be serves every alignment. -/
theorem max_dvd_maxAlignment {align : Nat} (h : servesAlignment align) :
    max align wordSize ∣ maxAlignment :=
  dvd_of_le_of_isPowerOfTwo (isPowerOfTwo_max h) ⟨6, rfl⟩
    (Nat.max_le.mpr ⟨h.2, by decide⟩)

namespace Arena

-- ====================================================== sizes

/-- Sizes are rounded up to whole words. -/
theorem wordSize_dvd_wholeWords (size : Nat) : wordSize ∣ wholeWords size :=
  Nat.dvd_mul_left ..

/-- A block has room for what was asked for, and for a byte at least. -/
theorem le_wholeWords (size : Nat) : max size 1 ≤ wholeWords size := by
  unfold wholeWords wordSize
  omega

/-- No block is empty. -/
theorem wholeWords_pos (size : Nat) : 0 < wholeWords size :=
  Nat.lt_of_lt_of_le (Nat.lt_of_lt_of_le Nat.one_pos (Nat.le_max_right ..)) (le_wholeWords size)

-- ====================================================== cursors

/-- A place in a page that a cursor can stand at: a whole word, between the
start and the end of the page. -/
structure Place (pageSize address pageEnd : Nat) : Prop where
  word : wordSize ∣ address
  page : pageSize ∣ pageEnd
  low : pageEnd ≤ address + pageSize
  high : address ≤ pageEnd

/-- A place behind the start of a page and before its end is in no other page. -/
theorem Place.pageEnd_eq {pageSize address pageEnd start : Nat}
    (h : Place pageSize address pageEnd) (hs : pageSize ∣ start)
    (hlow : start < pageEnd) (hhigh : address < start + pageSize) :
    pageEnd = start + pageSize := by
  have hend := h.low
  obtain ⟨n, hn⟩ := h.page
  obtain ⟨m, rfl⟩ := hs
  have hmn : m < n := Nat.lt_of_mul_lt_mul_left (hn ▸ hlow)
  have hnm : n < m + 2 := by
    refine Nat.lt_of_mul_lt_mul_left (a := pageSize) ?_
    rw [Nat.mul_add]
    omega
  obtain rfl : n = m + 1 := by omega
  rw [hn, Nat.mul_succ]

/-- Setting the lowest bit of a whole word. -/
theorem mark_word {address : Nat} (h : wordSize ∣ address) :
    address ||| fullMark = address + fullMark := by
  obtain ⟨n, rfl⟩ := h
  exact (Nat.two_pow_add_eq_or_of_lt (i := 3) (by decide) n).symm

/-- Both numbers can be read off a cursor, except that it is no cursor at all
if it is zero. -/
theorem decode?_encode {a : Arena} {address pageEnd : Nat} (hl : a.limits.Fit)
    (hp : Place a.limits.pageSize address pageEnd)
    (ha : a.cursor = encode address pageEnd) :
    a.decode? = if a.cursor = 0 then none else some (address, pageEnd) := by
  have hword : address % 2 = 0 := by
    obtain ⟨n, rfl⟩ := hp.word
    unfold wordSize
    omega
  unfold decode? fullMark
  rw [Nat.and_one_is_mod]
  by_cases hend : address = pageEnd
  · -- the page is full
    have hcursor : a.cursor = address + 1 := by
      rw [ha, encode, if_pos hend, mark_word hp.word]
      rfl
    have hmark : (address + 1) % 2 = 1 := by omega
    simp only [hcursor, hmark, ← hend]
    simp
  · have hcursor : a.cursor = address := by rw [ha, encode, if_neg hend]
    have hlt := Nat.lt_of_le_of_ne hp.high hend
    have hmod := Nat.mod_lt address hl.pos
    have hstart : pageEnd = address - address % a.limits.pageSize + a.limits.pageSize :=
      hp.pageEnd_eq (Nat.dvd_sub_mod address) (by omega) (by omega)
    obtain ⟨k, hk⟩ := hl.power
    rw [hk] at hstart ⊢
    simp only [hcursor, hword, Nat.and_two_pow_sub_one_eq_mod, ← hstart]
    simp

/-- What is read off a cursor is what was written. -/
theorem decode?_eq_some {a : Arena} {address pageEnd address' pageEnd' : Nat}
    (h : a.decode? = some (address', pageEnd')) (hl : a.limits.Fit)
    (hp : Place a.limits.pageSize address pageEnd) (ha : a.cursor = encode address pageEnd) :
    address' = address ∧ pageEnd' = pageEnd := by
  rw [decode?_encode hl hp ha] at h
  split at h
  · cases h
  · cases h
    exact ⟨rfl, rfl⟩

-- ====================================================== requests

variable {a : Arena} {fresh size align start pageEnd : Nat}

/-- Where a block goes that fits in the current page. -/
theorem room?_eq_some :
    a.room? size align = some (start, pageEnd) ↔
      ∃ address, a.decode? = some (address, pageEnd) ∧ start = roundUp address align ∧
        start + size ≤ pageEnd := by
  unfold room?
  cases a.decode? with
  | none => simp
  | some place =>
    obtain ⟨address, last⟩ := place
    simp only [Option.ite_none_right_eq_some, Option.some.injEq, Prod.mk.injEq]
    constructor
    · rintro ⟨hfits, rfl, rfl⟩
      exact ⟨address, ⟨rfl, rfl⟩, rfl, hfits⟩
    · rintro ⟨_, ⟨rfl, rfl⟩, rfl, hfits⟩
      exact ⟨hfits, rfl, rfl⟩

/-- The limits of an arena are settled when it is made. -/
theorem allocate_limits : (a.allocate fresh size align).arena.limits = a.limits := by
  unfold allocate
  simp only
  split
  · rfl
  · split <;> rfl

/-- Returning a block leaves the limits as they are. -/
theorem deallocate_limits {address : Nat} : (a.deallocate address size).1.limits = a.limits := by
  unfold deallocate
  simp only
  split
  · rfl
  · split <;> rfl

/-- A block above the limit comes from outside, and the current page stays as it is. -/
theorem allocate_of_large (h : a.limits.poolLimit < wholeWords size) :
    a.allocate fresh size align
      = { arena := { a with tally :=
            { a.tally with large := a.tally.large + 1, bytes := a.tally.bytes + wholeWords size } }
          address := fresh, pooled := false, fetched := wholeWords size } := by
  unfold allocate
  exact if_pos h

/-- A block that fits is cut off the current page. -/
theorem allocate_of_room (hs : wholeWords size ≤ a.limits.poolLimit)
    (h : a.room? (wholeWords size) (clamp align wordSize maxAlignment) = some (start, pageEnd)) :
    a.allocate fresh size align
      = { arena := { a with
            cursor := encode (start + wholeWords size) pageEnd
            tally := { a.tally with
              pooled := a.tally.pooled + 1, bytes := a.tally.bytes + wholeWords size } }
          address := start, pooled := true, fetched := 0 } := by
  unfold allocate
  rw [if_neg (Nat.not_lt.mpr hs)]
  simp only [h]

/-- A block that does not fit begins a new page, and what was left of the old one is given
up. -/
theorem allocate_of_full (hs : wholeWords size ≤ a.limits.poolLimit)
    (h : a.room? (wholeWords size) (clamp align wordSize maxAlignment) = none) :
    a.allocate fresh size align
      = { arena := { a with
            cursor := encode (fresh + wholeWords size) (fresh + a.limits.pageSize)
            tally := { a.tally with
              pooled := a.tally.pooled + 1, bytes := a.tally.bytes + wholeWords size
              pages := a.tally.pages + 1 } }
          address := fresh, pooled := true, fetched := a.limits.pageSize } := by
  unfold allocate
  rw [if_neg (Nat.not_lt.mpr hs)]
  simp only [h]

end Arena

-- ====================================================== memory outside

namespace Heap

/-- What is fetched next lies above all that was fetched before. -/
theorem top_le_next (heap : Heap) (pageSize : Nat) : heap.top ≤ heap.next pageSize := by
  have hpos : 0 < max pageSize maxAlignment :=
    Nat.lt_of_lt_of_le (by decide : 0 < maxAlignment) (Nat.le_max_right ..)
  have hlt := Nat.lt_div_mul_add (a := heap.top + wordSize) hpos
  unfold next
  simp only [Nat.succ_mul]
  omega

/-- What is fetched next is aligned to pages. -/
theorem dvd_next (heap : Heap) {l : ArenaLimits} (hl : l.Fit) :
    l.pageSize ∣ heap.next l.pageSize := by
  unfold next
  rw [Nat.max_eq_left (Nat.le_of_dvd hl.pos hl.maxAlignment_dvd)]
  exact Nat.dvd_mul_left ..

/-- The top moves to the end of what was fetched. -/
theorem top_take (heap : Heap) (address : Nat) {fetched : Nat} (h : 0 < fetched) :
    (heap.take address fetched).top = address + fetched := by
  rw [take, if_neg h.ne']

end Heap

end TypeRecords
