/-
The layout of an aggregate, field by field.

The fields are placed one after the other. What the walk over them carries is
the first free byte, and this is where the field before ends
(`Layout.endings`). So all that is said about offsets below is said about one
step: the offset of a field is where the field before ends, rounded up to the
alignment of the field (`Layout.getElem?_place`).

- Whatever the alignments, rounding up never goes down. The fields are in
  order and apart from each other, and the size is where the last one ends.
- For alignments that are powers of two, rounding up finds the least multiple.
  So no byte is lost, and the strictest alignment is a multiple of all.
- An offset depends on the fields before only. The offsets of a prefix are a
  prefix of the offsets.

In a process, sizes and alignments are machine words. As long as the sum that
is rounded down fits into a word, the formula on words gives the same number
(`roundUp_toNat`), so what is proved here about numbers is true of words.
-/
import Mathlib.Order.Bounds.Basic
import TypeRecords.Proofs.Fields.Placing
import TypeRecords.Proofs.Layout.Rounding

namespace TypeRecords

-- ====================================================== rounding

/-- A word is made up of its bits under a mask and those outside it. -/
theorem and_not_add_and {w : Nat} (x mask : BitVec w) : (x &&& ~~~mask) + (x &&& mask) = x := by
  rw [BitVec.add_eq_or_of_and_eq_zero]
  · ext i hi
    simp only [BitVec.getElem_or, BitVec.getElem_and, BitVec.getElem_not]
    cases x[i] <;> cases mask[i] <;> rfl
  · ext i hi
    simp only [BitVec.getElem_and, BitVec.getElem_not, BitVec.getElem_zero]
    cases x[i] <;> cases mask[i] <;> rfl

/-- The formula as a process computes it: add to the value, and clear the low
bits of the sum. -/
theorem roundUp_toNat {value align : BitVec 64} (halign : 0 < align.toNat)
    (hfits : value.toNat + align.toNat < 2 ^ 64) :
    ((value + align - 1) &&& ~~~(align - 1)).toNat = roundUp value.toNat align.toNat := by
  have hmask : (align - 1).toNat = align.toNat - 1 :=
    BitVec.toNat_sub_of_le (show 1 ≤ align from halign)
  have hsum : (value + align).toNat = value.toNat + align.toNat := BitVec.toNat_add_of_lt hfits
  have hone : 1 ≤ value + align := by
    rw [BitVec.le_def, hsum]
    exact Nat.le_trans halign (Nat.le_add_left ..)
  have htop : (value + align - 1).toNat = value.toNat + align.toNat - 1 := by
    rw [BitVec.toNat_sub_of_le hone, hsum]
    rfl
  have hlow : (value + align - 1) &&& (align - 1) ≤ value + align - 1 := by
    rw [BitVec.le_def, BitVec.toNat_and]
    exact Nat.and_le_left
  rw [BitVec.eq_sub_iff_add_eq.mpr (and_not_add_and (value + align - 1) (align - 1)),
    BitVec.toNat_sub_of_le hlow, BitVec.toNat_and, htop, hmask]
  rfl

/-- Rounding up to a power of two finds the least multiple. -/
theorem isLeast_roundUp {align : Nat} (h : align.isPowerOfTwo) (value : Nat) :
    IsLeast {n | align ∣ n ∧ value ≤ n} (roundUp value align) :=
  ⟨⟨dvd_roundUp h, le_roundUp value (Nat.pos_of_isPowerOfTwo h)⟩,
    fun _ hn => roundUp_le h hn.1 hn.2⟩

namespace Layout

-- ====================================================== offsets

/-- Where each of `fields` ends, when they are at `offsets`. -/
def endings (fields : List Layout) (offsets : List Nat) : List Nat :=
  fields.zipWith (fun field offset => offset + field.size) offsets

theorem one_le_fieldAlign (field : Layout) : 1 ≤ field.fieldAlign := Nat.le_max_right ..

/-- A field is at the first suitable offset after the field before. -/
theorem getElem?_place {fields : List Layout} {i : Nat} {field : Layout}
    (h : fields[i]? = some field) (free : Nat) :
    ∃ before, (free :: endings fields (place fields free).1)[i]? = some before
      ∧ (place fields free).1[i]? = some (roundUp before field.fieldAlign) := by
  induction fields generalizing i free with
  | nil => cases h
  | cons first rest ih =>
    cases i with
    | zero =>
      obtain rfl : first = field := Option.some.inj h
      exact ⟨free, rfl, rfl⟩
    | succ i => exact ih h (roundUp free first.fieldAlign + first.size)

/-- The first free byte after the fields is where the last one ends. -/
theorem getLast?_place (fields : List Layout) (free : Nat) :
    (free :: endings fields (place fields free).1).getLast? = some (place fields free).2 := by
  induction fields generalizing free with
  | nil => rfl
  | cons first rest ih =>
    exact List.getLast?_cons_cons.trans (ih (roundUp free first.fieldAlign + first.size))

/-- Fields that follow do not move the fields before. -/
theorem place_take (fields : List Layout) (k free : Nat) :
    (place (fields.take k) free).1 = (place fields free).1.take k := by
  induction fields generalizing k free with
  | nil =>
    rw [List.take_nil]
    exact List.take_nil.symm
  | cons first rest ih =>
    cases k with
    | zero => rfl
    | succ k => exact congrArg _ (ih k _)

-- ====================================================== alignments

theorem isPowerOfTwo_fieldAlign {field : Layout}
    (h : field.align = 0 ∨ field.align.isPowerOfTwo) : field.fieldAlign.isPowerOfTwo := by
  unfold fieldAlign
  obtain hzero | hpower := h
  · rw [hzero]
    exact Nat.isPowerOfTwo_one
  · rw [Nat.max_eq_left (Nat.pos_of_isPowerOfTwo hpower)]
    exact hpower

/-- The alignment of an aggregate is that of one of its fields, or one if it
has none, and no field has a stricter one. -/
theorem isGreatest_strictestAlign (fields : List Layout) :
    IsGreatest {align | align = 1 ∨ ∃ field ∈ fields, field.fieldAlign = align}
      (strictestAlign fields) := by
  induction fields with
  | nil =>
    refine ⟨.inl rfl, fun align h => ?_⟩
    obtain rfl | ⟨_, hmem, -⟩ := h
    · exact Nat.le_refl 1
    · cases hmem
  | cons first rest ih =>
    obtain ⟨hattained, habove⟩ := ih
    refine ⟨?_, fun align h => ?_⟩
    · obtain hfirst | hrest := Nat.le_total (strictestAlign rest) first.fieldAlign
      · rw [strictestAlign, Nat.max_eq_left hfirst]
        exact .inr ⟨first, List.mem_cons_self, rfl⟩
      · rw [strictestAlign, Nat.max_eq_right hrest]
        exact hattained.imp_right fun ⟨field, hmem, heq⟩ => ⟨field, .tail _ hmem, heq⟩
    · obtain rfl | ⟨field, hmem, rfl⟩ := h
      · exact Nat.le_trans (habove (.inl rfl)) (Nat.le_max_right ..)
      · cases hmem with
        | head => exact Nat.le_max_left ..
        | tail _ hrest =>
          exact Nat.le_trans (habove (.inr ⟨field, hrest, rfl⟩)) (Nat.le_max_right ..)

section PowersOfTwo

variable {fields : List Layout}
  (hpowers : ∀ field ∈ fields, field.align = 0 ∨ field.align.isPowerOfTwo)
include hpowers

theorem isPowerOfTwo_strictestAlign : (strictestAlign fields).isPowerOfTwo := by
  obtain hone | ⟨field, hmem, heq⟩ := (isGreatest_strictestAlign fields).1
  · rw [hone]
    exact Nat.isPowerOfTwo_one
  · rw [← heq]
    exact isPowerOfTwo_fieldAlign (hpowers field hmem)

/-- Powers of two divide each other in order, so the strictest alignment suits
every field. -/
theorem fieldAlign_dvd_strictestAlign {field : Layout} (hmem : field ∈ fields) :
    field.fieldAlign ∣ strictestAlign fields :=
  dvd_of_le_of_isPowerOfTwo (isPowerOfTwo_fieldAlign (hpowers field hmem))
    (isPowerOfTwo_strictestAlign hpowers)
    ((isGreatest_strictestAlign fields).2 (.inr ⟨field, hmem, rfl⟩))

end PowersOfTwo

-- ====================================================== the stride

/-- An array of values needs the rounded size for each, and a byte even for a
value that has no size. -/
theorem isLeast_stride_of (size align : Nat) (plain : Bool) :
    IsLeast {n | n ≠ 0 ∧ roundUp size align ≤ n} (of size align plain).stride := by
  show IsLeast _ (if roundUp size align = 0 then 1 else roundUp size align)
  obtain hzero | hpos := Nat.eq_zero_or_pos (roundUp size align)
  · rw [if_pos hzero, hzero]
    exact ⟨⟨Nat.one_ne_zero, Nat.zero_le 1⟩, fun n hn => Nat.pos_of_ne_zero hn.1⟩
  · rw [if_neg (Nat.ne_of_gt hpos)]
    exact ⟨⟨Nat.ne_of_gt hpos, Nat.le_refl _⟩, fun n hn => hn.2⟩

-- ====================================================== the aggregate

/-- Fields in sequence, whatever their sizes and alignments:

- there is one offset for each field, no field begins before the one before it
  ends, and the size is where the last one ends;
- the alignment is the strictest of the fields', and at least one;
- the aggregate is plain data if all fields are;
- the fields of a prefix have the same offsets.

If each alignment is a power of two, or zero and counts as one, then moreover:

- each field is at the least multiple of its alignment at or after the end of
  the one before;
- the alignment of the aggregate is a multiple of each field's;
- the stride is the least multiple of the alignment at or above the size, or
  one if that is zero. -/
theorem sequence_in_order (fields : List Layout) :
    let whole := sequence fields
    let ends := endings fields whole.offsets
    whole.offsets.length = fields.length
    ∧ (∀ (i offset : Nat), whole.offsets[i]? = some offset →
        ∃ before, (0 :: ends)[i]? = some before ∧ before ≤ offset)
    ∧ (0 :: ends).getLast? = some whole.layout.size
    ∧ IsGreatest {align | align = 1 ∨ ∃ field ∈ fields, field.fieldAlign = align}
        whole.layout.align
    ∧ (whole.layout.plain = true ↔ ∀ field ∈ fields, field.plain = true)
    ∧ (∀ k, (sequence (fields.take k)).offsets = whole.offsets.take k)
    ∧ ((∀ field ∈ fields, field.align = 0 ∨ field.align.isPowerOfTwo) →
        (∀ (i : Nat) (field : Layout), fields[i]? = some field →
          ∃ before offset, (0 :: ends)[i]? = some before ∧ whole.offsets[i]? = some offset
            ∧ IsLeast {n | field.fieldAlign ∣ n ∧ before ≤ n} offset)
        ∧ (∀ field ∈ fields, field.fieldAlign ∣ whole.layout.align)
        ∧ ∃ rounded, IsLeast {n | whole.layout.align ∣ n ∧ whole.layout.size ≤ n} rounded
            ∧ IsLeast {n | n ≠ 0 ∧ rounded ≤ n} whole.layout.stride) := by
  refine ⟨length_place fields 0, fun i offset hi => ?_, getLast?_place fields 0,
    isGreatest_strictestAlign fields, List.all_eq_true, fun k => place_take fields k 0,
    fun hpowers => ⟨fun i field hfield => ?_,
      fun field hmem => fieldAlign_dvd_strictestAlign hpowers hmem,
      _, isLeast_roundUp (isPowerOfTwo_strictestAlign hpowers) _, isLeast_stride_of ..⟩⟩
  · have hlt : i < fields.length := by
      rw [← length_place fields 0]
      exact (List.getElem?_eq_some_iff.mp hi).1
    obtain ⟨before, hbefore, hoffset⟩ := getElem?_place (List.getElem?_eq_getElem hlt) 0
    obtain rfl : offset = _ := Option.some.inj (hi.symm.trans hoffset)
    exact ⟨before, hbefore, le_roundUp before (one_le_fieldAlign _)⟩
  · obtain ⟨before, hbefore, hoffset⟩ := getElem?_place hfield 0
    exact ⟨before, _, hbefore, hoffset,
      isLeast_roundUp (isPowerOfTwo_fieldAlign (hpowers field (List.mem_of_getElem? hfield))) _⟩

/-- A byte, a reference, a field of no alignment of its own, and a half word. -/
theorem sequence_in_order_mixed :
    let fields : List Layout := [scalar 1, reference, ⟨3, 0, 3, true⟩, scalar 4]
    (sequence fields).offsets = [0, 8, 16, 20]
    ∧ (sequence fields).layout = ⟨24, 8, 24, false⟩
    ∧ (∀ field ∈ fields, field.align = 0 ∨ field.align.isPowerOfTwo)
    ∧ (∀ field ∈ fields, field.fieldAlign ∣ (sequence fields).layout.align) := by
  have hpowers : ∀ field ∈ [scalar 1, reference, ⟨3, 0, 3, true⟩, scalar 4],
      field.align = 0 ∨ field.align.isPowerOfTwo := by
    intro field hmem
    simp only [List.mem_cons, List.not_mem_nil, or_false] at hmem
    obtain rfl | rfl | rfl | rfl := hmem
    · exact .inr ⟨0, rfl⟩
    · exact .inr ⟨3, rfl⟩
    · exact .inl rfl
    · exact .inr ⟨2, rfl⟩
  obtain ⟨-, -, -, -, -, -, hall⟩ :=
    sequence_in_order [scalar 1, reference, ⟨3, 0, 3, true⟩, scalar 4]
  exact ⟨by decide, by decide, hpowers, (hall hpowers).2.1⟩

end Layout

end TypeRecords
