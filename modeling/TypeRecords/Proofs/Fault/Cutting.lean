/-
What is left of a cycle's report under a byte limit.

The whole report is the headline and a line for each hop. It is written line by
line until the limit is reached, and only what goes past the limit is cut, and
marked, afterwards. `Cycle.diagnostic_cut` says what comes out, for every cycle
and every limit: the whole report where it fits, otherwise its longest prefix
that fits (`LongestWithin`) and the mark. The mark is missing in one case. When
the limit is reached exactly at the end of a line, nothing goes past it, and
the lines that were never written leave no trace.
-/
import Mathlib.Data.String.Basic
import TypeRecords.Fault

namespace TypeRecords

-- ====================================================== longest prefixes

/-- Of the prefixes of a text, in whole characters, that take at most `limit`
bytes, `p` is the longest. -/
structure LongestWithin (limit : Nat) (text p : String) : Prop where
  front : p.toList <+: text.toList
  within : p.utf8ByteSize ≤ limit
  longest : ∀ q : String, q.toList <+: text.toList → q.utf8ByteSize ≤ limit →
    q.toList <+: p.toList

/-- The bytes of a text are those of its characters. -/
theorem utf8ByteSize_eq_utf8Len (s : String) : s.utf8ByteSize = String.utf8Len s.toList := by
  rw [← String.utf8ByteSize_ofList, String.ofList_toList]

/-- A prefix that takes as many bytes is the whole. -/
theorem eq_of_prefix_of_utf8Len_le {p q : List Char} (h : p <+: q)
    (hle : String.utf8Len q ≤ String.utf8Len p) : p = q := by
  obtain ⟨rest, rfl⟩ := h
  rw [String.utf8Len_append] at hle
  have hzero : String.utf8Len rest = 0 := by omega
  rw [String.utf8Len_eq_zero.mp hzero, List.append_nil]

namespace LongestWithin

variable {limit : Nat} {text more p : String}

/-- What uses up the limit cannot be made longer. -/
theorem of_full (h : p.toList <+: text.toList) (hp : p.utf8ByteSize = limit) :
    LongestWithin limit text p where
  front := h
  within := Nat.le_of_eq hp
  longest := by
    intro q hq hsize
    rcases List.prefix_or_prefix_of_prefix hq h with hqp | hpq
    · exact hqp
    · rw [← hp, utf8ByteSize_eq_utf8Len, utf8ByteSize_eq_utf8Len] at hsize
      exact (eq_of_prefix_of_utf8Len_le hpq hsize) ▸ List.prefix_refl _

/-- There is one longest prefix. -/
theorem unique {p' : String} (h : LongestWithin limit text p) (h' : LongestWithin limit text p') :
    p = p' := by
  have hle : p'.toList <+: p.toList := h.longest p' h'.front h'.within
  exact String.toList_inj.mp ((h'.longest p h.front h.within).eq_of_length_le hle.length_le)

/-- Past the limit it does not matter how a text goes on. -/
theorem extend (h : LongestWithin limit text p) (hmore : text.toList <+: more.toList)
    (hlt : limit < text.utf8ByteSize) : LongestWithin limit more p where
  front := h.front.trans hmore
  within := h.within
  longest := by
    intro q hq hsize
    rcases List.prefix_or_prefix_of_prefix hq hmore with hqt | htq
    · exact h.longest q hqt hsize
    · have hle := String.utf8Len_le_of_prefix htq
      rw [← utf8ByteSize_eq_utf8Len, ← utf8ByteSize_eq_utf8Len] at hle
      omega

end LongestWithin

namespace Cycle

/-- The characters that fit are a prefix. -/
theorem fitting_prefix (limit : Nat) (l : List Char) : fitting limit l <+: l := by
  induction l generalizing limit with
  | nil => exact List.nil_prefix
  | cons c rest ih =>
    unfold fitting
    split
    · exact (List.prefix_cons_inj c).mpr (ih _)
    · exact List.nil_prefix

/-- They take no more than the limit. -/
theorem utf8Len_fitting (limit : Nat) (l : List Char) :
    String.utf8Len (fitting limit l) ≤ limit := by
  induction l generalizing limit with
  | nil => exact Nat.zero_le _
  | cons c rest ih =>
    unfold fitting
    split
    · have hrest := ih (limit - c.utf8Size)
      rw [String.utf8Len_cons]
      omega
    · exact Nat.zero_le _

/-- Whatever else fits is a prefix of them. -/
theorem prefix_fitting {limit : Nat} {l q : List Char} (hq : q <+: l)
    (hsize : String.utf8Len q ≤ limit) : q <+: fitting limit l := by
  induction l generalizing limit q with
  | nil => exact hq
  | cons c rest ih =>
    cases q with
    | nil => exact List.nil_prefix
    | cons d q =>
      obtain ⟨rfl, hrest⟩ := List.cons_prefix_cons.mp hq
      rw [String.utf8Len_cons] at hsize
      unfold fitting
      rw [if_pos (by omega)]
      exact (List.prefix_cons_inj d).mpr (ih hrest (by omega))

/-- So they are the longest prefix within the limit. -/
theorem longestWithin_fitting (limit : Nat) (text : String) :
    LongestWithin limit text (String.ofList (fitting limit text.toList)) where
  front := by
    rw [String.toList_ofList]
    exact fitting_prefix limit _
  within := by
    rw [String.utf8ByteSize_ofList]
    exact utf8Len_fitting limit _
  longest := by
    intro q hq hsize
    rw [String.toList_ofList]
    rw [utf8ByteSize_eq_utf8Len] at hsize
    exact prefix_fitting hq hsize

-- ====================================================== the whole report

variable (rs : Records)

/-- A text with a line for each of `links` added. -/
def extended (out : String) (links : List Dependency) : String :=
  links.foldl (fun out d => out ++ line rs d) out

/-- The report up to the end of the line of hop `k`; up to the end of the
headline for none. -/
def upTo (c : Cycle) (k : Nat) : String := extended rs (c.headline rs) (c.links.take k)

/-- The report before anything is cut. -/
def whole (c : Cycle) : String := extended rs (c.headline rs) c.links

variable {rs} {c : Cycle} {limit : Nat}

/-- Lines may be added in two portions. -/
theorem extended_append (out : String) (links more : List Dependency) :
    extended rs out (links ++ more) = extended rs (extended rs out links) more :=
  List.foldl_append

/-- Adding lines changes nothing of the text before them. -/
theorem toList_prefix_extended (out : String) (links : List Dependency) :
    out.toList <+: (extended rs out links).toList := by
  induction links generalizing out with
  | nil => exact List.prefix_refl _
  | cons d rest ih =>
    refine List.IsPrefix.trans ?_ (ih (out ++ line rs d))
    rw [String.toList_append]
    exact List.prefix_append ..

/-- Adding lines takes no byte away. -/
theorem utf8ByteSize_le_extended (out : String) (links : List Dependency) :
    out.utf8ByteSize ≤ (extended rs out links).utf8ByteSize := by
  rw [utf8ByteSize_eq_utf8Len, utf8ByteSize_eq_utf8Len]
  exact String.utf8Len_le_of_prefix (toList_prefix_extended out links)

/-- Every line takes some bytes. -/
theorem line_pos (d : Dependency) : 0 < (line rs d).utf8ByteSize := by
  unfold line
  rw [String.utf8ByteSize_append]
  exact Nat.add_pos_left (by decide) _

/-- So a text with at least one more line is longer. -/
theorem utf8ByteSize_lt_extended (out : String) (d : Dependency) (rest : List Dependency) :
    out.utf8ByteSize < (extended rs out (d :: rest)).utf8ByteSize :=
  calc out.utf8ByteSize
      < out.utf8ByteSize + (line rs d).utf8ByteSize := Nat.lt_add_of_pos_right (line_pos d)
    _ = (out ++ line rs d).utf8ByteSize := (String.utf8ByteSize_append ..).symm
    _ ≤ (extended rs (out ++ line rs d) rest).utf8ByteSize := utf8ByteSize_le_extended ..

/-- The whole report is the report up to any hop, with the lines of the other hops added. -/
theorem whole_eq_extended (c : Cycle) (k : Nat) :
    c.whole rs = extended rs (c.upTo rs k) (c.links.drop k) := by
  unfold whole upTo
  rw [← extended_append, List.take_append_drop]

/-- What has been written at any hop stands at the beginning of the whole report. -/
theorem upTo_prefix_whole (c : Cycle) (k : Nat) :
    (c.upTo rs k).toList <+: (c.whole rs).toList := by
  rw [whole_eq_extended c k]
  exact toList_prefix_extended ..

/-- Before the last hop it is shorter than that. -/
theorem upTo_lt_whole {k : Nat} (hk : k < c.links.length) :
    (c.upTo rs k).utf8ByteSize < (c.whole rs).utf8ByteSize := by
  rw [whole_eq_extended c k, List.drop_eq_getElem_cons hk]
  exact utf8ByteSize_lt_extended ..

/-- The report grows from hop to hop. -/
theorem upTo_le_upTo {j k : Nat} (h : j ≤ k) :
    (c.upTo rs j).utf8ByteSize ≤ (c.upTo rs k).utf8ByteSize := by
  have htake : c.links.take k = c.links.take j ++ (c.links.take k).drop j := by
    conv_lhs => rw [← List.take_append_drop j (c.links.take k)]
    rw [List.take_take, Nat.min_eq_left h]
  unfold upTo
  rw [htake, extended_append]
  exact utf8ByteSize_le_extended ..

/-- After the last hop the report is whole. -/
theorem upTo_length (c : Cycle) : c.upTo rs c.links.length = c.whole rs := by
  unfold upTo whole
  rw [List.take_length]

-- ====================================================== what is written

/-- Lines are written until the limit is reached: up to some hop, before which
it was not, and which is the last one unless it is. -/
theorem appendLines_eq (limit : Nat) (out : String) (links : List Dependency) :
    ∃ k ≤ links.length, appendLines rs limit out links = extended rs out (links.take k) ∧
      (∀ j < k, (extended rs out (links.take j)).utf8ByteSize < limit) ∧
      (k < links.length → limit ≤ (extended rs out (links.take k)).utf8ByteSize) := by
  induction links generalizing out with
  | nil => exact ⟨0, Nat.le_refl _, rfl, nofun, nofun⟩
  | cons d rest ih =>
    unfold appendLines
    split
    next hreached => exact ⟨0, Nat.zero_le _, rfl, nofun, fun _ => hreached⟩
    next hroom =>
      obtain ⟨k, hk, heq, hbefore, hlast⟩ := ih (out ++ line rs d)
      refine ⟨k + 1, Nat.succ_le_succ hk, heq, ?_, ?_⟩
      · intro j hj
        cases j with
        | zero => exact Nat.not_le.mp hroom
        | succ j => exact hbefore j (Nat.lt_of_succ_lt_succ hj)
      · exact fun h => hlast (Nat.lt_of_succ_lt_succ h)

/-- What is written before the cut: the whole report, if it stays within the
limit; otherwise the report up to a hop at which the limit is reached or
passed, and not before. -/
theorem written (c : Cycle) (limit : Nat) :
    ∃ k ≤ c.links.length,
      appendLines rs limit (c.headline rs) c.links = c.upTo rs k ∧
      (∀ j < k, (c.upTo rs j).utf8ByteSize < limit) ∧
      (k < c.links.length → limit ≤ (c.upTo rs k).utf8ByteSize) :=
  appendLines_eq limit (c.headline rs) c.links

-- ====================================================== the cut

/-- A report that fits is written to its end, and not cut. -/
theorem diagnostic_of_le (h : (c.whole rs).utf8ByteSize ≤ limit) :
    c.diagnostic rs limit = c.whole rs ++ "\nAborting!" := by
  obtain ⟨k, hk, hwritten, -, hlast⟩ := @written rs c limit
  have hall : k = c.links.length := by
    refine Nat.le_antisymm hk (Nat.not_lt.mp fun hlt => ?_)
    have hshort : (c.upTo rs k).utf8ByteSize < (c.whole rs).utf8ByteSize := upTo_lt_whole hlt
    exact absurd hshort (Nat.not_lt.mpr (Nat.le_trans h (hlast hlt)))
  unfold diagnostic cut
  rw [hwritten, hall, upTo_length, if_neg (Nat.not_lt.mpr h)]

/-- Where a line ends exactly at the limit, nothing is cut off what is
written. -/
theorem diagnostic_of_eq {k : Nat}
    (hwritten : appendLines rs limit (c.headline rs) c.links = c.upTo rs k)
    (h : (c.upTo rs k).utf8ByteSize = limit) :
    LongestWithin limit (c.whole rs) (c.upTo rs k)
      ∧ c.diagnostic rs limit = c.upTo rs k ++ "\nAborting!" := by
  refine ⟨.of_full (upTo_prefix_whole c k) h, ?_⟩
  unfold diagnostic cut
  rw [hwritten, if_neg (Nat.not_lt.mpr (Nat.le_of_eq h))]

/-- Where the last line that is written goes past the limit, it is cut and
marked. -/
theorem diagnostic_of_lt {k : Nat}
    (hwritten : appendLines rs limit (c.headline rs) c.links = c.upTo rs k)
    (h : limit < (c.upTo rs k).utf8ByteSize) :
    ∃ p, LongestWithin limit (c.whole rs) p
      ∧ c.diagnostic rs limit = p ++ "..." ++ "\nAborting!" := by
  refine ⟨_, (longestWithin_fitting limit (c.upTo rs k)).extend (upTo_prefix_whole c k) h, ?_⟩
  unfold diagnostic cut
  rw [hwritten, if_pos h]

/-- The report under a limit. Where the whole of it fits, that is it.
Otherwise it is the longest prefix that fits, and the mark, unless the limit is
exactly where the headline or the line of a hop ends. -/
theorem diagnostic_cut (rs : Records) (c : Cycle) (limit : Nat) :
    ((c.whole rs).utf8ByteSize ≤ limit → c.diagnostic rs limit = c.whole rs ++ "\nAborting!") ∧
    (limit < (c.whole rs).utf8ByteSize →
      ∃ p, LongestWithin limit (c.whole rs) p ∧
        c.diagnostic rs limit =
          p ++ (if ∃ k < c.links.length, (c.upTo rs k).utf8ByteSize = limit then ""
            else "...") ++ "\nAborting!") := by
  refine ⟨diagnostic_of_le, fun hpast => ?_⟩
  obtain ⟨k, hk, hwritten, hbefore, hlast⟩ := @written rs c limit
  have hreached : limit ≤ (c.upTo rs k).utf8ByteSize := by
    rcases Nat.lt_or_eq_of_le hk with hlt | rfl
    · exact hlast hlt
    · rw [upTo_length]
      exact Nat.le_of_lt hpast
  rcases Nat.lt_or_eq_of_le hreached with hover | hexact
  · -- lines before this one end too early, and later ones too late
    have hnone : ¬∃ j < c.links.length, (c.upTo rs j).utf8ByteSize = limit := by
      rintro ⟨j, -, hj⟩
      rcases Nat.lt_or_ge j k with hjk | hkj
      · exact absurd hj (Nat.ne_of_lt (hbefore j hjk))
      · exact absurd hj (Nat.ne_of_gt (Nat.lt_of_lt_of_le hover (upTo_le_upTo hkj)))
    rw [if_neg hnone]
    exact diagnostic_of_lt hwritten hover
  · have hlt : k < c.links.length := by
      refine Nat.lt_of_le_of_ne hk ?_
      rintro rfl
      rw [upTo_length] at hexact
      exact absurd hexact (Nat.ne_of_lt hpast)
    obtain ⟨hlongest, hreport⟩ := diagnostic_of_eq hwritten hexact.symm
    refine ⟨c.upTo rs k, hlongest, ?_⟩
    rw [if_pos ⟨k, hlt, hexact.symm⟩, String.append_empty]
    exact hreport

/-- Two hops, and a limit at the end of the headline: both are gone, and
nothing says so. -/
theorem diagnostic_cut_headline :
    Cycle.diagnostic Records.builtins ⟨0, [⟨1, .complete⟩, ⟨0, .complete⟩]⟩ 86 =
      "runtime error: unresolvable type metadata dependency cycle detected\n"
        ++ "  Request for Int8\nAborting!" := by
  have hname : Records.builtins.display 0 = "Int8" := by
    unfold Records.display
    rfl
  have hsize : (upTo Records.builtins ⟨0, [⟨1, .complete⟩, ⟨0, .complete⟩]⟩ 0).utf8ByteSize = 86 := by
    show (headline Records.builtins _).utf8ByteSize = 86
    unfold headline
    rw [hname]
    decide
  obtain ⟨p, hp, heq⟩ :=
    (diagnostic_cut Records.builtins ⟨0, [⟨1, .complete⟩, ⟨0, .complete⟩]⟩ 86).2
      (hsize ▸ upTo_lt_whole (by decide))
  have hheadline := hp.unique (.of_full (upTo_prefix_whole _ 0) hsize)
  rw [heq, if_pos ⟨0, by decide, hsize⟩, hheadline]
  show headline Records.builtins _ ++ "" ++ "\nAborting!" = _
  unfold headline
  rw [hname]
  decide

end Cycle

end TypeRecords
