/-
What the search for an unfinished record finds.

The search gives up nothing: when it ends without a result, everything it has
met is finished for good, or is finished for itself and refers to nothing that
has not been met (`unfinished_none`). And it makes nothing up: from the record the search began
with one gets to the result over records that are all finished for themselves
(`unfinished_some`).

The records on the stack are the only ones that have been met and not been
looked at, so the first is an invariant of the frontier.
-/
import Mathlib.Logic.Relation
import TypeRecords.Dependency.Search

namespace TypeRecords.Search

variable {g : Graph}

-- ====================================================== frontiers

namespace Frontier

variable {bound : Nat} {f : Frontier} {rs : List RecordId} {x : RecordId}

theorem mem_met_meet : x ∈ (f.meet bound rs).met ↔ x ∈ f.met ∨ x ∈ rs ∧ x < bound := by
  induction rs generalizing f with
  | nil => simp [meet]
  | cons r rest ih =>
      unfold meet
      split
      · rename_i hold
        rw [ih, List.mem_cons]
        constructor
        · rintro (hx | ⟨hx, hb⟩)
          · exact .inl hx
          · exact .inr ⟨.inr hx, hb⟩
        · rintro (hx | ⟨rfl | hx, hb⟩)
          · exact .inl hx
          · exact .inl (hold.resolve_right (Nat.not_le.mpr hb))
          · exact .inr ⟨hx, hb⟩
      · rename_i hnew
        rw [ih, List.mem_cons, List.mem_cons]
        constructor
        · rintro ((rfl | hx) | ⟨hx, hb⟩)
          · exact .inr ⟨.inl rfl, Nat.lt_of_not_le fun hb => hnew (.inr hb)⟩
          · exact .inl hx
          · exact .inr ⟨.inr hx, hb⟩
        · rintro (hx | ⟨rfl | hx, hb⟩)
          · exact .inl (.inr hx)
          · exact .inl (.inl rfl)
          · exact .inr ⟨hx, hb⟩

/-- What has been met for the first time is on the stack. -/
theorem mem_work_meet :
    x ∈ (f.meet bound rs).work ↔ x ∈ f.work ∨ x ∈ rs ∧ x < bound ∧ x ∉ f.met := by
  induction rs generalizing f with
  | nil => simp [meet]
  | cons r rest ih =>
      unfold meet
      split
      · rename_i hold
        rw [ih, List.mem_cons]
        constructor
        · rintro (hx | ⟨hx, hb, hm⟩)
          · exact .inl hx
          · exact .inr ⟨.inr hx, hb, hm⟩
        · rintro (hx | ⟨rfl | hx, hb, hm⟩)
          · exact .inl hx
          · exact (hold.elim hm (Nat.not_le.mpr hb)).elim
          · exact .inr ⟨hx, hb, hm⟩
      · rename_i hnew
        have hr : r < bound ∧ r ∉ f.met :=
          ⟨Nat.lt_of_not_le fun hb => hnew (.inr hb), fun hm => hnew (.inl hm)⟩
        rw [ih]
        simp only [List.mem_cons, not_or]
        constructor
        · rintro ((rfl | hx) | ⟨hx, hb, -, hm⟩)
          · exact .inr ⟨.inl rfl, hr⟩
          · exact .inl hx
          · exact .inr ⟨.inr hx, hb, hm⟩
        · rintro (hx | ⟨hx, hb, hm⟩)
          · exact .inl (.inr hx)
          · by_cases hxr : x = r
            · exact .inl (.inl hxr)
            · exact .inr ⟨hx.resolve_left hxr, hb, hxr, hm⟩

end Frontier

-- ====================================================== nothing is given up

/-- A record is finished for good, or finished for itself, with all it refers
to among those that have been met. -/
def Graph.Settled (g : Graph) (met : List RecordId) (r : RecordId) : Prop :=
  g.stage r = .complete
    ∨ .nonTransitive ≤ g.stage r ∧ ∀ x ∈ g.referents r, x < g.bound → x ∈ met

/-- A search that ends without a result has settled what was on its stack, and
whatever it has met on the way. -/
theorem explore_none {f : Frontier} (h : explore g f = none) :
    ∃ met, (∀ r ∈ f.met, r ∈ met) ∧ (∀ r ∈ f.work, g.Settled met r)
      ∧ ∀ r ∈ met, r ∈ f.met ∨ g.Settled met r := by
  fun_induction explore with
  | case1 f hwork =>
      refine ⟨f.met, fun r hr => hr, fun r hr => ?_, fun r hr => .inl hr⟩
      rw [hwork] at hr
      cases hr
  | case2 f r rest hwork hdone ih =>
      obtain ⟨met, hmet, hrest, hall⟩ := ih h
      refine ⟨met, hmet, fun x hx => ?_, hall⟩
      rw [hwork] at hx
      rcases List.mem_cons.mp hx with rfl | hx
      · exact .inl hdone
      · exact hrest x hx
  | case3 => cases h
  | case4 f r rest hwork hopen hself ih =>
      obtain ⟨met, hmet, hstack, hall⟩ := ih h
      have hstage : Stage.nonTransitive ≤ g.stage r := Nat.le_of_not_lt hself
      have hsettled : g.Settled met r := .inr ⟨hstage, fun x hx hb =>
        hmet x (Frontier.mem_met_meet.mpr (.inr ⟨hx, hb⟩))⟩
      refine ⟨met, fun x hx => hmet x (Frontier.mem_met_meet.mpr (.inl hx)), fun x hx => ?_,
        fun x hx => ?_⟩
      · rw [hwork] at hx
        rcases List.mem_cons.mp hx with rfl | hx
        · exact hsettled
        · exact hstack x (Frontier.mem_work_meet.mpr (.inl hx))
      · rcases hall x hx with hx | hx
        · -- met before, or on the stack since `r` was looked at
          by_cases hold : x ∈ f.met
          · exact .inl hold
          · have hnew := (Frontier.mem_met_meet.mp hx).resolve_left hold
            exact .inr (hstack x (Frontier.mem_work_meet.mpr (.inr ⟨hnew.1, hnew.2, hold⟩)))
        · exact .inr hx

/-- If nothing is left to wait for, then from a record one only gets to records
that are settled, as far as one does not go on from those that are finished
for good. -/
theorem unfinished_none {initial : RecordId} (h : unfinished g initial = none) :
    ∃ met, (∀ x ∈ g.referents initial, x < g.bound → x ∈ met)
      ∧ ∀ r ∈ met, r = initial ∨ g.Settled met r := by
  obtain ⟨met, hmet, hwork, hall⟩ := explore_none h
  refine ⟨met, fun x hx hb => hmet x (Frontier.mem_met_meet.mpr (.inr ⟨hx, hb⟩)), fun r hr => ?_⟩
  rcases hall r hr with hr | hr
  · by_cases heq : r = initial
    · exact .inl heq
    · -- it has been met at the very beginning, and put on the stack then
      have hnot : r ∉ [initial] := fun hm => heq (List.mem_singleton.mp hm)
      have hnew := (Frontier.mem_met_meet.mp hr).resolve_left hnot
      exact .inr (hwork r (Frontier.mem_work_meet.mpr (.inr ⟨hnew.1, hnew.2, hnot⟩)))
  · exact .inr hr

-- ====================================================== nothing is made up

/-- One may go on from `a` to `b`: `a` is finished for itself, and refers to
`b`. -/
def Graph.Passes (g : Graph) (a b : RecordId) : Prop :=
  .nonTransitive ≤ g.stage a ∧ b ∈ g.referents a

/-- What a search comes up with is to be finished for itself, and one gets to
it from the stack. -/
theorem explore_some {f : Frontier} {dep : Dependency} (h : explore g f = some dep) :
    dep.required = .nonTransitive
      ∧ ∃ r ∈ f.work, Relation.ReflTransGen g.Passes r dep.target := by
  fun_induction explore with
  | case1 => cases h
  | case2 f r rest hwork hdone ih =>
      obtain ⟨hreq, x, hx, hpath⟩ := ih h
      exact ⟨hreq, x, by rw [hwork]; exact List.mem_cons_of_mem _ hx, hpath⟩
  | case3 f r rest hwork hopen hself =>
      cases h
      exact ⟨rfl, r, by rw [hwork]; exact List.mem_cons_self, .refl⟩
  | case4 f r rest hwork hopen hself ih =>
      obtain ⟨hreq, x, hx, hpath⟩ := ih h
      refine ⟨hreq, ?_⟩
      rw [hwork]
      rcases Frontier.mem_work_meet.mp hx with hx | ⟨hx, -, -⟩
      · exact ⟨x, List.mem_cons_of_mem _ hx, hpath⟩
      · have hstage : Stage.nonTransitive ≤ g.stage r := Nat.le_of_not_lt hself
        exact ⟨r, List.mem_cons_self, .head ⟨hstage, hx⟩ hpath⟩

/-- If there is something left to wait for, one gets there from what the record
refers to. -/
theorem unfinished_some {initial : RecordId} {dep : Dependency}
    (h : unfinished g initial = some dep) :
    dep.required = .nonTransitive
      ∧ ∃ r ∈ g.referents initial, Relation.ReflTransGen g.Passes r dep.target := by
  obtain ⟨hreq, r, hr, hpath⟩ := explore_some h
  rcases Frontier.mem_work_meet.mp hr with hr | ⟨hr, -, -⟩
  · cases hr
  · exact ⟨hreq, r, hr, hpath⟩

end TypeRecords.Search
