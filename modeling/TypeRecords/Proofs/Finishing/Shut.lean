/-
When a record is finished for good.

A record is *shut* when everything one comes to from it, going from records to
what they refer to, is finished for itself. This is what the last stage stands
for, and there are three ways in which a record is found to be shut: all it
refers to was there from the start, all elements of a tuple were seen in the
last stage, or the search for something unfinished has come to its end
(`Coherent.closing`). What makes it true for all of them is that records in
the last stage are shut already (`Coherent.shut`).

# Why it stays true

What a record refers to is decided when it is made: its arguments are given,
and a superclass is set while its allocation is not finished. A record in any
stage beyond the first is made, so all that a shut record leads to is, and
nothing is added to it. `Later` is what becomes of a store, as far as this
argument needs it: what is made stays as it is, and stages only go up.

# What an unfinished record owes

A record may be finished for itself and still wait. Then it waits for a record
to be finished for itself, at most, and for one that it leads to over records
that are made (`Owes`). So once something leads to the record and is shut,
that wait is over.
-/
import TypeRecords.Proofs.Finishing.Search
import TypeRecords.Proofs.Process.Records
import TypeRecords.Proofs.Waiting.Leading

namespace TypeRecords

theorem Stage.eq_complete {s : Stage} (h : .complete ≤ s) : s = .complete := by
  cases s with
  | complete => rfl
  | abstract => exact absurd h (by decide)
  | layoutComplete => exact absurd h (by decide)
  | nonTransitive => exact absurd h (by decide)

theorem Record.mem_referents_of_argument {r : Record} {y : RecordId} (h : y ∈ r.arguments) :
    y ∈ r.referents := by
  unfold Record.referents
  split
  · exact List.mem_cons_of_mem _ h
  · exact h

namespace Store

open Relation (ReflTransGen)

variable {s s' : Store} {H : List Hold} {registry : RegistryId} {x y : RecordId}

-- ====================================================== made records

def Refers (s : Store) (x y : RecordId) : Prop := y ∈ s.records.referents x

/-- Whether the allocation of a record is under way. -/
def isUnmade (s : Store) (registry : RegistryId) (x : RecordId) : Bool :=
  ((s.entryOf? registry x).bind (s.entries[·]?)).any (·.record.isNone)

/-- The record is there, and nothing is left to do about its allocation. -/
structure Made (s : Store) (registry : RegistryId) (x : RecordId) : Prop where
  there : x < s.records.size
  known : s.isUnmade registry x = false

theorem isUnmade_entry {i : EntryId} {e : Entry} (hi : s.entryOf? registry x = some i)
    (he : s.entries[i]? = some e) : s.isUnmade registry x = e.record.isNone := by
  unfold isUnmade
  rw [hi, Option.bind_some, he, Option.any_some]

theorem isUnmade_of_none (hi : s.entryOf? registry x = none) : s.isUnmade registry x = false := by
  unfold isUnmade
  rw [hi]
  rfl

/-- Arguments are referred to. -/
theorem refers_of_argument (h : y ∈ s.records.argumentsOf x) : s.Refers x y := by
  unfold Records.argumentsOf at h
  unfold Refers Records.referents
  cases hr : s.records[x]? with
  | none =>
      rw [hr] at h
      cases h
  | some r =>
      rw [hr] at h
      exact Record.mem_referents_of_argument h

theorem stageOf_of_none (hi : s.entryOf? registry x = none) :
    s.stageOf registry x = .complete := by
  unfold stageOf
  rw [hi]
  rfl

/-- The record of an entry is found through it. -/
theorem Owned.entryOf?_of_record (ho : s.Owned H) {i : EntryId} {e : Entry}
    (he : s.entries[i]? = some e) (hr : e.record = some x) : s.entryOf? e.registry x = some i :=
  entryOf?_of_entry ho.distinct he (ho.keyed he hr)

theorem Owned.made_of_record (ho : s.Owned H) {i : EntryId} {e : Entry}
    (he : s.entries[i]? = some e) (hr : e.record = some x) : s.Made e.registry x := by
  refine ⟨lt_size_of_keyOf (ho.keyed he hr), ?_⟩
  rw [isUnmade_entry (ho.entryOf?_of_record he hr) he, hr]
  rfl

/-- A record in any stage but the first is made. -/
theorem Owned.made_of_stage (ho : s.Owned H) (hx : x < s.records.size)
    (hs : .nonTransitive ≤ s.stageOf registry x) : s.Made registry x := by
  refine ⟨hx, ?_⟩
  cases hi : s.entryOf? registry x with
  | none => exact isUnmade_of_none hi
  | some i =>
      obtain ⟨e, he, -⟩ := entryOf?_some hi
      rw [isUnmade_entry hi he]
      rw [stageOf_entry hi he (ho.sound he)] at hs
      cases hr : e.record with
      | some r => rfl
      | none =>
          rw [((ho.sound he).blank hr).1] at hs
          exact absurd hs (by decide)

-- ====================================================== shut, and owing

/-- Everything one comes to from the record is finished for itself. -/
def Shut (s : Store) (registry : RegistryId) (x : RecordId) : Prop :=
  ∀ y, ReflTransGen s.Refers x y → y = x ∨ .nonTransitive ≤ s.stageOf registry y

/-- A reference that stays. -/
def Firm (s : Store) (registry : RegistryId) (x y : RecordId) : Prop :=
  s.Made registry x ∧ s.Refers x y

/-- `dep` asks for no more than that a record is finished for itself, and for
one that `x` leads to for good. -/
structure Owes (s : Store) (registry : RegistryId) (x : RecordId) (dep : Dependency) : Prop where
  stage : dep.required ≤ .nonTransitive
  path : ReflTransGen (s.Firm registry) x dep.target

/-- What an outcome says about the record is so: if nothing stopped the step the
record is shut, and if something did then either the record is not finished
for itself afterwards, or it owes what stopped it. -/
def Bears (s : Store) (registry : RegistryId) (d : Drive) (o : StepOutcome) : Prop :=
  match o.dependency with
  | none => s.Shut registry d.record
  | some dep =>
    (d.stage < .nonTransitive ∧ o.stage < .nonTransitive) ∨ s.Owes registry d.record dep

/-- A tuple's step has seen all its elements but those still to come, and has
noted no stage they have not reached. -/
def Walked (s : Store) (registry : RegistryId) (w : ElementWalk) : Prop :=
  ∃ seen : List (RecordId × Stage),
    s.records.referents w.drive.record = seen.map (·.1) ++ w.todo
      ∧ w.stages = seen.map (·.2) ∧ ∀ p ∈ seen, p.2 ≤ s.stageOf registry p.1

/-- A step of the walk. -/
theorem Walked.next {w : ElementWalk} {rest : List RecordId} {stage : Stage}
    (hw : s.Walked registry w) (htodo : w.todo = x :: rest)
    (hstage : stage ≤ s.stageOf registry x) :
    s.Walked registry { w with todo := rest, stages := w.stages ++ [stage] } := by
  obtain ⟨seen, hrefs, hstages, hle⟩ := hw
  refine ⟨seen ++ [(x, stage)], ?_, ?_, fun p hp => ?_⟩
  · show s.records.referents w.drive.record = _
    rw [hrefs, htodo]
    simp
  · show w.stages ++ [stage] = _
    rw [hstages]
    simp
  · rcases List.mem_append.mp hp with hp | hp
    · exact hle p hp
    · rw [List.mem_singleton.mp hp]
      exact hstage

/-- What is still to come is referred to, too. -/
theorem Walked.refers {w : ElementWalk} {rest : List RecordId} (hw : s.Walked registry w)
    (htodo : w.todo = x :: rest) : s.Refers w.drive.record x := by
  obtain ⟨seen, hrefs, -, -⟩ := hw
  unfold Refers
  rw [hrefs, htodo]
  simp

-- ====================================================== coherent stores

/-- All entries and records belong together, and the last stage is what it
stands for. -/
structure Coherent (registry : RegistryId) (s : Store) : Prop where
  sole : s.Sole registry
  /-- Records refer to records that are there. -/
  grounded : ∀ {x y : RecordId}, s.Refers x y → y < s.records.size
  tuples : ∀ {r : Record}, r ∈ s.outlines → r.origin = .tuple → r.kind = .tuple
  shut : ∀ {x : RecordId}, s.stageOf registry x = .complete → s.Shut registry x
  owing : ∀ {i : EntryId} {e : Entry} {x : RecordId} {dep : Dependency},
    s.entries[i]? = some e → e.record = some x → .nonTransitive ≤ e.stage →
    e.blockedOn = some dep → s.Owes registry x dep

namespace Coherent

/-- One only comes to records that are there. -/
theorem lt_size (hc : s.Coherent registry) (hx : x < s.records.size)
    (hxy : ReflTransGen s.Refers x y) : y < s.records.size := by
  cases hxy with
  | refl => exact hx
  | tail _ hlast => exact hc.grounded hlast

/-- A tuple refers to its elements. -/
theorem referents_tuple (hc : s.Coherent registry) {r : Record} (hr : s.records[x]? = some r)
    (ho : r.origin = .tuple) : s.records.referents x = r.arguments := by
  have hmem : r.outline ∈ s.outlines :=
    List.mem_map.mpr ⟨r, Array.mem_toList_iff.mpr (Array.mem_of_getElem? hr), rfl⟩
  have hkind : r.outline.kind = .tuple := hc.tuples hmem ho
  unfold Records.referents
  rw [hr]
  show r.referents = r.arguments
  unfold Record.referents
  rw [show r.kind = .tuple from hkind]

/-- What the search passes is made. -/
theorem firm_of_passes (hc : s.Coherent registry) (ho : s.Owned H) (hx : x < s.records.size)
    (h : ReflTransGen (s.graph registry).Passes x y) :
    y < s.records.size ∧ ReflTransGen (s.Firm registry) x y := by
  induction h with
  | refl => exact ⟨hx, .refl⟩
  | @tail y z _ hyz ih =>
      obtain ⟨hy, hpath⟩ := ih
      obtain ⟨hstage, hrefers⟩ := hyz
      exact ⟨hc.grounded hrefers, hpath.tail ⟨ho.made_of_stage hy hstage, hrefers⟩⟩

/-- What lies behind a record in the last stage is finished for itself. -/
theorem stage_of_complete (hc : s.Coherent registry) (hx : s.stageOf registry x = .complete)
    (hxy : ReflTransGen s.Refers x y) : .nonTransitive ≤ s.stageOf registry y := by
  rcases hc.shut hx y hxy with rfl | hy
  · rw [hx]
    decide
  · exact hy

/-- A record all of whose referents are in the last stage is shut. -/
theorem shut_of_referents (hc : s.Coherent registry)
    (hall : ∀ y ∈ s.records.referents x, s.stageOf registry y = .complete) :
    s.Shut registry x := by
  intro y hxy
  rcases ReflTransGen.cases_head hxy with rfl | ⟨z, hxz, hzy⟩
  · exact .inl rfl
  · exact .inr (hc.stage_of_complete (hall z hxz) hzy)

/-- A search that ends without a result has gone through all the record leads
to, as far as it does not lie behind records in the last stage. -/
theorem shut_of_unfinished (hc : s.Coherent registry) (h : s.unfinished? registry x = none) :
    s.Shut registry x := by
  obtain ⟨met, hfirst, hall⟩ := Search.unfinished_none h
  have hreach : ∀ y, ReflTransGen s.Refers x y →
      y = x ∨ y ∈ met ∨ .nonTransitive ≤ s.stageOf registry y
        ∧ ∃ z, s.stageOf registry z = .complete ∧ ReflTransGen s.Refers z y := by
    intro y hxy
    induction hxy with
    | refl => exact .inl rfl
    | @tail y z _ hyz ih =>
        have hz : z < s.records.size := hc.grounded hyz
        rcases ih with rfl | hy | ⟨-, w, hw, hwy⟩
        · exact .inr (.inl (hfirst z hyz hz))
        · rcases hall y hy with rfl | hdone | ⟨-, hrefs⟩
          · exact .inr (.inl (hfirst z hyz hz))
          · have hyz' : ReflTransGen s.Refers y z := .single hyz
            exact .inr (.inr ⟨hc.stage_of_complete hdone hyz', y, hdone, hyz'⟩)
          · exact .inr (.inl (hrefs z hyz hz))
        · have hwz := hwy.tail hyz
          exact .inr (.inr ⟨hc.stage_of_complete hw hwz, w, hw, hwz⟩)
  intro y hxy
  rcases hreach y hxy with rfl | hy | ⟨hstage, -⟩
  · exact .inl rfl
  · rcases hall y hy with rfl | hdone | ⟨hstage, -⟩
    · exact .inl rfl
    · exact .inr (hc.stage_of_complete hdone .refl)
    · exact .inr hstage
  · exact .inr hstage

/-- What the search says about a record is so. -/
theorem closing (hc : s.Coherent registry) (ho : s.Owned H) {d : Drive}
    (hd : d.registry = registry) (hx : s.Made registry d.record) :
    s.Bears registry d (Turn.closing s d) := by
  unfold Turn.closing StepOutcome.closing
  rw [hd]
  cases hfind : s.unfinished? registry d.record with
  | none => exact hc.shut_of_unfinished hfind
  | some dep =>
      obtain ⟨hreq, r, hr, hpath⟩ := Search.unfinished_some hfind
      refine .inr ⟨Stage.le_of_eq hreq, ?_⟩
      exact .head ⟨hx, hr⟩ (hc.firm_of_passes ho (hc.grounded hr) hpath).2

/-- What a tuple's step says about the tuple once it has seen all elements is
so. -/
theorem tupleOutcome (hc : s.Coherent registry) (ho : s.Owned H) {w : ElementWalk}
    (hd : w.drive.registry = registry) (hx : s.Made registry w.drive.record)
    (hw : s.Walked registry w) (hend : w.todo = []) :
    s.Bears registry w.drive (Turn.tupleOutcome s w.drive w.stages) := by
  obtain ⟨seen, hrefs, hstages, hle⟩ := hw
  rw [hend, List.append_nil] at hrefs
  simp only [Turn.tupleOutcome]
  split
  · -- all elements were seen in the last stage, and they are in it still
    rename_i hall
    refine hc.shut_of_referents fun y hy => ?_
    rw [hrefs] at hy
    obtain ⟨p, hp, rfl⟩ := List.mem_map.mp hy
    have hlast : p.2 = .complete := by
      have hmem : p.2 ∈ w.stages := by
        rw [hstages]
        exact List.mem_map.mpr ⟨p, hp, rfl⟩
      simpa using List.all_eq_true.mp hall _ hmem
    have hstage := hle p hp
    rw [hlast] at hstage
    exact Stage.eq_complete hstage
  · split
    · rename_i element stage hfind
      have hmem : element ∈ s.records.argumentsOf w.drive.record :=
        (List.of_mem_zip (List.mem_of_find?_eq_some hfind)).1
      exact .inr ⟨Nat.le_refl _, .single ⟨hx, refers_of_argument hmem⟩⟩
    · exact hc.closing ho hd hx

end Coherent

-- ====================================================== later stores

/-- What becomes of a store: what was found is found, what was made refers to
what it referred to, and stages have only gone up. -/
structure Later (registry : RegistryId) (s s' : Store) : Prop where
  grows : s.Extends s'
  made : ∀ {x : RecordId}, s.Made registry x →
    s'.Made registry x ∧ s'.records.referents x = s.records.referents x
  stages : ∀ {x : RecordId}, x < s.records.size → s.stageOf registry x ≤ s'.stageOf registry x

namespace Later

theorem firm (h : s.Later registry s') (hxy : s.Firm registry x y) : s'.Firm registry x y := by
  obtain ⟨hmade, hrefers⟩ := hxy
  obtain ⟨hmade', hrefs⟩ := h.made hmade
  refine ⟨hmade', ?_⟩
  unfold Refers
  rw [hrefs]
  exact hrefers

theorem owes (h : s.Later registry s') {dep : Dependency} (ho : s.Owes registry x dep) :
    s'.Owes registry x dep :=
  ⟨ho.stage, ReflTransGen.mono (fun _ _ => h.firm) _ _ ho.path⟩

/-- One does not come to anything new from a shut record. -/
theorem shut (h : s.Later registry s') (hc : s.Coherent registry) (ho : s.Owned H)
    (hx : s.Made registry x) (hs : s.Shut registry x) : s'.Shut registry x := by
  have hback : ∀ y, ReflTransGen s'.Refers x y → ReflTransGen s.Refers x y := by
    intro y hxy
    induction hxy with
    | refl => exact .refl
    | @tail y z _ hyz ih =>
        have hmade : s.Made registry y := by
          rcases hs y ih with rfl | hy
          · exact hx
          · exact ho.made_of_stage (hc.lt_size hx.there ih) hy
        refine ih.tail ?_
        unfold Refers
        rw [← (h.made hmade).2]
        exact hyz
  intro y hxy
  refine (hs y (hback y hxy)).imp_right fun hy => ?_
  exact Nat.le_trans hy (h.stages (hc.lt_size hx.there (hback y hxy)))

theorem bears (h : s.Later registry s') (hc : s.Coherent registry) (ho : s.Owned H) {d : Drive}
    {o : StepOutcome} (hx : s.Made registry d.record) (hb : s.Bears registry d o) :
    s'.Bears registry d o := by
  unfold Bears at hb ⊢
  cases hdep : o.dependency with
  | none =>
      rw [hdep] at hb
      exact h.shut hc ho hx hb
  | some dep =>
      rw [hdep] at hb
      exact hb.imp_right h.owes

theorem walked (h : s.Later registry s') (hc : s.Coherent registry) {w : ElementWalk}
    (hx : s.Made registry w.drive.record) (hw : s.Walked registry w) : s'.Walked registry w := by
  obtain ⟨seen, hrefs, hstages, hle⟩ := hw
  refine ⟨seen, by rw [(h.made hx).2, hrefs], hstages, fun p hp => ?_⟩
  have hthere : p.1 < s.records.size := by
    refine hc.grounded (x := w.drive.record) ?_
    unfold Refers
    rw [hrefs]
    exact List.mem_append_left _ (List.mem_map.mpr ⟨p, hp, rfl⟩)
  exact Nat.le_trans (hle p hp) (h.stages hthere)

end Later

end Store

end TypeRecords
