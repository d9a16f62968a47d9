/-
A record in the last stage is finished throughout.

Wherever a process gets to, everything that a record in the last stage leads
to - over superclasses, arguments and elements, in circles or not - is at
least finished for itself, and none of it waits for anything any more
(`Run.transitively_complete`). Any number of threads may run, and faults may
unwind.

# What programs have to keep to

There is one registry, and every record that needs completion belongs to it.
A superclass is set for a record while it is being allocated, that is by the
callback that instantiates it (`Control.lawful`). Apart from that callbacks do
what they like; in particular they may stop on anything.

# The argument

No step of a thread changes what a made record refers to, or takes a stage
back (`Turn.step_later`). So what was shut stays shut, and only a step that
brings a record to the last stage has something to show. There are two:
finishing an allocation, and publishing an outcome, which is truthful
(`Turn.step_coherent`).
-/
import TypeRecords.Proofs.Finishing.Concluding
import TypeRecords.Proofs.Waiting.Cycles

namespace TypeRecords

open Relation (ReflTransGen)

variable {σ : Type}

/-- Whether the next step keeps to one registry, names only what is there, and
sets no superclass but that of a record that is being allocated. -/
def Control.lawful (registry : RegistryId) (s : Store) : Control σ → Bool
  | .run (.request r _ c _) _ => r == registry && c.names.all (· < s.records.size)
  | .run (.act (.setSuperclass x y) _) _ => s.isUnmade registry x && decide (y < s.records.size)
  | _ => true

-- ====================================================== stores

namespace Store

variable {s s' : Store} {H H' : List Hold} {registry : RegistryId} {x y : RecordId}

theorem Later.refl (registry : RegistryId) (s : Store) : s.Later registry s :=
  ⟨.refl s, fun hx => ⟨hx, rfl⟩, fun _ => Nat.le_refl _⟩

/-- Where each record has an entry of its own, no entry is found later that was
not found before. -/
theorem Sole.entryOf?_later (hs : s.Sole registry) (h : s.Extends s') (hx : x < s.records.size) :
    s'.entryOf? registry x = s.entryOf? registry x := by
  cases hk : s.keyOf x with
  | none => rw [entryOf?_eq, entryOf?_eq, h.keyOf_of_lt hx, hk, Option.bind_none, Option.bind_none]
  | some key =>
      obtain ⟨i, hi⟩ := hs.found hk
      have hold : s.entryOf? registry x = some i := by
        rw [entryOf?_eq, hk]
        exact hi
      rw [hold]
      exact h.entryOf? hold

theorem Sole.keyOf_none (hs : s.Sole registry) (hi : s.entryOf? registry x = none) :
    s.keyOf x = none := by
  cases hk : s.keyOf x with
  | none => rfl
  | some key =>
      obtain ⟨i, hfound⟩ := hs.found hk
      rw [entryOf?_eq, hk, Option.bind_some, hfound] at hi
      cases hi

/-- Stages only go up, as a registry sees them. -/
theorem Advances.stageOf_le (h : s.Advances s') (hs : s.Sole registry) (ho : s.Owned H)
    (ho' : s'.Owned H') (hx : x < s.records.size) :
    s.stageOf registry x ≤ s'.stageOf registry x := by
  have hfound := hs.entryOf?_later h.grows hx
  cases hi : s.entryOf? registry x with
  | none =>
      rw [stageOf_of_none hi, stageOf_of_none (hfound.trans hi)]
      exact Nat.le_refl _
  | some i =>
      obtain ⟨e, he, -⟩ := entryOf?_some hi
      obtain ⟨e', he', -, hle, -⟩ := h.entries he
      rw [stageOf_entry hi he (ho.sound he), stageOf_entry (hfound.trans hi) he' (ho'.sound he')]
      exact hle

/-- A record that comes to refer only to records in the last stage is shut. -/
theorem Later.shut_of_referents (h : s.Later registry s') (hc : s.Coherent registry)
    (ho : s.Owned H) (hall : ∀ y ∈ s'.records.referents x,
      y < s.records.size ∧ s.stageOf registry y = .complete) : s'.Shut registry x := by
  intro y hxy
  rcases ReflTransGen.cases_head hxy with rfl | ⟨z, hxz, hzy⟩
  · exact .inl rfl
  · right
    obtain ⟨hz, hdone⟩ := hall z hxz
    have hstage : Stage.nonTransitive ≤ s.stageOf registry z := hc.stage_of_complete hdone .refl
    rcases h.shut hc ho (ho.made_of_stage hz hstage) (hc.shut hdone) y hzy with rfl | hy
    · exact Nat.le_trans hstage (h.stages hz)
    · exact hy

end Store

/-- Setting a superclass adds it to what the record refers to, at most. -/
theorem Record.mem_referents_superclass {r : Record} {x y : RecordId}
    (h : y ∈ ({ r with superclass := some x } : Record).referents) : y = x ∨ y ∈ r.arguments := by
  unfold Record.referents at h
  dsimp only at h
  split at h
  · rename_i s _ hs
    obtain rfl := Option.some.inj hs
    exact List.mem_cons.mp h
  · exact .inr h

-- ====================================================== one step

namespace Turn

variable {lib : Library σ} {a : Actor} {t t' : Turn σ} {registry : RegistryId}
  {others H' : List Hold}

/-- A made record refers to what it referred to. -/
theorem Redraws.referents (h : t.Redraws t') (hlaw : t.control.lawful registry t.store = true)
    {x : RecordId} (hx : t.store.Made registry x) :
    t'.store.records.referents x = t.store.records.referents x := by
  rw [Store.referents_eq, Store.referents_eq]
  cases h with
  | same h => rw [h]
  | @superclass record superclass k s hc h =>
      rw [hc] at hlaw
      have hne : record ≠ x := by
        rintro rfl
        have hunmade := (Bool.and_eq_true_iff.mp hlaw).1
        rw [hx.known] at hunmade
        cases hunmade
      rw [h, List.getElem?_modify_ne _ _ hne]
  | made hc hr htuple h =>
      have hlt : x < t.store.outlines.length := by
        rw [Store.length_outlines]
        exact hx.there
      rw [h, List.getElem?_append_left hlt]

/-- Every step leaves a later store. -/
theorem step_later (h : t.step lib a = some t') (hs : t.store.Sole registry)
    (ho : t.store.Owned (t.holds a.id ++ others)) (ho' : t'.store.Owned H')
    (hlaw : t.control.lawful registry t.store = true) : t.store.Later registry t'.store := by
  have hshift := Turn.step_shift h
  have hadvances := hshift.advances ho
  have hgrows := hshift.grows
  refine ⟨hgrows, fun {x} hx => ⟨⟨Nat.lt_of_lt_of_le hx.there hgrows.size_le, ?_⟩,
    (step_outlines h).referents hlaw hx⟩, fun {x} hx => ?_⟩
  · have hfound := hs.entryOf?_later hgrows hx.there
    cases hi : t.store.entryOf? registry x with
    | none => exact Store.isUnmade_of_none (hfound.trans hi)
    | some i =>
        obtain ⟨e, he, -⟩ := Store.entryOf?_some hi
        obtain ⟨e', he', -, -, hrecord⟩ := hadvances.entries he
        have hknown := hx.known
        rw [Store.isUnmade_entry hi he] at hknown
        rw [Store.isUnmade_entry (hfound.trans hi) he']
        cases hr : e.record with
        | none =>
            rw [hr] at hknown
            cases hknown
        | some r =>
            rw [hrecord r hr]
            rfl
  · exact hadvances.stageOf_le hs ho ho' hx

/-- An outline that is there after a step was there before, or had another
superclass before, or is new. -/
theorem Redraws.outline (h : t.Redraws t') (hlaw : t.control.lawful registry t.store = true)
    {x : RecordId} {r : Record} (hr : t'.store.outlines[x]? = some r) :
    t.store.outlines[x]? = some r
      ∨ (∃ old y, t.store.outlines[x]? = some old ∧ y < t.store.records.size
        ∧ r = { old with superclass := some y })
      ∨ (r.origin = .tuple → r.kind = .tuple) ∧ ∀ y ∈ r.referents, y < t.store.records.size := by
  cases h with
  | same h =>
      rw [h] at hr
      exact .inl hr
  | @superclass record y k s hc h =>
      rw [hc] at hlaw
      have hy : y < t.store.records.size :=
        of_decide_eq_true (Bool.and_eq_true_iff.mp hlaw).2
      rw [h] at hr
      by_cases hx : record = x
      · subst hx
        rw [List.getElem?_modify_eq] at hr
        obtain ⟨old, hold, rfl⟩ := Option.map_eq_some_iff.mp hr
        exact .inr (.inl ⟨old, y, hold, hy, rfl⟩)
      · rw [List.getElem?_modify_ne _ _ hx] at hr
        exact .inl hr
  | @made _ q c k s new hc hrefs htuple h =>
      rw [hc] at hlaw
      have hnames := List.all_eq_true.mp (Bool.and_eq_true_iff.mp hlaw).2
      rw [h] at hr
      rcases Nat.lt_or_ge x t.store.outlines.length with hlt | hge
      · rw [List.getElem?_append_left hlt] at hr
        exact .inl hr
      · rw [List.getElem?_append_right hge] at hr
        obtain rfl := List.mem_singleton.mp (List.mem_of_getElem? hr)
        refine .inr (.inr ⟨htuple, fun y hy => of_decide_eq_true (hnames y ?_)⟩)
        rw [← hrefs]
        exact hy

theorem step_grounded (h : t.step lib a = some t') (hc : t.store.Coherent registry)
    (hl : t.store.Later registry t'.store) (hlaw : t.control.lawful registry t.store = true)
    {x y : RecordId} (hxy : t'.store.Refers x y) : y < t'.store.records.size := by
  refine Nat.lt_of_lt_of_le ?_ hl.grows.size_le
  unfold Store.Refers at hxy
  rw [Store.referents_eq] at hxy
  cases hr : t'.store.outlines[x]? with
  | none =>
      rw [hr] at hxy
      cases hxy
  | some r =>
      rw [hr] at hxy
      have hgrounded : ∀ {r : Record}, t.store.outlines[x]? = some r → ∀ y ∈ r.referents,
          y < t.store.records.size := fun hr y hy => hc.grounded (by
        unfold Store.Refers
        rw [Store.referents_eq, hr]
        exact hy)
      rcases (step_outlines h).outline hlaw hr with hr | ⟨old, z, hold, hz, rfl⟩ | ⟨-, hnew⟩
      · exact hgrounded hr y hxy
      · rcases Record.mem_referents_superclass hxy with rfl | hy
        · exact hz
        · exact hgrounded hold y (Record.mem_referents_of_argument hy)
      · exact hnew y hxy

theorem step_tuples (h : t.step lib a = some t') (hc : t.store.Coherent registry)
    (hlaw : t.control.lawful registry t.store = true) {r : Record}
    (hr : r ∈ t'.store.outlines) (ho : r.origin = .tuple) : r.kind = .tuple := by
  obtain ⟨x, hx⟩ := List.mem_iff_getElem?.mp hr
  rcases (step_outlines h).outline hlaw hx with hx | ⟨old, y, hold, -, rfl⟩ | ⟨hnew, -⟩
  · exact hc.tuples (List.mem_of_getElem? hx) ho
  · exact hc.tuples (r := old) (List.mem_of_getElem? hold) ho
  · exact hnew ho

/-- A record without a key was there from the start. -/
theorem Shift.keyless (h : Shift lib a t t') {x : RecordId} (hx : x < t'.store.records.size)
    (hk : t'.store.keyOf x = none) : x < t.store.records.size := by
  have hlength : ∀ s : Store, s.keys.length = s.records.size := fun s => by simp [Store.keys]
  rcases h.labels with ⟨-, hkeys⟩ | ⟨-, -, -, -, -, key, -, -, -, hkeys⟩
  · rw [← hlength, ← hkeys, hlength]
    exact hx
  · rcases Nat.lt_or_ge x t.store.records.size with hlt | hge
    · exact hlt
    · rw [← hlength, hkeys, List.length_append, hlength] at hx
      obtain rfl : x = t.store.keys.length := by
        rw [hlength]
        exact Nat.le_antisymm (Nat.le_of_lt_succ hx) hge
      rw [Store.keyOf_eq, hkeys, List.getElem?_append_right (Nat.le_refl _)] at hk
      simp at hk

/-- Finishing an allocation brings only such records to the last stage as refer
to nothing but what was there from the start. -/
theorem firstStage_complete {s : Store} (hc : s.Coherent registry) {x : RecordId}
    (h : (firstStage lib s x).2 = .complete) :
    ∀ y ∈ s.records.referents x, y < s.records.size ∧ s.stageOf registry y = .complete := by
  intro y hy
  have hthere : y < s.records.size := hc.grounded hy
  refine ⟨hthere, Store.stageOf_of_none ?_⟩
  unfold firstStage at h
  split at h
  · cases h
  · split at h
    · exact absurd h (inferredStage_unfinished s x)
    · rename_i d _ _
      simp only at h
      split at h
      · rename_i hfixed
        rw [Store.refersToFixed_congr (settleLayout_outlines s x d.kind)] at hfixed
        rw [Store.entryOf?_eq, Store.keyOf_of_isFixed (List.all_eq_true.mp hfixed y hy)]
        rfl
      · cases h

/-- A record that needs no completion is shut: it was there from the start, or
it is not there. -/
theorem Shift.shut_of_unlisted (h : Shift lib a t t') (hc : t.store.Coherent registry)
    (ho : t.store.Owned H') (hs' : t'.store.Sole registry)
    (hl : t.store.Later registry t'.store) {x : RecordId}
    (hi : t'.store.entryOf? registry x = none) : t'.store.Shut registry x := by
  by_cases hthere : x < t'.store.records.size
  · have hold := h.keyless hthere (hs'.keyOf_none hi)
    rw [hc.sole.entryOf?_later hl.grows hold] at hi
    exact hl.shut hc ho ⟨hold, Store.isUnmade_of_none hi⟩ (hc.shut (Store.stageOf_of_none hi))
  · refine hl.shut_of_referents hc ho fun y hy => ?_
    unfold Records.referents at hy
    rw [Array.getElem?_eq_none (Nat.le_of_not_lt hthere)] at hy
    cases hy

/-- A record that is in the last stage after a step is shut. -/
theorem step_shut (h : t.step lib a = some t') (hc : t.store.Coherent registry)
    (ho : t.store.Owned (t.holds a.id ++ others)) (ho' : t'.store.Owned H')
    (ht : t.Truthful registry) (hs' : t'.store.Sole registry)
    (hl : t.store.Later registry t'.store) {x : RecordId}
    (hx : t'.store.stageOf registry x = .complete) : t'.store.Shut registry x := by
  have hshift := Turn.step_shift h
  cases hi : t'.store.entryOf? registry x with
  | none => exact hshift.shut_of_unlisted hc ho hs' hl hi
  | some i =>
      obtain ⟨e', he', -⟩ := Store.entryOf?_some hi
      have hsound' := ho'.sound he'
      rw [Store.stageOf_entry hi he' hsound'] at hx
      have hrecord' : e'.record = some x := by
        cases hr : e'.record with
        | none =>
            rw [(hsound'.blank hr).1] at hx
            cases hx
        | some r => rw [hs'.record_eq ho' hi he' hr]
      -- the entry of the record that was there before
      have hmade : ∀ {e : Entry}, t.store.entries[i]? = some e → e.record = some x →
          t.store.Made registry x ∧ t.store.stageOf registry x = e.stage := fun {e} he hr => by
        have hreg := hc.sole.entry_registry he
        refine ⟨hreg ▸ ho.made_of_record he hr, ?_⟩
        rw [Store.stageOf_entry (hreg ▸ ho.entryOf?_of_record he hr) he (ho.sound he)]
      have hstays : ∀ {e : Entry}, t.store.entries[i]? = some e → e.record = some x →
          e.stage = .complete → t'.store.Shut registry x := fun he hr hdone =>
        hl.shut hc ho (hmade he hr).1 (hc.shut ((hmade he hr).2.trans hdone))
      rcases hshift.alters ho he' with ⟨e, he, halters⟩ | ⟨_, _, _, _, _, _, -, -, rfl⟩
      · cases halters with
        | kept hr hs hb hsaved => exact hstays he (hr.symm.trans hrecord') (hs.symm.trans hx)
        | suspended hcon hi hcy => exact hstays he hrecord' hx
        | @allocated al hcon hi hr =>
            obtain rfl := Option.some.inj hrecord'
            refine hl.shut_of_referents hc ho ?_
            have hsame : t'.store.outlines = t.store.outlines := by
              cases step_outlines h with
              | same h => exact h
              | superclass hrun h => rw [hcon] at hrun; cases hrun
              | made hrun hrefs htuple h => rw [hcon] at hrun; cases hrun
            rw [Store.referents_congr hsame]
            exact firstStage_complete hc hx
        | @published d o hcon hi =>
            subst hi
            have hmem : .concluding a.id d o ∈ t.holds a.id ++ others :=
              List.mem_append_left _ (mem_holds_of_control hcon List.mem_cons_self)
            obtain ⟨hdriven, hunfinished, hdep⟩ := ho.suits hmem he
            obtain rfl := Option.some.inj (hdriven.record.symm.trans hrecord')
            have hbears := ht.outcome hcon
            unfold Store.Bears at hbears
            rw [hdep.mp ((Entry.publish_complete_iff hunfinished).mp hx)] at hbears
            exact hl.shut hc ho (hmade he hdriven.record).1 hbears
      · cases hrecord'

/-- What a record owes that is finished for itself after a step, it owed
before, or the step has published it. -/
theorem step_owing (h : t.step lib a = some t') (hc : t.store.Coherent registry)
    (ho : t.store.Owned (t.holds a.id ++ others)) (ht : t.Truthful registry)
    (hl : t.store.Later registry t'.store) {i : EntryId} {e' : Entry} {x : RecordId}
    {dep : Dependency} (he' : t'.store.entries[i]? = some e') (hr' : e'.record = some x)
    (hstage : .nonTransitive ≤ e'.stage) (hb' : e'.blockedOn = some dep) :
    t'.store.Owes registry x dep := by
  rcases (Turn.step_shift h).alters ho he' with ⟨e, he, halters⟩ | ⟨_, _, _, _, _, _, -, -, rfl⟩
  · cases halters with
    | kept hr hs hb hsaved =>
        exact hl.owes (hc.owing he (hr.symm.trans hr') (hs ▸ hstage) (hb.symm.trans hb'))
    | suspended hcon hi hcy => exact hl.owes (hc.owing he hr' hstage hb')
    | allocated hcon hi hr =>
        have hblank : e.blockedOn = none := ((ho.sound he).blank hr).2.1
        have hsome : e.blockedOn = some dep := hb'
        rw [hblank] at hsome
        cases hsome
    | @published d o hcon hi =>
        subst hi
        have hmem : .concluding a.id d o ∈ t.holds a.id ++ others :=
          List.mem_append_left _ (mem_holds_of_control hcon List.mem_cons_self)
        obtain ⟨hdriven, -⟩ := ho.suits hmem he
        obtain rfl := Option.some.inj (hdriven.record.symm.trans hr')
        have hdep : o.dependency = some dep := hb'
        have hbears := ht.outcome hcon
        unfold Store.Bears at hbears
        rw [hdep] at hbears
        rcases hbears with ⟨hbefore, houtcome⟩ | howes
        · -- then it is not finished for itself even now
          rw [e.publish_stage, hdriven.stage] at hstage
          have hlater : d.stage.later o.stage < .nonTransitive := by
            unfold Stage.later
            split
            · exact houtcome
            · exact hbefore
          exact (Nat.not_le.mpr hlater hstage).elim
        · exact hl.owes howes
  · cases hr'

/-- A step of a thread that goes by what is so leaves a coherent store. -/
theorem step_coherent (h : t.step lib a = some t') (hc : t.store.Coherent registry)
    (ho : t.store.Owned (t.holds a.id ++ others)) (ho' : t'.store.Owned H')
    (ht : t.Truthful registry) (hlaw : t.control.lawful registry t.store = true) :
    t'.store.Coherent registry := by
  have hl := step_later h hc.sole ho ho' hlaw
  have hs' : t'.store.Sole registry :=
    (Turn.step_shift h).sole hc.sole fun registry' q c k set hrun => by
      rw [hrun] at hlaw
      exact beq_iff_eq.mp (Bool.and_eq_true_iff.mp hlaw).1
  exact {
    sole := hs'
    grounded := step_grounded h hc hl hlaw
    tuples := step_tuples h hc hlaw
    shut := step_shut h hc ho ho' ht hs' hl
    owing := step_owing h hc ho ht hl }

end Turn

-- ====================================================== processes

namespace Machine

variable {lib : Library σ} {start m m' : Machine σ} {registry : RegistryId} {t : ThreadId}

/-- Every thread keeps to the one registry, to what is there, and to the records
it allocates. -/
def Lawful (registry : RegistryId) (m : Machine σ) : Prop :=
  ∀ thread ∈ m.threads, thread.control.lawful registry m.store = true

instance (registry : RegistryId) (m : Machine σ) : Decidable (m.Lawful registry) :=
  inferInstanceAs (Decidable (∀ thread ∈ m.threads, _ = _))

/-- The store is coherent, and all threads go by what is so. -/
structure Truthful (registry : RegistryId) (m : Machine σ) : Prop where
  coherent : m.store.Coherent registry
  threads : ∀ {u : ThreadId} {thread : Thread σ}, m.threads[u]? = some thread →
    (m.turn thread).Truthful registry

theorem Truthful.step (hm : m.Truthful registry) (h : m.step lib t = some m')
    (hlaw : m.Lawful registry) (ho : m.store.Owned m.holds) : m'.Truthful registry := by
  have ho' := step_owned h ho
  -- either one thread has stepped by itself, or the store is what it was
  obtain ⟨hl, hc'⟩ : m.store.Later registry m'.store ∧ m'.store.Coherent registry := by
    obtain ⟨-, thread, hthread, hs⟩ := step_cases h
    have hthreadlaw := hlaw thread (Array.mem_of_getElem? hthread)
    cases hs with
    | @alone turn hturn =>
        have hown := ho.perm (holds_split hthread).symm
        exact ⟨Turn.step_later hturn hm.coherent.sole hown ho' hthreadlaw,
          Turn.step_coherent hturn hm.coherent hown ho' (hm.threads hthread) hthreadlaw⟩
    | program p' started hc hp hstore hthreads hnew =>
        rw [hstore]
        exact ⟨.refl registry m.store, hm.coherent⟩
  refine ⟨hc', fun hu => step_threads (P := (·.Truthful registry)) h
    (fun {thread turn} hthread hturn hstore => ?_)
    (fun hthread hc hp hstore => (hm.threads hthread).program hc hstore rfl rfl)
    (fun hu => (hm.threads hu).later hm.coherent ho (fun hold hh => mem_holds hu hh) hl rfl rfl)
    (fun hframes ⟨p, s, hrun⟩ => .start hrun hframes) hu⟩
  rw [hstore] at hl hc' ho'
  exact (hm.threads hthread).step hturn hm.coherent ho (fun hold hh => mem_holds hthread hh)
    hc' ho' hl

theorem Fresh.truthful (hf : start.Fresh) (hw : start.store.Whole) (registry : RegistryId) :
    start.Truthful registry := by
  have hnone : ∀ x, start.store.entryOf? registry x = none := fun x => by
    rw [Store.entryOf?_eq, hf.keyOf_none x]
    rfl
  have hno : ∀ {i : EntryId} {e : Entry}, start.store.entries[i]? ≠ some e := by simp [hf.entries]
  refine ⟨⟨hf.sole registry, fun {x y} hxy => ?_, fun {r} hr ho => ?_, fun _ y _ => .inr ?_,
    fun he => (hno he).elim⟩, fun {u thread} hu => ?_⟩
  · unfold Store.Refers Records.referents at hxy
    cases hr : start.store.records[x]? with
    | none =>
        rw [hr] at hxy
        cases hxy
    | some r =>
        rw [hr] at hxy
        exact hw r (Array.mem_of_getElem? hr) y hxy
  · obtain ⟨x, hx⟩ := List.mem_iff_getElem?.mp hr
    rw [Store.outlines_getElem?] at hx
    obtain ⟨old, hold, rfl⟩ := Option.map_eq_some_iff.mp hx
    have hfixed : old.origin = .tuple := ho
    rw [hf.fixed old (Array.mem_of_getElem? hold)] at hfixed
    cases hfixed
  · rw [Store.stageOf_of_none (hnone y)]
    decide
  · obtain ⟨hframes, p, s, hrun⟩ := hf.running thread (Array.mem_of_getElem? hu)
    exact .start hrun hframes

theorem Run.truthful (hf : start.Fresh) (hw : start.store.Whole)
    (h : Run lib (fun m _ => m.Lawful registry) start m) : m.Truthful registry := by
  induction h with
  | refl => exact hf.truthful hw registry
  | step t h hlaw hs ih => exact ih.step hs hlaw (h.reachable.owned hf)

/-- Everything one comes to from a record in the last stage is finished for
itself, and what it was stopped by last, if it has not been told otherwise, is
where it has to be. -/
theorem Run.transitively_complete (hf : start.Fresh) (hw : start.store.Whole)
    (h : Run lib (fun m _ => m.Lawful registry) start m) {x y : RecordId}
    (hx : m.store.stageOf registry x = .complete) (hxy : ReflTransGen m.store.Refers x y) :
    .nonTransitive ≤ m.store.stageOf registry y
      ∧ ∀ i e dep, m.store.entryOf? registry y = some i → m.store.entries[i]? = some e →
        e.blockedOn = some dep → ¬ m.store.Below registry dep := by
  have hc := (h.truthful hf hw).coherent
  have ho := h.reachable.owned hf
  have hstage := hc.stage_of_complete hx hxy
  refine ⟨hstage, fun i e dep hi he hb hbelow => ?_⟩
  rw [Store.stageOf_entry hi he (ho.sound he)] at hstage
  cases hr : e.record with
  | none =>
      rw [((ho.sound he).blank hr).2.1] at hb
      cases hb
  | some r =>
      obtain rfl := hc.sole.record_eq ho hi he hr
      -- what `y` owes lies behind `x` as well
      obtain ⟨hrequired, hpath⟩ := hc.owing he hr hstage hb
      have htarget : ReflTransGen m.store.Refers x dep.target :=
        hxy.trans (ReflTransGen.mono (fun _ _ hfirm => hfirm.2) _ _ hpath)
      have hthere := Nat.le_trans hrequired (hc.stage_of_complete hx htarget)
      unfold Store.Below at hbelow
      rw [Stage.satisfies_iff.mpr hthere] at hbelow
      cases hbelow

/-- A class whose superclass is made from the class itself. -/
def loop : Library Unit :=
  { bare with
    descriptors := #[
      { name := "Node"
        kind := .object
        parameters := 0
        fields := []
        layout := none
        words := []
        instantiate := some fun registry record =>
          .request registry (.poll .complete) (.generic 1 [record]) fun r =>
            .act (.setSuperclass record r.record) fun _ => .done ()
        completion := none },
      { name := "Box"
        kind := .struct
        parameters := 1
        fields := []
        layout := none
        words := []
        instantiate := none
        completion := none }] }

/-- The two refer to each other. When the class has come to the last stage its
superclass has not, and what it has been stopped by is the class. -/
theorem transitively_complete_loop :
    ∃ (start m : Machine Unit) (e : Entry), start.Fresh ∧ start.store.Whole
      ∧ Run loop (fun m _ => m.Lawful 0) start m ∧ m.store.stageOf 0 10 = .complete
      ∧ m.store.Refers 10 11 ∧ m.store.Refers 11 10
      ∧ m.store.stageOf 0 11 = .nonTransitive ∧ m.store.entryOf? 0 11 = some 1
      ∧ m.store.entries[1]? = some e ∧ e.blockedOn = some ⟨10, .nonTransitive⟩
      ∧ ¬ m.store.Below 0 ⟨10, .nonTransitive⟩ := by
  let start : Machine Unit := demanding
  have hwhole : start.store.Whole := by decide
  have hsteps : ∀ k < 15, (start.walk loop k).Lawful 0
      ∧ ((start.walk loop k).step loop 0).isSome = true := by
    decide +kernel
  have hrun : Run loop (fun m _ => m.Lawful 0) start (start.walk loop 15) := .walk hsteps
  have hstages : (start.walk loop 15).store.stageOf 0 10 = .complete
      ∧ (start.walk loop 15).store.stageOf 0 11 = .nonTransitive
      ∧ (start.walk loop 15).store.entryOf? 0 11 = some 1
      ∧ ((start.walk loop 15).store.entries[1]?).map (·.blockedOn)
        = some (some ⟨10, .nonTransitive⟩) := by
    decide +kernel
  have hrefers : (start.walk loop 15).store.records.referents 10 = [11]
      ∧ (start.walk loop 15).store.records.referents 11 = [10] := by
    decide +kernel
  obtain ⟨hclass, hsuper, hentry, hblocked⟩ := hstages
  obtain ⟨e, he, hb⟩ := Option.map_eq_some_iff.mp hblocked
  have hto : (start.walk loop 15).store.Refers 10 11 :=
    List.mem_of_mem_head? (congrArg List.head? hrefers.1)
  have hback : (start.walk loop 15).store.Refers 11 10 :=
    List.mem_of_mem_head? (congrArg List.head? hrefers.2)
  obtain ⟨-, hsettled⟩ :=
    Run.transitively_complete (fresh_launch _ () _) hwhole hrun hclass (.single hto)
  exact ⟨start, _, e, fresh_launch _ () _, hwhole, hrun, hclass, hto, hback, hsuper, hentry, he, hb,
    hsettled 1 e _ hentry he hb⟩

end Machine

end TypeRecords
