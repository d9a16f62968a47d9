/-
What a step of a thread can do to entries and to the holds on them.

`Turn.Shift` lists it, once and for all: a dozen cases, most of them one
operation of `Entry` each, with the guards under which the step takes that
case. That every step of a thread is one of them is shown in
`Ownership/Step.lean`; everything that is proved of all runs about entries,
queues and their owners is proved from the list, case by case, and does not
look at the machine again.

The results here are the first that come from the list: no shift gives an
entry a second holder (`Shift.owned`), and only `lose` takes the last one from
an unfinished entry (`Shift.unheld`, `Shift.held`).
-/
import TypeRecords.Machine.Step
import TypeRecords.Proofs.Ownership.Keeping

namespace TypeRecords

variable {σ : Type}

-- ====================================================== entry operations

namespace Entry

/-- A record that is known makes the entry no less sound. -/
theorem finishAllocation_sound {e : Entry} (h : e.Sound) (hr : e.record = none) (t : ThreadId)
    (record : RecordId) (stage : Stage) : (e.finishAllocation t record stage).Sound := by
  obtain ⟨-, hb, hs, hi⟩ := h.blank hr
  refine ⟨rfl, nofun, fun hc => ⟨hb, hs, ?_⟩⟩
  have hc' : stage = .complete := hc
  simp only [finishAllocation, hc', if_pos]
  exact hi

/-- Who finishes an allocation drives the entry from there, unless it is complete at once.
-/
theorem finishAllocation_driven {e : Entry} (h : e.Sound) (hr : e.record = none) (t : ThreadId)
    (a : Allocation) (hreg : e.registry = a.registry) {stage : Stage} (hu : stage ≠ .complete) :
    (e.finishAllocation t a.record stage).Driven t
      ⟨a.registry, a.entry, a.record, a.request, stage, .zero⟩ :=
  ⟨hreg, rfl, rfl, (h.blank hr).2.2.1, by simp [finishAllocation, hu]⟩

/-- Publishing never lowers the stage. -/
theorem publish_stage (e : Entry) (o : StepOutcome) :
    (e.publish o).1.stage = e.stage.later o.stage := rfl

/-- Publishing splits the queue into those who are let go and those who stay. -/
theorem publish_queue (e : Entry) (o : StepOutcome) :
    e.queue.Perm ((e.publish o).2 ++ (e.publish o).1.queue) := by
  unfold publish
  simp only [List.partition_eq_filter_filter]
  exact (List.filter_append_perm _ _).symm

/-- An unfinished entry is finished by publishing exactly the finished
outcomes. -/
theorem publish_complete_iff {e : Entry} {o : StepOutcome} (hu : e.stage ≠ .complete) :
    (e.publish o).1.stage = .complete ↔ o.stage = .complete := by
  rw [publish_stage]
  unfold Stage.later
  split
  · exact Iff.rfl
  · rename_i hlt
    refine ⟨fun h => absurd h hu, fun h => absurd ?_ hlt⟩
    rw [h]
    cases e.stage <;> decide

/-- What is being initialized has its record. -/
theorem Driven.recorded {e : Entry} {t : ThreadId} {d : Drive} (hd : e.Driven t d) :
    e.record ≠ none := by
  rw [hd.record]
  nofun

/-- An outcome that is complete just if nothing stopped it leaves the entry sound. -/
theorem publish_sound {e : Entry} {t : ThreadId} {d : Drive} {o : StepOutcome} (hd : e.Driven t d)
    (hu : e.stage ≠ .complete) (ho : o.stage = .complete ↔ o.dependency = none) :
    (e.publish o).1.Sound := by
  refine ⟨?_, fun hr => absurd hr hd.recorded, fun hc => ⟨?_, hd.saved, ?_⟩⟩
  · show some _ = Option.map _ e.record
    rw [hd.record]
    rfl
  · exact ho.mp ((publish_complete_iff hu).mp hc)
  · exact if_pos hc

/-- Who publishes an outcome goes on from the stage that is published. -/
theorem publish_driven {e : Entry} {t : ThreadId} {d : Drive} (hd : e.Driven t d)
    (hu : e.stage ≠ .complete) (o : StepOutcome) :
    (e.publish o).1.Driven t { d with stage := (e.publish o).1.stage } := by
  refine ⟨hd.registry, hd.record, rfl, hd.saved, ?_⟩
  show (if _ then _ else e.initializer) = _
  rw [hd.initializer, if_neg hu]
  rfl

/-- A suspended entry is as the thread believes that has left it. -/
theorem suspend_left {e : Entry} {t : ThreadId} {d : Drive} {dep : Dependency}
    (hd : e.Driven t d) (hu : e.stage ≠ .complete) (hb : e.blockedOn = some dep) :
    (e.suspend d.scratch).Left d dep :=
  ⟨hd.registry, hd.record, hd.stage, hu, rfl, rfl, hb⟩

/-- Only an unfinished entry is suspended, and it stays sound. -/
theorem suspend_sound {e : Entry} {t : ThreadId} {d : Drive} (h : e.Sound) (hd : e.Driven t d)
    (hu : e.stage ≠ .complete) : (e.suspend d.scratch).Sound :=
  ⟨h.published, fun hr => absurd hr hd.recorded, fun hc => absurd hc hu⟩

/-- Who takes an entry up gets the words that were saved, and nobody else can. -/
theorem reclaim?_some {e taken : Entry} {t : ThreadId} {scratch : Scratch}
    (h : e.reclaim? t = some (taken, scratch)) :
    e.saved = some scratch ∧ taken = { e with saved := none, initializer := some t } := by
  unfold reclaim? at h
  split at h
  · cases h
  · cases h
    exact ⟨by assumption, rfl⟩

/-- What is taken up again is as sound as it was. -/
theorem reclaim?_sound {e taken : Entry} {t : ThreadId} {scratch : Scratch} (h : e.Sound)
    (hu : e.stage ≠ .complete) (hr : e.record.isSome)
    (ht : e.reclaim? t = some (taken, scratch)) : taken.Sound := by
  obtain ⟨-, rfl⟩ := reclaim?_some ht
  refine ⟨h.published, fun hn => ?_, fun hc => absurd hc hu⟩
  have hn' : e.record = none := hn
  rw [hn'] at hr
  cases hr

/-- Who takes an entry up drives it. -/
theorem reclaim?_driven {e taken : Entry} {t : ThreadId} {scratch : Scratch} {d : Drive}
    (hreg : e.registry = d.registry) (hr : e.record = some d.record) (hs : e.stage = d.stage)
    (hu : e.stage ≠ .complete) (ht : e.reclaim? t = some (taken, scratch)) : taken.Driven t d := by
  obtain ⟨-, rfl⟩ := reclaim?_some ht
  exact ⟨hreg, hr, hs, rfl, by simp [hu]⟩

end Entry

-- ====================================================== the list

/-- How a thread's hold goes on while no entry changes. -/
inductive Hold.Proceeds : Hold → Hold → Prop
  /-- A step has come to its outcome. -/
  | conclude {t : ThreadId} {d : Drive} {o : StepOutcome} (words : Scratch)
      (ho : o.stage = .complete ↔ o.dependency = none) :
      Proceeds (.active t d) (.concluding t { d with scratch := words } o)
  /-- The next step begins. -/
  | again {t : ThreadId} {d : Drive} {dep : Option Dependency} (hu : d.stage ≠ .complete) :
      Proceeds (.stopping t d dep) (.active t d)

/-- Where nothing may be lost: a thread that neither unwinds nor is about to. -/
def Control.disturbed : Control σ → Bool
  | .unwind _ => true
  | .report .. => true
  | _ => false

/-- What a step of thread `a` can do to entries and holds. -/
inductive Turn.Shift (lib : Library σ) (a : Actor) (t t' : Turn σ) : Prop
  /-- Nothing. -/
  | quiet (ha : t.store.Alike t'.store) (hh : (t'.holds a.id).Perm (t.holds a.id))
  /-- Holds are lost because something unwinds. -/
  | lose {lost : List Hold} (hd : t.control.disturbed ∨ t'.control.disturbed)
      (ha : t.store.Alike t'.store) (hh : (t.holds a.id).Perm (lost ++ t'.holds a.id))
  /-- One hold goes on. -/
  | proceed {h h' : Hold} {rest : List Hold} (hp : h.Proceeds h') (ha : t.store.Alike t'.store)
      (hh : (t.holds a.id).Perm (h :: rest)) (hh' : (t'.holds a.id).Perm (h' :: rest))
  /-- An entry is made for a key that has none. -/
  | create {registry : RegistryId} {q : Request} {c : Call} {k : Response → Program σ Value}
      {set : Setting σ} {key : Key} (hc : t.control = .run (.request registry q c k) set)
      (hf : t.store.find? registry key = none)
      (he : t'.store.entries = t.store.entries.push { registry, key })
      (hk : t'.store.keys = t.store.keys ++ [some key])
      (hh : (t'.holds a.id).Perm
        (.fresh ⟨registry, t.store.entries.size, t.store.records.size, q⟩ :: t.holds a.id))
  /-- The allocation of a record is finished. -/
  | allocate {al : Allocation} {stage : Stage} {rest : List Hold}
      (hc : t.control = .allocated al) (hs : (firstStage lib t.store al.record).2 = stage)
      (he : t'.store.entries
        = t.store.entries.modify al.entry (·.finishAllocation a.id al.record stage))
      (hk : t'.store.keys = t.store.keys) (hh : t.holds a.id = .fresh al :: rest)
      (hh' : t'.holds a.id
        = (if stage = .complete then []
          else [.active a.id ⟨al.registry, al.entry, al.record, al.request, stage, .zero⟩])
          ++ rest)
  /-- The outcome of a step is published. -/
  | publish {d : Drive} {o : StepOutcome} {e : Entry} {rest : List Hold}
      (hc : t.control = .publish d o) (hi : t.store.entries[d.entry]? = some e)
      (he : t'.store.entries = t.store.entries.modify d.entry fun _ => (e.publish o).1)
      (hk : t'.store.keys = t.store.keys) (hh : t.holds a.id = .concluding a.id d o :: rest)
      (hh' : t'.holds a.id
        = (.stopping a.id { d with stage := (e.publish o).1.stage } o.dependency
          :: (e.publish o).2.map (.ready d.registry)) ++ rest)
  /-- A waiter that was let go is taken up. -/
  | resume {d : Drive} {dep : Option Dependency} {w : Waiter} {ready : List Waiter}
      {e taken : Entry} {record : RecordId} {scratch : Scratch} {rest : List Hold}
      (hc : t.control = .release d dep (w :: ready)) (hi : t.store.entries[w.entry]? = some e)
      (hr : e.record = some record) (ht : e.reclaim? a.id = some (taken, scratch))
      (he : t'.store.entries = t.store.entries.modify w.entry fun _ => taken)
      (hk : t'.store.keys = t.store.keys)
      (hh : (t.holds a.id).Perm (.ready d.registry w :: rest))
      (hh' : t'.holds a.id = .active a.id ⟨d.registry, w.entry, record, .poll .complete,
        e.published.getD .abstract, scratch⟩ :: rest)
  /-- A waiter that was let go is no longer parked. -/
  | forget {d : Drive} {dep : Option Dependency} {w : Waiter} {ready : List Waiter}
      (hc : t.control = .release d dep (w :: ready))
      (hn : ∀ e, t.store.entries[w.entry]? = some e → e.record = none ∨ e.saved = none)
      (ha : t.store.Alike t'.store)
      (hh : (t.holds a.id).Perm (.ready d.registry w :: t'.holds a.id))
  /-- The initialization is over. -/
  | finish {d : Drive} (hc : t.control = .release d none []) (hs : d.stage = .complete)
      (ha : t.store.Alike t'.store) (hh : t.holds a.id = .stopping a.id d none :: t'.holds a.id)
  /-- The initialization is suspended, after its chain of dependencies was found
  not to close. -/
  | suspend {d : Drive} {dep : Dependency} {rest : List Hold} (hc : t.control = .stopped d dep)
      (hcy : t.store.cycle? d.registry d.record dep = none)
      (hw : ¬ (d.request.waits ∧ ¬ d.request.satisfiedBy d.stage))
      (he : t'.store.entries = t.store.entries.modify d.entry (·.suspend d.scratch))
      (hk : t'.store.keys = t.store.keys) (hc' : t'.control = .enqueue d dep)
      (hh : t.holds a.id = .stopping a.id d (some dep) :: rest)
      (hh' : t'.holds a.id = .leaving d dep :: rest)
  /-- A suspended initialization is queued. -/
  | park {d : Drive} {dep : Dependency} {queue : EntryId} {e : Entry}
      (hc : t.control = .enqueue d dep)
      (hq : t.store.entryOf? d.registry dep.target = some queue)
      (hi : t.store.entries[queue]? = some e) (hu : e.satisfies dep.required = false)
      (he : t'.store.entries = t.store.entries.modify queue fun _ =>
        { e with queue := e.queue ++ [⟨dep.required, d.entry⟩] })
      (hk : t'.store.keys = t.store.keys)
      (hh : t.holds a.id = .leaving d dep :: t'.holds a.id)
  /-- A suspended initialization need not be queued. -/
  | reclaim {d : Drive} {dep : Dependency} {own taken : Entry} {scratch : Scratch}
      {rest : List Hold} (hc : t.control = .enqueue d dep)
      (hi : t.store.entries[d.entry]? = some own)
      (ht : own.reclaim? a.id = some (taken, scratch))
      (he : t'.store.entries = t.store.entries.modify d.entry fun _ => taken)
      (hk : t'.store.keys = t.store.keys) (hh : t.holds a.id = .leaving d dep :: rest)
      (hh' : t'.holds a.id = .active a.id { d with scratch := scratch } :: rest)
  /-- A suspended initialization is not suspended any more. -/
  | strand {d : Drive} {dep : Dependency} {own : Entry} (hc : t.control = .enqueue d dep)
      (hi : t.store.entries[d.entry]? = some own) (hs : own.saved = none)
      (ha : t.store.Alike t'.store) (hh : t.holds a.id = .leaving d dep :: t'.holds a.id)

-- ====================================================== one holder at most

namespace Turn.Shift

variable {lib : Library σ} {a : Actor} {t t' : Turn σ} {others : List Hold}

/-- A hold that goes on suits its entry as before. -/
private theorem proceeds_suits {s : Store} {h h' : Hold} {e : Entry} (hp : h.Proceeds h')
    (hs : h.Suits s e) : h'.entry = h.entry ∧ h'.Suits s e := by
  cases hp with
  | conclude words ho =>
      exact ⟨rfl, ⟨hs.1.1, hs.1.2, hs.1.3, hs.1.4, hs.1.5⟩, hs.2, ho⟩
  | again hu =>
      exact ⟨rfl, hs.1, by rw [hs.1.stage]; exact hu⟩

/-- A waiter that a publication lets go is in the hands of the thread. -/
private theorem ready_fits {s s' : Store} {H : List Hold} {d : Drive} {o : StepOutcome} {e : Entry}
    (ho : s.Owned (.concluding a.id d o :: H)) (hi : s.entries[d.entry]? = some e)
    (hreg : e.registry = d.registry)
    (he : s'.entries = s.entries.modify d.entry fun _ => (e.publish o).1) {w : Waiter}
    (hw : w ∈ (e.publish o).2) : (Hold.ready d.registry w).Fits s' := by
  have hwe : w ∈ e.queue := (e.publish_queue o).mem_iff.mpr (List.mem_append_left _ hw)
  obtain ⟨x, target, hx, hp, -, ht⟩ := ho.parked hi hwe
  obtain ⟨y, hy, hyreg, -⟩ := Store.entryOf?_some ht
  obtain rfl := Option.some.inj (hi.symm.trans hy)
  have hne : d.entry ≠ w.entry := fun heq => by
    have hnot := ho.waiting_ne List.mem_cons_self
    rw [Hold.entry_concluding, heq] at hnot
    exact hnot (Store.mem_waiting hi hwe)
  refine ⟨x, ?_, hyreg.symm.trans hreg, hp⟩
  rw [he, Store.getElem?_modify_entry hi rfl, Hold.entry_ready, if_neg hne]
  exact hx

/-- No step gives an entry a second holder, or makes a holder wrong about its
entry. -/
theorem owned (h : Shift lib a t t') (ho : t.store.Owned (t.holds a.id ++ others)) :
    t'.store.Owned (t'.holds a.id ++ others) := by
  cases h with
  | quiet ha hh =>
      refine ho.alike ha (fun h hm => .inl ?_) fun i => ?_
      · exact ((hh.append_right others).mem_iff.mp hm)
      · exact Nat.le_of_eq (((hh.append_right others).map _).count_eq _)
  | @lose lost hd ha hh =>
      have ho' := ho.perm (hh.append_right others).symm
      rw [List.append_assoc] at ho'
      refine ho'.alike ha (fun h hm => .inl (List.mem_append_right _ hm)) fun i => ?_
      simp only [List.map_append, List.count_append]
      omega
  | @proceed h h' rest hp ha hh hh' =>
      have ho₁ := ho.perm (hh.append_right others).symm
      obtain ⟨e, he, hs⟩ := ho₁.fits List.mem_cons_self
      obtain ⟨hentry, hsuits⟩ := proceeds_suits hp hs
      have ho₂ : t'.store.Owned (h' :: (rest ++ others)) := by
        refine ho₁.alike ha (fun g hg => ?_) fun i => ?_
        · rcases List.mem_cons.mp hg with rfl | hg
          · exact .inr ⟨e, hentry ▸ he, hsuits⟩
          · exact .inl (List.mem_cons_of_mem _ hg)
        · simp only [List.cons_append, List.map_cons, hentry]
          exact Nat.le_refl _
      exact ho₂.perm (hh'.append_right others)
  | create hc hf he hk hh =>
      exact (ho.create hf he hk).perm (hh.append_right others)
  | @allocate al stage rest hc hs he hk hh hh' =>
      rw [hh] at ho
      obtain ⟨e, hi, hreg, hrec, hkey⟩ := ho.fits List.mem_cons_self
      rw [hh', List.append_assoc]
      refine ho.update [] hi rfl he hk ⟨rfl, rfl⟩
        (Entry.finishAllocation_sound (ho.sound hi) hrec _ _ _)
        (fun r hr => ?_) (List.Perm.refl _) (fun g hg => ?_) fun i => ?_
      · obtain rfl := Option.some.inj hr
        exact hkey
      · split at hg
        · cases hg
        · rename_i hu
          obtain rfl := List.mem_singleton.mp hg
          exact ⟨_, Store.getElem?_modify_self (i := al.entry) hi he,
            Entry.finishAllocation_driven (ho.sound hi) hrec a.id al hreg hu, hu⟩
      · split <;> simp
  | @publish d o e rest hc hi he hk hh hh' =>
      rw [hh] at ho
      obtain ⟨hd, hu, hout⟩ := ho.suits List.mem_cons_self hi
      rw [hh', List.append_assoc]
      refine ho.update (e.publish o).2 hi rfl he hk ⟨rfl, rfl⟩
        (Entry.publish_sound hd hu hout) (fun r hr => ho.keyed hi hr) (e.publish_queue o)
        (fun g hg => ?_) fun i => ?_
      · rcases List.mem_cons.mp hg with rfl | hg
        · exact ⟨_, Store.getElem?_modify_self (i := d.entry) hi he, Entry.publish_driven hd hu o,
            rfl, (Entry.publish_complete_iff hu).trans hout⟩
        · obtain ⟨w, hw, rfl⟩ := List.mem_map.mp hg
          exact ready_fits ho hi hd.registry he hw
      · simp [Function.comp_def]
  | @resume d dep w ready e taken record scratch rest hc hi hr ht he hk hh hh' =>
      have ho₁ := ho.perm (hh.append_right others).symm
      obtain ⟨hreg, hp⟩ := ho₁.suits List.mem_cons_self hi
      obtain ⟨-, rfl⟩ := Entry.reclaim?_some ht
      rw [hh']
      refine ho₁.update (G := [_]) [] hi rfl he hk ⟨rfl, rfl⟩
        (Entry.reclaim?_sound (ho₁.sound hi) hp.unfinished hp.record ht)
        (fun r hr' => ho₁.keyed hi hr') (List.Perm.refl _) (fun g hg => ?_) fun i => by simp
      obtain rfl := List.mem_singleton.mp hg
      have hstage : e.stage = e.published.getD .abstract := by
        rw [(ho₁.sound hi).published, hr]
        rfl
      exact ⟨_, Store.getElem?_modify_self (i := w.entry) hi he,
        Entry.reclaim?_driven hreg hr hstage hp.unfinished ht, hp.unfinished⟩
  | forget hc hn ha hh =>
      have ho₁ := ho.perm (hh.append_right others).symm
      exact ho₁.drop ha
  | finish hc hs ha hh =>
      rw [hh] at ho
      exact ho.drop ha
  | @suspend d dep rest hc hcy hw he hk hc' hh hh' =>
      rw [hh] at ho
      obtain ⟨e, hi, hd, hb, hfin⟩ := ho.fits List.mem_cons_self
      have hu : e.stage ≠ .complete := fun hcomp => by cases hfin.mp hcomp
      rw [hh']
      refine ho.update (G := [_]) [] hi rfl he hk ⟨rfl, rfl⟩
        (Entry.suspend_sound (ho.sound hi) hd hu) (fun r hr => ho.keyed hi hr)
        (List.Perm.refl _) (fun g hg => ?_) fun i => by simp
      obtain rfl := List.mem_singleton.mp hg
      exact ⟨_, Store.getElem?_modify_self (i := d.entry) hi he, Entry.suspend_left hd hu hb⟩
  | park hc hq hi hu he hk hh =>
      rw [hh] at ho
      exact ho.park hi hq he hk
  | @reclaim d dep own taken scratch rest hc hi ht he hk hh hh' =>
      rw [hh] at ho
      have hl := ho.suits List.mem_cons_self hi
      obtain ⟨-, rfl⟩ := Entry.reclaim?_some ht
      have hp := hl.parked
      rw [hh']
      refine ho.update (G := [_]) [] hi rfl he hk ⟨rfl, rfl⟩
        (Entry.reclaim?_sound (ho.sound hi) hp.unfinished hp.record ht)
        (fun r hr' => ho.keyed hi hr') (List.Perm.refl _) (fun g hg => ?_) fun i => by simp
      obtain rfl := List.mem_singleton.mp hg
      exact ⟨_, Store.getElem?_modify_self (i := d.entry) hi he,
        Entry.reclaim?_driven hl.registry hl.record hl.stage hp.unfinished ht, hp.unfinished⟩
  | strand hc hi hs ha hh =>
      rw [hh] at ho
      exact ho.drop ha

-- ====================================================== no entry left alone

/-- When an entry changes and holders are only moved, whatever has no holder
afterwards is finished, or it is another entry that had none before. -/
private theorem unheld_update {s s' : Store} {h : Hold} {G H : List Hold} {e e' x : Entry}
    {f : Entry → Entry} {i : EntryId} (out : List Waiter) (he : s.entries[h.entry]? = some e)
    (hf : f e = e') (hs : s'.entries = s.entries.modify h.entry f)
    (hq : e.queue.Perm (out ++ e'.queue))
    (hc : (e'.stage = .complete → i ≠ h.entry) →
      (h.entry :: out.map (·.entry)).count i ≤ (G.map (·.entry)).count i)
    (hi : s'.entries[i]? = some x) (h0 : s'.holders (G ++ H) i = 0) :
    x.stage = .complete ∨ s.entries[i]? = some x ∧ s.holders (h :: H) i = 0 := by
  rw [hs, Store.getElem?_modify_entry he hf] at hi
  have hsum := Store.holders_update (G := G) (H := H) he hf hs hq i
  have hG := Store.holders_append (s := s') (H := H) G i
  by_cases heq : h.entry = i
  · subst heq
    rw [if_pos rfl] at hi
    obtain rfl := Option.some.inj hi
    by_cases hcomp : e'.stage = .complete
    · exact .inl hcomp
    · have hmoved := hc fun hcomp' => absurd hcomp' hcomp
      rw [List.count_cons_self] at hmoved
      omega
  · rw [if_neg heq] at hi
    have hmoved := hc fun _ => Ne.symm heq
    exact .inr ⟨hi, by omega⟩

/-- How an entry comes to be without a holder. -/
inductive Unheld (a : Actor) (t t' : Turn σ) (others : List Hold) (i : EntryId) (e' : Entry) : Prop
  | finished (h : e'.stage = .complete)
  /-- It had none before. -/
  | before {e : Entry} (he : t.store.entries[i]? = some e) (hst : e'.stage = e.stage)
      (hsa : e'.saved = e.saved) (hn : t.store.holders (t.holds a.id ++ others) i = 0)
  /-- It has lost it because something unwinds. -/
  | lost {g : Hold} (he : t.store.entries[i]? = some e')
      (hd : t.control.disturbed ∨ t'.control.disturbed) (hg : g ∈ t.holds a.id) (hi : g.entry = i)

/-- These are the ways in which an entry comes to be without a holder. -/
theorem unheld (h : Shift lib a t t') (ho : t.store.Owned (t.holds a.id ++ others)) {i : EntryId}
    {e' : Entry} (hi : t'.store.entries[i]? = some e')
    (h0 : t'.store.holders (t'.holds a.id ++ others) i = 0) : Unheld a t t' others i e' := by
  cases h with
  | quiet ha hh =>
      rw [ha.holders, Store.holders_perm (hh.append_right others)] at h0
      exact .before (ha.entries ▸ hi) rfl rfl h0
  | @lose lost hd ha hh =>
      by_cases hlost : i ∈ lost.map (·.entry)
      · obtain ⟨g, hg, hgi⟩ := List.mem_map.mp hlost
        exact .lost (ha.entries ▸ hi) hd (hh.mem_iff.mpr (List.mem_append_left _ hg)) hgi
      · refine .before (ha.entries ▸ hi) rfl rfl ?_
        rw [Store.holders_perm (hh.append_right others), List.append_assoc, Store.holders_append,
          List.count_eq_zero.mpr hlost, Nat.zero_add, ← ha.holders]
        exact h0
  | @proceed h h' rest hp ha hh hh' =>
      have ho₁ := ho.perm (hh.append_right others).symm
      obtain ⟨e, -, hs⟩ := ho₁.fits List.mem_cons_self
      obtain ⟨hentry, -⟩ := proceeds_suits hp hs
      refine .before (ha.entries ▸ hi) rfl rfl ?_
      rw [ha.holders, Store.holders_perm (hh'.append_right others), List.cons_append,
        Store.holders_cons, hentry, ← Store.holders_cons] at h0
      rw [Store.holders_perm (hh.append_right others)]
      exact h0
  | create hc hf he hk hh =>
      rw [Store.holders_perm (hh.append_right others), List.cons_append,
        Store.holders_create he] at h0
      rw [he, Array.getElem?_push] at hi
      split at hi
      · rename_i heq
        rw [if_pos heq.symm] at h0
        cases h0
      · exact .before hi rfl rfl (by omega)
  | @allocate al stage rest hc hs he hk hh hh' =>
      rw [hh] at ho
      obtain ⟨e, hie, -⟩ := ho.fits List.mem_cons_self
      rw [hh', List.append_assoc] at h0
      have hmoved : (stage = .complete → i ≠ al.entry) → (al.entry :: [].map Waiter.entry).count i
          ≤ ((if stage = .complete then [] else [Hold.active a.id
            ⟨al.registry, al.entry, al.record, al.request, stage, .zero⟩]).map (·.entry)).count i := by
        intro hne
        by_cases hstage : stage = .complete
        · have hne' : al.entry ≠ i := fun heq => hne hstage heq.symm
          simp [hstage, hne']
        · simp [hstage]
      rcases unheld_update [] hie rfl he (List.Perm.refl _) hmoved hi h0 with hcomp | ⟨hsame, hn⟩
      · exact .finished hcomp
      · exact .before hsame rfl rfl (by rw [hh]; exact hn)
  | @publish d o e rest hc hie he hk hh hh' =>
      rw [hh', List.append_assoc] at h0
      rcases unheld_update (h := .concluding a.id d o) (e.publish o).2 hie rfl he
        (e.publish_queue o) (fun _ => by simp [Function.comp_def]) hi h0 with hcomp | ⟨hsame, hn⟩
      · exact .finished hcomp
      · exact .before hsame rfl rfl (by rw [hh]; exact hn)
  | @resume d dep w ready e taken record scratch rest hc hie hr ht he hk hh hh' =>
      obtain ⟨-, rfl⟩ := Entry.reclaim?_some ht
      rw [hh'] at h0
      rcases unheld_update (h := .ready d.registry w) (G := [_]) [] hie rfl he (List.Perm.refl _)
        (fun _ => by simp) hi h0 with hcomp | ⟨hsame, hn⟩
      · exact .finished hcomp
      · exact .before hsame rfl rfl (by rw [Store.holders_perm (hh.append_right others)]; exact hn)
  | forget hc hn ha hh => exact ((ho.perm (hh.append_right others).symm).not_forgotten hn).elim
  | @finish d hc hs ha hh =>
      rw [hh] at ho
      obtain ⟨e, hie, hd, -⟩ := ho.fits List.mem_cons_self
      have hi' : t.store.entries[i]? = some e' := ha.entries ▸ hi
      by_cases heq : d.entry = i
      · subst heq
        obtain rfl := Option.some.inj (hie.symm.trans hi')
        exact .finished (hd.stage.trans hs)
      · refine .before hi' rfl rfl ?_
        rw [hh, List.cons_append, Store.holders_cons, Hold.entry_stopping, if_neg heq,
          ← ha.holders]
        exact h0
  | @suspend d dep rest hc hcy hw he hk hc' hh hh' =>
      rw [hh] at ho
      obtain ⟨e, hie, -⟩ := ho.fits List.mem_cons_self
      rw [hh'] at h0
      rcases unheld_update (G := [_]) [] hie rfl he (List.Perm.refl _) (fun _ => by simp) hi h0
        with hcomp | ⟨hsame, hn⟩
      · exact .finished hcomp
      · exact .before hsame rfl rfl (by rw [hh]; exact hn)
  | @park d dep queue e hc hq hie hu he hk hh =>
      rw [Store.holders_park hie he] at h0
      rw [he, Store.getElem?_modify_entry hie rfl] at hi
      have hn : t.store.holders (t.holds a.id ++ others) i = 0 := by
        rw [hh]
        exact h0
      split at hi
      · rename_i heq
        subst heq
        obtain rfl := Option.some.inj hi
        exact .before hie rfl rfl hn
      · exact .before hi rfl rfl hn
  | @reclaim d dep own taken scratch rest hc hie ht he hk hh hh' =>
      obtain ⟨-, rfl⟩ := Entry.reclaim?_some ht
      rw [hh'] at h0
      rcases unheld_update (h := .leaving d dep) (G := [_]) [] hie rfl he (List.Perm.refl _)
        (fun _ => by simp) hi h0 with hcomp | ⟨hsame, hn⟩
      · exact .finished hcomp
      · exact .before hsame rfl rfl (by rw [hh]; exact hn)
  | strand hc hie hs ha hh =>
      rw [hh] at ho
      exact (ho.not_stranded hie hs).elim

/-- As long as nothing unwinds, no step leaves an unfinished entry without a
holder. -/
theorem held (h : Shift lib a t t') (hcalm : t.control.disturbed = false)
    (hcalm' : t'.control.disturbed = false) (ho : t.store.Owned (t.holds a.id ++ others))
    (hheld : t.store.Held (t.holds a.id ++ others)) :
    t'.store.Held (t'.holds a.id ++ others) := by
  intro i e' hi hu
  by_cases h0 : t'.store.holders (t'.holds a.id ++ others) i = 0
  · cases h.unheld ho hi h0 with
    | finished hcomp => exact (hu hcomp).elim
    | before he hst hsa hn =>
        have := hheld i _ he (hst ▸ hu)
        omega
    | lost he hd hg hgi => simp [hcalm, hcalm'] at hd
  · exact Nat.pos_of_ne_zero h0

end Turn.Shift

end TypeRecords
