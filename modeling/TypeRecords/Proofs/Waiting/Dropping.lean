/-
What unwinding loses.

A publication takes the waiters it lets go off the queue and keeps them in a
frame while it takes them up one after the other. When a fault unwinds through
that frame, those that are still to come are in nobody's hands: they are on no
queue, and no thread will take them up. This is the only way in which a parked
initialization is ever lost (`Turn.parking_kept`); whatever else unwinds, at
any point and any number of times, whoever is parked stays parked in one place.

It is also for good. A hold that was dropped can be put back beside those of
the threads without anything being held twice, and it stays right about its
entry as any other hold does; so nobody else ever comes to hold the entry.
-/
import TypeRecords.Proofs.Ownership.Single
import TypeRecords.Proofs.Process.Frames
import TypeRecords.Proofs.Waiting.Quiescence

namespace TypeRecords

variable {σ : Type}

-- ====================================================== parked in someone's hands

/-- Whoever holds an entry that has something saved keeps it parked. -/
theorem Hold.Suits.parks_of_saved {s : Store} {h : Hold} {e : Entry} (hs : h.Suits s e)
    (hsound : e.Sound) (hsaved : e.saved.isSome) : h.parks = true := by
  have hno : e.saved ≠ none := fun hn => by
    rw [hn] at hsaved
    cases hsaved
  cases h with
  | fresh a => exact (hno (hsound.blank hs.2.1).2.2.1).elim
  | active t d => exact (hno hs.1.saved).elim
  | concluding t d o => exact (hno hs.1.saved).elim
  | stopping t d dep => exact (hno hs.1.saved).elim
  | leaving d dep => rfl
  | ready registry w => rfl

/-- Something can only be saved once the record is there, and while it is not
finished. -/
theorem Entry.Sound.of_saved {e : Entry} (hs : e.Sound) (hsaved : e.saved.isSome) :
    e.record.isSome ∧ e.stage ≠ .complete := by
  constructor
  · cases hr : e.record with
    | none =>
        rw [(hs.blank hr).2.2.1] at hsaved
        cases hsaved
    | some record => rfl
  · intro hc
    rw [(hs.ended hc).2.1] at hsaved
    cases hsaved

namespace Turn

variable {lib : Library σ} {a : Actor} {t t' : Turn σ}

/-- The entries whose waiters the next step drops: it unwinds out of taking up
another one that was let go together with them. -/
def drops (t : Turn σ) : List EntryId :=
  match t.control, t.frames with
  | .unwind _, .releasing _ _ rest :: _ => rest.map (·.entry)
  | _, _ => []

theorem drops_of_unwind {f : Failure} {d : Drive} {dep : Option Dependency} {rest : List Waiter}
    {below : List (Frame σ)} (hc : t.control = .unwind f)
    (hf : t.frames = .releasing d dep rest :: below) : t.drops = rest.map (·.entry) := by
  unfold drops
  rw [hc, hf]

theorem of_mem_drops {i : EntryId} (h : i ∈ t.drops) :
    ∃ f d dep rest below w, t.control = .unwind f ∧ t.frames = .releasing d dep rest :: below
      ∧ w ∈ rest ∧ w.entry = i := by
  unfold drops at h
  split at h
  · rename_i f d dep rest below hc hf
    obtain ⟨w, hw, hi⟩ := List.mem_map.mp h
    exact ⟨f, d, dep, rest, below, w, hc, hf, hw, hi⟩
  · cases h

theorem release_calm {d : Drive} {dep : Option Dependency} {ready : List Waiter}
    (h : Released t a d dep ready t') : t'.control.disturbed = false := by
  cases h <;> rfl

theorem enqueue_calm {d : Drive} {dep : Dependency} (h : Enqueued t a d dep t') :
    t'.control.disturbed = false := by
  cases h <;> rfl

/-- While something unwinds, or is about to, whoever is parked in the hands of
the thread stays there, unless he is dropped. -/
theorem parking_kept (h : t.step lib a = some t') (hd : t.control.disturbed ∨ t'.control.disturbed)
    {g : Hold} (hg : g ∈ t.holds a.id) (hp : g.parks = true) :
    g ∈ t'.holds a.id ∨ g.entry ∈ t.drops := by
  have hcalm' : ¬ (t.control.disturbed = false ∧ t'.control.disturbed = false) := by
    rintro ⟨hc, hc'⟩
    simp [hc, hc'] at hd
  rcases List.mem_append.mp hg with hcontrol | hframes
  · -- only these two hold something parked, and neither fails
    refine (hcalm' ?_).elim
    cases hc : t.control <;> rw [hc] at hcontrol <;>
      simp only [Control.holds, List.mem_cons, List.not_mem_nil, or_false] at hcontrol
    case release d dep ready => exact ⟨rfl, release_calm (step_release hc h)⟩
    case enqueue d dep => exact ⟨rfl, enqueue_calm (step_enqueue hc h)⟩
    all_goals
      subst hcontrol
      cases hp
  · obtain ⟨f, hf, hm⟩ := List.mem_flatMap.mp hframes
    obtain ⟨d, dep, rest, w, hw, rfl, rfl⟩ : ∃ d dep rest w, w ∈ rest ∧ f = .releasing d dep rest
        ∧ g = .ready d.registry w := by
      cases f <;> simp only [Frame.holds, List.mem_cons, List.mem_map, List.not_mem_nil,
        or_false] at hm
      case releasing d dep rest =>
        rcases hm with rfl | ⟨w, hw, rfl⟩
        · cases hp
        · exact ⟨d, dep, rest, w, hw, rfl, rfl⟩
      all_goals
        subst hm
        cases hp
    have hstays : .releasing d dep rest ∈ t'.frames →
        Hold.ready d.registry w ∈ t'.holds a.id := fun hf' => mem_holds_of_frame hf' hm
    cases step_stacks h with
    | same hfs => exact .inl (hstays (hfs ▸ hf))
    | opened fs hfs hopens htail => exact .inl (hstays (hfs ▸ List.mem_append_right _ hf))
    | @drop top hfs hc =>
        rw [hfs] at hf
        rcases List.mem_cons.mp hf with rfl | hbelow
        · rcases hc with ⟨v, left, hc⟩ | ⟨e, hc⟩
          · -- the resumption is over, and the thread turns to the next one
            unfold step give at h
            rw [hc, hfs] at h
            refine (hcalm' ⟨by rw [hc]; rfl, ?_⟩).elim
            rw [← Option.some.inj h]
            rfl
          · refine .inr ?_
            rw [drops_of_unwind hc hfs]
            exact List.mem_map.mpr ⟨w, hw, rfl⟩
        · exact .inl (hstays hbelow)

end Turn

-- ====================================================== in a process

namespace Machine

variable {lib : Library σ} {start m m' m'' : Machine σ} {t : ThreadId} {i : EntryId} {e : Entry}

/-- The entries whose waiters are dropped if thread `t` goes next. -/
def dropped (m : Machine σ) (t : ThreadId) : List EntryId :=
  match m.threads[t]? with
  | some thread => (m.turn thread).drops
  | none => []

theorem mem_dropped {thread : Thread σ} (ht : m.threads[t]? = some thread) :
    i ∈ m.dropped t ↔ i ∈ (m.turn thread).drops := by
  unfold dropped
  rw [ht]

/-- Whatever is saved for the entry, someone keeps it. -/
def Minds (m : Machine σ) (i : EntryId) : Prop :=
  ∀ e, m.store.entries[i]? = some e → e.saved.isSome → 1 ≤ m.store.holders m.holds i

/-- An entry that is parked is lost only by being dropped. -/
theorem Minds.step (hm : m.Minds i) (ho : m.store.Owned m.holds) (h : m.step lib t = some m')
    (hkept : i ∉ m.dropped t) : m'.Minds i := by
  obtain ⟨-, thread, hthread, hs⟩ := step_cases h
  cases hs with
  | program p' started hc hp hs ht hnew =>
      intro e he hsaved
      rw [hs] at he ⊢
      rw [Store.holders_perm (holds_program hthread hc ht hnew)]
      exact hm e he hsaved
  | @alone turn hturn =>
      intro e he hsaved
      refine Nat.pos_of_ne_zero fun h0 => ?_
      have howned := ho.perm (holds_split hthread).symm
      have hsound : e.Sound := (step_owned h ho).sound he
      rw [Store.holders_perm (holds_after hthread turn)] at h0
      cases (Turn.step_shift hturn).unheld howned he h0 with
      | finished hcomp => exact (hsound.of_saved hsaved).2 hcomp
      | before hbefore hst hsa hnone =>
          have hpos := hm _ hbefore (hsa ▸ hsaved)
          rw [Store.holders_perm (holds_split hthread)] at hpos
          exact absurd hnone (Nat.ne_of_gt hpos)
      | @lost g hbefore hd hg hgi =>
          subst hgi
          have hsuits := howned.suits (List.mem_append_left _ hg) hbefore
          rcases Turn.parking_kept hturn hd hg (hsuits.parks_of_saved hsound hsaved)
            with hstays | hdropped
          · have hpos := Store.holders_pos_of_mem (s := turn.store)
              (List.mem_append_left (m.othersHold t) hstays)
            exact absurd h0 (Nat.ne_of_gt hpos)
          · exact hkept ((mem_dropped hthread).mpr hdropped)

/-- Whoever is dropped may as well be held by nobody. -/
theorem owned_of_dropped (ho : m.store.Owned m.holds) (hd : i ∈ m.dropped t)
    (h : m.step lib t = some m') :
    ∃ registry w, w.entry = i ∧ m'.store.Owned (m'.holds ++ [.ready registry w]) := by
  obtain ⟨-, thread, hthread, hs⟩ := step_cases h
  obtain ⟨f, d, dep, rest, below, w, hc, hf, hw, rfl⟩ :=
    Turn.of_mem_drops ((mem_dropped hthread).mp hd)
  refine ⟨d.registry, w, rfl, ?_⟩
  cases hs with
  | program p' started hrun => cases hc.symm.trans hrun
  | @alone turn hturn =>
      have hturn' : turn = { m.turn thread with control := .unwind f, frames := below } := by
        unfold Turn.step Turn.unwind at hturn
        rw [hc, hf] at hturn
        exact (Option.some.inj hturn).symm
      have hafter := (holds_after hthread turn).append_right [Hold.ready d.registry w]
      refine Store.Owned.perm ?_ hafter
      have hbefore : m.holds.Perm (.stopping t d dep :: rest.map (.ready d.registry)
          ++ framesHold t below ++ m.othersHold t) := by
        refine (holds_split hthread).trans (.of_eq ?_)
        have hcontrol : thread.control = .unwind f := hc
        have hframes : thread.frames = .releasing d dep rest :: below := hf
        unfold Thread.holds
        rw [hcontrol, hframes]
        rfl
      have hleft : turn.holds t = framesHold t below := by
        rw [hturn']
        rfl
      have hstore : (m.after t turn).store = m.store := by
        show turn.store = m.store
        rw [hturn']
        rfl
      have hready : Hold.ready d.registry w ∈ rest.map (.ready d.registry) :=
        List.mem_map.mpr ⟨w, hw, rfl⟩
      rw [hstore, hleft]
      refine (ho.perm hbefore.symm).alike (.refl _) (fun g hg => .inl ?_) fun i => ?_
      · simp only [List.mem_append, List.mem_cons, List.not_mem_nil, or_false] at hg ⊢
        rcases hg with (hg | hg) | rfl
        · exact .inl (.inr hg)
        · exact .inr hg
        · exact .inl (.inl (.inr hready))
      · have hone : ([Hold.ready d.registry w].map (·.entry)).count i
            ≤ ((rest.map (Hold.ready d.registry)).map (·.entry)).count i :=
          ((List.singleton_sublist.mpr hready).map _).count_le i
        simp only [List.map_append, List.map_cons, List.count_append, List.count_cons] at hone ⊢
        omega

theorem Run.minds (hf : start.Fresh) (h : Run lib (fun m t => i ∉ m.dropped t) start m) :
    m.Minds i := by
  induction h with
  | refl =>
      intro e he
      rw [hf.entries] at he
      simp at he
  | step t h hok hs ih => exact ih.step (h.reachable.owned hf) hs hok

/-- Holds that nobody has are kept up like all others. -/
theorem Reachable.owned_beside {G : List Hold} (h : Reachable lib m m')
    (ho : m.store.Owned (m.holds ++ G)) : m'.store.Owned (m'.holds ++ G) := by
  induction h with
  | refl => exact ho
  | step t _ hs ih => exact step_owned_beside G hs ih

/-- When all threads are at rest, nothing is held but by queues. -/
theorem holds_of_rest (h : ∀ thread ∈ m.threads, thread.atRest = true) : m.holds = [] := by
  refine List.flatten_eq_nil_iff.mpr fun x hx => ?_
  obtain ⟨i, hi, rfl⟩ := List.mem_mapIdx.mp hx
  have hmem := Array.mem_toList_iff.mp (List.getElem_mem hi)
  exact m.holds_at_rest (h _ hmem) i

/-- Which waiters a fault loses. Take any process, with any number of threads
and whatever its callbacks do, and any of its entries.

- As long as no fault unwinds out of taking up a waiter while the entry's
  waiter is still to come after it, whatever else unwinds: if the entry has
  something saved it is parked in one place, without an initializer, and once
  all threads are at rest this place is a queue.
- If a fault does unwind there, the entry stays suspended for ever: it is never
  finished, and it is on no queue and in no thread's hands any more. -/
theorem Fresh.parked_unless_dropped (hf : start.Fresh) (i : EntryId) :
    (∀ m, Run lib (fun m t => i ∉ m.dropped t) start m →
      ∀ e, m.store.entries[i]? = some e → e.saved.isSome →
        m.Suspended i e
          ∧ ((∀ thread ∈ m.threads, thread.atRest = true) → m.store.waiting.count i = 1))
      ∧ ∀ m t m' m'', Reachable lib start m → i ∈ m.dropped t → m.step lib t = some m' →
        Reachable lib m' m'' →
        ∃ e, m''.store.entries[i]? = some e ∧ e.saved.isSome ∧ e.initializer = none
          ∧ e.stage ≠ .complete ∧ m''.runners i = [] ∧ m''.parkings i = 0
          ∧ m''.store.waiting.count i = 0 := by
  constructor
  · intro m h e he hsaved
    have ho := h.reachable.owned hf
    obtain ⟨hrec, hu⟩ := (ho.sound he).of_saved hsaved
    have hone : m.store.holders m.holds i = 1 :=
      Nat.le_antisymm (ho.once i) (h.minds hf e he hsaved)
    have hsuspended : m.Suspended i e :=
      (active_or_suspended ho he hrec hu hone).resolve_left fun hactive => by
        rw [hactive.saved] at hsaved
        cases hsaved
    refine ⟨hsuspended, fun hrest => ?_⟩
    rw [holds_of_rest hrest] at hone
    unfold Store.holders at hone
    simpa using hone
  · intro m t m' m'' h hd hs h'
    obtain ⟨registry, w, rfl, ho'⟩ := owned_of_dropped (h.owned hf) hd hs
    have ho := h'.owned_beside ho'
    have hghost : Hold.ready registry w ∈ m''.holds ++ [.ready registry w] :=
      List.mem_append_right _ List.mem_cons_self
    obtain ⟨e, he, -, hp⟩ := ho.fits hghost
    have hnone : m''.store.holders m''.holds w.entry = 0 := by
      have honce := (ho.perm List.perm_append_comm.symm).once w.entry
      rw [Store.holders_append, List.map_singleton, Hold.entry_ready, List.count_singleton_self]
        at honce
      omega
    have hplaces := holders_eq m'' w.entry
    refine ⟨e, he, hp.saved, hp.initializer, hp.unfinished, List.length_eq_zero_iff.mp ?_, ?_, ?_⟩
    · omega
    · omega
    · unfold Store.holders at hnone
      omega

/-- A completion that first waits for the layout of the outer type, and then
goes on as `rest`. -/
def afterOuter (rest : RegistryId → Program Unit (Option Dependency)) :
    RegistryId → RecordId → Program Unit (Option Dependency) := fun registry _ =>
  .scratch (·.map (· + 1)) fun w =>
    if w.contains 1 then
      .request registry (.poll .abstract) (.generic 0 []) fun r =>
        .done (some ⟨r.record, .layoutComplete⟩)
    else rest registry

/-- A type that lets two others go as it publishes its layout. The first of
them then makes a request that is a fault, the second would be finished. -/
def burst : Library Unit :=
  { bare with
    descriptors := #[
      { name := "Outer"
        kind := .struct
        parameters := 0
        fields := []
        layout := none
        words := []
        instantiate := none
        completion := some (.callback fun registry record =>
          .request registry (.poll .complete) (.generic 1 []) fun _ =>
            .request registry (.poll .complete) (.generic 2 []) fun _ =>
              .act (.publish record (.scalar 8)) fun _ => .done none) },
      { name := "Failing"
        kind := .struct
        parameters := 0
        fields := []
        layout := none
        words := []
        instantiate := none
        completion := some (.callback (afterOuter fun registry =>
          .request registry .complete (.generic 0 [0]) fun _ => .done none)) },
      { name := "Patient"
        kind := .struct
        parameters := 0
        fields := []
        layout := none
        words := []
        instantiate := none
        completion := some (.callback (afterOuter fun _ => .done none)) }] }

/-- A process that requests the outer type from a registry whose faults
unwind. -/
private def bursting : Machine Unit :=
  launch { faultPolicy := .unwind } () (.request 0 .complete (.generic 0 []) fun _ => .done ())

/-- The second waiter is kept until the fault unwinds out of taking up the
first, and is in nobody's hands once the thread is over. -/
theorem parked_unless_dropped_burst :
    ∃ (start m m' m'' : Machine Unit) (e e'' : Entry), start.Fresh
      ∧ Run burst (fun m t => 2 ∉ m.dropped t) start m ∧ m.store.entries[2]? = some e
      ∧ m.Suspended 2 e ∧ 2 ∈ m.dropped 0 ∧ m.step burst 0 = some m' ∧ Reachable burst m' m''
      ∧ (∀ thread ∈ m''.threads, thread.atRest = true) ∧ m''.store.entries[2]? = some e''
      ∧ e''.saved.isSome ∧ m''.runners 2 = [] ∧ m''.parkings 2 = 0 := by
  have hsteps : ∀ k < 42, 2 ∉ (bursting.walk burst k).dropped 0
      ∧ ((bursting.walk burst k).step burst 0).isSome = true := by
    decide +kernel
  have hdrop : 2 ∈ (bursting.walk burst 42).dropped 0
      ∧ ((bursting.walk burst 42).step burst 0).isSome = true
      ∧ ((bursting.walk burst 42).store.entries[2]?).map (·.saved.isSome) = some true := by
    decide +kernel
  have hover : ∀ thread ∈ (((bursting.walk burst 42).walk burst 1).walk burst 2).threads,
      thread.atRest = true := by
    decide +kernel
  obtain ⟨hdropped, hsome, hentry⟩ := hdrop
  obtain ⟨e, he, hsaved⟩ := Option.map_eq_some_iff.mp hentry
  have hrun : Run burst (fun m t => 2 ∉ m.dropped t) bursting _ := .walk hsteps
  have hlater : Reachable burst ((bursting.walk burst 42).walk burst 1) _ := .walk _ 2
  obtain ⟨hkept, hlost⟩ := @Fresh.parked_unless_dropped Unit burst _ (fresh_launch _ () _) 2
  obtain ⟨e'', he'', hsaved'', -, -, hrunners, hparkings, -⟩ := hlost _ 0 _ _ hrun.reachable
    hdropped (step_walk hsome) hlater
  exact ⟨bursting, _, _, _, e, e'', fresh_launch _ () _, hrun, he, (hkept _ hrun e he hsaved).1,
    hdropped, step_walk hsome, hlater, hover, he'', hsaved'', hrunners, hparkings⟩

/-- A fault in one waiter loses the other: the thread is over, no call is in
progress, and the second waiter is still suspended, but on no queue. -/
theorem burst_loses :
    ∃ (start m : Machine Unit) (e : Entry), start.Fresh ∧ Reachable burst start m
      ∧ (∀ registry ∈ m.store.registries, registry.config.faultPolicy = .unwind)
      ∧ (∀ thread ∈ m.threads, thread.atRest = true) ∧ m.store.entries[2]? = some e
      ∧ e.saved.isSome ∧ e.initializer = none ∧ m.store.waiting.count 2 = 0 := by
  have hend : (∀ registry ∈ (bursting.walk burst 45).store.registries,
        registry.config.faultPolicy = .unwind)
      ∧ (∀ thread ∈ (bursting.walk burst 45).threads, thread.atRest = true)
      ∧ ((bursting.walk burst 45).store.entries[2]?).map
          (fun e => (e.saved.isSome, e.initializer)) = some (true, none)
      ∧ (bursting.walk burst 45).store.waiting.count 2 = 0 := by
    decide +kernel
  obtain ⟨hpolicy, hrest, hentry, hcount⟩ := hend
  obtain ⟨e, he, hshape⟩ := Option.map_eq_some_iff.mp hentry
  obtain ⟨hsaved, hinit⟩ := Prod.mk.inj hshape
  exact ⟨bursting, _, e, fresh_launch _ () _, .walk _ 45, hpolicy, hrest, he, hsaved, hinit,
    hcount⟩

end Machine

end TypeRecords
