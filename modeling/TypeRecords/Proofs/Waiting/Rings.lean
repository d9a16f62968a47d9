/-
Nobody waits in a ring.

An entry waits for another one if the last step of it stopped on the other's
record and the record is still below the stage that is needed. It is settled
to wait if its initialization is parked, or its initializer waits in a frame.
Settled entries that wait for each other in a ring would wait for ever. In no
run is there such a ring, with any number of threads and whatever faults are
raised on the way (`Run.ringless`).

# Which edge comes last

What an entry waits for is recorded by different threads at different times,
and each chain is followed once. So one asks which step would close a ring.

- A publication says what an entry is blocked on. But whoever publishes is
  neither parked nor waiting: no entry has two holders.
- A stage that is published may end a wait. It begins none.
- A new entry waits for nothing, and nobody comes to wait for it by its being
  there, since what settled entries wait for is there already.
- An entry settles to wait. Then its chain has been followed just now, in a
  store where all the other edges were there and none of them satisfied; and
  a chain that never comes to an end closes (`Chain.follow_closes`). So a
  fault is reported, and the entry does not settle.

Chains are followed through records that are there. That is all that is
asked of a run: nobody names a record that does not exist.
-/
import TypeRecords.Proofs.Ownership.Advance
import TypeRecords.Proofs.Process.Frames
import TypeRecords.Proofs.Waiting.Cycles

namespace TypeRecords

variable {σ : Type}

-- ====================================================== chains

/-- A chain that is always followed by another link closes. -/
theorem Chain.follow_closes {w : Waits} {start : RecordId} {on : Dependency → Prop}
    (hon : ∀ d, on d → d.target < w.bound ∧ ∃ d', w.next d = some d' ∧ on d')
    {earlier : List Dependency} {last : Dependency} (h : on last) :
    ∃ links, follow w start earlier last = some links := by
  fun_induction follow with
  | case1 earlier last hclose => exact ⟨_, rfl⟩
  | case2 earlier last hopen hbound hnone =>
      obtain ⟨-, d, hd, -⟩ := hon last h
      rw [hnone] at hd
      cases hd
  | case3 earlier last hopen hbound d hnext ih =>
      obtain ⟨-, d', hd', hon'⟩ := hon last h
      obtain rfl := Option.some.inj (hnext.symm.trans hd')
      exact ih hon'
  | case4 earlier last hopen hbound => exact (hbound (hon last h).1).elim

namespace Store

variable {s : Store} {H : List Hold}

/-- The last step of entry `i` stopped on the record of entry `j`, which is
below the stage that is needed. -/
def WaitsFor (s : Store) (i j : EntryId) : Prop :=
  ∃ e dep, s.entries[i]? = some e ∧ e.blockedOn = some dep
    ∧ s.entryOf? e.registry dep.target = some j ∧ s.Below e.registry dep

/-- Where every one of some entries waits for another one of them, the chain of
each closes. -/
theorem Owned.ring_closes (ho : s.Owned H) {ring : EntryId → Prop}
    (hring : ∀ i, ring i → ∃ j, ring j ∧ s.WaitsFor i j) {i : EntryId} (hi : ring i) {e : Entry}
    {dep : Dependency} (he : s.entries[i]? = some e) (hb : e.blockedOn = some dep)
    (start : RecordId) : s.cycle? e.registry start dep ≠ none := by
  -- what the entries of one registry are blocked on leads from link to link
  let on (d : Dependency) : Prop := ∃ i x, ring i ∧ s.entries[i]? = some x
    ∧ x.registry = e.registry ∧ x.blockedOn = some d
  have hon : ∀ d, on d →
      d.target < (s.waits e.registry).bound
        ∧ ∃ d', (s.waits e.registry).next d = some d' ∧ on d' := by
    rintro d ⟨i, x, hi, hx, hreg, hd⟩
    obtain ⟨j, hj, x', dep', hx', hdep', hentry, hbelow⟩ := hring i hi
    obtain rfl := Option.some.inj (hx.symm.trans hx')
    obtain rfl := Option.some.inj (hd.symm.trans hdep')
    rw [hreg] at hentry hbelow
    obtain ⟨y, hy, hyreg, hkey⟩ := entryOf?_some hentry
    obtain ⟨k, -, y', next, hy', hnext, -⟩ := hring j hj
    obtain rfl := Option.some.inj (hy.symm.trans hy')
    have hrec : y.record.isSome := by
      cases hr : y.record with
      | none =>
          rw [((ho.sound hy).blank hr).2.1] at hnext
          cases hnext
      | some r => rfl
    unfold Below at hbelow
    rw [stageOf_entry hentry hy (ho.sound hy)] at hbelow
    exact ⟨lt_size_of_keyOf hkey, next, blockerOf?_of_entry hentry hy hrec hbelow hnext,
      j, y, hj, hy, hyreg, hnext⟩
  have hfirst : on dep := ⟨i, e, hi, he, rfl, hb⟩
  obtain ⟨links, hlinks⟩ : ∃ links, Chain.follow (s.waits e.registry) start [] dep = some links :=
    Chain.follow_closes hon hfirst
  unfold cycle? Chain.closed?
  rw [hlinks]
  nofun

end Store

-- ====================================================== who is settled to wait

namespace Machine

variable {lib : Library σ} {start m m' : Machine σ} {t : ThreadId} {i j : EntryId}

/-- The initialization of entry `i` is parked, or the thread that runs it waits
in a frame for what stopped it. -/
inductive Settled (m : Machine σ) (i : EntryId) : Prop
  | parked {e : Entry} (he : m.store.entries[i]? = some e) (hsaved : e.saved.isSome)
  | relying {u : ThreadId} {thread : Thread σ} {d : Drive} (hu : m.threads[u]? = some thread)
      (hf : .relying d ∈ thread.frames) (hd : d.entry = i)

/-- Thread `t` decides how the initialization of entry `i` waits, and the chain
of what stopped it does not close. -/
def Settles (m : Machine σ) (t : ThreadId) (i : EntryId) : Prop :=
  ∃ thread d dep, m.threads[t]? = some thread ∧ thread.control = .stopped d dep ∧ d.entry = i
    ∧ m.store.cycle? d.registry d.record dep = none

/-- Nobody is settled without having settled. -/
theorem settled_step (h : m.step lib t = some m') (ho : m.store.Owned m.holds)
    (hs : m'.Settled i) : m.Settled i ∨ m.Settles t i := by
  cases hs with
  | @parked e' he' hsaved =>
      rcases step_shift h with hstore | ⟨thread, turn, hthread, rfl, hshift⟩
      · exact .inl (.parked (hstore ▸ he') hsaved)
      · rcases hshift.alters (ho.perm (holds_split hthread).symm) he'
          with ⟨e, he, halters⟩ | ⟨registry, q, c, k, set, key, -, -, rfl⟩
        · rcases halters.parked (ho.sound he) hsaved with hsaved | ⟨d, dep, hc, hd, hcy⟩
          · exact .inl (.parked he hsaved)
          · exact .inr ⟨thread, d, dep, hthread, hc, hd, hcy⟩
        · cases hsaved
  | relying hu hf hd =>
      rcases step_frames h hu hf with ⟨thread, hthread, hold⟩ | ⟨thread, hthread, hopens⟩
      · exact .inl (.relying hthread hold hd)
      · cases hopens with
        | call hc hcall => cases hcall
        | relying hc hcy => exact .inr ⟨thread, _, _, hthread, hc, hd, hcy⟩

/-- Whoever publishes an outcome is not settled to wait. -/
theorem Settled.unpublished (hs : m.Settled i) (ho : m.store.Owned m.holds) {thread : Thread σ}
    (ht : m.threads[t]? = some thread) {d : Drive} {o : StepOutcome}
    (hc : thread.control = .publish d o) : d.entry ≠ i := by
  rintro rfl
  have hm : .concluding t d o ∈ m.holds :=
    mem_holds_of_control ht (by rw [hc]; exact List.mem_cons_self)
  cases hs with
  | parked he hsaved =>
      obtain ⟨e, he', hd, -⟩ := ho.fits hm
      obtain rfl := Option.some.inj (Eq.trans he.symm he')
      rw [hd.saved] at hsaved
      cases hsaved
  | relying hu hf hd =>
      cases ho.eq_of_entry hm (mem_holds_of_frame hu hf List.mem_cons_self) hd

-- ====================================================== one step

/-- Each of some entries is settled, and waits for another one of them. -/
def Knot (m : Machine σ) (ring : EntryId → Prop) : Prop :=
  ∀ i, ring i → m.Settled i ∧ ∃ j, ring j ∧ m.store.WaitsFor i j

/-- There is no knot, and what settled entries are blocked on is there. -/
structure Untied (m : Machine σ) : Prop where
  aimed : ∀ {i : EntryId} {e : Entry} {dep : Dependency}, m.Settled i →
    m.store.entries[i]? = some e → e.blockedOn = some dep → dep.target < m.store.records.size
  free : ∀ {ring : EntryId → Prop}, m.Knot ring → ∀ i, ¬ ring i

/-- An entry that is settled after a step is blocked on what it was blocked on
before. -/
theorem blockedOn_step (h : m.step lib t = some m') (ho : m.store.Owned m.holds)
    (hs : m'.Settled i) {e' : Entry} {dep : Dependency} (he' : m'.store.entries[i]? = some e')
    (hb : e'.blockedOn = some dep) :
    ∃ e, m.store.entries[i]? = some e ∧ e.blockedOn = some dep := by
  rcases step_shift h with hstore | ⟨thread, turn, hthread, rfl, hshift⟩
  · exact ⟨e', hstore ▸ he', hb⟩
  · rcases hshift.alters (ho.perm (holds_split hthread).symm) he'
      with ⟨e, he, halters⟩ | ⟨registry, q, c, k, set, key, -, -, rfl⟩
    · refine ⟨e, he, (halters.blockedOn_eq fun d o hc => ?_).symm.trans hb⟩
      rcases settled_step h ho hs with hold | ⟨thread', d', dep', hthread', hc', -⟩
      · exact hold.unpublished ho hthread hc
      · obtain rfl := Option.some.inj (hthread.symm.trans hthread')
        cases Eq.trans hc.symm hc'
    · cases hb

/-- What an entry is blocked on that is settled, or about to be, is there. -/
theorem Untied.target_there (hu : m.Untied) (hg : m.Grounded) (ho : m.store.Owned m.holds)
    (hs : m.Settled i ∨ m.Settles t i) {e : Entry} {dep : Dependency}
    (he : m.store.entries[i]? = some e) (hb : e.blockedOn = some dep) :
    dep.target < m.store.records.size := by
  rcases hs with hs | ⟨thread, d, dep', hthread, hc, rfl, -⟩
  · exact hu.aimed hs he hb
  · have hm : .stopping t d (some dep') ∈ m.holds :=
      mem_holds_of_control hthread (by rw [hc]; exact List.mem_cons_self)
    obtain ⟨x, hx, -, hdep, -⟩ := ho.fits hm
    obtain rfl := Option.some.inj (Eq.trans he.symm hx)
    obtain rfl := Option.some.inj (hb.symm.trans hdep)
    exact hg thread (Array.mem_of_getElem? hthread) _ (by rw [hc]; exact List.mem_cons_self)

/-- Among settled entries, those that wait for each other after a step did so
before. -/
theorem Untied.waits_back (hu : m.Untied) (h : m.step lib t = some m') (hg : m.Grounded)
    (ho : m.store.Owned m.holds) (ho' : m'.store.Owned m'.holds) (hi : m'.Settled i)
    (hj : j < m.store.entries.size) (hw : m'.store.WaitsFor i j) : m.store.WaitsFor i j := by
  obtain ⟨e', dep, he', hb', hentry', hbelow'⟩ := hw
  obtain ⟨e, he, hb⟩ := blockedOn_step h ho hi he' hb'
  have hadvances := step_advances h ho
  obtain ⟨x, hx, hreg, -⟩ := hadvances.entries he
  obtain rfl := Option.some.inj (he'.symm.trans hx)
  rw [hreg] at hentry' hbelow'
  have hentry := hadvances.grows.entryOf?_back hentry'
    (hu.target_there hg ho (settled_step h ho hi) he hb) hj
  obtain ⟨y, hy, -⟩ := Store.entryOf?_some hentry
  obtain ⟨y', hy', -, hle, -⟩ := hadvances.entries hy
  refine ⟨e, dep, he, hb, hentry, ?_⟩
  -- the stage has only gone up since
  unfold Store.Below at hbelow' ⊢
  rw [Store.stageOf_entry hentry hy (ho.sound hy)]
  rw [Store.stageOf_entry hentry' hy' (ho'.sound hy')] at hbelow'
  refine Bool.eq_false_iff.mpr fun hsat => Bool.eq_false_iff.mp hbelow' ?_
  exact Stage.satisfies_iff.mpr (Nat.le_trans (Stage.satisfies_iff.mp hsat) hle)

/-- No step ties a knot. -/
theorem Untied.step (hu : m.Untied) (h : m.step lib t = some m') (hg : m.Grounded)
    (ho : m.store.Owned m.holds) (ho' : m'.store.Owned m'.holds) : m'.Untied := by
  refine ⟨fun hs he' hb' => ?_, fun {ring} hknot i hi => ?_⟩
  · obtain ⟨e, he, hb⟩ := blockedOn_step h ho hs he' hb'
    have hlt := hu.target_there hg ho (settled_step h ho hs) he hb
    exact Nat.lt_of_lt_of_le hlt (step_advances h ho).grows.size_le
  · -- the same entries waited for each other before the step
    have hback : ∀ i, ring i → ∃ j, ring j ∧ m.store.WaitsFor i j := by
      intro i hi
      obtain ⟨hs, j, hj, hw⟩ := hknot i hi
      obtain ⟨hsj, k, -, e', dep, he', hb', -⟩ := hknot j hj
      obtain ⟨e, he, -⟩ := blockedOn_step h ho hsj he' hb'
      exact ⟨j, hj, hu.waits_back h hg ho ho' hs (Array.getElem?_eq_some_iff.mp he).1 hw⟩
    by_cases hall : ∀ i, ring i → m.Settled i
    · exact hu.free (fun i hi => ⟨hall i hi, hback i hi⟩) i hi
    · -- one of them has settled just now, and its chain would have closed
      obtain ⟨k, hk⟩ := Classical.not_forall.mp hall
      obtain ⟨hk, hnot⟩ := Classical.not_imp.mp hk
      obtain ⟨thread, d, dep, hthread, hc, rfl, hcy⟩ :=
        (settled_step h ho (hknot k hk).1).resolve_left hnot
      have hm : .stopping t d (some dep) ∈ m.holds :=
        mem_holds_of_control hthread (by rw [hc]; exact List.mem_cons_self)
      obtain ⟨e, he, hd, hb, -⟩ := ho.fits hm
      rw [← hd.registry] at hcy
      exact ho.ring_closes hback hk he hb d.record hcy

-- ====================================================== all runs

theorem Fresh.untied (hf : start.Fresh) : start.Untied := by
  have hno : ∀ {i : EntryId} {e : Entry}, start.store.entries[i]? ≠ some e := by
    intro i e he
    rw [hf.entries] at he
    simp at he
  refine ⟨fun _ he => (hno he).elim, fun hknot i hi => ?_⟩
  obtain ⟨-, j, -, e, dep, he, -⟩ := hknot i hi
  exact hno he

theorem Run.untied (hf : start.Fresh) (h : Run lib (fun m _ => m.Grounded) start m) :
    m.Untied := by
  induction h with
  | refl => exact hf.untied
  | step t h hg hs ih =>
      exact ih.step hs hg (h.reachable.owned hf) (step_owned hs (h.reachable.owned hf))

/-- There is no ring of entries each of which is settled to wait for the next,
wherever a process gets to: with any number of threads and of registries,
whatever callbacks request and in whichever order initializations are parked
and taken up, and whatever faults have been raised. -/
theorem Run.ringless (hf : start.Fresh) (h : Run lib (fun m _ => m.Grounded) start m) {n : Nat}
    (ring : Fin (n + 1) → EntryId) :
    ¬ ∀ k, m.Settled (ring k) ∧ m.store.WaitsFor (ring k) (ring (k + 1)) := by
  intro hall
  have hknot : m.Knot fun i => ∃ k, ring k = i := by
    rintro i ⟨k, rfl⟩
    exact ⟨(hall k).1, ring (k + 1), ⟨k + 1, rfl⟩, (hall k).2⟩
  exact (h.untied hf).free hknot (ring 0) ⟨0, rfl⟩

/-- Of the two types that wait for each other the inner one is parked first,
until the outer one has a layout. The outer one does not settle to wait for it
meanwhile. -/
theorem ringless_pair :
    ∃ start m : Machine Unit, start.Fresh ∧ Run pair (fun m _ => m.Grounded) start m
      ∧ m.Settled 1 ∧ m.store.WaitsFor 1 0 ∧ ¬ (m.Settled 0 ∧ m.store.WaitsFor 0 1) := by
  let start : Machine Unit := demanding
  have hsteps : ∀ k < 17, (start.walk pair k).Grounded
      ∧ ((start.walk pair k).step pair 0).isSome = true := by
    decide +kernel
  have hparked : ((start.walk pair 17).store.entries[1]?).map
      (fun e => (e.registry, e.blockedOn, e.saved.isSome))
        = some (0, some ⟨10, .layoutComplete⟩, true)
      ∧ (start.walk pair 17).store.entryOf? 0 10 = some 0
      ∧ (start.walk pair 17).store.Below 0 ⟨10, .layoutComplete⟩ := by
    decide +kernel
  have hrun : Run pair (fun m _ => m.Grounded) start (start.walk pair 17) := .walk hsteps
  obtain ⟨hentry, htarget, hbelow⟩ := hparked
  obtain ⟨e, he, hshape⟩ := Option.map_eq_some_iff.mp hentry
  obtain ⟨hreg, hshape⟩ := Prod.mk.inj hshape
  obtain ⟨hb, hsaved⟩ := Prod.mk.inj hshape
  have hsettled : (start.walk pair 17).Settled 1 := .parked he hsaved
  have hwaits : (start.walk pair 17).store.WaitsFor 1 0 :=
    ⟨e, _, he, hb, by rw [hreg]; exact htarget, by rw [hreg]; exact hbelow⟩
  refine ⟨start, _, fresh_launch _ () _, hrun, hsettled, hwaits, fun hboth => ?_⟩
  exact Run.ringless (fresh_launch _ () _) hrun (fun k : Fin 2 => if k = 0 then 1 else 0)
    (Fin.forall_fin_two.mpr ⟨⟨hsettled, hwaits⟩, hboth⟩)

end Machine

end TypeRecords
