/-
Waiting and parking come to the same.

An idle process makes a request. Which stage it asks for, and whether it waits
for it, matters in one place only, where the initialization it started has been
stopped: a request that waits and is not satisfied waits for what stopped it,
any other one is parked. But what stopped it is there. The thread holds no
other entry, so a target that were not there would lead back to the
initialization itself (`Steady.target_met`), and that chain was found not to
close. So whoever waits is answered (`relies`), whoever is parked is taken up
again with nothing changed (`reclaims`), and the initialization goes on from
the same store.

# Two runs side by side

Waiting takes two or three steps and parking takes two, so the runs for two
requests are not in step all the time. They are compared from the front: a
turn of the one that lies ahead is at the same point as the other
(`Mirrors.step`), and what is left of the run decides how far both go
(`Mirrors.comes`). Nothing is assumed about what completions do, nor that a
request comes to anything: if one does, the other does, and it is the same
answer or the same fault (`Run.modes_agree`).
-/
import TypeRecords.Proofs.Waiting.Mirroring

namespace TypeRecords

variable {σ : Type}

/-- An initialization that is suspended and taken up again is as before. -/
theorem Entry.Driven.reclaim?_suspend {e : Entry} {i : ThreadId} {d : Drive} (h : e.Driven i d)
    (hu : e.stage ≠ .complete) (scratch : Scratch) :
    (e.suspend scratch).reclaim? i = some (e, scratch) := by
  have hsaved := h.saved
  have hinit := h.initializer
  rw [if_neg hu] at hinit
  obtain ⟨registry, key, record, published, stage, blockedOn, initializer, saved, queue⟩ := e
  obtain rfl : saved = none := hsaved
  obtain rfl : initializer = some i := hinit
  rfl

/-- An entry that is changed and put back is as before. -/
theorem Store.changeEntry_restore {s : Store} {i : EntryId} {e : Entry}
    (hi : s.entries[i]? = some e) (f : Entry → Entry) :
    (s.changeEntry i f).changeEntry i (fun _ => e) = s := by
  have hentries : (s.entries.modify i f).modify i (fun _ => e) = s.entries := by
    refine Array.ext_getElem? fun j => ?_
    rw [Array.getElem?_modify, Array.getElem?_modify]
    by_cases hij : i = j
    · subst hij
      simp [hi]
    · simp [hij]
  unfold changeEntry
  simp only [hentries]

/-- Nobody is queued on an entry that is where it has to be. -/
theorem Store.none_queued {s : Store} {registry : RegistryId} {target : RecordId} {w : Waiter}
    (h : ∀ i x, s.entryOf? registry target = some i → s.entries[i]? = some x →
      x.satisfies w.required = true) :
    ((s.entryOf? registry target).bind fun id => (s.entries[id]?).bind fun e =>
      (e.enqueue? w).map fun e => (id, e)) = none := by
  cases hi : s.entryOf? registry target with
  | none => rfl
  | some i =>
      obtain ⟨x, hx, -⟩ := entryOf?_some hi
      simp only [Option.bind_some, hx, Entry.enqueue?, h i x hi hx, if_true, Option.map_none]

namespace Turn

variable {lib : Library σ} {a : Actor} {t t' u w : Turn σ} {registry : RegistryId}
  {q q' : Request} {k : Response → Program σ Value} {s : Setting σ}

/-- The thread gets from one turn to another before the request has come to
anything. -/
abbrev Comes (lib : Library σ) (a : Actor) (registry : RegistryId) (t t' : Turn σ) : Prop :=
  Relation.ReflTransGen (Goes lib a (Ongoing registry)) t t'

theorem Goes.keeps (h : Goes lib a (Ongoing registry) t t') (hs : t.Steady registry a.id)
    (hcalm' : t'.control.disturbed = false) : t'.Steady registry a.id := by
  obtain ⟨-, ⟨hord, -⟩, hstep⟩ := h
  rcases alone_cases hstep with hstep | ⟨p, p', s, hc, -, rfl⟩
  · exact hs.step hstep hord hcalm'
  · exact hs.program hc rfl rfl rfl

theorem Comes.keeps (h : Comes lib a registry t t') (hs : t.Steady registry a.id)
    (hcalm' : t'.control.disturbed = false) : t'.Steady registry a.id := by
  induction h with
  | refl => exact hs
  | tail _ hstep ih => exact hstep.keeps (ih (calm_of_orderly hstep.2.1.1)) hcalm'

/-- A step that is no program's. -/
theorem goes_of_step (hhalt : t.store.halted = none) (hon : t.Ongoing registry)
    (hrun : ∀ p s, t.control ≠ .run p s) (h : t.step lib a = some t') :
    Goes lib a (Ongoing registry) t t' :=
  ⟨hhalt, hon, (alone_eq hrun).trans h⟩

-- ====================================================== a stopped initialization

/-- The store once a stopped step has been counted. -/
def noted (t : Turn σ) (d : Drive) : Store :=
  t.store.note d.registry fun l => { l with dependencies := l.dependencies + 1 }

/-- The initialization goes on right where it was stopped. -/
def resumed (t : Turn σ) (d : Drive) : Turn σ :=
  { t with store := t.noted d, control := .begin d }

theorem stopped_waits {d : Drive} {dep : Dependency}
    (hopen : t.store.cycle? d.registry d.record dep = none)
    (hwaits : d.request.waits ∧ ¬ d.request.satisfiedBy d.stage) :
    t.stopped a d dep
      = ({ t with store := t.noted d, frames := .relying d :: t.frames }).consult d.registry
        (.blocking dep.required) dep.target := by
  have hnoted : (t.noted d).cycle? d.registry d.record dep = none := hopen
  unfold noted at hnoted
  simp only [stopped]
  rw [hnoted]
  simp only [if_pos hwaits]
  rfl

theorem stopped_parks {d : Drive} {dep : Dependency}
    (hopen : t.store.cycle? d.registry d.record dep = none)
    (hparks : ¬ (d.request.waits ∧ ¬ d.request.satisfiedBy d.stage)) :
    t.stopped a d dep
      = { t with
        store := (t.noted d).changeEntry d.entry (·.suspend d.scratch)
        control := .enqueue d dep } := by
  have hnoted : (t.noted d).cycle? d.registry d.record dep = none := hopen
  unfold noted at hnoted
  simp only [stopped]
  rw [hnoted]
  simp only [if_neg hparks]
  rfl

/-- What stopped the only initialization that is held is there, if its chain
does not close. -/
theorem Steady.target_met {d : Drive} {dep : Dependency} (hs : t.Steady registry a.id)
    (hc : t.control = .stopped d dep) (hf : t.frames = [.forResponse k s])
    (hopen : t.store.cycle? d.registry d.record dep = none) {e : EntryId} {x : Entry}
    (he : t.store.entryOf? d.registry dep.target = some e) (hx : t.store.entries[e]? = some x) :
    ∃ record, x.record = some record ∧ x.stage.satisfies dep.required = true := by
  have hholds : t.holds a.id = [.stopping a.id d (some dep)] := by
    rw [holds_of_control hc, hf]
    rfl
  have hrecord := hs.record_of_asked (by rw [hc]; rfl) (by rw [hc]; nofun) hx
  obtain ⟨record, hr⟩ := Option.ne_none_iff_exists'.mp hrecord
  exact ⟨record, hr, hs.target_there hholds hopen he hx⟩

theorem goes_stopped {d : Drive} {dep : Dependency} (hhalt : t.store.halted = none)
    (hc : t.control = .stopped d dep) :
    Goes lib a (Ongoing registry) t (t.stopped a d dep) := by
  have howes : t.control.duty = .owes d.request := by
    rw [hc]
    rfl
  refine goes_of_step hhalt ⟨orderly_of_owes howes, ending_of_owes howes⟩ (ne_run_of_owes howes) ?_
  unfold step
  rw [hc]

/-- It waits for what stopped it, and finds it. -/
theorem relies {d : Drive} {dep : Dependency} (hs : t.Steady registry a.id)
    (hhalt : t.store.halted = none) (hc : t.control = .stopped d dep)
    (hf : t.frames = [.forResponse k s])
    (hopen : t.store.cycle? d.registry d.record dep = none)
    (hwaits : d.request.waits ∧ ¬ d.request.satisfiedBy d.stage) :
    Comes lib a registry t (t.resumed d) := by
  let waiting : Turn σ := { t with store := t.noted d, frames := .relying d :: t.frames }
  -- whatever answer there is, the initialization goes on
  have hback : ∀ r, Goes lib a (Ongoing registry) (waiting.respond r) (t.resumed d) := by
    intro r
    refine goes_of_step hhalt ⟨rfl, ?_⟩ nofun rfl
    unfold ending?
    rw [show (waiting.respond r).frames = [.relying d, .forResponse k s] from congrArg _ hf]
    rfl
  have hfirst : Goes lib a (Ongoing registry) t (t.stopped a d dep) := goes_stopped hhalt hc
  rw [stopped_waits hopen hwaits] at hfirst
  refine .head hfirst ?_
  cases he : t.store.entryOf? d.registry dep.target with
  | none =>
      have hfinished : waiting.consult d.registry (.blocking dep.required) dep.target
          = waiting.respond (.finished dep.target) := by
        unfold consult
        rw [show waiting.store.entryOf? d.registry dep.target = none from he]
      exact hfinished ▸ .single (hback _)
  | some e =>
      obtain ⟨x, hx, -⟩ := Store.entryOf?_some he
      obtain ⟨record, hr, hsat⟩ := hs.target_met hc hf hopen he hx
      have hlook : x.look a.id (.blocking dep.required) = .answer ⟨record, x.stage⟩ :=
        Entry.look_answer (hs.owned.sound hx) hr a.id (Request.settledBy_of _ fun _ => hsat)
      have hwanted : waiting.consult d.registry (.blocking dep.required) dep.target
          = waiting.goto (.await d.registry e (.blocking dep.required)) := by
        unfold consult
        rw [show waiting.store.entryOf? d.registry dep.target = some e from he]
      rw [hwanted]
      refine .head (goes_of_step hhalt ⟨rfl, rfl⟩ (fun _ _ hno => by cases hno) ?_)
        (.single (hback ⟨record, x.stage⟩))
      show (waiting.goto _).await a d.registry e (.blocking dep.required) = _
      unfold await
      rw [show (waiting.goto _).store.entries[e]? = some x from hx]
      simp only [hlook]
      rfl

/-- It is parked, and taken up again at once because what stopped it is
there. -/
theorem reclaims {d : Drive} {dep : Dependency} (hs : t.Steady registry a.id)
    (hhalt : t.store.halted = none) (hc : t.control = .stopped d dep)
    (hf : t.frames = [.forResponse k s])
    (hopen : t.store.cycle? d.registry d.record dep = none)
    (hparks : ¬ (d.request.waits ∧ ¬ d.request.satisfiedBy d.stage)) :
    Comes lib a registry t (t.resumed d) := by
  let parked : Turn σ := { t with
    store := (t.noted d).changeEntry d.entry (·.suspend d.scratch)
    control := .enqueue d dep }
  have hfirst : Goes lib a (Ongoing registry) t (t.stopped a d dep) := goes_stopped hhalt hc
  rw [stopped_parks hopen hparks] at hfirst
  refine .head hfirst (.single (goes_of_step hhalt ⟨rfl, rfl⟩ nofun ?_))
  have hm : .stopping a.id d (some dep) ∈ t.holds a.id := mem_holds_of_control hc List.mem_cons_self
  obtain ⟨own, hown, hdriven, -, hiff⟩ := hs.owned.fits hm
  have hown' : t.store.entries[d.entry]? = some own := hown
  have hu : own.stage ≠ .complete := fun hcomplete => by cases hiff.mp hcomplete
  have hlabels : parked.store.labels = t.store.labels :=
    Store.labels_of_modify (f := (·.suspend d.scratch)) rfl fun _ _ => ⟨rfl, rfl⟩
  have hqueued : ((parked.store.entryOf? d.registry dep.target).bind fun id =>
      (parked.store.entries[id]?).bind fun e =>
        (e.enqueue? ⟨dep.required, d.entry⟩).map fun e => (id, e)) = none := by
    refine Store.none_queued fun i y hi hy => ?_
    rw [show parked.store.entryOf? d.registry dep.target = t.store.entryOf? d.registry dep.target
      from Store.entryOf?_congr hlabels rfl ..] at hi
    obtain ⟨x, hx, -⟩ := Store.entryOf?_some hi
    obtain ⟨record, hr, hsat⟩ := hs.target_met hc hf hopen hi hx
    have hmet : x.satisfies dep.required = true := by
      unfold Entry.satisfies
      rw [hr, hsat]
      rfl
    -- suspending the initialization does not change the stage of any entry
    have hget : (t.store.entries.modify d.entry (·.suspend d.scratch))[i]? = some y := hy
    rw [Array.getElem?_modify, hx] at hget
    split at hget
    · obtain rfl := Option.some.inj hget
      exact hmet
    · obtain rfl := Option.some.inj hget
      exact hmet
  show parked.enqueue a d dep = _
  simp only [enqueue]
  rw [hqueued]
  have hmine : parked.store.entries[d.entry]? = some (own.suspend d.scratch) :=
    Store.getElem?_modify_self (f := (·.suspend d.scratch)) hown' rfl
  rw [hmine]
  simp only [hdriven.reclaim?_suspend hu]
  rw [Store.changeEntry_restore (s := t.noted d) hown']
  rfl

theorem resumes {d : Drive} {dep : Dependency} (hs : t.Steady registry a.id)
    (hhalt : t.store.halted = none) (hc : t.control = .stopped d dep)
    (hf : t.frames = [.forResponse k s])
    (hopen : t.store.cycle? d.registry d.record dep = none) :
    Comes lib a registry t (t.resumed d) := by
  by_cases hwaits : d.request.waits ∧ ¬ d.request.satisfiedBy d.stage
  · exact relies hs hhalt hc hf hopen hwaits
  · exact reclaims hs hhalt hc hf hopen hwaits

-- ====================================================== two requests side by side

namespace Mirrors

/-- A request that finds its entry at the start is answered, since everything
is finished then. -/
theorem sought_step {e : EntryId} (hs : t.Steady registry a.id)
    (hf : t.frames = [.forResponse k s]) {r : RegistryId} (hc : t.control = .await r e q)
    (h : t.step lib a = some t') :
    (t.goto (.await r e q')).step lib a = some t' ∧ Mirrors q q' k s t' t' := by
  have hidle : t.holds a.id = [] := by
    rw [holds_of_control hc, hf]
    rfl
  unfold Turn.step at h ⊢
  rw [hc] at h
  simp only [await, goto] at h ⊢
  cases he : t.store.entries[e]? with
  | none => rw [he] at h; cases h
  | some x =>
      have hcomplete := hs.complete_of_idle hidle he
      have hsound := hs.owned.sound he
      cases hr : x.record with
      | none =>
          rw [(hsound.blank hr).1] at hcomplete
          cases hcomplete
      | some record =>
          have hlook : ∀ q : Request, x.look a.id q = .answer ⟨record, x.stage⟩ := fun q =>
            Entry.look_answer hsound hr a.id (by rw [hcomplete]; exact q.settledBy_complete)
          rw [he] at h
          simp only [hlook] at h ⊢
          cases h
          exact ⟨rfl, .answered rfl hf hcomplete rfl⟩

/-- A step for one request is made up for by steps for the other, after which
both are at the same point again: at once, or after further steps for the
first one. -/
theorem step (hm : Mirrors q q' k s t u) (h : Goes lib a (Ongoing registry) t t')
    (hs : t.Steady registry a.id) (hs' : u.Steady registry a.id) :
    ∃ w u', Comes lib a registry t' w ∧ Comes lib a registry u u' ∧ Mirrors q q' k s w u' := by
  obtain ⟨hhalt, hon, hstep⟩ := h
  have hhalt' : u.store.halted = none := hm.same.1 ▸ hhalt
  have hon' := hm.ongoing hon
  have hdirect : ∀ {u'}, u.alone lib a = some u' → Mirrors q q' k s t' u' →
      ∃ w u', Comes lib a registry t' w ∧ Comes lib a registry u u' ∧ Mirrors q q' k s w u' :=
    fun hu hm => ⟨t', _, .refl, .single ⟨hhalt', hon', hu⟩, hm⟩
  cases hm with
  | asked hc hf hu =>
      subst hu
      rw [alone_request hc] at hstep
      obtain ⟨u', hu', hm⟩ := asked_step hc hf hstep
      exact hdirect ((alone_request rfl).trans hu') hm
  | sought hc hf hu =>
      subst hu
      rw [alone_eq (by rw [hc]; nofun)] at hstep
      obtain ⟨hu', hm⟩ := sought_step hs hf hc hstep
      exact hdirect ((alone_eq fun _ _ hno => by cases hno).trans hu') hm
  | inside hd hf hu =>
      subst hu
      obtain ⟨u', hu', hm⟩ := inside_step hd hf (calm_of_orderly hon.1) hstep
      exact hdirect hu' hm
  | ended he hcomplete hu =>
      rw [hon.2] at he
      cases he
  | owes hd hne hf hu =>
      subst hu
      by_cases hwaits : ∃ d dep, t.control = .stopped d dep
          ∧ t.store.cycle? d.registry d.record dep = none
      · obtain ⟨d, dep, hc, hopen⟩ := hwaits
        have hc' : (t.goto (t.control.recast q')).control = .stopped (d.recast q') dep := by
          rw [hc]
          rfl
        have hwalk : Comes lib a registry t (t.resumed d) := resumes hs hhalt hc hf hopen
        have hwalk' : Comes lib a registry (t.goto (t.control.recast q'))
            ((t.goto (t.control.recast q')).resumed (d.recast q')) :=
          resumes hs' hhalt' hc' hf hopen
        have hrest : Comes lib a registry t' (t.resumed d) := by
          rcases hwalk.cases_head with heq | ⟨t'', hgoes, hrest⟩
          · rw [heq] at hc
            cases hc
          · rw [Goes.unique ⟨hhalt, hon, hstep⟩ hgoes]
            exact hrest
        rw [hc] at hd
        exact ⟨_, _, hrest, hwalk', .working hd rfl hf rfl⟩
      · have hclosed : ∀ d dep, t.control = .stopped d dep →
            (t.store.cycle? d.registry d.record dep).isSome = true := by
          intro d dep hc
          by_contra hopen
          exact hwaits ⟨d, dep, hc, by simpa using hopen⟩
        rw [alone_eq (ne_run_of_owes hd)] at hstep
        obtain ⟨u', hu', hm⟩ := owes_step q' hd hf hne hclosed hstep
        have hd' := Control.recast_owes hd q'
        exact hdirect ((alone_eq (ne_run_of_owes (t := t.goto _) hd')).trans hu') hm

/-- What one request comes to the other comes to, and with it to the same
point. -/
theorem comes {e : Ending} (h : Comes lib a registry t t') (he : t'.ending? = some e)
    (htrack : ∃ w, Comes lib a registry t w ∧ Mirrors q q' k s w u)
    (hs : t.control.disturbed = false → t.Steady registry a.id)
    (hs' : u.control.disturbed = false → u.Steady registry a.id) :
    ∃ u', Comes lib a registry u u' ∧ Mirrors q q' k s t' u' := by
  induction h using Relation.ReflTransGen.head_induction_on generalizing u with
  | refl =>
      obtain ⟨w, hwalk, hm⟩ := htrack
      rcases hwalk.cases_head with rfl | ⟨t'', hgoes, -⟩
      · exact ⟨u, .refl, hm⟩
      · rw [hgoes.2.1.2] at he
        cases he
  | head hgoes hwalk ih =>
      have hsteady := hs (calm_of_orderly hgoes.2.1.1)
      have hkeep := hgoes.keeps hsteady
      obtain ⟨w, hahead, hm⟩ := htrack
      rcases hahead.cases_head with rfl | ⟨t'', hgoes', hahead⟩
      · have hsteady' := hs' (calm_of_orderly (hm.ongoing hgoes.2.1).1)
        obtain ⟨w, u₁, hahead, hwalk₁, hm⟩ := hm.step hgoes hsteady hsteady'
        obtain ⟨u', hwalk', hm'⟩ := ih ⟨w, hahead, hm⟩ hkeep (hwalk₁.keeps hsteady')
        exact ⟨u', hwalk₁.trans hwalk', hm'⟩
      · -- the first one has not got to where the other is
        obtain rfl := hgoes.unique hgoes'
        exact ih ⟨w, hahead, hm⟩ hkeep hs'

end Mirrors

-- ====================================================== one request

/-- A request comes to one thing at most. -/
theorem Comes.unique {e e' : Ending} (h : Comes lib a registry t t') (he : t'.ending? = some e)
    (h' : Comes lib a registry t u) (he' : u.ending? = some e') : u = t' := by
  induction h using Relation.ReflTransGen.head_induction_on with
  | refl =>
      rcases h'.cases_head with rfl | ⟨v, hgoes, -⟩
      · rfl
      · rw [hgoes.2.1.2] at he
        cases he
  | head hgoes hwalk ih =>
      rcases h'.cases_head with rfl | ⟨v, hgoes', hwalk'⟩
      · rw [hgoes.2.1.2] at he'
        cases he'
      · obtain rfl := hgoes.unique hgoes'
        exact ih hwalk'

/-- A thread that holds nothing may begin with any program. -/
theorem Steady.begins (hs : t.Steady registry a.id) (hidle : t.holds a.id = [])
    (p : Program σ Value) (s : Setting σ) :
    Steady registry a.id (⟨t.store, t.shared, .run p s, []⟩ : Turn σ) := by
  have howned := hs.owned
  have hled := hs.led
  rw [hidle] at howned hled
  refine ⟨howned, hs.sole, ⟨fun hasked => ?_, fun above f below habove => ?_⟩, hs.unawaited,
    hs.unstranded, fun d dep hm => ?_, hled⟩
  · cases hasked
  · simp at habove
  · cases hm

end Turn

-- ====================================================== processes with one thread

namespace Machine

variable {lib : Library σ} {start m m' : Machine σ} {registry : RegistryId} {thread : Thread σ}
  {name : String} {t : Turn σ} {e e' : Ending} {s s' : Store} {x x' : σ}

/-- The process once its thread makes a request, outside of all calls. -/
def asks (m : Machine σ) (registry : RegistryId) (q : Request) (c : Call)
    (k : Response → Program σ Value) (set : Setting σ) : Machine σ :=
  { m with
    threads := m.threads.modify 0 fun thread =>
      { thread with control := .run (.request registry q c k) set, frames := [] } }

/-- The request that the process makes comes to `e`, by orderly steps of its
only thread, and leaves behind the store `s` and the state `x` that programs
share. -/
def ComesTo (lib : Library σ) (registry : RegistryId) (m : Machine σ) (e : Ending) (s : Store)
    (x : σ) : Prop :=
  ∃ m' thread, Run lib (fun m _ => m.Alone (Turn.Ongoing registry)) m m'
    ∧ m'.threads = #[thread] ∧ (m'.turn thread).ending? = some e ∧ m'.store = s ∧ m'.shared = x

theorem asks_eq (ht : m.threads = #[thread]) (q : Request) (c : Call)
    (k : Response → Program σ Value) (set : Setting σ) :
    m.asks registry q c k set
      = lone thread.name ⟨m.store, m.shared, .run (.request registry q c k) set, []⟩ := by
  obtain ⟨store, shared, threads⟩ := m
  cases ht
  rfl

theorem comesTo_lone : (lone name t).ComesTo lib registry e s x
    ↔ ∃ t', Turn.Comes lib ⟨0, name⟩ registry t t' ∧ t'.ending? = some e ∧ t'.store = s
      ∧ t'.shared = x := by
  constructor
  · rintro ⟨m', thread, hrun, hthreads, he, rfl, rfl⟩
    obtain ⟨t', hwalk, rfl⟩ := hrun.goes (by rw [hthreads]; rfl)
    cases hthreads
    exact ⟨t', hwalk, he, rfl, rfl⟩
  · rintro ⟨t', hwalk, he, rfl, rfl⟩
    exact ⟨_, _, .of_goes hwalk, rfl, he, rfl, rfl⟩

theorem ComesTo.unique (ht : m.threads = #[thread]) (h : m.ComesTo lib registry e s x)
    (h' : m.ComesTo lib registry e' s' x') : e' = e ∧ s' = s ∧ x' = x := by
  rw [eq_lone ht] at h h'
  obtain ⟨t, hwalk, he, rfl, rfl⟩ := comesTo_lone.mp h
  obtain ⟨t', hwalk', he', rfl, rfl⟩ := comesTo_lone.mp h'
  obtain rfl := hwalk.unique he hwalk' he'
  exact ⟨Option.some.inj (he'.symm.trans he), rfl, rfl⟩

/-- What a request comes to from an idle process, any other request for the
same record comes to. -/
theorem ComesTo.recast {c : Call} {k : Response → Program σ Value} {set : Setting σ}
    {q : Request} (hs : (m.turn thread).Steady registry 0) (hidle : (m.turn thread).holds 0 = [])
    (ht : m.threads = #[thread]) (q' : Request)
    (h : (m.asks registry q c k set).ComesTo lib registry e s x) :
    (m.asks registry q' c k set).ComesTo lib registry e s x
      ∧ ∀ r, e = .answered r → r.stage = .complete := by
  rw [asks_eq ht] at h ⊢
  obtain ⟨t', hwalk, he, rfl, rfl⟩ := comesTo_lone.mp h
  have hasked : Turn.Mirrors q q' k set ⟨m.store, m.shared, .run (.request registry q c k) set, []⟩
      ⟨m.store, m.shared, .run (.request registry q' c k) set, []⟩ := .asked rfl rfl rfl
  obtain ⟨u, hwalk', hm⟩ := Turn.Mirrors.comes hwalk he ⟨_, .refl, hasked⟩
    (fun _ => Turn.Steady.begins (a := ⟨0, thread.name⟩) hs hidle _ _)
    (fun _ => Turn.Steady.begins (a := ⟨0, thread.name⟩) hs hidle _ _)
  refine ⟨comesTo_lone.mpr ⟨u, hwalk', hm.ending_eq.trans he, hm.same.1, hm.same.2⟩, ?_⟩
  rintro r rfl
  exact hm.complete_of_ending he

end Machine

end TypeRecords
