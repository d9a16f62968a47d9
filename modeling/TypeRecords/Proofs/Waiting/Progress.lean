/-
Nobody waits in vain.

The setting of `Waiting/Quiescence.lean`, and callbacks that never wait: a
request that waits is made by a program outside of all calls. Then whatever a
thread wants is there when it looks (`Attentive.answered`), and it always has
a next step while it serves a request (`Attentive.enabled`).

A thread wants an entry in two places. A request that waits has found the
entry of its key; then the thread is in no other call, holds nothing, and
everything is finished. Or an initialization for such a request was stopped,
and wants what stopped it. It is the only one the thread holds. If its target
were not where it should be, the target would lead to a hold, and so back to
the initialization itself; but then the chain, which was followed just before,
would have closed (`Leads.without`).
-/
import TypeRecords.Proofs.Process.Handing
import TypeRecords.Proofs.Waiting.Quiescence

namespace TypeRecords

variable {σ : Type}

namespace Stage

/-- The last stage is enough for everyone. -/
theorem complete_satisfies (s : Stage) : complete.satisfies s = true := by
  cases s <;> rfl

end Stage

namespace Request

theorem settledBy_of (q : Request) {s : Stage} (h : q.waits = true → s.satisfies q.stage = true) :
    q.settledBy s = true := by
  unfold settledBy satisfiedBy
  cases hw : q.waits with
  | false => rfl
  | true => simpa using h hw

theorem settledBy_complete (q : Request) : q.settledBy .complete = true :=
  q.settledBy_of fun _ => q.stage.complete_satisfies

end Request

namespace Entry

/-- Whoever looks at an entry that settles the request gets an answer. -/
theorem look_answer {e : Entry} {record : RecordId} (hs : e.Sound) (hr : e.record = some record)
    (thread : ThreadId) {q : Request} (hq : q.settledBy e.stage = true) :
    e.look thread q = .answer ⟨record, e.stage⟩ := by
  unfold look
  rw [hs.snapshot hr, Option.filter_some, if_pos hq]

/-- An answer settles the request. -/
theorem settled_of_look {e : Entry} {thread : ThreadId} {q : Request} {x : Response}
    (h : e.look thread q = .answer x) : q.settledBy x.stage = true := by
  unfold look at h
  split at h
  · rename_i r hr
    cases h
    exact (Option.filter_eq_some_iff.mp hr).2
  · split at h
    · cases h
    · split at h
      · cases h
        assumption
      · split at h <;> cases h

end Entry

namespace Turn

variable {lib : Library σ} {a : Actor} {t t' : Turn σ} {registry : RegistryId} {i : ThreadId}

-- ====================================================== what a thread keeps up

/-- What a thread keeps up that is alone and whose callbacks never wait. -/
structure Attentive (registry : RegistryId) (i : ThreadId) (t : Turn σ) : Prop where
  steady : t.Steady registry i
  outermost : t.Stacked (Outermost i)
  fits : t.Fits
  /-- What it waits for is there. -/
  seen : ∀ r e q, t.control = .await r e q →
    ∃ x, t.store.entries[e]? = some x ∧ (q.waits = true → x.stage.satisfies q.stage = true)

/-- A thread that holds nothing finds everything finished. -/
theorem Steady.complete_of_idle (hs : t.Steady registry i) (hidle : t.holds i = []) {j : EntryId}
    {e : Entry} (he : t.store.entries[j]? = some e) : e.stage = .complete := by
  by_cases hc : e.stage = .complete
  · exact hc
  · have hlead := hs.led j e he hc
    rw [hidle] at hlead
    exact hlead.not_nil.elim

/-- What stopped an initialization that is the only one held is there, unless
the chain of it closes. -/
theorem Steady.target_there {d : Drive} {dep : Dependency} (hs : t.Steady registry i)
    (hholds : t.holds i = [.stopping i d (some dep)])
    (hcycle : t.store.cycle? d.registry d.record dep = none) {e : EntryId} {x : Entry}
    (he : t.store.entryOf? d.registry dep.target = some e) (hx : t.store.entries[e]? = some x) :
    x.stage.satisfies dep.required = true := by
  by_cases hsat : x.stage.satisfies dep.required = true
  · exact hsat
  · have ho := hs.owned
    rw [hholds] at ho
    obtain ⟨own, hown, hdriven, -⟩ := ho.fits List.mem_cons_self
    have hreg : d.registry = registry := by
      rw [← hdriven.registry]
      exact hs.sole.entry_registry hown
    rw [hreg] at hcycle he
    have hu : x.stage ≠ .complete := fun hcomp => hsat (by
      rw [hcomp]
      exact dep.required.complete_satisfies)
    have hlead := hs.led e x hx hu
    rw [hholds] at hlead
    have hunsat : x.satisfies dep.required = false := by
      unfold Entry.satisfies
      rw [Bool.eq_false_iff.mpr hsat, Bool.and_false]
    exact (hlead.without ho hs.sole hs.unstranded hown hdriven.record
      (Option.map_eq_none_iff.mp hcycle) he hx hunsat).not_nil.elim

namespace Attentive

/-- In particular where an initialization is about to wait. -/
theorem target_there {d : Drive} {dep : Dependency} (hs : t.Attentive registry i)
    (hc : t.control = .stopped d dep) (hwaits : d.request.waits = true)
    (hcycle : t.store.cycle? d.registry d.record dep = none) {e : EntryId} {x : Entry}
    (he : t.store.entryOf? d.registry dep.target = some e) (hx : t.store.entries[e]? = some x) :
    x.stage.satisfies dep.required = true := by
  refine hs.steady.target_there ?_ hcycle he hx
  rw [holds_of_control hc, hs.outermost.1 d.request (by rw [hc]; rfl) hwaits]
  rfl

/-- One step, orderly and polite, keeps it up. -/
theorem step (h : t.step lib a = some t') (hs : t.Attentive registry a.id)
    (hord : t.orderly registry = true) (hpol : t.polite = true)
    (hcalm' : t'.control.disturbed = false) : t'.Attentive registry a.id := by
  have hsteady := Steady.step h hs.steady hord hcalm'
  have hmoves := step_moves h
  refine ⟨hsteady, hmoves.outermost hord hpol hcalm' hs.outermost,
    hs.fits.step h (calm_of_orderly hord) hcalm', fun r e q hc' => ?_⟩
  cases hmoves with
  | stay hf hd hno => exact (Control.ne_await hno r e q hc').elim
  | back hf hd howes hno => exact (Control.ne_await hno r e q hc').elim
  | deeper hf hn hd hd' hno => exact (Control.ne_await hno r e q hc').elim
  | layout hc hf hd hno => exact (Control.ne_await hno r e q hc').elim
  | aside fs hf hfree hd => rw [hc'] at hd; cases hd
  | instantiate hc hf hal hd => rw [hc'] at hd; cases hd
  | disturbed hd => simp [calm_of_orderly hord, hcalm'] at hd
  | request hc hf hd hlook =>
      obtain ⟨rfl, hlt, ha⟩ := hlook r e q hc'
      have hget : t'.store.entries[e]? = some t.store.entries[e] := by
        rw [ha.entries]
        exact Array.getElem?_eq_getElem hlt
      refine ⟨_, hget, fun hw => ?_⟩
      rcases polite_request hpol hc with hempty | hpoll
      · have hidle : t'.holds a.id = [] := by
          rw [holds_of_control hc', hf, hempty]
          rfl
        rw [hsteady.complete_of_idle hidle hget]
        exact q.stage.complete_satisfies
      · rw [hpoll] at hw
        cases hw
  | look hf hn hd hasked hcl he ha hw =>
      rw [hc'] at hcl
      cases hcl
      obtain ⟨x, hx, -⟩ := Store.entryOf?_some he
      refine ⟨x, by rw [ha.entries]; exact hx, fun hwaits => ?_⟩
      obtain ⟨d, dep, hc, rfl, rfl, hreq, hdw, hcycle⟩ := hw hwaits
      exact hreq ▸ hs.target_there hc hdw hcycle he hx

theorem program {p p' : Program σ Value} {s : Setting σ} (hs : t.Attentive registry i)
    (hc : t.control = .run p s) (hp : Machine.Resumes p p') (hstore : t'.store = t.store)
    (hc' : t'.control = .run p' s) (hf : t'.frames = t.frames) : t'.Attentive registry i := by
  refine ⟨hs.steady.program hc hstore hc' hf, ⟨?_, hf ▸ hs.outermost.2⟩,
    hs.fits.program hc hp hc' hf, fun r e q hno => ?_⟩
  · rw [hc']
    exact fun q hq => by cases hq
  · rw [hc'] at hno
    cases hno

-- ====================================================== what it comes to

/-- Whoever waits for an entry is answered at once. -/
theorem answered {r : RegistryId} {e : EntryId} {q : Request} (hs : t.Attentive registry i)
    (hc : t.control = .await r e q) : ∃ x y, t.store.entries[e]? = some x
      ∧ x.look i q = .answer y ∧ q.settledBy y.stage = true := by
  obtain ⟨x, hx, hsat⟩ := hs.seen r e q hc
  have hq := q.settledBy_of hsat
  cases hr : x.record with
  | none => exact (hs.steady.record_of_asked (by rw [hc]; rfl) (by rw [hc]; nofun) hx hr).elim
  | some record => exact ⟨x, _, hx, Entry.look_answer (hs.steady.owned.sound hx) hr i hq, hq⟩

/-- Work on an entry, a request or a layout can go on. -/
theorem busy_enabled (hs : t.Attentive registry a.id) (hbusy : t.control.duty ≠ .free) :
    (t.step lib a).isSome = true := by
  have ho := hs.steady.owned
  unfold Turn.step
  cases hc : t.control with
  | await r e q =>
      obtain ⟨x, y, hx, hy, -⟩ := hs.answered hc
      simp only [await]
      rw [hx]
      simp only
      rw [hy]
      rfl
  | begin d =>
      have hm : .active a.id d ∈ t.holds a.id := mem_holds_of_control hc List.mem_cons_self
      obtain ⟨e, he, hd, -⟩ := ho.fits hm
      obtain ⟨r, hr, hk⟩ := Option.bind_eq_some_iff.mp (ho.keyed he hd.record)
      simp only [begin]
      split
      · rename_i hnone
        cases hr.symm.trans hnone
      · rename_i r' hr'
        obtain rfl := Option.some.inj (hr.symm.trans hr')
        split
        · rename_i hfixed
          unfold Record.key? at hk
          rw [hfixed] at hk
          cases hk
        · rfl
        · split <;> rfl
  | publish d o =>
      have hm : .concluding a.id d o ∈ t.holds a.id := mem_holds_of_control hc List.mem_cons_self
      obtain ⟨e, he, -⟩ := ho.fits hm
      simp only [publish]
      split
      · rename_i hnone
        cases Eq.trans he.symm hnone
      · rfl
  | enqueue d dep =>
      have hm : .leaving d dep ∈ t.holds a.id := mem_holds_of_control hc List.mem_cons_self
      obtain ⟨e, he, -⟩ := ho.fits hm
      simp only [enqueue]
      split
      · rfl
      · split
        · rename_i hnone
          cases Eq.trans he.symm hnone
        · split <;> rfl
  | allocated al => rfl
  | lay w => rfl
  | measure w => rfl
  | release d dep ready => rfl
  | stopped d dep => rfl
  | run p s => exact (hbusy (by rw [hc]; rfl)).elim
  | give v left => exact (hbusy (by rw [hc]; rfl)).elim
  | unwind f => exact (hbusy (by rw [hc]; rfl)).elim
  | acquire j arguments => exact (hbusy (by rw [hc]; rfl)).elim
  | standBy j heard => exact (hbusy (by rw [hc]; rfl)).elim
  | report r hooks policy => exact (hbusy (by rw [hc]; rfl)).elim
  | ended => exact (hbusy (by rw [hc]; rfl)).elim

/-- An outcome of work for a request is taken. -/
theorem taken {v : Value} {left : Local} {f : Frame σ} {below : List (Frame σ)}
    (hs : t.Attentive registry a.id) (hc : t.control = .give v left)
    (hf : t.frames = f :: below) (hbusy : f.duty ≠ .free) : (t.step lib a).isSome = true := by
  have huse : f.Uses v left := by
    have hmakes := hs.fits.control
    rw [hc, hf] at hmakes
    exact hmakes
  unfold Turn.step
  rw [hc]
  unfold Turn.give
  rw [hf]
  cases f with
  | forResponse k s => cases v <;> first | rfl | exact huse.elim
  | forLayout k s => cases v <;> cases left <;> first | rfl | exact huse.elim
  | stepping d => cases v <;> first | rfl | exact huse.elim
  | laying w => cases v <;> first | rfl | exact huse.elim
  | measuring w => cases v <;> first | rfl | exact huse.elim
  | allocating al => rfl
  | relying d => rfl
  | releasing d dep rest => rfl
  | forTable k s => exact (hbusy rfl).elim
  | forRecord k s => exact (hbusy rfl).elim
  | filling j => exact (hbusy rfl).elim
  | founding j => exact (hbusy rfl).elim
  | reporting r rest policy => exact (hbusy rfl).elim

end Attentive

/-- The thread serves a request: it is in the middle of something it was asked
for, or has come to an outcome of that. A program that runs on the way, and what
it does about witness tables and foreign names, is not part of it. -/
def Serves (t : Turn σ) : Prop :=
  t.control.duty ≠ .free
    ∨ ∃ v left f below, t.control = .give v left ∧ t.frames = f :: below ∧ f.duty ≠ .free

/-- A thread that serves a request can go on. -/
theorem Attentive.enabled (hs : t.Attentive registry a.id) (hserves : t.Serves) :
    (t.step lib a).isSome = true := by
  rcases hserves with hbusy | ⟨v, left, f, below, hc, hf, hbusy⟩
  · exact hs.busy_enabled hbusy
  · exact hs.taken hc hf hbusy

end Turn

namespace Machine

variable {lib : Library σ} {start m m' : Machine σ} {registry : RegistryId} {thread : Thread σ}

/-- The process has one thread, and its next step is orderly and polite. -/
abbrev Courteous (registry : RegistryId) (m : Machine σ) : Prop :=
  m.Alone fun t => t.orderly registry = true ∧ t.polite = true

theorem Fresh.attentive (hf : start.Fresh) (registry : RegistryId)
    (ht : start.threads = #[thread]) : (start.turn thread).Attentive registry 0 := by
  have hm : thread ∈ start.threads := by
    rw [ht]
    exact Array.mem_singleton.mpr rfl
  obtain ⟨hfs, p, s, hc⟩ := hf.running thread hm
  refine ⟨hf.steady registry ht, ⟨?_, ?_⟩, hf.fits hm, ?_⟩
  · show Turn.Outermost 0 thread.control.duty thread.frames
    rw [hc]
    exact fun q hq => by cases hq
  · intro above f below habove
    have habove' : thread.frames = above ++ f :: below := habove
    rw [hfs] at habove'
    simp at habove'
  · intro r e q hno
    have hno' : thread.control = .await r e q := hno
    rw [hc] at hno'
    cases hno'

/-- A thread that is alone keeps it up as long as its steps are orderly and
polite and nothing is about to unwind. -/
theorem Run.attentive (hf : start.Fresh) (h : Run lib (fun m _ => m.Courteous registry) start m)
    (ht : m.threads = #[thread]) (hcalm : thread.control.disturbed = false) :
    (m.turn thread).Attentive registry 0 := by
  refine h.alone (P := fun t => t.control.disturbed = false → t.Attentive registry 0)
    (fun thread ht _ => hf.attentive registry ht) (fun hP hg hs hcalm' => ?_)
    (fun hP hg hc hp hstore hc' hframes _ => ?_) ht hcalm
  · exact Turn.Attentive.step hs (hP (Turn.calm_of_orderly hg.1)) hg.1 hg.2 hcalm'
  · exact (hP (Turn.calm_of_orderly hg.1)).program hc hp hstore hc' hframes

end Machine

end TypeRecords
