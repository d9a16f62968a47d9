/-
Where a thread waits for itself.

The setting of `Waiting/Quiescence.lean`, but callbacks may wait. A callback
that waits for a record which is not as it wants it waits for something its own
thread has begun: from any unfinished entry one comes, over the queues, to an
initialization in the hands of the thread. Whether this is noticed depends on
one thing alone (`Run.caught_or_stuck`).

- If the thread runs the initialization of that very record, in whichever
  frame, it reports the reentrance.
- If the initialization is parked there is nobody left to let it go, and the
  thread never takes another step. No chain of dependencies is followed for a
  request, so no cycle is reported, not even if the record is parked on one
  whose initialization the thread runs (`circle_stuck`).
-/
import TypeRecords.Proofs.Ownership.Single
import TypeRecords.Proofs.Requests.Returning
import TypeRecords.Proofs.Waiting.Rings

namespace TypeRecords

variable {σ : Type}

-- ====================================================== looking in vain

namespace Entry

/-- Whoever looks at an entry that does not settle the request has to wait,
unless it would be for its own work. -/
theorem look_unsettled {e : Entry} {record : RecordId} (hs : e.Sound) (hr : e.record = some record)
    (thread : ThreadId) {q : Request} (hq : q.settledBy e.stage = false) :
    e.look thread q = if e.initializer = some thread then .ownWork record else .wait := by
  unfold look
  rw [hs.snapshot hr, hr, Option.filter_some]
  simp [hq]

end Entry

/-- A request that waits is not settled by a stage that is not enough. -/
theorem Request.settledBy_of_waits {q : Request} {s : Stage} (hw : q.waits = true)
    (hu : s.satisfies q.stage = false) : q.settledBy s = false := by
  unfold settledBy satisfiedBy
  rw [hw, hu]
  rfl

namespace Store

variable {s : Store} {H : List Hold} {i : EntryId}

/-- What leads to a hold is held, or waits on a queue. -/
theorem Leads.holders (h : s.Leads H i) : 1 ≤ s.holders H i := by
  cases h with
  | held hm => exact holders_pos_of_mem hm
  | parked he hw h =>
      have hpos : 0 < s.waiting.count _ := List.count_pos_iff.mpr (mem_waiting he hw)
      unfold Store.holders
      omega

end Store

namespace Turn

variable {lib : Library σ} {a : Actor} {t t' : Turn σ} {i : EntryId}

/-- A request for an entry that is there comes to want it, unless it is refused
for the number of its arguments. -/
theorem request_wants {registry : RegistryId} {q : Request} {c : Call}
    {k : Response → Program σ Value} {s : Setting σ} (hi : t.store.sought? registry c = some i)
    (h : t.run lib a (.request registry q c k) s = some t')
    (hcalm : t'.control.disturbed = false) :
    t'.control = .await registry i q ∧ t'.store.entries = t.store.entries
      ∧ t'.store.records = t.store.records ∧ t'.store.halted = t.store.halted := by
  -- what a call that may make a record is about is found by its key
  have hfound : ∀ {c : Call} {key : Key} {record : Record},
      t.store.sought? registry c = some i → c.Makes lib key record →
      t.store.find? registry key = some i := fun hi hmakes => by
    rwa [Store.sought?_of_key (key?_of_makes hmakes)] at hi
  cases request_cases h with
  | check =>
      have hkept : t.store.entryOf? registry _ = some i := hi
      unfold consult
      rw [hkept]
      exact ⟨rfl, rfl, rfl, rfl⟩
  | empty => cases hi
  | miscount => cases hcalm
  | hit hmakes hhit =>
      cases (hfound hi hmakes).symm.trans hhit
      exact ⟨rfl, rfl, rfl, rfl⟩
  | create hmakes hnone => cases (hfound hi hmakes).symm.trans hnone
  | instantiate hd hin hmakes hnone => cases (hfound hi hmakes).symm.trans hnone

/-- Whoever runs an entry by what a thread holds is that thread. -/
theorem runner_eq {hold : Hold} {j u : ThreadId} (hm : hold ∈ t.holds u)
    (hr : hold.runner? = some j) : j = u := by
  have hcontrol : ∀ c : Control σ, hold ∈ c.holds u → j = u := by
    intro c hm
    cases c <;> simp only [Control.holds, List.mem_cons, List.mem_map, List.not_mem_nil,
      or_false] at hm
    case release d dep ready =>
      rcases hm with rfl | ⟨w, -, rfl⟩
      · exact (Option.some.inj hr).symm
      · cases hr
    all_goals first
      | exact hm.elim
      | subst hm; first | exact (Option.some.inj hr).symm | cases hr
  have hframe : ∀ f : Frame σ, hold ∈ f.holds u → j = u := by
    intro f hm
    cases f <;> simp only [Frame.holds, List.mem_cons, List.mem_map, List.not_mem_nil,
      or_false] at hm
    case releasing d dep rest =>
      rcases hm with rfl | ⟨w, -, rfl⟩
      · exact (Option.some.inj hr).symm
      · cases hr
    all_goals first
      | exact hm.elim
      | subst hm; first | exact (Option.some.inj hr).symm | cases hr
  rcases List.mem_append.mp hm with hm | hm
  · exact hcontrol _ hm
  · obtain ⟨f, -, hm⟩ := List.mem_flatMap.mp hm
    exact hframe f hm

/-- A fault that is raised is reported. -/
theorem raiseIn_report (t : Turn σ) (a : Actor) (registry : RegistryId) (fault : Fault) :
    ∃ report limit policy,
      (t.raiseIn a registry fault).control = .report report t.store.hooks policy
        ∧ report.message = fault.diagnostic t.store.records limit :=
  ⟨_, _, _, rfl, rfl⟩

/-- Where nothing settles the request a thread reports the reentrance, or has
no step. -/
theorem await_unsettled {registry : RegistryId} {q : Request} {e : Entry} {record : RecordId}
    (hx : t.store.entries[i]? = some e) (hs : e.Sound) (hr : e.record = some record)
    (hq : q.settledBy e.stage = false) :
    t.await a registry i q = if e.initializer = some a.id
      then some (t.raiseIn a registry (.reentrant (t.store.records.display record))) else none := by
  unfold await
  rw [hx]
  simp only [e.look_unsettled hs hr a.id hq]
  split
  · rename_i hlook
    split at hlook <;> cases hlook
  · rename_i hlook
    split at hlook <;> cases hlook
    rename_i hown
    rw [if_pos hown]
  · rename_i hlook
    split at hlook
    · cases hlook
    · rename_i hother
      rw [if_neg hother]

end Turn

-- ====================================================== processes with one thread

namespace Machine

variable {lib : Library σ} {start m m' : Machine σ} {registry : RegistryId}
  {thread thread' : Thread σ} {i : EntryId} {e : Entry}

/-- No thread has a next step. -/
def Stuck (lib : Library σ) (m : Machine σ) : Prop := ∀ t, m.step lib t = none

theorem stuck_of_single (hsize : m.threads.size = 1) (h : m.step lib 0 = none) : m.Stuck lib := by
  intro t
  by_cases ht : t = 0
  · exact ht ▸ h
  · have hnone : m.threads[t]? = none :=
      Array.getElem?_eq_none (hsize ▸ Nat.one_le_iff_ne_zero.mpr ht)
    unfold step
    rw [hnone]
    split <;> rfl

theorem holds_of_single (ht : m.threads = #[thread]) : m.holds = (m.turn thread).holds 0 := by
  unfold holds
  rw [ht]
  exact List.append_nil _

theorem after_single (ht : m.threads = #[thread]) (turn : Turn σ) :
    (m.after 0 turn).threads
      = #[{ thread with control := turn.control, frames := turn.frames }] := by
  unfold after
  rw [ht]
  rfl

/-- An entry that is run is run by the only thread. -/
theorem Active.initializer_eq (ha : m.Active i e) (ht : m.threads = #[thread]) :
    e.initializer = some 0 := by
  obtain ⟨t, hrun, hinit⟩ := ha.runner
  obtain ⟨hold, hm, hr⟩ := List.mem_filterMap.mp (hrun ▸ List.mem_singleton.mpr rfl)
  rw [mem_holdsOn, holds_of_single ht] at hm
  rw [hinit, Turn.runner_eq hm.1 hr]

/-- A request that waits within a callback. One thread, whose steps keep to one
registry, request nothing while a record is being instantiated and do not
unwind, is about to request a record that is kept and has not reached the stage
that is asked for; the request waits. Then it wants the record's entry, which
leads to an initialization in the hands of the thread, and

- either the thread runs that entry's initialization, in one place, and what it
  does next is to report the reentrance;
- or the initialization is parked, and the process is stuck. -/
theorem Run.caught_or_stuck {r : RegistryId} {q : Request} {c : Call}
    {k : Response → Program σ Value} {s : Setting σ} (hf : start.Fresh)
    (h : Run lib (fun m _ => m.Orderly registry) start m) (ht : m.threads = #[thread])
    (hord : m.Orderly registry) (hc : thread.control = .run (.request r q c k) s)
    (hw : q.waits = true) (hi : m.store.sought? r c = some i)
    (he : m.store.entries[i]? = some e) (hu : e.stage.satisfies q.stage = false)
    (hs : m.step lib 0 = some m') (ht' : m'.threads = #[thread'])
    (hcalm : thread'.control.disturbed = false) :
    thread'.control = .await r i q ∧ m.store.Leads m.holds i
      ∧ Xor
        (m.Active i e ∧ ∃ m'' thread'' report limit hooks policy record,
          m'.step lib 0 = some m'' ∧ m''.threads = #[thread'']
          ∧ thread''.control = .report report hooks policy ∧ e.record = some record
          ∧ report.message
            = (Fault.reentrant (m.store.records.display record)).diagnostic m.store.records limit)
        (m.Suspended i e ∧ m'.Stuck lib) := by
  have ho := h.reachable.owned hf
  have hsteady := h.steady hf ht (by rw [hc]; rfl)
  have hsteady' := (h.step 0 hord hs).steady hf ht' hcalm
  have hat' : m'.threads[0]? = some thread' := by rw [ht']; rfl
  obtain ⟨hhalt, -⟩ := step_cases hs
  have hturn : (m.turn thread).run lib ⟨0, thread.name⟩ (.request r q c k) s
      = some (m'.turn thread') := by
    rcases step_single hs ht ht' with hturn | ⟨p, p', s', hc', hp, -⟩
    · unfold Turn.step Machine.turn at hturn
      rw [hc] at hturn
      exact hturn
    · rw [hc] at hc'
      cases hc'
      cases hp
  obtain ⟨hwants, hentries, hrecords, hhalted⟩ := Turn.request_wants hi hturn hcalm
  have hwants' : thread'.control = .await r i q := hwants
  have he' : m'.store.entries[i]? = some e := by
    rw [show m'.store.entries = m.store.entries from hentries]
    exact he
  -- the record is there: nothing is allocated below the request
  obtain ⟨record, hrec⟩ : ∃ record, e.record = some record :=
    Option.ne_none_iff_exists'.mp (hsteady'.record_of_asked (by rw [hwants]; rfl)
      (by rw [hwants]; nofun) he')
  have hunfinished : e.stage ≠ .complete := by
    intro hcomplete
    rw [hcomplete, q.stage.complete_satisfies] at hu
    cases hu
  have hleads : m.store.Leads m.holds i := by
    rw [holds_of_single ht]
    exact hsteady.led i e he hunfinished
  -- so what the thread does next is a matter of who the initializer is
  have hstep : m'.step lib 0 = _ :=
    step_alone (hhalted.trans hhalt) hat' (by rw [hwants']; nofun)
  have hnext : (m'.turn thread').step lib ⟨0, thread'.name⟩
      = (m'.turn thread').await ⟨0, thread'.name⟩ r i q := by
    unfold Turn.step
    rw [hwants]
  rw [hnext, Turn.await_unsettled he' (ho.sound he) hrec (Request.settledBy_of_waits hw hu)]
    at hstep
  refine ⟨hwants', hleads, ?_⟩
  rcases active_or_suspended ho he (hrec ▸ rfl) hunfinished
    (Nat.le_antisymm (ho.once i) hleads.holders) with hactive | hsuspended
  · refine .inl ⟨⟨hactive, ?_⟩, fun hboth => hactive.not_suspended hboth.1⟩
    rw [if_pos (hactive.initializer_eq ht), Option.map_some] at hstep
    obtain ⟨report, limit, policy, hreport, hmessage⟩ := Turn.raiseIn_report (m'.turn thread')
      ⟨0, thread'.name⟩ r (.reentrant (m'.store.records.display record))
    rw [show m'.store.records = m.store.records from hrecords] at hmessage
    exact ⟨_, _, report, limit, _, policy, record, hstep, after_single ht' _, hreport, hrec,
      hmessage⟩
  · refine .inr ⟨⟨hsuspended, stuck_of_single (by rw [ht']; rfl) ?_⟩,
      fun hboth => hboth.1.not_suspended hsuspended⟩
    rw [hstep, hsuspended.initializer, if_neg nofun]
    rfl

/-- Two types that wait for each other, in a way that does not work out: the
outer one requests the inner one, which is parked on the layout of the outer
one, and then waits for it. -/
def circle : Library Unit :=
  { bare with
    descriptors := #[
      { name := "Outer"
        kind := .struct
        parameters := 0
        fields := []
        layout := none
        words := []
        instantiate := none
        completion := some (.callback fun registry _ =>
          .request registry (.poll .complete) (.generic 1 []) fun _ =>
            .request registry .complete (.generic 1 []) fun _ => .done none) },
      { name := "Inner"
        kind := .struct
        parameters := 0
        fields := []
        layout := none
        words := []
        instantiate := none
        completion := some (.callback fun registry _ =>
          .request registry (.poll .abstract) (.generic 0 []) fun r =>
            .done (some ⟨r.record, .layoutComplete⟩)) }] }

/-- The process that requests the outer type, as its callback is about to wait
for the inner one. -/
private def circling : Machine Unit :=
  (launch .standard () (.request 0 .complete (.generic 0 []) fun _ => .done ())).walk circle 16

private theorem circling_run :
    Run circle (fun m _ => m.Orderly 0)
      (launch .standard () (.request 0 .complete (.generic 0 []) fun _ => .done ())) circling :=
  .walk (by decide +kernel)

/-- The inner type is parked when the callback of the outer one waits for it. -/
theorem caught_or_stuck_circle :
    ∃ (start m m' : Machine Unit) (thread thread' : Thread Unit) (e : Entry), start.Fresh
      ∧ Run circle (fun m _ => m.Orderly 0) start m ∧ m.threads = #[thread] ∧ m.Orderly 0
      ∧ (∃ k s, thread.control = .run (.request 0 .complete (.generic 1 []) k) s)
      ∧ Request.complete.waits = true ∧ m.store.sought? 0 (.generic 1 []) = some 1
      ∧ m.store.entries[1]? = some e ∧ e.stage.satisfies Request.complete.stage = false
      ∧ m.step circle 0 = some m' ∧ m'.threads = #[thread']
      ∧ thread'.control = .await 0 1 .complete ∧ m.store.Leads m.holds 1
      ∧ Xor
        (m.Active 1 e ∧ ∃ m'' thread'' report limit hooks policy record,
          m'.step circle 0 = some m'' ∧ m''.threads = #[thread'']
          ∧ thread''.control = .report report hooks policy ∧ e.record = some record
          ∧ report.message
            = (Fault.reentrant (m.store.records.display record)).diagnostic m.store.records limit)
        (m.Suspended 1 e ∧ m'.Stuck circle) := by
  have hasks : circling.threads.size = 1 ∧ circling.Orderly 0
      ∧ (∀ thread ∈ circling.threads,
        thread.control.call? = some (0, .complete, .generic 1 []))
      ∧ circling.store.sought? 0 (.generic 1 []) = some 1
      ∧ (circling.store.entries[1]?).map (fun e => e.stage.satisfies .complete) = some false := by
    decide +kernel
  have hwants : (circling.step circle 0).isSome = true ∧ (circling.walk circle 1).threads.size = 1
      ∧ ∀ thread ∈ (circling.walk circle 1).threads, thread.control.disturbed = false := by
    decide +kernel
  obtain ⟨hone, hord, hcall, hi, hentry⟩ := hasks
  obtain ⟨hsome, hone', hcalm⟩ := hwants
  obtain ⟨thread, ht, hcalled⟩ := single_thread hone hcall
  obtain ⟨thread', ht', hcalm'⟩ := single_thread hone' hcalm
  obtain ⟨k, s, hc⟩ := Control.request_of_call hcalled
  obtain ⟨e, he, hu⟩ := Option.map_eq_some_iff.mp hentry
  have hs := step_walk hsome
  obtain ⟨hwanted, hleads, hcases⟩ := Run.caught_or_stuck (fresh_launch _ () _) circling_run ht hord
    hc rfl hi he hu hs ht' hcalm'
  exact ⟨_, circling, _, thread, thread', e, fresh_launch _ () _, circling_run, ht, hord,
    ⟨k, s, hc⟩, rfl, hi, he, hu, hs, ht', hwanted, hleads, hcases⟩

/-- A circle that nobody notices. The thread runs a step of the outer type, the
inner type is parked on the layout of the outer one, which is not there yet,
and the callback of the outer type waits for the inner one: the process is
stuck, and nothing is reported. -/
theorem circle_stuck :
    ∃ (start m : Machine Unit) (thread : Thread Unit) (outer inner : Entry), start.Fresh
      ∧ Run circle (fun m _ => m.Orderly 0) start m ∧ m.threads = #[thread]
      ∧ thread.Completes 0 ∧ (∃ r, thread.control = .await r 1 .complete)
      ∧ m.store.entries[1]? = some inner ∧ inner.stage = .abstract ∧ inner.saved.isSome
      ∧ m.store.WaitsFor 1 0
      ∧ m.store.entries[0]? = some outer ∧ outer.initializer = some 0
      ∧ m.Stuck circle := by
  have hwaits : (circling.walk circle 1).threads.size = 1
      ∧ ((circling.walk circle 1).step circle 0).isNone = true
      ∧ (∀ thread ∈ (circling.walk circle 1).threads,
        thread.control.wants? = some (1, .complete)
          ∧ ∃ f ∈ thread.frames, f.completes? = some 0)
      ∧ ((circling.walk circle 1).store.entries[0]?).map (·.initializer) = some (some 0)
      ∧ ((circling.walk circle 1).store.entries[1]?).map
          (fun e => (e.registry, e.stage, e.saved.isSome, e.blockedOn))
        = some (0, .abstract, true, some ⟨10, .layoutComplete⟩)
      ∧ (circling.walk circle 1).store.entryOf? 0 10 = some 0
      ∧ (circling.walk circle 1).store.Below 0 ⟨10, .layoutComplete⟩ := by
    decide +kernel
  obtain ⟨hone, hstuck, hthread, houter, hinner, hfound, hbelow⟩ := hwaits
  obtain ⟨thread, ht, hwants, hcompletes⟩ := single_thread hone hthread
  obtain ⟨r, hc⟩ := Control.await_of_wants hwants
  obtain ⟨outer, ho, hinit⟩ := Option.map_eq_some_iff.mp houter
  obtain ⟨inner, hi, hshape⟩ := Option.map_eq_some_iff.mp hinner
  obtain ⟨hregistry, hstage, hsaved, hblocked⟩ : inner.registry = 0 ∧ inner.stage = .abstract
      ∧ inner.saved.isSome = true ∧ inner.blockedOn = some ⟨10, .layoutComplete⟩ := by
    simpa using hshape
  exact ⟨_, circling.walk circle 1, thread, outer, inner, fresh_launch _ () _,
    circling_run.step 0 (by decide +kernel) (step_walk (by decide +kernel)), ht, .inr hcompletes,
    ⟨r, hc⟩, hi, hstage, hsaved,
    ⟨inner, _, hi, hblocked, hregistry ▸ hfound, hregistry ▸ hbelow⟩, ho, hinit,
    stuck_of_single hone (Option.isNone_iff_eq_none.mp hstuck)⟩

end Machine

end TypeRecords
