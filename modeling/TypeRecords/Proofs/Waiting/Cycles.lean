/-
What a reported cycle is worth.

A thread that is stopped by a dependency follows its chain, and raises a fault
if the chain closes. The chain compares targets before it looks at stages, so
whether it is a deadlock depends on its last link alone: all links before it
have a target that was asked what it waits for, and only a target below the
required stage has an answer. The last link was compared and not asked.

# When the last link is satisfied

Then the record before it is not parked. Parked on a queue, it would be parked
on the queue of the last link's target; that target waits for something
itself, since it is the start of the chain or a target in the middle of it;
and the queue of an entry that waits has no stranded waiters. So it has been
let go, or is being completed, and what it last stopped on is out of date.
The report blames a wait that is over.
-/
import TypeRecords.Proofs.Waiting.Chain
import TypeRecords.Proofs.Waiting.Stranded

namespace TypeRecords

variable {σ : Type}

namespace Store

variable {s : Store} {H : List Hold} {registry : RegistryId}

/-- The target of a link is below what the link needs. -/
def Below (s : Store) (registry : RegistryId) (link : Dependency) : Prop :=
  (s.stageOf registry link.target).satisfies link.required = false

instance (s : Store) (registry : RegistryId) (link : Dependency) :
    Decidable (s.Below registry link) := inferInstanceAs (Decidable (_ = _))

/-- No initialization of the record is parked on a queue. -/
def Unparked (s : Store) (registry : RegistryId) (record : RecordId) : Prop :=
  ∀ i, s.entryOf? registry record = some i → i ∉ s.waiting

/-- A target that is asked what it waits for, and has an answer, is below what
is needed. -/
theorem Owned.below_of_blocker {link next : Dependency} (ho : s.Owned H)
    (h : s.blockerOf? registry link = some next) : s.Below registry link := by
  obtain ⟨i, e, hi, he, -, hu, -⟩ := blockerOf?_some h
  unfold Below
  rw [stageOf_entry hi he (ho.sound he)]
  exact hu

/-- If a record waits for something that is there, on a target that waits
itself, then it is not parked. -/
theorem Owned.unparked {link next : Dependency} {q : EntryId} {target : Entry} (ho : s.Owned H)
    (hf : s.Fair) (h : s.blockerOf? registry link = some next)
    (hq : s.entryOf? registry next.target = some q) (ht : s.entries[q]? = some target)
    (hb : target.blockedOn ≠ none) (hn : ¬ s.Below registry next) :
    s.Unparked registry link.target := by
  intro i hi hw
  obtain ⟨i', e, hi', he, -, -, hnext⟩ := blockerOf?_some h
  obtain rfl := Option.some.inj (hi.symm.trans hi')
  -- parked, it would be parked where the next link leads
  obtain ⟨queue, qe, w, hqe, hmem, hwe⟩ := of_mem_waiting hw
  obtain ⟨x, parked, hx, -, hxb, hxq⟩ := ho.parked hqe hmem
  rw [hwe] at hx
  obtain rfl := Option.some.inj (he.symm.trans hx)
  obtain rfl := Option.some.inj (hnext.symm.trans hxb)
  obtain ⟨y, hy, hreg, -⟩ := entryOf?_some hi
  obtain rfl := Option.some.inj (he.symm.trans hy)
  rw [hreg, hq] at hxq
  obtain rfl := Option.some.inj hxq
  obtain rfl := Option.some.inj (ht.symm.trans hqe)
  -- and there nobody is stranded
  refine hf q target ht hb ⟨w, hmem, ?_⟩
  have hrec : target.record.isSome := by
    cases hr : target.record with
    | none => exact absurd ((ho.sound ht).blank hr).2.1 hb
    | some record => rfl
  unfold Below at hn
  rw [stageOf_entry hq ht (ho.sound ht), Bool.not_eq_false] at hn
  unfold Entry.satisfies
  rw [hrec, hn]
  rfl

end Store

-- ====================================================== reports

/-- What the report of a cycle says, and when it is a deadlock. `first` is
what the start of the chain stopped on. -/
structure Cycle.Reported (s : Store) (registry : RegistryId) (first : Dependency) (c : Cycle) :
    Prop where
  head : c.links.head? = some first
  /-- Each link is what the target of the link before it waits for, and all
  links but the last are below what they need. -/
  linked : ∀ i x y, c.links[i]? = some x → c.links[i + 1]? = some y →
    s.blockerOf? registry x = some y ∧ s.Below registry x
  /-- The last link leads back. -/
  closes : ∃ closing, c.links.getLast? = some closing
    ∧ (closing.target = c.start ∨ closing.target ∈ c.links.dropLast.map (·.target))
  /-- The chain is a deadlock exactly when its last link is. -/
  deadlock : (∀ link ∈ c.links, s.Below registry link)
    ↔ ∀ closing, c.links.getLast? = some closing → s.Below registry closing
  /-- If it is not, the start waits for itself, or the record before the last
  link is not parked on anything any more. -/
  stale : ∀ closing, c.links.getLast? = some closing → ¬ s.Below registry closing →
    c.links = [⟨c.start, closing.required⟩]
      ∨ ∃ before, c.links.dropLast.getLast? = some before ∧ s.Unparked registry before.target

/-- A reported chain that has no more than three links to go through has all of them, if
it does not close before. -/
theorem Cycle.Reported.links_of_three {s : Store} {registry : RegistryId} {c : Cycle}
    {first second third : Dependency} (h : c.Reported s registry first)
    (hone : s.blockerOf? registry first = some second)
    (htwo : s.blockerOf? registry second = some third)
    (hthree : s.blockerOf? registry third = none) (hstart : first.target ≠ c.start)
    (hopen : second.target ≠ c.start ∧ second.target ≠ first.target) :
    c.links = [first, second, third] := by
  obtain ⟨start, links⟩ := c
  obtain ⟨hhead, hlinked, ⟨closing, hclosing, hback⟩, -, -⟩ := h
  -- the chain is taken apart link by link; where it is too short, it does not close
  match links with
  | [] => cases hhead
  | [x] =>
      cases hhead
      cases hclosing
      simp [hstart] at hback
  | x :: y :: rest =>
      cases hhead
      obtain rfl := Option.some.inj (hone.symm.trans (hlinked 0 _ _ rfl rfl).1)
      match rest with
      | [] =>
          cases hclosing
          simp [hopen.1, hopen.2] at hback
      | [z] =>
          obtain rfl := Option.some.inj (htwo.symm.trans (hlinked 1 _ _ rfl rfl).1)
          rfl
      | z :: w :: more =>
          obtain rfl := Option.some.inj (htwo.symm.trans (hlinked 1 _ _ rfl rfl).1)
          cases hthree.symm.trans (hlinked 2 _ _ rfl rfl).1

namespace Store

variable {s : Store} {H : List Hold} {t : ThreadId} {d : Drive} {dep : Dependency}

/-- A target in a chain that closes waits for something itself. -/
private theorem closing_blocked (ho : s.Owned H) (hstop : .stopping t d (some dep) ∈ H)
    {links before : List Dependency} {closing : Dependency}
    (hlinks : (s.waits d.registry).Links links) (hsplit : links = before ++ [closing])
    (hclose : closing.target = d.record ∨ closing.target ∈ before.map (·.target)) :
    ∃ q target, s.entryOf? d.registry closing.target = some q ∧ s.entries[q]? = some target
      ∧ target.blockedOn ≠ none := by
  rcases hclose with hstart | hmem
  · obtain ⟨e, he, hd, hb, -⟩ := ho.fits hstop
    refine ⟨d.entry, e, ?_, he, by rw [hb]; nofun⟩
    rw [hstart, ← hd.registry]
    exact entryOf?_of_entry ho.distinct he (ho.keyed he hd.record)
  · obtain ⟨x, hx, hxt⟩ := List.mem_map.mp hmem
    obtain ⟨i, hix⟩ := List.mem_iff_getElem?.mp hx
    have hi : i < before.length := (List.getElem?_eq_some_iff.mp hix).1
    have hcur : links[i]? = some x := by
      rw [hsplit, List.getElem?_append_left hi]
      exact hix
    have hlt : i + 1 < links.length := by
      rw [hsplit, List.length_append, List.length_singleton]
      omega
    obtain ⟨q, target, hq, ht, -, -, hb⟩ :=
      blockerOf?_some (hlinks.next hcur (List.getElem?_eq_getElem hlt))
    exact ⟨q, target, hxt ▸ hq, ht, by rw [hb]; nofun⟩

/-- What a chain that closes amounts to in a store that is well kept. -/
theorem Owned.reported {c : Cycle} (ho : s.Owned H) (hf : s.Fair)
    (hstop : .stopping t d (some dep) ∈ H)
    (h : s.cycle? d.registry d.record dep = some c) : c.Reported s d.registry dep := by
  obtain ⟨links, hclosed, rfl⟩ := Option.map_eq_some_iff.mp h
  obtain ⟨hlinks, hhead, before, closing, hsplit, hclose⟩ := Chain.closed?_some hclosed
  have hlast : links.getLast? = some closing := by rw [hsplit, List.getLast?_concat]
  have hdrop : links.dropLast = before := by rw [hsplit, List.dropLast_concat]
  have hlinked : ∀ {i : Nat} {x y : Dependency}, links[i]? = some x → links[i + 1]? = some y →
      s.blockerOf? d.registry x = some y := fun hx hy => hlinks.next hx hy
  have hbefore : ∀ x ∈ before, s.Below d.registry x := by
    intro x hx
    obtain ⟨i, hix⟩ := List.mem_iff_getElem?.mp hx
    have hi : i < before.length := (List.getElem?_eq_some_iff.mp hix).1
    have hlt : i + 1 < links.length := by
      rw [hsplit, List.length_append, List.length_singleton]
      omega
    refine ho.below_of_blocker (hlinked (i := i) ?_ (List.getElem?_eq_getElem hlt))
    rw [hsplit, List.getElem?_append_left hi]
    exact hix
  refine ⟨hhead, fun i x y hx hy => ⟨hlinked hx hy, ho.below_of_blocker (hlinked hx hy)⟩,
    ⟨closing, hlast, hdrop ▸ hclose⟩, ⟨fun hall closing' hc' => ?_, fun hc link hlink => ?_⟩, ?_⟩
  · exact hall closing' (List.mem_of_getLast? hc')
  · have hlink' : link ∈ before ++ [closing] := hsplit ▸ hlink
    rcases List.mem_append.mp hlink' with hlink' | hlink'
    · exact hbefore link hlink'
    · obtain rfl := List.mem_singleton.mp hlink'
      exact hc link hlast
  · intro closing' hc' hn
    obtain rfl := Option.some.inj (hlast.symm.trans hc')
    obtain ⟨q, target, hq, ht, hb⟩ := closing_blocked ho hstop hlinks hsplit hclose
    rcases List.eq_nil_or_concat before with rfl | ⟨more, x, rfl⟩
    · refine .inl ?_
      have htarget : closing.target = d.record := by simpa using hclose
      simp only [hsplit, List.nil_append, ← htarget]
    · refine .inr ⟨x, by rw [hdrop, List.concat_eq_append, List.getLast?_concat], ?_⟩
      refine ho.unparked hf (hlinked (i := more.length) ?_ ?_) hq ht hb hn
      · simp [hsplit]
      · simp [hsplit]

end Store

-- ====================================================== all runs

/-- The initialization that a thread has found stopped, and what stopped it. -/
def Control.stop? : Control σ → Option (Drive × Dependency)
  | .stopped d dep => some (d, dep)
  | _ => none

theorem Control.stopped_of_stop {c : Control σ} {d : Drive} {dep : Dependency}
    (h : c.stop? = some (d, dep)) : c = .stopped d dep := by
  unfold stop? at h
  split at h
  · cases h
    rfl
  · cases h

/-- A thread that a dependency has stopped reports nothing but cycles. -/
theorem Turn.stopped_report {t : Turn σ} {a : Actor} {d : Drive} {dep : Dependency} {r : Report}
    {hooks : List HookId} {policy : FaultPolicy}
    (h : (t.stopped a d dep).control = .report r hooks policy) :
    ∃ c limit, t.store.cycle? d.registry d.record dep = some c
      ∧ r.message = (Fault.cycle c).diagnostic t.store.records limit := by
  generalize ht' : t.stopped a d dep = t' at h
  cases stopped_cases ht' with
  | cycle hcycle => cases h; exact ⟨_, _, hcycle, rfl⟩
  | rely =>
      unfold consult at h
      split at h <;> cases h
  | suspend => cases h

/-- A chain that closes is reported. -/
theorem Turn.stopped_of_cycle {t : Turn σ} (a : Actor) {d : Drive} {dep : Dependency} {c : Cycle}
    (h : t.store.cycle? d.registry d.record dep = some c) :
    ∃ r policy, (t.stopped a d dep).control = .report r t.store.hooks policy := by
  simp only [stopped]
  split
  · exact ⟨_, _, rfl⟩
  · rename_i hnone
    cases hnone.symm.trans h

namespace Machine

variable {lib : Library σ} {start m m' : Machine σ} {t : ThreadId} {thread thread' : Thread σ}

/-- Whenever a thread that a dependency has stopped reports a fault, wherever
the process has got to, the fault is a cycle, and the report is what
`Cycle.Reported` says of it: a chain from the stopped record over what each
target waits for back to a target that was there before, a deadlock exactly
when its last link is unsatisfied, and out of date otherwise. -/
theorem Reachable.cycle_reported {d : Drive} {dep : Dependency} {r : Report} {hooks : List HookId}
    {policy : FaultPolicy} (hf : start.Fresh) (h : Reachable lib start m)
    (ht : m.threads[t]? = some thread) (hc : thread.control = .stopped d dep)
    (hs : m.step lib t = some m') (ht' : m'.threads[t]? = some thread')
    (hc' : thread'.control = .report r hooks policy) :
    ∃ c limit, r.message = (Fault.cycle c).diagnostic m.store.records limit
      ∧ c.start = d.record ∧ c.Reported m.store d.registry dep := by
  obtain ⟨-, thread₀, hthread, hstep⟩ := step_cases hs
  obtain rfl := Option.some.inj (ht.symm.trans hthread)
  have hstop : .stopping t d (some dep) ∈ m.holds :=
    (holds_split ht).mem_iff.mpr (List.mem_append_left _ (by
      unfold Thread.holds
      rw [hc]
      exact List.mem_append_left _ List.mem_cons_self))
  cases hstep with
  | program p' started hrun => rw [hc] at hrun; cases hrun
  | @alone next hnext =>
      have hnext' : next = (m.turn thread).stopped ⟨t, thread.name⟩ d dep := by
        unfold Turn.step Machine.turn at hnext
        rw [hc] at hnext
        exact (Option.some.inj hnext).symm
      have hcontrol : next.control = .report r hooks policy := by
        obtain rfl := Option.some.inj ((after_threads ht next).symm.trans ht')
        exact hc'
      subst hnext'
      obtain ⟨c, limit, hcy, hmsg⟩ := Turn.stopped_report hcontrol
      refine ⟨c, limit, hmsg, ?_, (h.owned hf).reported (h.fair hf) hstop hcy⟩
      obtain ⟨links, -, rfl⟩ := Option.map_eq_some_iff.mp hcy
      rfl

/-- A completion that stops on the first type, at each of the stages in turn. -/
def afterStages (stages : List Stage) :
    RegistryId → RecordId → Program Unit (Option Dependency) := fun registry _ =>
  .scratch (·.map (· + 1)) fun w =>
    match w[0]?.bind (stages[· - 1]?) with
    | some stage =>
        .request registry (.poll .abstract) (.generic 0 []) fun r => .done (some ⟨r.record, stage⟩)
    | none => .done none

/-- A type that lets two others go as it publishes its layout, and needs the second of
them complete. The first of them stops again, on the type as a whole, before the second
has had its turn. -/
def tardy : Library Unit :=
  { bare with
    descriptors := #[
      { name := "Outer"
        kind := .struct
        parameters := 0
        fields := []
        layout := none
        words := []
        instantiate := none
        completion := some (.callback fun registry record =>
          .scratch (·.map (· + 1)) fun w =>
            if w.contains 1 then
              .request registry (.poll .complete) (.generic 1 []) fun _ =>
                .request registry (.poll .complete) (.generic 2 []) fun r =>
                  .act (.publish record (.scalar 8)) fun _ => .done (some ⟨r.record, .complete⟩)
            else .done none) },
      { name := "Early"
        kind := .struct
        parameters := 0
        fields := []
        layout := none
        words := []
        instantiate := none
        completion := some (.callback (afterStages [.layoutComplete, .complete])) },
      { name := "Late"
        kind := .struct
        parameters := 0
        fields := []
        layout := none
        words := []
        instantiate := none
        completion := some (.callback (afterStages [.layoutComplete])) }] }

/-- The first of the two is reported to wait for itself, through the second. But the last
link is satisfied: the second has been let go, is on no queue, and would have its turn
next. -/
theorem tardy_reported :
    ∃ (start m m' : Machine Unit) (thread thread' : Thread Unit) (d : Drive) (dep : Dependency)
      (r : Report) (hooks : List HookId) (policy : FaultPolicy),
      start.Fresh ∧ Reachable tardy start m ∧ m.threads[0]? = some thread
        ∧ thread.control = .stopped d dep ∧ m.step tardy 0 = some m'
        ∧ m'.threads[0]? = some thread' ∧ thread'.control = .report r hooks policy
        ∧ ∃ c limit, r.message = (Fault.cycle c).diagnostic m.store.records limit
          ∧ c.start = d.record ∧ c.Reported m.store d.registry dep
          ∧ c = ⟨11, [⟨10, .complete⟩, ⟨12, .complete⟩, ⟨10, .layoutComplete⟩]⟩
          ∧ ¬ (∀ link ∈ c.links, m.store.Below d.registry link)
          ∧ m.store.Unparked d.registry 12 := by
  let start : Machine Unit := demanding
  -- the first of the two, as it stops for the second time
  let d : Drive := ⟨0, 1, 11, .poll .complete, .abstract, #v[2, 2, 2, 2]⟩
  have hreach : Reachable tardy start (start.walk tardy 46) := .walk _ 46
  have hstop : (start.walk tardy 46).threads.size = 1
      ∧ ∀ thread ∈ (start.walk tardy 46).threads,
          thread.control.stop? = some (d, ⟨10, .complete⟩) := by
    decide +kernel
  have hhalt : (start.walk tardy 46).store.halted = none := by
    decide +kernel
  have hchain : (start.walk tardy 46).store.blockerOf? 0 ⟨10, .complete⟩ = some ⟨12, .complete⟩
      ∧ (start.walk tardy 46).store.blockerOf? 0 ⟨12, .complete⟩ = some ⟨10, .layoutComplete⟩
      ∧ (start.walk tardy 46).store.blockerOf? 0 ⟨10, .layoutComplete⟩ = none
      ∧ ¬ (start.walk tardy 46).store.Below 0 ⟨10, .layoutComplete⟩
      ∧ ((start.walk tardy 46).store.cycle? 0 11 ⟨10, .complete⟩).isSome = true := by
    decide +kernel
  obtain ⟨m, hm⟩ : ∃ m, m = start.walk tardy 46 := ⟨_, rfl⟩
  rw [← hm] at hreach hstop hhalt hchain
  obtain ⟨hone, hstop⟩ := hstop
  obtain ⟨hfirst, hsecond, hthird, hthere, hcycle⟩ := hchain
  obtain ⟨thread, hthreads, hstops⟩ := single_thread hone hstop
  obtain ⟨cycle, hcycle⟩ := Option.isSome_iff_exists.mp hcycle
  have ht : m.threads[0]? = some thread := by rw [hthreads]; rfl
  have hc := Control.stopped_of_stop hstops
  obtain ⟨r, policy, hreport⟩ :=
    Turn.stopped_of_cycle (t := m.turn thread) ⟨0, thread.name⟩ (d := d) hcycle
  have hs : m.step tardy 0 = _ := step_alone hhalt ht (by rw [hc]; nofun)
  unfold Turn.step Machine.turn at hs
  rw [hc] at hs
  have ht' := after_threads ht ((m.turn thread).stopped ⟨0, thread.name⟩ d ⟨10, .complete⟩)
  obtain ⟨c, limit, hmessage, hstart, hreported⟩ :=
    hreach.cycle_reported (fresh_launch _ () _) ht hc hs ht' hreport
  have hlinks := hreported.links_of_three hfirst hsecond hthird (by rw [hstart]; decide)
    (by rw [hstart]; decide)
  have hlast : c.links.getLast? = some ⟨10, .layoutComplete⟩ := by rw [hlinks]; rfl
  obtain hself | ⟨before, hbefore, hunparked⟩ := hreported.stale _ hlast hthere
  · rw [hlinks] at hself
    simp at hself
  · rw [hlinks] at hbefore
    cases hbefore
    exact ⟨start, m, _, thread, _, _, _, r, _, policy, fresh_launch _ () _, hreach, ht, hc, hs,
      ht', hreport, c, limit, hmessage, hstart, hreported,
      by rw [← hlinks, ← show c.start = 11 from hstart],
      fun hall => hthere (hall _ (List.mem_of_getLast? hlast)), hunparked⟩

end Machine

end TypeRecords
