/-
Running or parked.

`Ownership/Process.lean` counts holders. Here the count is taken apart into
those that run an initialization and those that keep a parked one: an entry
with a record that is not finished is either run, by one thread and in one
place of its stack, or parked, in one place as well; and it looks like what it
is (`Run.owned_once`). So nothing is ever run twice at the same time or queued
twice, and whoever takes up a waiter that has been let go finds an
initialization that is parked and is not parked anywhere else.
-/
import Mathlib.Logic.Basic
import TypeRecords.Proofs.Ownership.Process

namespace TypeRecords

variable {σ : Type}

-- ====================================================== two kinds of holds

namespace Hold

/-- The thread that runs the entry's initialization. -/
def runner? : Hold → Option ThreadId
  | active t _ => some t
  | concluding t _ _ => some t
  | stopping t _ _ => some t
  | _ => none

/-- Whether the entry's initialization is parked in the hands of a thread: it
is on its way to a queue, or has been let go from one. -/
def parks : Hold → Bool
  | leaving .. => true
  | ready .. => true
  | _ => false

/-- Whether the entry's record is being allocated. -/
def makes : Hold → Bool
  | fresh _ => true
  | _ => false

/-- Holds run an entry, keep it parked, or make its record. -/
theorem count_kinds (hs : List Hold) :
    (hs.filterMap runner?).length + hs.countP parks + hs.countP makes = hs.length := by
  induction hs with
  | nil => rfl
  | cons h hs ih =>
      rw [List.filterMap_cons, List.countP_cons, List.countP_cons, List.length_cons, ← ih]
      cases h <;> simp [runner?, parks, makes] <;> omega

variable {s : Store} {h : Hold} {e : Entry}

/-- An unfinished entry that is run has the thread as its initializer, and
nothing saved. -/
theorem Suits.of_runner {t : ThreadId} (hs : h.Suits s e) (hr : h.runner? = some t)
    (hu : e.stage ≠ .complete) : e.initializer = some t ∧ e.saved = none := by
  have hdriven : ∀ {d : Drive}, e.Driven t d → e.initializer = some t ∧ e.saved = none :=
    fun hd => ⟨by rw [hd.initializer, if_neg hu], hd.saved⟩
  cases h with
  | fresh a => cases hr
  | active t' d => cases hr; exact hdriven hs.1
  | concluding t' d o => cases hr; exact hdriven hs.1
  | stopping t' d dep => cases hr; exact hdriven hs.1
  | leaving d dep => cases hr
  | ready registry w => cases hr

theorem Suits.of_parks (hs : h.Suits s e) (hp : h.parks = true) :
    ∃ required, e.Parked required := by
  cases h with
  | leaving d dep => exact ⟨_, Entry.Left.parked hs⟩
  | ready registry w => exact ⟨_, hs.2⟩
  | fresh a => cases hp
  | active t d => cases hp
  | concluding t d o => cases hp
  | stopping t d dep => cases hp

end Hold

/-- The waiters that a thread is about to take up. -/
def Control.released : Control σ → List Waiter
  | .release _ _ ready => ready
  | _ => []

theorem Control.release_of_released {c : Control σ} {w : Waiter} {ready : List Waiter}
    (h : c.released = w :: ready) : ∃ d dep, c = .release d dep (w :: ready) := by
  unfold released at h
  split at h
  · exact ⟨_, _, by rw [h]⟩
  · cases h

-- ====================================================== in a process

namespace Machine

variable {lib : Library σ} {start m m' : Machine σ} {i : EntryId} {e : Entry}

/-- The holds that threads have on an entry. -/
def holdsOn (m : Machine σ) (i : EntryId) : List Hold := m.holds.filter (·.entry == i)

/-- The threads that run an entry's initialization, once for each place in
which they do: a thread runs it by what it does next, or by a frame. -/
def runners (m : Machine σ) (i : EntryId) : List ThreadId := (m.holdsOn i).filterMap Hold.runner?

/-- In how many places an entry's initialization is kept parked: on queues,
among the waiters a publication has let go, and on its way to a queue. -/
def parkings (m : Machine σ) (i : EntryId) : Nat :=
  m.store.waiting.count i + (m.holdsOn i).countP Hold.parks

/-- The initialization is run by one thread, in one place. -/
structure Active (m : Machine σ) (i : EntryId) (e : Entry) : Prop where
  runner : ∃ t, m.runners i = [t] ∧ e.initializer = some t
  saved : e.saved = none
  unparked : m.parkings i = 0

/-- The initialization is parked, in one place. -/
structure Suspended (m : Machine σ) (i : EntryId) (e : Entry) : Prop where
  idle : m.runners i = []
  initializer : e.initializer = none
  saved : e.saved.isSome
  parked : m.parkings i = 1

theorem mem_holdsOn {h : Hold} : h ∈ m.holdsOn i ↔ h ∈ m.holds ∧ h.entry = i := by
  unfold holdsOn
  rw [List.mem_filter, beq_iff_eq]

theorem holdsOn_fits (ho : m.store.Owned m.holds) (he : m.store.entries[i]? = some e) {h : Hold}
    (hm : h ∈ m.holdsOn i) : h.Suits m.store e := by
  obtain ⟨hheld, rfl⟩ := mem_holdsOn.mp hm
  have hs := ho.suits hheld he
  exact hs

/-- Holders are counted entry by entry. -/
theorem holders_eq (m : Machine σ) (i : EntryId) :
    m.store.holders m.holds i
      = (m.runners i).length + m.parkings i + (m.holdsOn i).countP Hold.makes := by
  have hcount : (m.holds.map (·.entry)).count i = (m.holdsOn i).length := by
    unfold holdsOn
    rw [List.count_eq_countP, List.countP_map, List.countP_eq_length_filter]
    rfl
  have hkinds := Hold.count_kinds (m.holdsOn i)
  unfold Store.holders runners parkings
  omega

/-- No entry is run, or kept parked, in two places. -/
theorem places_le_one (ho : m.store.Owned m.holds) (i : EntryId) :
    (m.runners i).length + m.parkings i ≤ 1 := by
  have honce := ho.once i
  rw [holders_eq] at honce
  omega

/-- Whatever is kept parked is there to be taken up. -/
theorem parked_of_parkings (ho : m.store.Owned m.holds) (hp : 0 < m.parkings i) :
    ∃ e required, m.store.entries[i]? = some e ∧ e.Parked required := by
  unfold parkings at hp
  by_cases hq : 0 < m.store.waiting.count i
  · obtain ⟨queue, x, w, hx, hw, rfl⟩ := Store.of_mem_waiting (List.count_pos_iff.mp hq)
    obtain ⟨e, target, he, hparked, -⟩ := ho.parked hx hw
    exact ⟨e, _, he, hparked⟩
  · obtain ⟨h, hm, hparks⟩ := List.countP_pos_iff.mp
      (show 0 < (m.holdsOn i).countP Hold.parks by omega)
    obtain ⟨hheld, rfl⟩ := mem_holdsOn.mp hm
    obtain ⟨e, he, hs⟩ := ho.fits hheld
    obtain ⟨required, hparked⟩ := hs.of_parks hparks
    exact ⟨e, required, he, hparked⟩

theorem suspended_of_parkings (ho : m.store.Owned m.holds) (he : m.store.entries[i]? = some e)
    (hp : 0 < m.parkings i) : m.Suspended i e := by
  obtain ⟨x, required, hx, hparked⟩ := parked_of_parkings ho hp
  obtain rfl := Option.some.inj (he.symm.trans hx)
  have hle := places_le_one ho i
  refine ⟨List.length_eq_zero_iff.mp ?_, hparked.initializer, hparked.saved, ?_⟩
  · omega
  · omega

theorem active_of_runners (ho : m.store.Owned m.holds) (he : m.store.entries[i]? = some e)
    (hu : e.stage ≠ .complete) (hr : 0 < (m.runners i).length) : m.Active i e := by
  have hle := places_le_one ho i
  obtain ⟨t, ht⟩ := List.length_eq_one_iff.mp (show (m.runners i).length = 1 by omega)
  have hmem : t ∈ m.runners i := by
    rw [ht]
    exact List.mem_singleton.mpr rfl
  obtain ⟨h, hm, hrun⟩ := List.mem_filterMap.mp hmem
  obtain ⟨hinit, hsaved⟩ := (holdsOn_fits ho he hm).of_runner hrun hu
  refine ⟨⟨t, ht, hinit⟩, hsaved, ?_⟩
  omega

/-- The one holder that an unfinished entry has runs it or keeps it parked, once
its record is there. -/
theorem active_or_suspended (ho : m.store.Owned m.holds) (he : m.store.entries[i]? = some e)
    (hrec : e.record.isSome) (hu : e.stage ≠ .complete)
    (hone : m.store.holders m.holds i = 1) : m.Active i e ∨ m.Suspended i e := by
  have hmade : (m.holdsOn i).countP Hold.makes = 0 := List.countP_eq_zero.mpr fun hold hm => by
    have hs := holdsOn_fits ho he hm
    cases hold with
    | fresh a =>
        rw [hs.2.1] at hrec
        cases hrec
    | active t d => exact Bool.false_ne_true
    | concluding t d o => exact Bool.false_ne_true
    | stopping t d dep => exact Bool.false_ne_true
    | leaving d dep => exact Bool.false_ne_true
    | ready registry w => exact Bool.false_ne_true
  rw [holders_eq, hmade] at hone
  by_cases hr : 0 < (m.runners i).length
  · exact .inl (active_of_runners ho he hu hr)
  · exact .inr (suspended_of_parkings ho he (by omega))

theorem Active.not_suspended (ha : m.Active i e) : ¬ m.Suspended i e := by
  intro hs
  obtain ⟨t, -, hinit⟩ := ha.runner
  rw [hs.initializer] at hinit
  cases hinit

theorem mem_runners {t : ThreadId} {hold : Hold} (hm : hold ∈ m.holds)
    (hr : hold.runner? = some t) : t ∈ m.runners hold.entry :=
  List.mem_filterMap.mpr ⟨hold, mem_holdsOn.mpr ⟨hm, rfl⟩, hr⟩

/-- The next waiter that a thread takes up is parked. Its initialization goes on
from what it has saved, run by that thread and parked nowhere any more. -/
theorem resume_once (ho : m.store.Owned m.holds) {t : ThreadId} {thread : Thread σ}
    (ht : m.threads[t]? = some thread) {d : Drive} {dep : Option Dependency} {w : Waiter}
    {ready : List Waiter} (hc : thread.control = .release d dep (w :: ready))
    (hs : m.step lib t = some m') :
    ∃ e record scratch, m.store.entries[w.entry]? = some e ∧ m.Suspended w.entry e
      ∧ e.record = some record ∧ e.saved = some scratch
      ∧ (∃ thread', m'.threads[t]? = some thread' ∧ thread'.control
        = .begin ⟨d.registry, w.entry, record, .poll .complete, e.stage, scratch⟩)
      ∧ m'.runners w.entry = [t] ∧ m'.parkings w.entry = 0 := by
  have hheld : .ready d.registry w ∈ m.holds := mem_holds_of_control ht (by
    rw [hc]
    exact List.mem_cons_of_mem _ (List.mem_map.mpr ⟨w, List.mem_cons_self, rfl⟩))
  obtain ⟨e, he, -, hparked⟩ := ho.fits hheld
  obtain ⟨record, hrec⟩ := Option.isSome_iff_exists.mp hparked.record
  obtain ⟨scratch, hsaved⟩ := Option.isSome_iff_exists.mp hparked.saved
  have hpublished : e.published = some e.stage := by
    rw [(ho.sound he).published, hrec]
    rfl
  have hsuspended := suspended_of_parkings ho he (by
    unfold parkings
    have hpos : 0 < (m.holdsOn w.entry).countP Hold.parks :=
      List.countP_pos_iff.mpr ⟨_, mem_holdsOn.mpr ⟨hheld, rfl⟩, rfl⟩
    exact Nat.lt_of_lt_of_le hpos (Nat.le_add_left ..))
  obtain ⟨-, thread₀, hthread, hstepped⟩ := step_cases hs
  obtain rfl := Option.some.inj (ht.symm.trans hthread)
  cases hstepped with
  | program p' started hrun => rw [hc] at hrun; cases hrun
  | @alone turn hturn =>
      have hcontrol : turn.control
          = .begin ⟨d.registry, w.entry, record, .poll .complete, e.stage, scratch⟩ := by
        unfold Turn.step Machine.turn at hturn
        rw [hc] at hturn
        obtain rfl := Option.some.inj hturn
        have hentry : (m.store.note d.registry fun l =>
            { l with resumptions := l.resumptions + 1 }).entries[w.entry]? = some e := he
        simp only [Turn.release, Turn.resume, hentry, hrec, Entry.reclaim?, hsaved, hpublished]
        rfl
      have hthread' := after_threads ht turn
      have hactive : .active t ⟨d.registry, w.entry, record, .poll .complete, e.stage, scratch⟩
          ∈ (m.after t turn).holds := mem_holds_of_control hthread' (by
        rw [hcontrol]
        exact List.mem_cons_self)
      have hmem : t ∈ (m.after t turn).runners w.entry := mem_runners hactive rfl
      have hle := places_le_one (step_owned hs ho) w.entry
      have hpos := List.length_pos_of_mem hmem
      obtain ⟨u, hu⟩ := List.length_eq_one_iff.mp
        (show ((m.after t turn).runners w.entry).length = 1 by omega)
      rw [hu] at hmem
      obtain rfl := List.mem_singleton.mp hmem
      exact ⟨e, record, scratch, he, hsuspended, hrec, hsaved, ⟨_, hthread', hcontrol⟩, hu,
        by omega⟩

-- ====================================================== all runs

/-- Every initialization is in one pair of hands. As long as nothing unwinds,
with any number of threads and whatever callbacks request:

- an entry whose record is there, and not finished, is either run by one
  thread, in one place, has that thread as its initializer and nothing saved;
  or is kept parked in one place, and has no initializer and its scratch words
  saved;
- no entry is run, queued or let go more than once at a time;
- whatever is kept parked is parked: it is there to be taken up;
- whoever takes up a waiter that was let go takes it out of the one place
  where it was parked, and goes on from what it has saved. -/
theorem Run.owned_once (hf : start.Fresh) (h : Run lib (fun m _ => m.Calm) start m)
    (hm : m.Calm) :
    (∀ i e, m.store.entries[i]? = some e → e.record.isSome → e.stage ≠ .complete →
        Xor (m.Active i e) (m.Suspended i e))
      ∧ (∀ i, (m.runners i).length + m.parkings i ≤ 1)
      ∧ (∀ i, 0 < m.parkings i → ∃ e, m.store.entries[i]? = some e ∧ e.record.isSome
        ∧ e.stage ≠ .complete ∧ m.Suspended i e)
      ∧ ∀ t thread d dep w ready m', m.threads[t]? = some thread →
        thread.control = .release d dep (w :: ready) → m.step lib t = some m' →
        ∃ e record scratch, m.store.entries[w.entry]? = some e ∧ m.Suspended w.entry e
          ∧ e.record = some record ∧ e.saved = some scratch
          ∧ (∃ thread', m'.threads[t]? = some thread' ∧ thread'.control
            = .begin ⟨d.registry, w.entry, record, .poll .complete, e.stage, scratch⟩)
          ∧ m'.runners w.entry = [t] ∧ m'.parkings w.entry = 0 := by
  have ho := h.reachable.owned hf
  refine ⟨fun i e he hrec hu => ?_, places_le_one ho, fun i hp => ?_,
    fun t thread d dep w ready m' ht hc hs => resume_once ho ht hc hs⟩
  · rcases active_or_suspended ho he hrec hu (h.held hf hm i e he hu) with hactive | hsuspended
    · exact .inl ⟨hactive, hactive.not_suspended⟩
    · exact .inr ⟨hsuspended, fun hactive => hactive.not_suspended hsuspended⟩
  · obtain ⟨e, required, he, hparked⟩ := parked_of_parkings ho hp
    exact ⟨e, he, hparked.record, hparked.unfinished, suspended_of_parkings ho he hp⟩

/-- Of the two types that wait for each other the outer one has published its
layout, and its thread is about to take up the inner one, which has been let
go. -/
theorem owned_once_pair :
    ∃ (start m m' : Machine Unit) (thread : Thread Unit) (outer inner : Entry), start.Fresh
      ∧ Run pair (fun m _ => m.Calm) start m ∧ m.Calm ∧ m.threads[0]? = some thread
      ∧ (∃ d dep, thread.control = .release d dep [⟨.layoutComplete, 1⟩])
      ∧ m.store.entries[0]? = some outer ∧ outer.record.isSome ∧ outer.stage ≠ .complete
      ∧ Xor (m.Active 0 outer) (m.Suspended 0 outer)
      ∧ m.step pair 0 = some m' ∧ m.store.entries[1]? = some inner ∧ m.Suspended 1 inner
      ∧ m'.runners 1 = [0] ∧ m'.parkings 1 = 0 := by
  let start : Machine Unit := demanding
  have hsteps : ∀ k < 22, (start.walk pair k).Calm
      ∧ ((start.walk pair k).step pair 0).isSome = true := by
    decide +kernel
  have hlast : (start.walk pair 22).Calm ∧ ((start.walk pair 22).step pair 0).isSome = true
      ∧ ((start.walk pair 22).store.entries[0]?).map (fun e => (e.record.isSome, e.stage))
        = some (true, .layoutComplete)
      ∧ ((start.walk pair 22).threads[0]?).map (fun thread => thread.control.released)
        = some [⟨.layoutComplete, 1⟩] := by
    decide +kernel
  have hrun : Run pair (fun m _ => m.Calm) start (start.walk pair 22) := .walk hsteps
  obtain ⟨hcalm, hsome, houter, hthread⟩ := hlast
  obtain ⟨m', hs⟩ := Option.isSome_iff_exists.mp hsome
  obtain ⟨outer, he, hshape⟩ := Option.map_eq_some_iff.mp houter
  obtain ⟨hrec, hstage⟩ := Prod.mk.inj hshape
  obtain ⟨thread, ht, hreleased⟩ := Option.map_eq_some_iff.mp hthread
  obtain ⟨d, dep, hc⟩ := Control.release_of_released hreleased
  have hu : outer.stage ≠ .complete := by
    rw [hstage]
    decide
  obtain ⟨hone, -, -, htaken⟩ := Run.owned_once (fresh_launch _ () _) hrun hcalm
  obtain ⟨inner, record, scratch, hinner, hsuspended, -, -, -, hrunners, hparkings⟩ :=
    htaken 0 thread d dep _ [] m' ht hc hs
  exact ⟨start, _, m', thread, outer, inner, fresh_launch _ () _, hrun, hcalm, ht, ⟨d, dep, hc⟩, he,
    hrec, hu, hone 0 outer he hrec hu, hs, hinner, hsuspended, hrunners, hparkings⟩

end Machine

end TypeRecords
