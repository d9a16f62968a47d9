/-
Nothing is taken back, in whole runs.

`Ownership/Advance.lean` says of one step that stages only go up and that
entries keep their records. Here this is said of two moments of a run, however
far apart and whatever has been raised and caught between them: an entry is
there later, with the same key, at the same stage or a later one, and with its
record (`Entry.Precedes`); and an entry that is complete has come to rest
(`Entry.Rested`), and no thread runs, or is about to run, a step for it.

# Why a complete entry is left alone

A thread that runs a step holds the entry in a way that says it is not
complete (`Control.active_of_completes`, `Frame.active_of_completes`). Holds
suit their entries in every state (`Reachable.owned`), so the two exclude each
other.
-/
import TypeRecords.Proofs.Ownership.Advance

namespace TypeRecords

variable {σ : Type}

-- ====================================================== entries

/-- What an entry was and what has become of it: the same key, the record if
there was one, and no earlier stage than before. -/
structure Entry.Precedes (e e' : Entry) : Prop where
  registry : e'.registry = e.registry
  key : e'.key = e.key
  record : ∀ r, e.record = some r → e'.record = some r
  published : ∀ s, e.published = some s → ∃ s', e'.published = some s' ∧ s ≤ s'

/-- The entry is complete for everyone to see, and nothing is pending. -/
structure Entry.Rested (e : Entry) : Prop where
  stage : e.stage = .complete
  published : e.published = some .complete
  initializer : e.initializer = none
  blockedOn : e.blockedOn = none
  saved : e.saved = none

theorem Entry.Sound.snapshot_eq {e : Entry} (h : e.Sound) :
    e.snapshot? = e.record.map fun r => ⟨r, e.stage⟩ := by
  cases hr : e.record with
  | none => exact Entry.Sound.snapshot_none hr
  | some r => exact h.snapshot hr

theorem Entry.Sound.rested {e : Entry} (h : e.Sound) (hc : e.stage = .complete) : e.Rested := by
  obtain ⟨hb, hs, hi⟩ := h.ended hc
  refine ⟨hc, ?_, hi, hb, hs⟩
  have hrecord : e.record ≠ none := fun hnone => by
    rw [(h.blank hnone).1] at hc
    cases hc
  obtain ⟨r, hr⟩ := Option.ne_none_iff_exists'.mp hrecord
  rw [h.published, hr, hc]
  rfl

-- ====================================================== running a step

/-- The entry for which the thread's next move begins, carries on or concludes
a completion step. -/
def Control.completes? : Control σ → Option EntryId
  | .begin d => some d.entry
  | .measure w => some w.drive.entry
  | .publish d _ => some d.entry
  | _ => none

/-- The entry whose completion step waits in the frame: for its callback, for
an element of a tuple, or for what stopped it. -/
def Frame.completes? : Frame σ → Option EntryId
  | .stepping d => some d.entry
  | .measuring w => some w.drive.entry
  | .relying d => some d.entry
  | _ => none

/-- A step of entry `i` runs in the thread. -/
def Thread.Completes (thread : Thread σ) (i : EntryId) : Prop :=
  thread.control.completes? = some i ∨ ∃ f ∈ thread.frames, f.completes? = some i

/-- Whoever runs a step holds an entry that is not complete. -/
theorem Control.active_of_completes {c : Control σ} {i : EntryId} (t : ThreadId)
    (h : c.completes? = some i) :
    ∃ hold ∈ c.holds t, hold.entry = i
      ∧ ∀ {s : Store} {e : Entry}, hold.Suits s e → e.stage ≠ .complete := by
  unfold completes? at h
  split at h
  · cases h
    exact ⟨_, List.mem_cons_self, rfl, fun hs => hs.2⟩
  · cases h
    exact ⟨_, List.mem_cons_self, rfl, fun hs => hs.2⟩
  · cases h
    exact ⟨_, List.mem_cons_self, rfl, fun hs => hs.2.1⟩
  · cases h

theorem Frame.active_of_completes {f : Frame σ} {i : EntryId} (t : ThreadId)
    (h : f.completes? = some i) :
    ∃ hold ∈ f.holds t, hold.entry = i
      ∧ ∀ {s : Store} {e : Entry}, hold.Suits s e → e.stage ≠ .complete := by
  unfold completes? at h
  split at h
  · cases h
    exact ⟨_, List.mem_cons_self, rfl, fun hs => hs.2⟩
  · cases h
    exact ⟨_, List.mem_cons_self, rfl, fun hs => hs.2⟩
  · cases h
    exact ⟨_, List.mem_cons_self, rfl, fun hs => hs.2⟩
  · cases h

-- ====================================================== two moments of a run

theorem Store.Advances.trans {s s' s'' : Store} (h : s.Advances s') (h' : s'.Advances s'') :
    s.Advances s'' := by
  refine ⟨h.grows.trans h'.grows, fun he => ?_⟩
  obtain ⟨e', he', hreg', hstage', hrecord'⟩ := h.entries he
  obtain ⟨e'', he'', hreg'', hstage'', hrecord''⟩ := h'.entries he'
  exact ⟨e'', he'', hreg''.trans hreg', Nat.le_trans hstage' hstage'',
    fun r hr => hrecord'' r (hrecord' r hr)⟩

/-- An entry is still there later, and has only come further. -/
theorem Store.Advances.precedes {s s' : Store} (h : s.Advances s') {i : EntryId} {e : Entry}
    (he : s.entries[i]? = some e) (hs : e.Sound)
    (hs' : ∀ {e' : Entry}, s'.entries[i]? = some e' → e'.Sound) :
    ∃ e', s'.entries[i]? = some e' ∧ e.Precedes e' ∧ e.stage ≤ e'.stage := by
  obtain ⟨e', he', hreg, hstage, hrecord⟩ := h.entries he
  obtain ⟨x, hx, -, hkey⟩ := h.grows.labels_getElem? he
  obtain rfl := Option.some.inj (he'.symm.trans hx)
  refine ⟨e', he', ⟨hreg, hkey, hrecord, fun s hsome => ?_⟩, hstage⟩
  rw [hs.published] at hsome
  obtain ⟨r, hr, rfl⟩ := Option.map_eq_some_iff.mp hsome
  refine ⟨e'.stage, ?_, hstage⟩
  rw [(hs' he').published, hrecord r hr]
  rfl

namespace Machine

variable {lib : Library σ} {start m m' : Machine σ} {i : EntryId} {e : Entry}

theorem Reachable.trans (h : Reachable lib start m) (h' : Reachable lib m m') :
    Reachable lib start m' := by
  induction h' with
  | refl => exact h
  | step t _ hs ih => exact ih.step t hs

/-- However far a run goes on, nothing is taken back. -/
theorem Reachable.advances (hf : start.Fresh) (h : Reachable lib start m)
    (h' : Reachable lib m m') : m.store.Advances m'.store := by
  induction h' with
  | refl => exact .refl _
  | step t h' hs ih => exact ih.trans (step_advances hs ((h.trans h').owned hf))

/-- No thread runs a step for an entry that is complete. -/
theorem Reachable.not_completes (hf : start.Fresh) (h : Reachable lib start m)
    (he : m.store.entries[i]? = some e) (hc : e.stage = .complete) :
    ∀ thread ∈ m.threads, ¬ thread.Completes i := by
  intro thread hthread hruns
  obtain ⟨t, ht⟩ := Array.mem_iff_getElem?.mp hthread
  have hexcluded : ∀ hold : Hold, hold ∈ m.holds → hold.entry = i →
      (∀ {s : Store} {e : Entry}, hold.Suits s e → e.stage ≠ .complete) → False := by
    intro hold hm hi hno
    obtain ⟨x, hx, hsuits⟩ := (h.owned hf).fits hm
    rw [hi] at hx
    obtain rfl := Option.some.inj (he.symm.trans hx)
    exact hno hsuits hc
  rcases hruns with hcontrol | ⟨f, hf', hframe⟩
  · obtain ⟨hold, hm, hi, hno⟩ := Control.active_of_completes t hcontrol
    exact hexcluded hold (mem_holds_of_control ht hm) hi hno
  · obtain ⟨hold, hm, hi, hno⟩ := Frame.active_of_completes t hframe
    exact hexcluded hold (mem_holds_of_frame ht hf' hm) hi hno

/-- Stages only advance, and the last one is final. Take an entry at any moment
of any run, whatever has been raised and caught. What can be read of it without
holding it is its record, once there is one, and its very stage. At every later
moment it is there with the same key and record, at the same stage or a later
one. And if it is complete it stays so, with nothing pending, and no thread
ever again runs a step for it. -/
theorem Reachable.stages_advance (hf : start.Fresh) (h : Reachable lib start m)
    (h' : Reachable lib m m') (he : m.store.entries[i]? = some e) :
    (e.snapshot? = e.record.map fun r => ⟨r, e.stage⟩)
      ∧ ∃ e', m'.store.entries[i]? = some e' ∧ e.Precedes e' ∧ e.stage ≤ e'.stage
        ∧ (e.stage = .complete → e'.Rested ∧ ∀ thread ∈ m'.threads, ¬ thread.Completes i) := by
  have ho' := (h.trans h').owned hf
  have hsound := (h.owned hf).sound he
  obtain ⟨e', he', hpre, hstage⟩ := (h.advances hf h').precedes he hsound ho'.sound
  refine ⟨hsound.snapshot_eq, e', he', hpre, hstage, fun hc => ?_⟩
  have hc' : e'.stage = .complete := by
    rw [hc] at hstage
    cases hs : e'.stage <;> rw [hs] at hstage <;> first | rfl | exact absurd hstage (by decide)
  exact ⟨(ho'.sound he').rested hc', (h.trans h').not_completes hf he' hc'⟩

/-- Of two types that wait for each other the inner one is complete first; it
stays so while the outer one is completed. -/
theorem stages_advance_pair :
    ∃ (start m m' : Machine Unit) (e : Entry), start.Fresh ∧ Reachable pair start m
      ∧ Reachable pair m m' ∧ m.store.entries[1]? = some e ∧ e.stage = .complete
      ∧ (∃ x ∈ m.store.entries, x.stage ≠ .complete)
      ∧ ∃ e', m'.store.entries[1]? = some e' ∧ e'.Rested := by
  let start : Machine Unit := demanding
  have hreach : Reachable pair start (start.run pair 28 0) := .run 28 0 .refl
  have hsome : ((start.run pair 28 0).store.entries[1]?).map (·.stage) = some .complete := by
    decide +kernel
  have hother : ∃ x ∈ (start.run pair 28 0).store.entries, x.stage ≠ .complete := by
    decide +kernel
  obtain ⟨e, he, hc⟩ := Option.map_eq_some_iff.mp hsome
  have hreach' : Reachable pair (start.run pair 28 0) ((start.run pair 28 0).run pair 20 0) :=
    .run 20 0 .refl
  obtain ⟨-, e', he', -, -, hfinal⟩ := hreach.stages_advance (fresh_launch _ () _) hreach' he
  exact ⟨start, _, _, e, fresh_launch _ () _, hreach, hreach', he, hc, hother, e', he',
    (hfinal hc).1⟩

end Machine

end TypeRecords
