/-
Waiters that nobody will let go.

A waiter is let go when a stage is published that is enough for it. If a queue
holds a waiter that the entry's stage is already enough for, the publication
has passed, and the waiter is stranded until another one comes along - which,
for a finished entry, is never.

# Who strands a waiter

`Entry.publish` hands out every waiter its stage is enough for, and
`Entry.enqueue?` takes none that need not wait. `Entry.finishAllocation` also
publishes a stage, and hands out nobody. An entry has waiters before its
record is known only if someone asked for the record in the meantime: another
thread, or the record's own instantiation callback. So there is one way to
strand a waiter, `Machine.Hasty`, and it always does (`step_stranded_iff`).

What holds of all runs is weaker, and enough for the cycles in
`Waiting/Cycles.lean`: a queue whose entry waits for something itself has no
stranded waiters (`Reachable.fair`).
-/
import TypeRecords.Proofs.Ownership.Process

namespace TypeRecords

variable {σ : Type}

-- ====================================================== entries

namespace Entry

/-- A waiter on the queue need not wait any more. -/
def Stranded (e : Entry) : Prop := ∃ w ∈ e.queue, e.satisfies w.required = true

theorem Stranded.congr {e e' : Entry} (h : e'.Stranded) (hq : e'.queue = e.queue)
    (hr : e'.record = e.record) (hs : e'.stage = e.stage) : e.Stranded := by
  obtain ⟨w, hw, hsat⟩ := h
  refine ⟨w, hq ▸ hw, ?_⟩
  unfold satisfies at hsat ⊢
  rw [← hr, ← hs]
  exact hsat

/-- Publishing lets go of everyone the stage is enough for. -/
theorem publish_unstranded (e : Entry) (o : StepOutcome) : ¬ (e.publish o).1.Stranded := by
  rintro ⟨w, hw, hsat⟩
  have hw' : w ∈ (e.queue.partition fun w => (e.stage.later o.stage).satisfies w.required).2 := hw
  rw [List.partition_eq_filter_filter] at hw'
  have hno := (List.mem_filter.mp hw').2
  have hyes : (e.stage.later o.stage).satisfies w.required = true := by
    unfold satisfies at hsat
    exact (Bool.and_eq_true_iff.mp hsat).2
  simp [hyes] at hno

/-- Nobody waits on a finished entry without being stranded. -/
theorem queue_of_complete {e : Entry} (hs : e.Sound) (hc : e.stage = .complete)
    (hn : ¬ e.Stranded) : e.queue = [] := by
  have hr : e.record.isSome := by
    cases h : e.record with
    | none =>
        have := (hs.blank h).1
        rw [hc] at this
        cases this
    | some record => rfl
  refine List.eq_nil_iff_forall_not_mem.mpr fun w hw => hn ⟨w, hw, ?_⟩
  unfold satisfies
  rw [hr, hc]
  cases w.required <;> rfl

end Entry

namespace Store

/-- The queue of entry `i` has a stranded waiter. -/
def StrandedAt (s : Store) (i : EntryId) : Prop := ∃ e, s.entries[i]? = some e ∧ e.Stranded

/-- No waiter is stranded on an entry that waits for something itself. -/
def Fair (s : Store) : Prop :=
  ∀ (i : EntryId) (e : Entry), s.entries[i]? = some e → e.blockedOn ≠ none → ¬ e.Stranded

end Store

-- ====================================================== one step

namespace Turn.Shift

variable {lib : Library σ} {a : Actor} {t t' : Turn σ} {others : List Hold}

/-- A waiter that is stranded after a step was stranded before, or its entry's
allocation has been finished by the step. -/
theorem stranded (h : Shift lib a t t') (ho : t.store.Owned (t.holds a.id ++ others)) {i : EntryId}
    {e' : Entry} (hi : t'.store.entries[i]? = some e') (hstr : e'.Stranded) :
    ∃ e, t.store.entries[i]? = some e ∧ e'.blockedOn = e.blockedOn
      ∧ (e.Stranded ∨ e.record = none ∧ ∃ al, t.control = .allocated al ∧ al.entry = i
        ∧ ∃ w ∈ e.queue, (firstStage lib t.store al.record).2.satisfies w.required = true) := by
  have hsame : t.store.Alike t'.store → t.store.entries[i]? = some e' := fun ha => ha.entries ▸ hi
  -- an entry that changes was stranded already if it is so afterwards
  have hmodify : ∀ {j : EntryId} {e x : Entry} {f : Entry → Entry},
      t.store.entries[j]? = some e → f e = x → t'.store.entries = t.store.entries.modify j f →
      (x.Stranded → x.blockedOn = e.blockedOn ∧ e.Stranded) →
      ∃ e, t.store.entries[i]? = some e ∧ e'.blockedOn = e.blockedOn
        ∧ (e.Stranded ∨ e.record = none ∧ ∃ al, t.control = .allocated al ∧ al.entry = i
          ∧ ∃ w ∈ e.queue, (firstStage lib t.store al.record).2.satisfies w.required = true) := by
    intro j e x f hj hf hs hback
    rw [hs, Store.getElem?_modify_entry hj hf] at hi
    split at hi
    · rename_i heq
      obtain rfl := Option.some.inj hi
      exact ⟨e, heq ▸ hj, (hback hstr).1, .inl (hback hstr).2⟩
    · exact ⟨e', hi, rfl, .inl hstr⟩
  cases h with
  | quiet ha hh => exact ⟨e', hsame ha, rfl, .inl hstr⟩
  | lose hd ha hh => exact ⟨e', hsame ha, rfl, .inl hstr⟩
  | proceed hp ha hh hh' => exact ⟨e', hsame ha, rfl, .inl hstr⟩
  | forget hc hn ha hh => exact ⟨e', hsame ha, rfl, .inl hstr⟩
  | finish hc hs ha hh => exact ⟨e', hsame ha, rfl, .inl hstr⟩
  | strand hc hi hs ha hh => exact ⟨e', hsame ha, rfl, .inl hstr⟩
  | create hc hf he hk hh =>
      rw [he, Array.getElem?_push] at hi
      split at hi
      · obtain rfl := Option.some.inj hi
        obtain ⟨w, hw, -⟩ := hstr
        cases hw
      · exact ⟨e', hi, rfl, .inl hstr⟩
  | @allocate al stage rest hc hs he hk hh hh' =>
      rw [hh] at ho
      obtain ⟨e, hal, -, hrec, -⟩ := ho.fits List.mem_cons_self
      rw [he, Store.getElem?_modify_entry (i := al.entry) hal rfl] at hi
      split at hi
      · rename_i heq
        obtain rfl := Option.some.inj hi
        obtain ⟨w, hw, hsat⟩ := hstr
        refine ⟨e, heq ▸ hal, rfl, .inr ⟨hrec, al, hc, heq, w, hw, ?_⟩⟩
        rw [hs]
        exact hsat
      · exact ⟨e', hi, rfl, .inl hstr⟩
  | @publish d o e rest hc hd he hk hh hh' =>
      exact hmodify hd rfl he fun hstr => (e.publish_unstranded o hstr).elim
  | @resume d dep w ready e taken record scratch rest hc hw hr ht he hk hh hh' =>
      obtain ⟨-, rfl⟩ := Entry.reclaim?_some ht
      exact hmodify hw rfl he fun hstr => ⟨rfl, hstr.congr rfl rfl rfl⟩
  | @suspend d dep rest hc hcy hw he hk hc' hh hh' =>
      rw [hh] at ho
      obtain ⟨e, hd, -⟩ := ho.fits List.mem_cons_self
      exact hmodify hd rfl he fun hstr => ⟨rfl, hstr.congr rfl rfl rfl⟩
  | @park d dep queue e hc hq hqi hu he hk hh =>
      -- who is put on the queue is there because the entry does not satisfy it
      refine hmodify hqi rfl he fun ⟨w, hw, hsat⟩ => ⟨rfl, ?_⟩
      have hsat' : e.satisfies w.required = true := hsat
      rcases List.mem_append.mp hw with hw | hw
      · exact ⟨w, hw, hsat'⟩
      · obtain rfl := List.mem_singleton.mp hw
        rw [hu] at hsat'
        cases hsat'
  | @reclaim d dep own taken scratch rest hc hd ht he hk hh hh' =>
      obtain ⟨-, rfl⟩ := Entry.reclaim?_some ht
      exact hmodify hd rfl he fun hstr => ⟨rfl, hstr.congr rfl rfl rfl⟩

end Turn.Shift

-- ====================================================== all runs

namespace Machine

variable {lib : Library σ} {start m m' : Machine σ} {t : ThreadId}

/-- Thread `t` is about to make the record of entry `i` known, in a stage that
is enough for someone who waits for it already. -/
def Hasty (lib : Library σ) (m : Machine σ) (t : ThreadId) (i : EntryId) : Prop :=
  ∃ thread al e w, m.threads[t]? = some thread ∧ thread.control = .allocated al ∧ al.entry = i
    ∧ m.store.entries[i]? = some e ∧ w ∈ e.queue
    ∧ (Turn.firstStage lib m.store al.record).2.satisfies w.required = true

/-- `Hasty`, decided. -/
def isHasty (lib : Library σ) (m : Machine σ) (t : ThreadId) (i : EntryId) : Bool :=
  match (m.threads[t]?).map Thread.control, m.store.entries[i]? with
  | some (.allocated al), some e =>
      al.entry == i
        && e.queue.any fun w => (Turn.firstStage lib m.store al.record).2.satisfies w.required
  | _, _ => false

theorem isHasty_iff {i : EntryId} : isHasty lib m t i = true ↔ Hasty lib m t i := by
  unfold isHasty Hasty
  constructor
  · intro h
    split at h
    · rename_i al e hc he
      obtain ⟨thread, ht, hc⟩ := Option.map_eq_some_iff.mp hc
      obtain ⟨hentry, hqueue⟩ := Bool.and_eq_true_iff.mp h
      obtain ⟨w, hw, hsat⟩ := List.any_eq_true.mp hqueue
      exact ⟨thread, al, e, w, ht, hc, beq_iff_eq.mp hentry, he, hw, hsat⟩
    · cases h
  · rintro ⟨thread, al, e, w, ht, hc, hentry, he, hw, hsat⟩
    rw [ht, Option.map_some, hc, he]
    exact Bool.and_eq_true_iff.mpr
      ⟨beq_iff_eq.mpr hentry, List.any_eq_true.mpr ⟨w, hw, hsat⟩⟩

instance (lib : Library σ) (m : Machine σ) (t : ThreadId) (i : EntryId) :
    Decidable (Hasty lib m t i) := decidable_of_iff _ isHasty_iff

theorem step_fair (h : m.step lib t = some m') (ho : m.store.Owned m.holds) (hf : m.store.Fair) :
    m'.store.Fair := by
  rcases step_shift h with hs | ⟨thread, turn, hthread, rfl, hshift⟩
  · rw [hs]
    exact hf
  · intro i e' hi hb hstr
    obtain ⟨e, he, hsame, hcase⟩ :=
      hshift.stranded (ho.perm (holds_split hthread).symm) hi hstr
    rcases hcase with hold | ⟨hrec, -⟩
    · exact hf i e he (hsame ▸ hb) hold
    · exact hb (hsame.trans ((ho.sound he).blank hrec).2.1)

/-- No waiter is ever stranded on an entry that waits for something itself. -/
theorem Reachable.fair (hf : start.Fresh) (h : Reachable lib start m) : m.store.Fair := by
  induction h with
  | refl =>
      intro i e he
      rw [hf.entries] at he
      simp at he
  | step t h hs ih => exact step_fair hs (h.owned hf) ih

/-- A step strands a waiter exactly when it is hasty. -/
theorem step_stranded_iff {i : EntryId} (h : m.step lib t = some m') (ho : m.store.Owned m.holds)
    (hn : ¬ m.store.StrandedAt i) : m'.store.StrandedAt i ↔ Hasty lib m t i := by
  constructor
  · rintro ⟨e', hi, hstr⟩
    rcases step_shift h with hs | ⟨thread, turn, hthread, rfl, hshift⟩
    · rw [hs] at hi
      exact (hn ⟨e', hi, hstr⟩).elim
    · obtain ⟨e, he, -, hcase⟩ :=
        hshift.stranded (ho.perm (holds_split hthread).symm) hi hstr
      rcases hcase with hold | ⟨-, al, hc, hal, w, hw, hsat⟩
      · exact (hn ⟨e, he, hold⟩).elim
      · exact ⟨thread, al, e, w, hthread, hc, hal, he, hw, hsat⟩
  · rintro ⟨thread, al, e, w, hthread, hc, rfl, he, hw, hsat⟩
    obtain ⟨-, thread', hthread', hs⟩ := step_cases h
    obtain rfl := Option.some.inj (hthread.symm.trans hthread')
    cases hs with
    | @alone turn hturn =>
        refine ⟨e.finishAllocation t al.record (Turn.firstStage lib m.store al.record).2, ?_,
          w, hw, hsat⟩
        show turn.store.entries[al.entry]? = _
        rw [(Turn.allocated_entries (Turn.step_allocated hc hturn)).1]
        exact (Store.getElem?_modify_entry he rfl).trans (if_pos rfl)
    | program p' started hc' => rw [hc] at hc'; cases hc'

/-- No wake-up is lost: in a run without hasty steps for an entry, its queue
never holds a waiter that the entry is already enough for, and once the entry
is finished it holds nobody. And there is no other way to lose one: from any
state of such a run, a step leaves a stranded waiter exactly when it is hasty. -/
theorem Run.unstranded {i : EntryId} (hf : start.Fresh)
    (h : Run lib (fun m t => ¬ Hasty lib m t i) start m) :
    (∀ e, m.store.entries[i]? = some e → (∀ w ∈ e.queue, e.satisfies w.required = false)
        ∧ (e.stage = .complete → e.queue = []))
      ∧ ∀ t m', m.step lib t = some m' → (m'.store.StrandedAt i ↔ Hasty lib m t i) := by
  have hn : ¬ m.store.StrandedAt i := by
    induction h with
    | refl =>
        rintro ⟨e, he, -⟩
        rw [hf.entries] at he
        simp at he
    | step t h hok hs ih =>
        exact fun hstr => hok ((step_stranded_iff hs (h.reachable.owned hf) ih).mp hstr)
  have ho := h.reachable.owned hf
  refine ⟨fun e he => ⟨fun w hw => Bool.eq_false_iff.mpr fun hsat => hn ⟨e, he, w, hw, hsat⟩,
    fun hc => Entry.queue_of_complete (ho.sound he) hc fun hstr => hn ⟨e, he, hstr⟩⟩,
    fun t m' hs => step_stranded_iff hs ho hn⟩

/-- A type that requests another one as it is instantiated. The other one waits for the
first to be complete. -/
def eager : Library Unit :=
  { bare with
    descriptors := #[
      { name := "Outer"
        kind := .struct
        parameters := 0
        fields := []
        layout := none
        words := []
        instantiate := some fun registry _ =>
          .request registry (.poll .complete) (.generic 1 []) fun _ => .done ()
        completion := none },
      { name := "Inner"
        kind := .struct
        parameters := 0
        fields := []
        layout := none
        words := []
        instantiate := none
        completion := some (.callback fun _ _ => .done (some ⟨10, .complete⟩)) }] }

/-- The inner type is queued on the outer one while that is still being instantiated, and
nobody is stranded. The step that makes the outer one known is hasty: it strands the
inner one. -/
theorem unstranded_eager :
    ∃ start m m' : Machine Unit, start.Fresh
      ∧ Run eager (fun m t => ¬ Hasty eager m t 0) start m
      ∧ (∃ e w, m.store.entries[0]? = some e ∧ w ∈ e.queue ∧ e.satisfies w.required = false)
      ∧ m.step eager 0 = some m' ∧ Hasty eager m 0 0 ∧ m'.store.StrandedAt 0 := by
  let start : Machine Unit := demanding
  have hsteps : ∀ k < 13, ¬ Hasty eager (start.walk eager k) 0 0
      ∧ ((start.walk eager k).step eager 0).isSome = true := by
    decide +kernel
  have hend : Hasty eager (start.walk eager 13) 0 0
      ∧ ((start.walk eager 13).step eager 0).isSome = true := by
    decide +kernel
  obtain ⟨hhasty, hsome⟩ := hend
  obtain ⟨hsatisfied, hstrands⟩ := Run.unstranded (fresh_launch _ () _) (.walk hsteps)
  have hs := step_walk hsome
  have hqueued := hhasty
  obtain ⟨-, -, e, w, -, -, -, he, hw, -⟩ := hqueued
  exact ⟨start, _, _, fresh_launch _ () _, .walk hsteps, ⟨e, w, he, hw, (hsatisfied e he).1 w hw⟩,
    hs, hhasty, (hstrands 0 _ hs).mpr hhasty⟩

end Machine

end TypeRecords
