/-
Nothing is left over.

A process with one thread that keeps to one registry, requests nothing from
instantiation callbacks and never unwinds. `Turn.Steady` is what such a thread
keeps up at every step, whatever its callbacks do and however deep they nest;
the clauses are the invariants of the other modules, and each of them needs
the others to be kept up. At rest the thread holds nothing. An unfinished
entry would lead to a hold; so there is none (`Run.quiescent`).
-/
import TypeRecords.Proofs.Waiting.Leading
import TypeRecords.Proofs.Waiting.Nesting

namespace TypeRecords

variable {σ : Type}

-- ====================================================== suspended initializations

namespace Store

/-- Chains are followed through keys, labels, and what targets wait for. -/
theorem cycle?_congr {s s' : Store} (hl : s'.labels = s.labels) (hk : s'.keys = s.keys)
    (hb : ∀ (i : EntryId) (required : Stage),
      (s'.entries[i]?).bind (·.blocker? required) = (s.entries[i]?).bind (·.blocker? required))
    (registry : RegistryId) (start : RecordId) (first : Dependency) :
    s'.cycle? registry start first = s.cycle? registry start first := by
  have hsize : s'.records.size = s.records.size := by
    have := congrArg List.length hk
    simpa [keys] using this
  have hwaits : s'.waits registry = s.waits registry := by
    unfold waits
    rw [hsize]
    refine congrArg _ (funext fun d => ?_)
    unfold blockerOf?
    rw [entryOf?_congr hl hk]
    exact congrArg _ (funext fun i => hb i d.required)
  unfold cycle?
  rw [hwaits]

/-- Suspending an initialization changes no chain. -/
theorem cycle?_suspend {s s' : Store} {i : EntryId} {scratch : Scratch}
    (he : s'.entries = s.entries.modify i (·.suspend scratch)) (hk : s'.keys = s.keys)
    (registry : RegistryId) (start : RecordId) (first : Dependency) :
    s'.cycle? registry start first = s.cycle? registry start first := by
  refine cycle?_congr (labels_of_modify he fun e _ => ⟨rfl, rfl⟩) hk (fun j required => ?_) ..
  rw [he, Array.getElem?_modify]
  split
  · cases s.entries[j]? <;> rfl
  · rfl

end Store

/-- What has been made sure of when an initialization is suspended: its chain
does not close, and the request that started it can be answered. -/
def Store.MayLeave (s : Store) (d : Drive) (dep : Dependency) : Prop :=
  s.cycle? d.registry d.record dep = none ∧ d.request.settledBy d.stage = true

-- ====================================================== what one thread keeps up

namespace Turn

variable {lib : Library σ} {a : Actor} {t t' : Turn σ} {registry : RegistryId} {i : ThreadId}

/-- What a thread that is alone keeps up. -/
structure Steady (registry : RegistryId) (i : ThreadId) (t : Turn σ) : Prop where
  owned : t.store.Owned (t.holds i)
  sole : t.store.Sole registry
  clear : t.Stacked Clear
  unawaited : t.store.Unawaited
  unstranded : ∀ j, ¬ t.store.StrandedAt j
  leaving : ∀ d dep, .leaving d dep ∈ t.holds i → t.store.MayLeave d dep
  led : t.store.Led (t.holds i)

/-- The two holds that say what a thread does next, among those of its
control. -/
theorem control_holds {c : Control σ} {h : Hold} (hm : h ∈ c.holds i) :
    (∃ al, h = .fresh al ∧ c = .allocated al)
      ∨ (∃ d dep, h = .leaving d dep ∧ c = .enqueue d dep)
      ∨ (∀ al, h ≠ .fresh al) ∧ ∀ d dep, h ≠ .leaving d dep := by
  cases c with
  | allocated al => exact .inl ⟨al, List.mem_singleton.mp hm, rfl⟩
  | enqueue d dep => exact .inr (.inl ⟨d, dep, List.mem_singleton.mp hm, rfl⟩)
  | release d dep ready =>
      refine .inr (.inr ?_)
      rcases List.mem_cons.mp hm with rfl | hm
      · exact ⟨nofun, nofun⟩
      · obtain ⟨w, -, rfl⟩ := List.mem_map.mp hm
        exact ⟨nofun, nofun⟩
  | begin d => obtain rfl := List.mem_singleton.mp hm; exact .inr (.inr ⟨nofun, nofun⟩)
  | measure w => obtain rfl := List.mem_singleton.mp hm; exact .inr (.inr ⟨nofun, nofun⟩)
  | publish d o => obtain rfl := List.mem_singleton.mp hm; exact .inr (.inr ⟨nofun, nofun⟩)
  | stopped d dep => obtain rfl := List.mem_singleton.mp hm; exact .inr (.inr ⟨nofun, nofun⟩)
  | run p s => cases hm
  | give v left => cases hm
  | unwind f => cases hm
  | await r e q => cases hm
  | lay w => cases hm
  | acquire j arguments => cases hm
  | standBy j heard => cases hm
  | report r hooks policy => cases hm
  | ended => cases hm

/-- Among those of frames there is only one of them. -/
theorem frame_holds {f : Frame σ} {h : Hold} (hm : h ∈ f.holds i) :
    (∃ al, h = .fresh al ∧ f = .allocating al)
      ∨ (∀ al, h ≠ .fresh al) ∧ ∀ d dep, h ≠ .leaving d dep := by
  cases f with
  | allocating al => exact .inl ⟨al, List.mem_singleton.mp hm, rfl⟩
  | releasing d dep rest =>
      refine .inr ?_
      rcases List.mem_cons.mp hm with rfl | hm
      · exact ⟨nofun, nofun⟩
      · obtain ⟨w, -, rfl⟩ := List.mem_map.mp hm
        exact ⟨nofun, nofun⟩
  | stepping d => obtain rfl := List.mem_singleton.mp hm; exact .inr ⟨nofun, nofun⟩
  | measuring w => obtain rfl := List.mem_singleton.mp hm; exact .inr ⟨nofun, nofun⟩
  | relying d => obtain rfl := List.mem_singleton.mp hm; exact .inr ⟨nofun, nofun⟩
  | forResponse k s => cases hm
  | forLayout k s => cases hm
  | forTable k s => cases hm
  | forRecord k s => cases hm
  | laying w => cases hm
  | filling j => cases hm
  | founding j => cases hm
  | reporting r rest policy => cases hm

theorem control_of_leaving {d : Drive} {dep : Dependency} (h : .leaving d dep ∈ t.holds i) :
    t.control = .enqueue d dep := by
  rcases List.mem_append.mp h with h | h
  · rcases control_holds h with ⟨al, hal, -⟩ | ⟨d', dep', hd, hc⟩ | ⟨-, hno⟩
    · cases hal
    · cases hd
      exact hc
    · exact (hno d dep rfl).elim
  · obtain ⟨f, -, hf⟩ := List.mem_flatMap.mp h
    rcases frame_holds hf with ⟨al, hal, -⟩ | ⟨-, hno⟩
    · cases hal
    · exact (hno d dep rfl).elim

theorem fresh_held {al : Allocation} (h : .fresh al ∈ t.holds i) :
    t.control = .allocated al ∨ .allocating al ∈ t.frames := by
  rcases List.mem_append.mp h with h | h
  · rcases control_holds h with ⟨al', hal, hc⟩ | ⟨d, dep, hd, -⟩ | ⟨hno, -⟩
    · cases hal
      exact .inl hc
    · cases hd
    · exact (hno al rfl).elim
  · obtain ⟨f, hm, hf⟩ := List.mem_flatMap.mp h
    rcases frame_holds hf with ⟨al', hal, rfl⟩ | ⟨hno, -⟩
    · cases hal
      exact .inr hm
    · exact (hno al rfl).elim

/-- What is about to be queued has been found fit for it. -/
theorem Shift.leaving (h : Shift lib a t t') (ho : t.store.Owned (t.holds a.id))
    (hl : ∀ d dep, .leaving d dep ∈ t.holds a.id → t.store.MayLeave d dep)
    (d : Drive) (dep : Dependency) (hm : .leaving d dep ∈ t'.holds a.id) :
    t'.store.MayLeave d dep := by
  have hsame : t.store.Alike t'.store → .leaving d dep ∈ t.holds a.id →
      t'.store.MayLeave d dep := by
    intro ha hm
    unfold Store.MayLeave
    rw [Store.cycle?_congr ha.labels ha.keys fun i required => by rw [ha.entries]]
    exact hl d dep hm
  -- a thread that does something else than queueing holds nothing of this kind
  have hnot : .leaving d dep ∈ t.holds a.id → (∀ d dep, t.control ≠ .enqueue d dep) →
      t'.store.MayLeave d dep :=
    fun hm hc => (hc d dep (control_of_leaving hm)).elim
  have hqueued : ∀ {d' : Drive} {dep' : Dependency} {rest : List Hold},
      t.control = .enqueue d' dep' → t.holds a.id = .leaving d' dep' :: rest →
      .leaving d dep ∉ rest := by
    intro d' dep' rest hc hh hrest
    rw [hh] at ho
    have hc' := control_of_leaving (t := t) (hh ▸ List.mem_cons_of_mem _ hrest)
    rw [hc] at hc'
    cases hc'
    exact ho.entry_ne hrest rfl
  cases h with
  | quiet ha hh => exact hsame ha (hh.mem_iff.mp hm)
  | lose hd ha hh => exact hsame ha (hh.mem_iff.mpr (List.mem_append_right _ hm))
  | proceed hp ha hh hh' =>
      rcases List.mem_cons.mp (hh'.mem_iff.mp hm) with rfl | hm
      · cases hp
      · exact hsame ha (hh.mem_iff.mpr (List.mem_cons_of_mem _ hm))
  | forget hc hn ha hh => exact hsame ha (hh.mem_iff.mpr (List.mem_cons_of_mem _ hm))
  | finish hc hs ha hh => exact hsame ha (hh ▸ List.mem_cons_of_mem _ hm)
  | create hc hf he hk hh =>
      rcases List.mem_cons.mp (hh.mem_iff.mp hm) with hm | hm
      · cases hm
      · exact hnot hm (by rw [hc]; nofun)
  | @allocate al stage rest hc hs he hk hh hh' =>
      rw [hh'] at hm
      rcases List.mem_append.mp hm with hm | hm
      · split at hm
        · cases hm
        · cases List.mem_singleton.mp hm
      · exact hnot (hh ▸ List.mem_cons_of_mem _ hm) (by rw [hc]; nofun)
  | publish hc hi he hk hh hh' =>
      rw [hh'] at hm
      rcases List.mem_append.mp hm with hm | hm
      · rcases List.mem_cons.mp hm with hm | hm
        · cases hm
        · obtain ⟨w, -, hw⟩ := List.mem_map.mp hm
          cases hw
      · exact hnot (hh ▸ List.mem_cons_of_mem _ hm) (by rw [hc]; nofun)
  | resume hc hi hr ht he hk hh hh' =>
      rw [hh'] at hm
      rcases List.mem_cons.mp hm with hm | hm
      · cases hm
      · exact hnot (hh.mem_iff.mpr (List.mem_cons_of_mem _ hm)) (by rw [hc]; nofun)
  | suspend hc hcy hw he hk hc' hh hh' =>
      rw [hh'] at hm
      rcases List.mem_cons.mp hm with hm | hm
      · cases hm
        refine ⟨by rw [Store.cycle?_suspend he hk]; exact hcy, ?_⟩
        unfold Request.settledBy
        cases hwaits : d.request.waits with
        | false => rfl
        | true => exact Classical.not_not.mp fun hno => hw ⟨hwaits, hno⟩
      · exact hnot (hh ▸ List.mem_cons_of_mem _ hm) (by rw [hc]; nofun)
  | park hc hq hi hu he hk hh => exact (hqueued hc hh hm).elim
  | reclaim hc hi ht he hk hh hh' =>
      rw [hh'] at hm
      rcases List.mem_cons.mp hm with hm | hm
      · cases hm
      · exact (hqueued hc hh hm).elim
  | strand hc hi hs ha hh => exact (hqueued hc hh hm).elim

namespace Steady

/-- A record that is looked up while an initialization is queued is there:
whatever has no record yet is being allocated, and nothing is being allocated
below work on an entry. -/
theorem record_of_asked (hs : t.Steady registry i) (hasked : t.control.duty.asked = true)
    (hnew : ∀ al, t.control ≠ .allocated al) {j : EntryId} {e : Entry}
    (he : t.store.entries[j]? = some e) : e.record ≠ none := by
  intro hr
  have hu : e.stage ≠ .complete := by
    rw [((hs.owned.sound he).blank hr).1]
    decide
  cases hs.led j e he hu with
  | @held h hm =>
      have hsuits := hs.owned.suits hm he
      obtain ⟨al, rfl⟩ := hsuits.fresh_of_none hr
      rcases fresh_held hm with hc | hm
      · exact hnew al hc
      · cases hs.clear.1 hasked _ hm
  | parked hx hw _ =>
      obtain ⟨y, target, hy, hp, -⟩ := hs.owned.parked hx hw
      obtain rfl := Option.some.inj (he.symm.trans hy)
      have hsome := hp.record
      rw [hr] at hsome
      cases hsome

/-- One orderly step keeps it all up. -/
theorem step (h : t.step lib a = some t') (hs : t.Steady registry a.id)
    (hord : t.orderly registry = true) (hcalm' : t'.control.disturbed = false) :
    t'.Steady registry a.id := by
  have hshift := step_shift h
  have hpark : ∀ d dep queue e, t.control = .enqueue d dep →
      t.store.entryOf? d.registry dep.target = some queue → t.store.entries[queue]? = some e →
      e.record ≠ none := fun d dep queue e hc _ he =>
    hs.record_of_asked (by rw [hc]; rfl) (by rw [hc]; nofun) he
  have howned := hshift.owned (by rw [List.append_nil]; exact hs.owned)
  rw [List.append_nil] at howned
  refine ⟨howned, hshift.sole hs.sole fun _ _ _ _ _ hc => (orderly_request hord hc).1,
    (step_moves h).clear hord hcalm' hs.clear, hshift.unawaited hs.owned hs.unawaited hpark, ?_,
    hshift.leaving hs.owned hs.leaving, ?_⟩
  · rintro j ⟨e', he', hstr⟩
    obtain ⟨e, he, -, hcase⟩ :=
      hshift.stranded (by rw [List.append_nil]; exact hs.owned) he' hstr
    rcases hcase with hold | ⟨hrec, al, -, -, w, hw, -⟩
    · exact hs.unstranded j ⟨e, he, hold⟩
    · rw [hs.unawaited j e he hrec] at hw
      cases hw
  · refine hshift.led (calm_of_orderly hord) hcalm' hs.owned hs.sole hs.unstranded hs.unawaited
      (fun d dep hc => (hs.leaving d dep ?_).1) hs.led
    refine List.mem_append_left _ ?_
    rw [hc]
    exact List.mem_singleton.mpr rfl

/-- A program that goes on by the machine's doing changes nothing. -/
theorem program {p p' : Program σ Value} {s s' : Setting σ} (hs : t.Steady registry i)
    (hc : t.control = .run p s) (hstore : t'.store = t.store) (hc' : t'.control = .run p' s')
    (hf : t'.frames = t.frames) : t'.Steady registry i := by
  have hholds : t'.holds i = t.holds i := by
    rw [holds_of_control hc, holds_of_control hc', hf]
    rfl
  refine ⟨?_, ?_, ⟨?_, hf ▸ hs.clear.2⟩, ?_, ?_, ?_, ?_⟩
  · rw [hstore, hholds]
    exact hs.owned
  · rw [hstore]
    exact hs.sole
  · rw [hc', hf]
    exact fun hasked => by cases hasked
  · rw [hstore]
    exact hs.unawaited
  · rw [hstore]
    exact hs.unstranded
  · rw [hstore, hholds]
    exact hs.leaving
  · rw [hstore, hholds]
    exact hs.led

end Steady

end Turn

-- ====================================================== processes with one thread

/-- The thread is in no call: its program goes on, hands over its result, or
is over. -/
def Thread.atRest (thread : Thread σ) : Bool :=
  thread.frames.isEmpty && match thread.control with
    | .run .. => true
    | .give .. => true
    | .ended => true
    | _ => false

theorem Thread.at_rest (thread : Thread σ) (h : thread.atRest = true) :
    thread.frames = [] ∧ thread.control.disturbed = false ∧ ∀ i, thread.control.holds i = [] := by
  unfold atRest at h
  obtain ⟨hf, hc⟩ := Bool.and_eq_true_iff.mp h
  refine ⟨List.isEmpty_iff.mp hf, ?_⟩
  split at hc
  · rename_i hrun
    rw [hrun]
    exact ⟨rfl, fun _ => rfl⟩
  · rename_i hgive
    rw [hgive]
    exact ⟨rfl, fun _ => rfl⟩
  · rename_i hended
    rw [hended]
    exact ⟨rfl, fun _ => rfl⟩
  · cases hc

namespace Machine

variable {lib : Library σ} {start m m' : Machine σ} {registry : RegistryId} {thread : Thread σ}

/-- At rest a thread holds nothing. -/
theorem holds_at_rest (m : Machine σ) (hrest : thread.atRest = true) (i : ThreadId) :
    (m.turn thread).holds i = [] := by
  obtain ⟨hframes, -, hnone⟩ := thread.at_rest hrest
  show thread.control.holds i ++ framesHold i thread.frames = []
  rw [hframes, hnone]
  rfl

/-- The process has one thread, and its next step is orderly. -/
abbrev Orderly (registry : RegistryId) (m : Machine σ) : Prop :=
  m.Alone fun t => t.orderly registry = true

/-- Nothing has happened yet, so there is nothing to keep up. -/
theorem Fresh.steady (hf : start.Fresh) (registry : RegistryId)
    (ht : start.threads = #[thread]) : (start.turn thread).Steady registry 0 := by
  obtain ⟨hfs, p, s, hc⟩ := hf.running thread (by rw [ht]; exact Array.mem_singleton.mpr rfl)
  have hholds : (start.turn thread).holds 0 = [] := by
    unfold Turn.holds turn
    rw [hc, hfs]
    rfl
  have hno : ∀ {i : EntryId} {e : Entry}, start.store.entries[i]? ≠ some e := by simp [hf.entries]
  refine ⟨?_, hf.sole registry, ⟨?_, ?_⟩, fun i e he => (hno he).elim, ?_, ?_,
    fun i e he => (hno he).elim⟩
  · rw [hholds]
    exact Store.owned_of_empty hf.entries
  · show Turn.Clear thread.control.duty thread.frames
    rw [hc]
    exact fun hasked => by cases hasked
  · intro above f below habove
    have habove' : thread.frames = above ++ f :: below := habove
    rw [hfs] at habove'
    simp at habove'
  · rintro j ⟨e, he, -⟩
    exact hno he
  · intro d dep hm
    rw [hholds] at hm
    cases hm

/-- A thread that is alone keeps it up as long as its steps are orderly and
nothing is about to unwind. -/
theorem Run.steady (hf : start.Fresh) (h : Run lib (fun m _ => m.Orderly registry) start m)
    (ht : m.threads = #[thread]) (hcalm : thread.control.disturbed = false) :
    (m.turn thread).Steady registry 0 := by
  refine h.alone (P := fun t => t.control.disturbed = false → t.Steady registry 0)
    (fun thread ht _ => hf.steady registry ht) (fun hP hg hs hcalm' => ?_)
    (fun hP hg hc _ hstore hc' hframes _ => ?_) ht hcalm
  · exact Turn.Steady.step hs (hP (Turn.calm_of_orderly hg)) hg hcalm'
  · exact (hP (Turn.calm_of_orderly hg)).program hc hstore hc' hframes

/-- Whenever no call is in progress everything is finished. One thread, whose
steps keep to one registry, request nothing while a record is being
instantiated and do not unwind; whatever else callbacks do, once the thread is
at rest every entry is complete, for all to see, and has nothing pending and
nobody waiting. -/
theorem Run.quiescent (hf : start.Fresh)
    (h : Run lib (fun m _ => m.Orderly registry) start m) (ht : m.threads = #[thread])
    (hrest : thread.atRest = true) :
    ∀ e ∈ m.store.entries, e.stage = .complete ∧ e.published = some .complete ∧ e.record.isSome
      ∧ e.queue = [] ∧ e.saved = none ∧ e.blockedOn = none ∧ e.initializer = none := by
  have hs := h.steady hf ht (thread.at_rest hrest).2.1
  have hholds := m.holds_at_rest hrest 0
  intro e hm
  obtain ⟨i, he⟩ := Array.mem_iff_getElem?.mp hm
  have hsound := hs.owned.sound he
  have hc : e.stage = .complete := by
    by_cases hc : e.stage = .complete
    · exact hc
    · have hlead := hs.led i e he hc
      rw [hholds] at hlead
      exact hlead.not_nil.elim
  obtain ⟨hblocked, hsaved, hinit⟩ := hsound.ended hc
  cases hr : e.record with
  | none =>
      rw [(hsound.blank hr).1] at hc
      cases hc
  | some record =>
      refine ⟨hc, ?_, rfl, Entry.queue_of_complete hsound hc fun hstr =>
        hs.unstranded i ⟨e, he, hstr⟩, hsaved, hblocked, hinit⟩
      rw [hsound.published, hr, hc]
      rfl

/-- The inner type is parked and let go on the way, and nothing is left over. -/
theorem quiescent_pair :
    ∃ (start m : Machine Unit) (thread : Thread Unit), start.Fresh
      ∧ Run pair (fun m _ => m.Orderly 0) start m ∧ m.threads = #[thread]
      ∧ thread.atRest = true ∧ m.store.entries.size = 2
      ∧ ∀ e ∈ m.store.entries, e.stage = .complete ∧ e.published = some .complete
        ∧ e.record.isSome ∧ e.queue = [] ∧ e.saved = none ∧ e.blockedOn = none
        ∧ e.initializer = none := by
  let start : Machine Unit := demanding
  have hsteps : ∀ k < 43, (start.walk pair k).Orderly 0
      ∧ ((start.walk pair k).step pair 0).isSome = true := by
    decide +kernel
  have hend : (start.walk pair 43).threads.size = 1
      ∧ (∀ thread ∈ (start.walk pair 43).threads, thread.atRest = true)
      ∧ (start.walk pair 43).store.entries.size = 2 := by
    decide +kernel
  obtain ⟨hone, hrest, htwo⟩ := hend
  obtain ⟨thread, ht, hrest'⟩ := single_thread hone hrest
  exact ⟨start, _, thread, fresh_launch _ () _, .walk hsteps, ht, hrest', htwo,
    Run.quiescent (fresh_launch _ () _) (.walk hsteps) ht hrest'⟩

end Machine

end TypeRecords
