/-
Who looks after an entry.

An entry that is not finished has to be finished by someone. That someone is
either a thread, which has the entry's allocation or its initialization
somewhere on its stack, or another entry, on whose queue the initialization is
parked. A `Hold` is one such responsibility of a thread. `Store.Owned` says
that the responsibilities are well kept: each entry looks the way its holder
believes it to look, and no entry has two holders.

# The life of an initialization

`fresh` (the record is being allocated), then round and round through `active`
(a step runs), `concluding` (its outcome is known), `stopping` (the outcome is
published, others are taken up) and perhaps `leaving` (suspended, not queued
yet). From there the entry goes to a queue; `ready` is a waiter that has been
let go from one and not been taken up yet.

# Why counting

The holds of a thread are read off its control and its frames, those on queues
off the entries. A step moves holds between these places, so what has to stay
is a number: how many holders an entry has, `Store.holders`. That each entry
has at most one is kept by every step of every run, faults included; that each
unfinished one has exactly one is kept as long as nothing unwinds.
-/
import TypeRecords.Machine.State
import TypeRecords.Proofs.Store.Naming

namespace TypeRecords

-- ====================================================== entries

namespace Entry

/-- What is true of an entry whoever holds it: the stage that can be read at
any time is the stage; without a record nothing has happened yet; and a
finished entry has nothing pending. -/
structure Sound (e : Entry) : Prop where
  published : e.published = e.record.map fun _ => e.stage
  blank : e.record = none →
    e.stage = .abstract ∧ e.blockedOn = none ∧ e.saved = none ∧ e.initializer = none
  ended : e.stage = .complete → e.blockedOn = none ∧ e.saved = none ∧ e.initializer = none

/-- The entry is as the thread that runs `d` believes it to be. -/
structure Driven (e : Entry) (t : ThreadId) (d : Drive) : Prop where
  registry : e.registry = d.registry
  record : e.record = some d.record
  stage : e.stage = d.stage
  saved : e.saved = none
  initializer : e.initializer = if e.stage = .complete then none else some t

/-- The initialization is parked, or about to be, until something reaches
`required`. -/
structure Parked (e : Entry) (required : Stage) : Prop where
  record : e.record.isSome
  unfinished : e.stage ≠ .complete
  saved : e.saved.isSome
  initializer : e.initializer = none
  blockedOn : ∃ target, e.blockedOn = some ⟨target, required⟩

/-- The initialization that ran as `d` is parked on `dep`, or about to be. -/
structure Left (e : Entry) (d : Drive) (dep : Dependency) : Prop where
  registry : e.registry = d.registry
  record : e.record = some d.record
  stage : e.stage = d.stage
  unfinished : e.stage ≠ .complete
  saved : e.saved = some d.scratch
  initializer : e.initializer = none
  blockedOn : e.blockedOn = some dep

theorem Left.parked {e : Entry} {d : Drive} {dep : Dependency} (h : e.Left d dep) :
    e.Parked dep.required :=
  ⟨by simp [h.record], h.unfinished, by simp [h.saved], h.initializer, _, h.blockedOn⟩

/-- What can be read at any time is there as soon as the record is. -/
theorem Sound.snapshot {e : Entry} (h : e.Sound) {record : RecordId} (hr : e.record = some record) :
    e.snapshot? = some ⟨record, e.stage⟩ := by
  unfold snapshot?
  rw [h.published, hr]
  rfl

theorem Sound.snapshot_none {e : Entry} (hr : e.record = none) : e.snapshot? = none := by
  unfold snapshot?
  rw [hr]

end Entry

-- ====================================================== holds

/-- A thread's responsibility for an entry. -/
inductive Hold
  /-- The entry's record is being allocated. -/
  | fresh (a : Allocation)
  /-- A completion step runs. -/
  | active (t : ThreadId) (d : Drive)
  /-- A completion step has come to its outcome. -/
  | concluding (t : ThreadId) (d : Drive) (o : StepOutcome)
  /-- The outcome is published, and `dep` is what stopped the step. -/
  | stopping (t : ThreadId) (d : Drive) (dep : Option Dependency)
  /-- The initialization is suspended, and not yet on a queue. -/
  | leaving (d : Drive) (dep : Dependency)
  /-- A waiter has been let go, and not been taken up yet. -/
  | ready (registry : RegistryId) (w : Waiter)

namespace Hold

/-- The entry it is for. -/
def entry : Hold → EntryId
  | fresh a => a.entry
  | active _ d => d.entry
  | concluding _ d _ => d.entry
  | stopping _ d _ => d.entry
  | leaving d _ => d.entry
  | ready _ w => w.entry

@[simp] theorem entry_fresh (a : Allocation) : (fresh a).entry = a.entry := rfl

@[simp] theorem entry_active (t : ThreadId) (d : Drive) : (active t d).entry = d.entry := rfl

@[simp] theorem entry_concluding (t : ThreadId) (d : Drive) (o : StepOutcome) :
    (concluding t d o).entry = d.entry := rfl

@[simp] theorem entry_stopping (t : ThreadId) (d : Drive) (dep : Option Dependency) :
    (stopping t d dep).entry = d.entry := rfl

@[simp] theorem entry_leaving (d : Drive) (dep : Dependency) :
    (leaving d dep).entry = d.entry := rfl

@[simp] theorem entry_ready (registry : RegistryId) (w : Waiter) :
    (ready registry w).entry = w.entry := rfl

/-- What the holder takes for granted about the entry. -/
def Suits (s : Store) : Hold → Entry → Prop
  | fresh a, e => e.registry = a.registry ∧ e.record = none ∧ s.keyOf a.record = some e.key
  | active t d, e => e.Driven t d ∧ e.stage ≠ .complete
  | concluding t d o, e =>
    e.Driven t d ∧ e.stage ≠ .complete ∧ (o.stage = .complete ↔ o.dependency = none)
  | stopping t d dep, e =>
    e.Driven t d ∧ e.blockedOn = dep ∧ (e.stage = .complete ↔ dep = none)
  | leaving d dep, e => e.Left d dep
  | ready registry w, e => e.registry = registry ∧ e.Parked w.required

/-- The entry is there and looks that way. -/
def Fits (s : Store) (h : Hold) : Prop := ∃ e, s.entries[h.entry]? = some e ∧ h.Suits s e

/-- None of it is about the entry's own queue. -/
theorem Suits.queue {s : Store} {h : Hold} {e : Entry} (hs : h.Suits s e) (q : List Waiter) :
    h.Suits s { e with queue := q } := by
  cases h with
  | fresh a => exact hs
  | active t d => exact ⟨⟨hs.1.1, hs.1.2, hs.1.3, hs.1.4, hs.1.5⟩, hs.2⟩
  | concluding t d o => exact ⟨⟨hs.1.1, hs.1.2, hs.1.3, hs.1.4, hs.1.5⟩, hs.2⟩
  | stopping t d dep => exact ⟨⟨hs.1.1, hs.1.2, hs.1.3, hs.1.4, hs.1.5⟩, hs.2⟩
  | leaving d dep => exact ⟨hs.1, hs.2, hs.3, hs.4, hs.5, hs.6, hs.7⟩
  | ready registry w =>
      obtain ⟨hr, hp⟩ := hs
      exact ⟨hr, ⟨hp.1, hp.2, hp.3, hp.4, hp.5⟩⟩

theorem Suits.grows {s s' : Store} (hx : s.Extends s') {h : Hold} {e : Entry}
    (hs : h.Suits s e) : h.Suits s' e := by
  cases h with
  | fresh a => exact ⟨hs.1, hs.2.1, hx.keyOf hs.2.2⟩
  | active t d => exact hs
  | concluding t d o => exact hs
  | stopping t d dep => exact hs
  | leaving d dep => exact hs
  | ready registry w => exact hs

/-- An entry is held without a record only while the record is allocated. -/
theorem Suits.fresh_of_none {s : Store} {h : Hold} {e : Entry} (hs : h.Suits s e)
    (hr : e.record = none) : ∃ a, h = .fresh a := by
  cases h with
  | fresh a => exact ⟨a, rfl⟩
  | active t d => rw [hs.1.record] at hr; cases hr
  | concluding t d o => rw [hs.1.record] at hr; cases hr
  | stopping t d dep => rw [hs.1.record] at hr; cases hr
  | leaving d dep => rw [hs.record] at hr; cases hr
  | ready registry w =>
      have := hs.2.record
      rw [hr] at this
      cases this

end Hold

-- ====================================================== where they are

variable {σ : Type}

/-- What a thread holds by what it does next. -/
def Control.holds (t : ThreadId) : Control σ → List Hold
  | .allocated a => [.fresh a]
  | .begin d => [.active t d]
  | .measure w => [.active t w.drive]
  | .publish d o => [.concluding t d o]
  | .release d dep ready => .stopping t d dep :: ready.map (.ready d.registry)
  | .stopped d dep => [.stopping t d (some dep)]
  | .enqueue d dep => [.leaving d dep]
  | _ => []

/-- What a thread holds by waiting in a frame. -/
def Frame.holds (t : ThreadId) : Frame σ → List Hold
  | .allocating a => [.fresh a]
  | .stepping d => [.active t d]
  | .measuring w => [.active t w.drive]
  | .relying d => [.active t d]
  | .releasing d dep rest => .stopping t d dep :: rest.map (.ready d.registry)
  | _ => []

/-- What a stack of frames holds. -/
def framesHold (t : ThreadId) (fs : List (Frame σ)) : List Hold := fs.flatMap (Frame.holds t)

/-- What thread `t` holds. -/
def Turn.holds (t : ThreadId) (turn : Turn σ) : List Hold :=
  turn.control.holds t ++ framesHold t turn.frames

@[simp] theorem framesHold_nil (t : ThreadId) : framesHold t ([] : List (Frame σ)) = [] := rfl

@[simp] theorem framesHold_cons (t : ThreadId) (f : Frame σ) (fs : List (Frame σ)) :
    framesHold t (f :: fs) = f.holds t ++ framesHold t fs := rfl

namespace Turn

variable {turn : Turn σ} {c : Control σ} {t : ThreadId}

/-- What a thread holds, once what it does next is known. -/
theorem holds_of_control (hc : turn.control = c) :
    turn.holds t = c.holds t ++ framesHold t turn.frames := by
  rw [holds, hc]

/-- What a thread does next is part of what it holds. -/
theorem mem_holds_of_control (hc : turn.control = c) {hold : Hold} (hm : hold ∈ c.holds t) :
    hold ∈ turn.holds t := by
  rw [holds_of_control hc]
  exact List.mem_append_left _ hm

/-- What its frames wait for is part of it, too. -/
theorem mem_holds_of_frame {f : Frame σ} (hf : f ∈ turn.frames) {hold : Hold}
    (hm : hold ∈ f.holds t) : hold ∈ turn.holds t :=
  List.mem_append_right _ (List.mem_flatMap.mpr ⟨f, hf, hm⟩)

end Turn

namespace Store

/-- The entries whose initialization is parked, once for each time. -/
def waiting (s : Store) : List EntryId :=
  (s.entries.toList.map fun e => e.queue.map (·.entry)).flatten

/-- How often an entry is held: by threads, as in `H`, and on queues. -/
def holders (s : Store) (H : List Hold) (i : EntryId) : Nat :=
  (H.map (·.entry)).count i + s.waiting.count i

/-- A waiter on the queue of `queue` is parked there rightly: what it waits for
is the record of that entry. -/
def ParkedOn (s : Store) (queue : EntryId) (w : Waiter) : Prop :=
  ∃ e target, s.entries[w.entry]? = some e ∧ e.Parked w.required
    ∧ e.blockedOn = some ⟨target, w.required⟩
    ∧ s.entryOf? e.registry target = some queue

/-- The responsibilities `H` of threads, and those on queues, are well kept. -/
structure Owned (s : Store) (H : List Hold) : Prop where
  distinct : s.labels.Nodup
  sound : ∀ {i : EntryId} {e : Entry}, s.entries[i]? = some e → e.Sound
  keyed : ∀ {i : EntryId} {e : Entry} {r : RecordId},
    s.entries[i]? = some e → e.record = some r → s.keyOf r = some e.key
  fits : ∀ {h : Hold}, h ∈ H → h.Fits s
  parked : ∀ {i : EntryId} {e : Entry} {w : Waiter},
    s.entries[i]? = some e → w ∈ e.queue → s.ParkedOn i w
  once : ∀ i, s.holders H i ≤ 1

/-- Whatever is not finished is held. -/
def Held (s : Store) (H : List Hold) : Prop :=
  ∀ i e, s.entries[i]? = some e → e.stage ≠ .complete → 1 ≤ s.holders H i

end Store

end TypeRecords
