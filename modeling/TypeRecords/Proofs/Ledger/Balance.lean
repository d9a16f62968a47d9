/-
The counters are an exact ledger.

Four equations hold whenever no call is in progress and nothing has unwound
(`Chronicle.ledger_exact`). In between none of them holds: what a thread has
begun and not entered yet is missing, and it may have begun any number of things,
one inside the other. With what is owed added in, they hold at every moment
(`Chronicle.Kept`):

- hits + instantiations + allocations under way = requests that look a key up;
- instantiations + allocations under way = entries;
- steps = dependencies + records completed by a step + outcomes under way;
- resumptions + waiters queued + waiters let go = times an entry was parked.

# Why a step keeps them

Every item on `Turn.Posts` moves one unit from one place to another
(`Turn.Posts.balance`). Two of them depend on how entries are looked after. A
publication finishes a record exactly if nothing stopped the step, and a waiter
that is queued was not on any queue before: this is what the holders of these
entries take for granted (`Store.Owned`), and nobody else can have changed it.
-/
import TypeRecords.Proofs.Ledger.Posting
import TypeRecords.Proofs.Ownership.Final
import TypeRecords.Proofs.Process.Chronicle
import TypeRecords.Proofs.Waiting.Quiescence
import Mathlib.Algebra.GroupWithZero.Nat
import Mathlib.Data.Nat.Count

namespace TypeRecords

variable {σ : Type}

-- ====================================================== entries in sum

namespace Store

variable {s s' : Store} {registry : RegistryId} {i : EntryId} {e : Entry}

/-- A number for every entry, summed up. -/
def total (s : Store) (g : Entry → Nat) : Nat := (s.entries.toList.map g).sum

/-- How many waiters are on the queues of a registry's entries. -/
def queued (s : Store) (registry : RegistryId) : Nat :=
  s.total fun e => if e.registry = registry then e.queue.length else 0

/-- Every entry belongs to a registry that is open. -/
def Housed (s : Store) : Prop := ∀ e ∈ s.entries, e.registry < s.registries.size

/-- Entry `i` of the registry, whose record is there already, becomes
complete. -/
def Completes (s s' : Store) (registry : RegistryId) (i : EntryId) : Prop :=
  ∃ e ∈ s.entries[i]?, e.registry = registry ∧ e.record.isSome = true ∧ e.stage ≠ .complete
    ∧ ∃ e' ∈ s'.entries[i]?, e'.stage = .complete

instance : Decidable (s.Completes s' registry i) :=
  inferInstanceAs (Decidable (∃ e ∈ s.entries[i]?, e.registry = registry ∧ e.record.isSome = true
    ∧ e.stage ≠ .complete ∧ ∃ e' ∈ s'.entries[i]?, e'.stage = .complete))

/-- The initialization of an entry of the registry comes to be on a queue. -/
def Parks (s s' : Store) (registry : RegistryId) : Prop :=
  ∃ i ∈ s'.waiting, i ∉ s.waiting ∧ ∃ e ∈ s.entries[i]?, e.registry = registry

instance : Decidable (s.Parks s' registry) :=
  inferInstanceAs (Decidable (∃ i ∈ s'.waiting, i ∉ s.waiting
    ∧ ∃ e ∈ s.entries[i]?, e.registry = registry))

/-- The entries that become complete. -/
def completed (s s' : Store) (registry : RegistryId) : Finset EntryId :=
  (Finset.range s.entries.size).filter (s.Completes s' registry)

theorem mem_completed : i ∈ s.completed s' registry ↔ s.Completes s' registry i := by
  unfold completed
  rw [Finset.mem_filter, Finset.mem_range]
  refine ⟨fun h => h.2, fun h => ⟨?_, h⟩⟩
  obtain ⟨e, he, -⟩ := h
  exact (Array.getElem?_eq_some_iff.mp he).1

private theorem sum_map_modify (g : Entry → Nat) (f : Entry → Entry) :
    ∀ {l : List Entry} {i : Nat} {e : Entry}, l[i]? = some e →
      ((l.modify i f).map g).sum + g e = (l.map g).sum + g (f e)
  | [], i, e, h => by simp at h
  | x :: xs, 0, e, h => by
      obtain rfl := Option.some.inj h
      simp only [List.modify_zero_cons, List.map_cons, List.sum_cons]
      omega
  | x :: xs, i + 1, e, h => by
      have ih := sum_map_modify g f (List.getElem?_cons_succ ▸ h)
      simp only [List.modify_succ_cons, List.map_cons, List.sum_cons]
      omega

theorem total_modify {f : Entry → Entry} (g : Entry → Nat) (he : s.entries[i]? = some e)
    (hs : s'.entries = s.entries.modify i f) : s'.total g + g e = s.total g + g (f e) := by
  unfold total
  rw [hs, Array.toList_modify]
  exact sum_map_modify g f (by rw [Array.getElem?_toList]; exact he)

theorem total_push (g : Entry → Nat) (hs : s'.entries = s.entries.push e) :
    s'.total g = s.total g + g e := by
  unfold total
  rw [hs, Array.toList_push, List.map_append, List.sum_append]
  simp

theorem cachedCount_eq (s : Store) (registry : RegistryId) :
    s.cachedCount registry = s.total fun e => if e.registry = registry then 1 else 0 := by
  unfold cachedCount total
  rw [← Array.countP_toList]
  induction s.entries.toList with
  | nil => rfl
  | cons e es ih =>
      rw [List.countP_cons, ih, List.map_cons, List.sum_cons, Nat.add_comm]
      simp only [beq_iff_eq]

variable {f : Entry → Entry} {r : RegistryId}

theorem cachedCount_modify (he : s.entries[i]? = some e) (hs : s'.entries = s.entries.modify i f)
    (hf : (f e).registry = e.registry) : s'.cachedCount r = s.cachedCount r := by
  have h := total_modify (fun e => if e.registry = r then 1 else 0) he hs
  simp only [hf] at h
  rw [cachedCount_eq, cachedCount_eq]
  omega

theorem queued_modify (he : s.entries[i]? = some e) (hs : s'.entries = s.entries.modify i f)
    (hf : (f e).registry = e.registry) :
    s'.queued r + (if e.registry = r then e.queue.length else 0)
      = s.queued r + if e.registry = r then (f e).queue.length else 0 := by
  have h := total_modify (fun e => if e.registry = r then e.queue.length else 0) he hs
  simp only [hf] at h
  exact h

namespace Level

theorem map_eq {β : Type} (h : s.Level s') {g : Entry → β}
    (hg : ∀ {e e' : Entry}, e'.registry = e.registry → e'.queue = e.queue → g e' = g e) :
    s'.entries.toList.map g = s.entries.toList.map g := by
  refine List.ext_getElem? fun i => ?_
  rw [List.getElem?_map, List.getElem?_map, Array.getElem?_toList, Array.getElem?_toList]
  cases he : s.entries[i]? with
  | none =>
      have hout : s'.entries[i]? = none := by
        rw [Array.getElem?_eq_none_iff, h.size]
        exact Array.getElem?_eq_none_iff.mp he
      rw [hout]
  | some e =>
      obtain ⟨e', he', hreg, hq, -⟩ := h.entries he
      rw [he', Option.map_some, Option.map_some, hg hreg hq]

theorem cachedCount (h : s.Level s') (registry : RegistryId) :
    s'.cachedCount registry = s.cachedCount registry := by
  rw [cachedCount_eq, cachedCount_eq]
  exact congrArg List.sum (h.map_eq fun hreg _ => by rw [hreg])

theorem queued (h : s.Level s') (registry : RegistryId) :
    s'.queued registry = s.queued registry :=
  congrArg List.sum (h.map_eq fun hreg hq => by rw [hreg, hq])

theorem waiting (h : s.Level s') : s'.waiting = s.waiting :=
  congrArg List.flatten (h.map_eq fun _ hq => by rw [hq])

end Level

/-- Where no record that is there changes its stage, none becomes complete. -/
theorem completed_eq_empty (h : ∀ {i : EntryId} {e e' : Entry}, s.entries[i]? = some e →
    s'.entries[i]? = some e' → e.record.isSome = true → e'.stage = e.stage) :
    s.completed s' registry = ∅ := by
  refine Finset.eq_empty_of_forall_notMem fun i hi => ?_
  obtain ⟨e, he, -, hr, hu, e', he', hc⟩ := mem_completed.mp hi
  exact hu ((h he he' hr).symm.trans hc)

/-- A new entry is not complete. -/
theorem completed_push (hs : s'.entries = s.entries.push e) : s.completed s' registry = ∅ :=
  completed_eq_empty fun {i x x'} hx hx' _ => by
    have hlt := (Array.getElem?_eq_some_iff.mp hx).1
    rw [hs, Array.getElem?_push, if_neg (Nat.ne_of_lt hlt)] at hx'
    obtain rfl := Option.some.inj (hx.symm.trans hx')
    rfl

/-- Where an entry stays in its stage, nothing becomes complete. -/
theorem completed_modify {e' : Entry} (he : s.entries[i]? = some e)
    (hs : s'.entries = s.entries.modify i fun _ => e') (hstage : e'.stage = e.stage) :
    s.completed s' registry = ∅ :=
  completed_eq_empty fun {j x x'} hx hx' _ => by
    rw [hs, getElem?_modify_entry he rfl] at hx'
    split at hx'
    · rename_i heq
      subst heq
      obtain rfl := Option.some.inj (he.symm.trans hx)
      obtain rfl := Option.some.inj hx'
      exact hstage
    · obtain rfl := Option.some.inj (hx.symm.trans hx')
      rfl

/-- Where nobody comes to wait, nobody is parked. -/
theorem not_parks (h : ∀ i ∈ s'.waiting, i ∈ s.waiting) : ¬ s.Parks s' registry := by
  rintro ⟨i, hi, hn, -⟩
  exact hn (h i hi)

/-- Nobody waits for a new entry. -/
theorem not_parks_push (hs : s'.entries = s.entries.push e) (hq : e.queue = []) :
    ¬ s.Parks s' registry := by
  refine not_parks fun j hj => ?_
  unfold waiting at hj
  rw [hs, Array.toList_push, List.map_append, List.flatten_append, List.map_singleton, hq] at hj
  rwa [List.map_nil, List.flatten_singleton, List.append_nil] at hj

/-- Publication takes waiters off a queue, and puts none there. -/
theorem not_parks_publish {o : StepOutcome} (he : s.entries[i]? = some e)
    (hs : s'.entries = s.entries.modify i fun _ => (e.publish o).1) :
    ¬ s.Parks s' registry := by
  refine not_parks fun j hj => ?_
  obtain ⟨queue, x, w, hx, hw, rfl⟩ := of_mem_waiting hj
  rw [hs, getElem?_modify_entry he rfl] at hx
  split at hx
  · obtain rfl := Option.some.inj hx
    exact mem_waiting he ((e.publish_queue o).mem_iff.mpr (List.mem_append_right _ hw))
  · exact mem_waiting hx hw

/-- Registries stay open, and entries stay in theirs. -/
theorem Housed.of_registry {s s' : Store} (h : s.Housed)
    (hopens : s.registries.size ≤ s'.registries.size)
    (he : ∀ {i : EntryId} {e' : Entry}, s'.entries[i]? = some e' →
      e'.registry < s.registries.size ∨ ∃ e, s.entries[i]? = some e ∧ e'.registry = e.registry) :
    s'.Housed := by
  intro e' hm
  obtain ⟨i, hi⟩ := Array.mem_iff_getElem?.mp hm
  rcases he hi with hlt | ⟨e, hi', hreg⟩
  · exact Nat.lt_of_lt_of_le hlt hopens
  · rw [hreg]
    exact Nat.lt_of_lt_of_le (h e (Array.mem_of_getElem? hi')) hopens

end Store

-- ====================================================== holders

/-- The registry whose entry is held. -/
def Hold.registry : Hold → RegistryId
  | fresh a => a.registry
  | active _ d => d.registry
  | concluding _ d _ => d.registry
  | stopping _ d _ => d.registry
  | leaving d _ => d.registry
  | ready registry _ => registry

theorem Hold.Suits.registry {s : Store} {h : Hold} {e : Entry} (hs : h.Suits s e) :
    e.registry = h.registry := by
  cases h with
  | fresh a => exact hs.1
  | active t d => exact hs.1.registry
  | concluding t d o => exact hs.1.registry
  | stopping t d dep => exact hs.1.registry
  | leaving d dep => exact Entry.Left.registry hs
  | ready registry w => exact hs.1

/-- Whoever holds an entry belongs to a registry that is open. -/
theorem Store.Housed.hold {s : Store} {H : List Hold} {h : Hold} (hh : s.Housed) (ho : s.Owned H)
    (hm : h ∈ H) : h.registry < s.registries.size := by
  obtain ⟨e, he, hs⟩ := ho.fits hm
  rw [← hs.registry]
  exact hh e (Array.mem_of_getElem? he)

/-- What an entry in a ledger comes to. -/
theorem Store.Books.gain {s s' : Store} {id : RegistryId} {mark : Mark}
    (h : s.Books s' (some (id, mark))) (hin : id < s.registries.size) (registry : RegistryId)
    (x : Mark) : s'.tally registry x
      = s.tally registry x + if id = registry ∧ mark = x then 1 else 0 := by
  rw [h.tallies]
  by_cases hx : id = registry ∧ mark = x
  · obtain ⟨rfl, rfl⟩ := hx
    rw [if_pos ⟨rfl, hin⟩, if_pos ⟨rfl, rfl⟩]
  · rw [if_neg hx, if_neg fun hp => hx (Prod.mk.inj (Option.some.inj hp.1))]

-- ====================================================== one step

/-- What a thread owes that takes up `ready`, by kind. -/
theorem Drive.count_owes (d : Drive) (dep : Option Dependency) (ready : List Waiter)
    (registry : RegistryId) (x : Due) : (d.owes dep ready).count (registry, x)
      = if d.registry = registry then
          match x with
          | .allocation => 0
          | .outcome => dep.toList.length
          | .waiter => ready.length
        else 0 := by
  unfold owes
  rw [List.count_append, List.map_const', List.map_const', List.count_replicate,
    List.count_replicate]
  by_cases hr : d.registry = registry
  · cases x <;> simp [hr]
  · simp [hr]

namespace Turn

variable {lib : Library σ} {t t' : Turn σ} {registry r : RegistryId} {i : ThreadId}
  {others : List Hold}

/-- How many items of a kind a thread owes the ledger of a registry. -/
def due (t : Turn σ) (registry : RegistryId) (x : Due) : Nat := t.owes.count (registry, x)

/-- A step moves units about. -/
structure Balance (lib : Library σ) (t t' : Turn σ) (registry : RegistryId) : Prop where
  looked : t'.store.tally registry .hit + t'.store.tally registry .instantiation
      + t'.due registry .allocation
    = t.store.tally registry .hit + t.store.tally registry .instantiation
      + t.due registry .allocation + if t.control.looksUp? lib = some registry then 1 else 0
  cached : t'.store.tally registry .instantiation + t'.due registry .allocation
      + t.store.cachedCount registry
    = t.store.tally registry .instantiation + t.due registry .allocation
      + t'.store.cachedCount registry
  settled : t'.store.tally registry .step + t.store.tally registry .dependency
      + t.due registry .outcome
    = t.store.tally registry .step + t'.store.tally registry .dependency
      + t'.due registry .outcome + (t.store.completed t'.store registry).card
  parked : t'.store.tally registry .resumption + t'.store.queued registry
      + t'.due registry .waiter
    = t.store.tally registry .resumption + t.store.queued registry + t.due registry .waiter
      + if t.store.Parks t'.store registry then 1 else 0

theorem due_of_cons {s s' : Turn σ} {id : RegistryId} {y : Due} (h : s'.owes = (id, y) :: s.owes)
    (registry : RegistryId) (x : Due) :
    s'.due registry x = s.due registry x + if id = registry ∧ y = x then 1 else 0 := by
  unfold due
  rw [h, List.count_cons]
  simp only [beq_iff_eq, Prod.mk.injEq]

/-- Where entries are the same as far as the books go, ledgers and what is owed
have to make up for each other. -/
theorem Balance.of_level (hl : t.store.Level t'.store)
    (hlooked : t'.store.tally registry .hit + t'.store.tally registry .instantiation
        + t'.due registry .allocation
      = t.store.tally registry .hit + t.store.tally registry .instantiation
        + t.due registry .allocation + if t.control.looksUp? lib = some registry then 1 else 0)
    (hcached : t'.store.tally registry .instantiation + t'.due registry .allocation
      = t.store.tally registry .instantiation + t.due registry .allocation)
    (hsettled : t'.store.tally registry .step + t.store.tally registry .dependency
        + t.due registry .outcome
      = t.store.tally registry .step + t'.store.tally registry .dependency
        + t'.due registry .outcome)
    (hparked : t'.store.tally registry .resumption + t'.due registry .waiter
      = t.store.tally registry .resumption + t.due registry .waiter) :
    Balance lib t t' registry := by
  have hempty : t.store.completed t'.store registry = ∅ :=
    Store.completed_eq_empty fun he he' hr => by
      obtain ⟨x, hx, -, -, hs⟩ := hl.entries he
      obtain rfl := Option.some.inj (hx.symm.trans he')
      exact hs hr
  have hnone : ¬ t.store.Parks t'.store registry :=
    Store.not_parks fun i hi => hl.waiting ▸ hi
  refine ⟨hlooked, ?_, ?_, ?_⟩
  · rw [hl.cachedCount, hcached]
  · rw [hsettled, hempty, Finset.card_empty, Nat.add_zero]
  · rw [hl.queued, if_neg hnone]
    omega

/-- A publication finishes the record exactly if nothing stopped the step. -/
theorem completed_publish {s s' : Store} {H : List Hold} {d : Drive} {o : StepOutcome} {e : Entry}
    (ho : s.Owned H) (hm : .concluding i d o ∈ H) (hi : s.entries[d.entry]? = some e)
    (he : s'.entries = s.entries.modify d.entry fun _ => (e.publish o).1) :
    s.completed s' r = if d.registry = r ∧ o.dependency = none then {d.entry} else ∅ := by
  obtain ⟨hd, hu, hout⟩ := ho.suits hm hi
  have hfinal : (e.publish o).1.stage = .complete ↔ o.dependency = none :=
    (Entry.publish_complete_iff hu).trans hout
  ext j
  rw [Store.mem_completed]
  unfold Store.Completes
  simp only [Option.mem_def, he, Store.getElem?_modify_entry hi rfl]
  by_cases hj : d.entry = j
  · subst hj
    simp only [hi, if_true]
    by_cases hif : d.registry = r ∧ o.dependency = none
    · rw [if_pos hif]
      simp [hd.registry, hd.record, hu, hif, hfinal]
    · rw [if_neg hif]
      simp only [Finset.notMem_empty, iff_false]
      rintro ⟨x, hx, hreg, -, -, y, hy, hc⟩
      obtain rfl := Option.some.inj hx
      obtain rfl := Option.some.inj hy
      exact hif ⟨hd.registry.symm.trans hreg, hfinal.mp hc⟩
  · have hno : j ∉ (if d.registry = r ∧ o.dependency = none then {d.entry} else ∅
        : Finset EntryId) := by
      split <;> simp [Ne.symm hj]
    simp only [hno, if_neg hj, iff_false]
    rintro ⟨x, hx, -, -, hne, y, hy, hc⟩
    obtain rfl := Option.some.inj (hx.symm.trans hy)
    exact hne hc

/-- Who is queued was on no queue before. -/
theorem parks_iff {s s' : Store} {H : List Hold} {d : Drive} {dep : Dependency} {queue : EntryId}
    {e : Entry} (ho : s.Owned H) (hm : .leaving d dep ∈ H) (hi : s.entries[queue]? = some e)
    (he : s'.entries = s.entries.modify queue fun _ =>
      { e with queue := e.queue ++ [⟨dep.required, d.entry⟩] }) :
    s.Parks s' r ↔ d.registry = r := by
  obtain ⟨own, hown, hleft⟩ := ho.fits hm
  have hout : d.entry ∉ s.waiting := ho.waiting_ne hm
  have hcount : ∀ j, s'.waiting.count j
      = s.waiting.count j + if d.entry = j then 1 else 0 := fun j => by
    have h := Store.count_waiting_modify hi rfl he j
    simp only [List.map_append, List.count_append, List.map_cons, List.map_nil, List.count_cons,
      List.count_nil, Nat.zero_add, beq_iff_eq] at h
    omega
  constructor
  · rintro ⟨j, hj, hn, x, hx, hreg⟩
    have hpos := List.count_pos_iff.mpr hj
    rw [hcount, List.count_eq_zero.mpr hn] at hpos
    obtain rfl : d.entry = j := by
      by_cases h : d.entry = j
      · exact h
      · rw [if_neg h] at hpos
        exact absurd hpos (Nat.lt_irrefl 0)
    obtain rfl := Option.some.inj (hown.symm.trans hx)
    exact hleft.registry.symm.trans hreg
  · rintro rfl
    refine ⟨d.entry, List.count_pos_iff.mp ?_, hout, own, hown, hleft.registry⟩
    rw [hcount, if_pos rfl]
    exact Nat.succ_pos _

/-- A request makes an entry, and owes its allocation. -/
theorem balance_create {key : Key} (hlook : t.control.looksUp? lib = some r)
    (he : t'.store.entries = t.store.entries.push { registry := r, key })
    (hb : t.store.Books t'.store none) (hw : t'.owes = (r, .allocation) :: t.owes) :
    Balance lib t t' registry := by
  have hdue := due_of_cons hw registry
  have hempty : t.store.completed t'.store registry = ∅ := Store.completed_push he
  have hnone : ¬ t.store.Parks t'.store registry := Store.not_parks_push he rfl
  have hqueued : t'.store.queued registry = t.store.queued registry := by
    refine (Store.total_push _ he).trans ?_
    rw [List.length_nil, ite_self]
    rfl
  have hcached : t'.store.cachedCount registry
      = t.store.cachedCount registry + if r = registry then 1 else 0 := by
    rw [Store.cachedCount_eq, Store.cachedCount_eq]
    exact Store.total_push _ he
  constructor <;> simp only [hb.tally_eq, hdue, hlook, Option.some.injEq, hempty,
    Finset.card_empty, hnone, hqueued, hcached, reduceCtorEq, and_true, and_false, if_false,
    Nat.add_zero]
  all_goals omega

/-- The outcome of a step is published, and what was owed for it is owed for what
follows from it. -/
theorem balance_publish {H : List Hold} {d : Drive} {o : StepOutcome} {e : Entry}
    {rest : List (RegistryId × Due)} (ho : t.store.Owned H) (hm : .concluding i d o ∈ H)
    (hc : t.control = .publish d o) (hi : t.store.entries[d.entry]? = some e)
    (he : t'.store.entries = t.store.entries.modify d.entry fun _ => (e.publish o).1)
    (hb : t.store.Books t'.store none) (hw : t.owes = (d.registry, .outcome) :: rest)
    (hw' : t'.owes = d.owes o.dependency (e.publish o).2 ++ rest) :
    Balance lib t t' registry := by
  have hreg := (ho.suits hm hi).1.registry
  have hcompleted := congrArg Finset.card (completed_publish (r := registry) ho hm hi he)
  have hcached := Store.cachedCount_modify (r := registry) hi he rfl
  have hqueued := Store.queued_modify (r := registry) hi he rfl
  have hlength := (e.publish_queue o).length_eq
  rw [List.length_append] at hlength
  have hnone : ¬ t.store.Parks t'.store registry := Store.not_parks_publish hi he
  have hdue : ∀ x, t.due registry x
      = rest.count (registry, x) + if d.registry = registry ∧ Due.outcome = x then 1 else 0 := by
    intro x
    unfold due
    rw [hw, List.count_cons]
    simp only [beq_iff_eq, Prod.mk.injEq]
  have hdue' : ∀ x, t'.due registry x = rest.count (registry, x)
      + (d.owes o.dependency (e.publish o).2).count (registry, x) := fun x => by
    unfold due
    rw [hw', List.count_append, Nat.add_comm]
  by_cases heq : d.registry = registry
  · simp only [hreg, heq, true_and, if_true] at hcompleted hqueued
    constructor <;> simp only [hb.tally_eq, hdue, hdue', hc, Control.looksUp?, hcached, hnone,
      hcompleted, d.count_owes, heq, reduceCtorEq, and_true, and_false, if_true, if_false,
      Nat.add_zero]
    · cases o.dependency with
      | none => rfl
      | some dep =>
          simp only [reduceCtorEq, if_false, Option.toList_some, List.length_singleton,
            Finset.card_empty]
          omega
    · omega
  · simp only [hreg, heq, false_and, if_false] at hcompleted hqueued
    constructor <;> simp only [hb.tally_eq, hdue, hdue', hc, Control.looksUp?, hcached, hnone,
      hcompleted, d.count_owes, heq, Finset.card_empty, reduceCtorEq, false_and, if_false,
      Nat.add_zero]
    omega

/-- A suspended initialization is queued. -/
theorem balance_park {H : List Hold} {d : Drive} {dep : Dependency} {queue : EntryId} {e : Entry}
    (ho : t.store.Owned H) (hm : .leaving d dep ∈ H) (hc : t.control = .enqueue d dep)
    (hqueue : t.store.entryOf? d.registry dep.target = some queue)
    (hi : t.store.entries[queue]? = some e)
    (he : t'.store.entries = t.store.entries.modify queue fun _ =>
      { e with queue := e.queue ++ [⟨dep.required, d.entry⟩] })
    (hb : t.store.Books t'.store none) (hw : t'.owes = t.owes) : Balance lib t t' registry := by
  have hdue : ∀ x, t'.due registry x = t.due registry x := fun x => by rw [due, due, hw]
  have hparks := parks_iff (r := registry) ho hm hi he
  obtain ⟨x, hx, hreg, -⟩ := Store.entryOf?_some hqueue
  obtain rfl := Option.some.inj (hi.symm.trans hx)
  have hempty : t.store.completed t'.store registry = ∅ := Store.completed_modify hi he rfl
  have hcached := Store.cachedCount_modify (r := registry) hi he rfl
  have hqueued := Store.queued_modify (r := registry) hi he rfl
  rw [List.length_append, List.length_singleton] at hqueued
  by_cases heq : d.registry = registry
  · simp only [hreg, heq, if_true] at hqueued
    constructor <;> simp only [hb.tally_eq, hdue, hc, Control.looksUp?, hcached, hempty,
      Finset.card_empty, hparks, heq, reduceCtorEq, if_true, if_false, Nat.add_zero]
    omega
  · simp only [hreg, heq, if_false] at hqueued
    constructor <;> simp only [hb.tally_eq, hdue, hc, Control.looksUp?, hcached, hempty,
      Finset.card_empty, hparks, heq, reduceCtorEq, if_false, Nat.add_zero]
    omega

/-- Every step keeps the balance. -/
theorem Posts.balance (h : Posts lib t t') (ho : t.store.Owned (t.holds i ++ others))
    (hh : t.store.Housed)
    (hq : ∀ r, t.control.looksUp? lib = some r → r < t.store.registries.size)
    (registry : RegistryId) : Balance lib t t' registry := by
  have hmem : ∀ {c : Control σ} {hold : Hold}, t.control = c → hold ∈ c.holds i →
      hold ∈ t.holds i ++ others := fun hc hm =>
    List.mem_append_left _ (mem_holds_of_control hc hm)
  cases h with
  | still hnone hl hb hw =>
      have hdue : ∀ x, t'.due registry x = t.due registry x := fun x => by rw [due, due, hw]
      apply Balance.of_level hl <;> simp only [hb.tally_eq, hdue, hnone, reduceCtorEq, if_false,
        Nat.add_zero]
  | @hit r hlook hl hb hw =>
      have hdue : ∀ x, t'.due registry x = t.due registry x := fun x => by rw [due, due, hw]
      have hgain := hb.gain (hq r hlook) registry
      apply Balance.of_level hl <;> simp only [hgain, hdue, hlook, Option.some.injEq, reduceCtorEq,
        and_true, and_false, if_false, Nat.add_zero]
      omega
  | create hlook he hb hw => exact balance_create hlook he hb hw
  | @allocate al stage thread hc he hb hw =>
      have hm := hmem hc List.mem_cons_self
      obtain ⟨e, hi, hreg, hrec, -⟩ := ho.fits hm
      have hl : t.store.Level t'.store := .of_modify he fun x hx => by
        obtain rfl := Option.some.inj (hi.symm.trans hx)
        refine ⟨rfl, rfl, fun hsome => ?_⟩
        rw [hrec] at hsome
        cases hsome
      have hdue := due_of_cons hw registry
      have hgain := hb.gain (hh.hold ho hm) registry
      apply Balance.of_level hl <;> simp only [hgain, hdue, hc, Control.looksUp?, reduceCtorEq,
        and_true, and_false, if_false, Nat.add_zero]
      all_goals omega
  | @begin d hc hl hb hw =>
      have hdue := due_of_cons hw registry
      have hgain := hb.gain (hh.hold ho (hmem hc List.mem_cons_self)) registry
      apply Balance.of_level hl <;> simp only [hgain, hdue, hc, Control.looksUp?, reduceCtorEq,
        and_true, and_false, if_false, Nat.add_zero]
      omega
  | publish hc hi he hb hw hw' =>
      exact balance_publish ho (hmem hc List.mem_cons_self) hc hi he hb hw hw'
  | @resume d dep w ready hc hl hb hw =>
      have hgain := hb.gain (hh.hold ho (hmem hc List.mem_cons_self)) registry
      have hdue : ∀ x, t.due registry x
          = t'.due registry x + if d.registry = registry ∧ Due.waiter = x then 1 else 0 := by
        intro x
        unfold due
        rw [hw.count_eq, List.count_cons]
        simp only [beq_iff_eq, Prod.mk.injEq]
      apply Balance.of_level hl <;> simp only [hgain, hdue, hc, Control.looksUp?, reduceCtorEq,
        and_true, and_false, if_false, Nat.add_zero]
      omega
  | @depend d dep hc hl hb hw =>
      have hdue := due_of_cons hw registry
      have hgain := hb.gain (hh.hold ho (hmem hc List.mem_cons_self)) registry
      apply Balance.of_level hl <;> simp only [hgain, hdue, hc, Control.looksUp?, reduceCtorEq,
        and_true, and_false, if_false, Nat.add_zero]
      omega
  | park hc hqueue hi he hb hw =>
      exact balance_park ho (hmem hc List.mem_cons_self) hc hqueue hi he hb hw

/-- No step makes an entry for a registry that is not open. -/
theorem Posts.housed (h : Posts lib t t') (hh : t.store.Housed)
    (hq : ∀ r, t.control.looksUp? lib = some r → r < t.store.registries.size) :
    t'.store.Housed := by
  have hlevel : ∀ {posting}, t.store.Level t'.store → t.store.Books t'.store posting →
      t'.store.Housed := fun hl hb => hh.of_registry hb.opens fun {j e'} hj => by
    have hlt := (Array.getElem?_eq_some_iff.mp hj).1
    rw [hl.size] at hlt
    obtain ⟨x, hx, hreg, -⟩ := hl.entries (Array.getElem?_eq_getElem hlt)
    obtain rfl := Option.some.inj (hx.symm.trans hj)
    exact .inr ⟨_, Array.getElem?_eq_getElem hlt, hreg⟩
  have hmodify : ∀ {posting} {j : EntryId} {f : Entry → Entry},
      t'.store.entries = t.store.entries.modify j f → t.store.Books t'.store posting →
      (∀ e, t.store.entries[j]? = some e → (f e).registry = e.registry) → t'.store.Housed := by
    intro posting j f he hb hf
    refine hh.of_registry hb.opens fun {l e'} hl => .inr ?_
    rw [he, Array.getElem?_modify] at hl
    split at hl
    · rename_i heq
      subst heq
      obtain ⟨e, hj, rfl⟩ := Option.map_eq_some_iff.mp hl
      exact ⟨e, hj, hf e hj⟩
    · exact ⟨e', hl, rfl⟩
  cases h with
  | still _ hl hb | hit _ hl hb | begin _ hl hb | resume _ hl hb | depend _ hl hb =>
      exact hlevel hl hb
  | create hlook he hb =>
      refine hh.of_registry hb.opens fun {j e'} hj => ?_
      rw [he, Array.getElem?_push] at hj
      split at hj
      · obtain rfl := Option.some.inj hj
        exact .inl (hq _ hlook)
      · exact .inr ⟨e', hj, rfl⟩
  | allocate thread hc he hb => exact hmodify he hb fun _ _ => rfl
  | publish hc hi he hb =>
      exact hmodify he hb fun x hx => by
        obtain rfl := Option.some.inj (hi.symm.trans hx)
        rfl
  | park hc hqueue hi he hb =>
      exact hmodify he hb fun x hx => by
        obtain rfl := Option.some.inj (hi.symm.trans hx)
        rfl

end Turn

end TypeRecords
