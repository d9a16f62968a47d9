/-
The walk along a chain of dependencies is exact.

Nothing keeps the dependencies that are recorded in a store from running in
circles, so that a walk along them ends has its reason in the walk itself: it
stops at the first target that it has come to before, and targets that it has
not come to before run out. `Store.walk_exact` says so of every store, well kept
or not.

# The two sides

`Chain.Follows` is the walk, one link after the other. Next to it stands the
sequence that it is meant to follow (`Chain.iterate`): the first dependency,
and then again and again what the last target is recorded to wait for, as long
as that target is not where it has to be (`Store.successor?`). The invariant of
the walk is `Chain.Trace`: its links are the sequence, and no target but the
last has come up before. If the walk closes, the sequence has come back. If it
ends, the sequence ends there too, with all its targets different
(`Trace.not_comesBack`).
-/
import Mathlib.Data.List.Nodup
import Mathlib.Data.List.Perm.Subperm
import TypeRecords.Proofs.Waiting.Chain

namespace TypeRecords

-- ====================================================== walks

namespace Chain

variable {next : Dependency → Option Dependency} {start : RecordId} {first last : Dependency}
  {earlier links : List Dependency} {closed : Bool}

/-- The target of `last` is the start, or was there before. -/
def LeadsBack (start : RecordId) (earlier : List Dependency) (last : Dependency) : Prop :=
  last.target = start ∨ last.target ∈ earlier.map (·.target)

/-- A walk that has come so far goes on to these links, and closes or ends
there. Targets are compared before they are asked. -/
inductive Follows (next : Dependency → Option Dependency) (start : RecordId) :
    List Dependency → List Dependency → Bool → Prop
  | closes {earlier : List Dependency} {last : Dependency} (hback : LeadsBack start earlier last) :
      Follows next start (earlier ++ [last]) (earlier ++ [last]) true
  | ends {earlier : List Dependency} {last : Dependency} (hopen : ¬ LeadsBack start earlier last)
      (hnext : next last = none) :
      Follows next start (earlier ++ [last]) (earlier ++ [last]) false
  | goes {earlier links : List Dependency} {last d : Dependency} {closed : Bool}
      (hopen : ¬ LeadsBack start earlier last) (hnext : next last = some d)
      (h : Follows next start (earlier ++ [last] ++ [d]) links closed) :
      Follows next start (earlier ++ [last]) links closed

/-- Where nothing is recorded beyond the bound, following is such a walk. -/
theorem follow_follows {w : Waits} (hbound : ∀ d, w.bound ≤ d.target → w.next d = none)
    (start : RecordId) (earlier : List Dependency) (last : Dependency) :
    ∃ links closed, Follows w.next start (earlier.reverse ++ [last]) links closed
      ∧ follow w start earlier last = if closed then some links else none := by
  have hback : ∀ {earlier last}, LeadsBack start (List.reverse earlier) last
      ↔ last.target = start ∨ last.target ∈ earlier.map (·.target) := by
    intro earlier last
    unfold LeadsBack
    rw [List.map_reverse, List.mem_reverse]
  fun_induction follow w start earlier last with
  | case1 earlier last hclose =>
      refine ⟨_, true, .closes (hback.mpr hclose), ?_⟩
      rw [List.reverse_cons]
      rfl
  | case2 earlier last hopen hlt hnext =>
      exact ⟨_, false, .ends (mt hback.mp hopen) hnext, rfl⟩
  | case3 earlier last hopen hlt d hnext ih =>
      obtain ⟨links, closed, hwalk, hfollow⟩ := ih
      rw [List.reverse_cons] at hwalk
      exact ⟨links, closed, .goes (mt hback.mp hopen) hnext hwalk, hfollow⟩
  | case4 earlier last hopen hge =>
      exact ⟨_, false, .ends (mt hback.mp hopen) (hbound last (Nat.le_of_not_lt hge)), rfl⟩

-- ====================================================== the sequence

/-- The sequence that begins with `first`. -/
def iterate (next : Dependency → Option Dependency) (first : Dependency) : Nat → Option Dependency
  | 0 => some first
  | k + 1 => (iterate next first k).bind next

/-- The sequence comes to a target that is the start, or was there before. -/
def ComesBack (next : Dependency → Option Dependency) (start : RecordId) (first : Dependency) :
    Prop :=
  ∃ k link, iterate next first k = some link
    ∧ (link.target = start
      ∨ ∃ j < k, ∃ before, iterate next first j = some before ∧ before.target = link.target)

/-- The links are the sequence as far as they go, and no target but the last is
the start or was there before. -/
structure Trace (next : Dependency → Option Dependency) (start : RecordId) (first : Dependency)
    (links : List Dependency) : Prop where
  each : ∀ i < links.length, links[i]? = iterate next first i
  fresh : start ∉ links.dropLast.map (·.target)
  distinct : (links.dropLast.map (·.target)).Nodup

theorem Trace.outset : Trace next start first [first] where
  each i hi := by
    obtain rfl := Nat.lt_one_iff.mp hi
    rfl
  fresh := List.not_mem_nil
  distinct := .nil

theorem Trace.last_eq (h : Trace next start first (earlier ++ [last])) :
    iterate next first earlier.length = some last := by
  have heach := h.each earlier.length (by simp)
  rw [List.getElem?_concat_length] at heach
  exact heach.symm

/-- All targets of a walk that has not come back differ, from each other and from
the start. -/
theorem Trace.targets (h : Trace next start first (earlier ++ [last]))
    (hopen : ¬ LeadsBack start earlier last) :
    start ∉ (earlier ++ [last]).map (·.target)
      ∧ ((earlier ++ [last]).map (·.target)).Nodup := by
  have hfresh := h.fresh
  have hdistinct := h.distinct
  rw [List.dropLast_concat] at hfresh hdistinct
  rw [List.map_append, List.map_cons, List.map_nil]
  refine ⟨fun hmem => ?_,
    List.nodup_append.mpr ⟨hdistinct, List.nodup_singleton _, fun x hx y hy => ?_⟩⟩
  · rcases List.mem_append.mp hmem with hmem | hmem
    · exact hfresh hmem
    · exact hopen (.inl (List.mem_singleton.mp hmem).symm)
  · rintro rfl
    obtain rfl := List.mem_singleton.mp hy
    exact hopen (.inr hx)

/-- As long as it has not come back, a walk goes on like this. -/
theorem Trace.extend {d : Dependency} (h : Trace next start first (earlier ++ [last]))
    (hopen : ¬ LeadsBack start earlier last) (hnext : next last = some d) :
    Trace next start first (earlier ++ [last] ++ [d]) where
  each i hi := by
    have hlength : (earlier ++ [last] ++ [d]).length = earlier.length + 1 + 1 := by
      rw [List.length_append, List.length_append, List.length_singleton, List.length_singleton]
    have hlength' : (earlier ++ [last]).length = earlier.length + 1 := by
      rw [List.length_append, List.length_singleton]
    rw [hlength] at hi
    rcases Nat.lt_or_eq_of_le (Nat.le_of_lt_succ hi) with hlt | rfl
    · rw [← hlength'] at hlt
      rw [List.getElem?_append_left hlt]
      exact h.each i hlt
    · rw [List.getElem?_append_right (by simp), iterate, h.last_eq, Option.bind_some, hnext]
      simp
  fresh := by
    rw [List.dropLast_concat]
    exact (h.targets hopen).1
  distinct := by
    rw [List.dropLast_concat]
    exact (h.targets hopen).2

/-- Wherever a walk closes or ends, it has followed the sequence. -/
theorem Follows.trace {so : List Dependency} (h : Follows next start so links closed)
    (hso : Trace next start first so) :
    Trace next start first links
      ∧ ∃ earlier last, links = earlier ++ [last]
        ∧ (closed = true → LeadsBack start earlier last)
        ∧ (closed = false → ¬ LeadsBack start earlier last ∧ next last = none) := by
  induction h with
  | closes hback => exact ⟨hso, _, _, rfl, fun _ => hback, nofun⟩
  | ends hopen hnext => exact ⟨hso, _, _, rfl, nofun, fun _ => ⟨hopen, hnext⟩⟩
  | goes hopen hnext _ ih => exact ih (hso.extend hopen hnext)

/-- Beyond the end there is nothing. -/
theorem iterate_none {i k : Nat} (h : iterate next first i = none) (hik : i ≤ k) :
    iterate next first k = none := by
  induction hik with
  | refl => exact h
  | step _ ih =>
      unfold iterate
      rw [ih]
      rfl

/-- A walk that closes has come back. -/
theorem Trace.comesBack (h : Trace next start first (earlier ++ [last]))
    (hback : LeadsBack start earlier last) : ComesBack next start first := by
  refine ⟨earlier.length, last, h.last_eq, hback.imp id fun hmem => ?_⟩
  obtain ⟨before, hbefore, htarget⟩ := List.mem_map.mp hmem
  obtain ⟨j, hj⟩ := List.mem_iff_getElem?.mp hbefore
  have hlt : j < earlier.length := (List.getElem?_eq_some_iff.mp hj).1
  refine ⟨j, hlt, before, ?_, htarget⟩
  rw [← h.each j (by simp; omega), List.getElem?_append_left hlt]
  exact hj

/-- A walk that ends has not, and the sequence ends with it. -/
theorem Trace.not_comesBack (h : Trace next start first (earlier ++ [last]))
    (hopen : ¬ LeadsBack start earlier last) (hnext : next last = none) :
    ¬ ComesBack next start first := by
  rintro ⟨k, link, hlink, hcase⟩
  have hend : iterate next first (earlier.length + 1) = none := by
    unfold iterate
    rw [h.last_eq]
    exact hnext
  obtain ⟨hfresh, hdistinct⟩ := h.targets hopen
  have hat : ∀ {i l}, iterate next first i = some l → (earlier ++ [last])[i]? = some l := by
    intro i l hl
    have hi : i < (earlier ++ [last]).length := by
      rw [List.length_append, List.length_singleton]
      by_contra hge
      rw [iterate_none hend (Nat.le_of_not_lt hge)] at hl
      cases hl
    rw [h.each i hi, hl]
  have htarget : ∀ {i l}, iterate next first i = some l →
      ((earlier ++ [last]).map (·.target))[i]? = some l.target := fun hl => by
    rw [List.getElem?_map, hat hl]
    rfl
  rcases hcase with hstart | ⟨j, hjk, before, hbefore, hsame⟩
  · exact hfresh (hstart ▸ List.mem_of_getElem? (htarget hlink))
  · have hj := (List.getElem?_eq_some_iff.mp (htarget hbefore)).1
    exact Nat.ne_of_lt hjk ((List.getElem?_inj hj hdistinct).mp
      ((htarget hbefore).trans (hsame ▸ (htarget hlink).symm)))

end Chain

-- ====================================================== in a store

namespace Store

variable (s : Store) (registry : RegistryId)

/-- What the registry has recorded that a record waits for, once the record is
there. -/
def recorded? (record : RecordId) : Option Dependency :=
  ((s.entryOf? registry record).bind (s.entries[·]?)).bind fun e =>
    if e.record.isSome then e.blockedOn else none

/-- The stage that the registry keeps for a record. What it does not keep is
finished. -/
def keptStage (record : RecordId) : Stage :=
  (((s.entryOf? registry record).bind (s.entries[·]?)).map (·.stage)).getD .complete

/-- What the target of a dependency is recorded to wait for, as long as it is
below the stage that is required of it. -/
def successor? (d : Dependency) : Option Dependency :=
  if (s.keptStage registry d.target).satisfies d.required then none
  else s.recorded? registry d.target

/-- How many records there are for which something is recorded. -/
def recordedCount : Nat :=
  (List.range s.records.size).countP fun record => (s.recorded? registry record).isSome

/-- This is what chains are followed through. -/
theorem blockerOf?_eq : s.blockerOf? registry = s.successor? registry := by
  funext d
  unfold blockerOf? successor? keptStage recorded?
  cases s.entryOf? registry d.target with
  | none => exact (ite_self none).symm
  | some i =>
      simp only [Option.bind_some]
      cases s.entries[i]? with
      | none => exact (ite_self none).symm
      | some e =>
          simp only [Option.bind_some, Option.map_some, Option.getD_some]
          unfold Entry.blocker?
          cases e.record <;> cases e.stage.satisfies d.required <;> rfl

variable {s registry}

theorem recorded?_of_successor {d d' : Dependency} (h : s.successor? registry d = some d') :
    s.recorded? registry d.target = some d' := by
  unfold successor? at h
  split at h
  · cases h
  · exact h

/-- Something is recorded only for records that are there. -/
theorem lt_size_of_recorded {record : RecordId} {d : Dependency}
    (h : s.recorded? registry record = some d) : record < s.records.size := by
  obtain ⟨e, he, -⟩ := Option.bind_eq_some_iff.mp h
  obtain ⟨i, hi, -⟩ := Option.bind_eq_some_iff.mp he
  obtain ⟨_, -, -, hkey⟩ := entryOf?_some hi
  exact lt_size_of_keyOf hkey

/-- Before its last link a walk passes records for which something is recorded,
and none of them twice. -/
theorem length_le_of_trace {start : RecordId} {first last : Dependency} {earlier : List Dependency}
    (h : Chain.Trace (s.successor? registry) start first (earlier ++ [last])) :
    earlier.length ≤ s.recordedCount registry := by
  have hdistinct := h.distinct
  rw [List.dropLast_concat] at hdistinct
  have hsub : earlier.map (·.target) ⊆ (List.range s.records.size).filter
      fun record => (s.recorded? registry record).isSome := by
    intro record hrecord
    obtain ⟨link, hlink, rfl⟩ := List.mem_map.mp hrecord
    obtain ⟨i, hi⟩ := List.mem_iff_getElem?.mp hlink
    have hlt : i < earlier.length := (List.getElem?_eq_some_iff.mp hi).1
    have hlength : i + 1 < (earlier ++ [last]).length := by
      rw [List.length_append, List.length_singleton]
      omega
    -- the next link is what is recorded for this target
    have hnext := h.each (i + 1) hlength
    rw [List.getElem?_eq_getElem hlength, Chain.iterate, ← h.each i (Nat.lt_of_succ_lt hlength),
      List.getElem?_append_left hlt, hi, Option.bind_some] at hnext
    have hrecorded := recorded?_of_successor hnext.symm
    exact List.mem_filter.mpr
      ⟨List.mem_range.mpr (lt_size_of_recorded hrecorded), by rw [hrecorded]; rfl⟩
  have hle := (hdistinct.subperm hsub).length_le
  rw [List.length_map, ← List.countP_eq_length_filter] at hle
  exact hle

/-- The walk that decides whether `start` may wait on `first` is exact, whatever
is recorded for which records and whatever stages they are in:

- it is over after at most one link more than there are records for which
  something is recorded, and it either closes, and is reported, or ends;
- it is reported exactly when the sequence that begins with `first`, and goes on
  with what the last target is recorded to wait for as long as that target is
  below what is required of it, comes to the start or to a record it has been
  at;
- what is reported is this sequence, up to the first target that is the start
  or was there before. -/
theorem walk_exact (s : Store) (registry : RegistryId) (start : RecordId) (first : Dependency) :
    (∃ links closed, Chain.Follows (s.successor? registry) start [first] links closed
      ∧ links.length ≤ s.recordedCount registry + 1
      ∧ s.cycle? registry start first = if closed then some ⟨start, links⟩ else none)
    ∧ ((s.cycle? registry start first).isSome
      ↔ Chain.ComesBack (s.successor? registry) start first)
    ∧ ∀ c, s.cycle? registry start first = some c →
      c.start = start ∧ Chain.Trace (s.successor? registry) start first c.links
        ∧ ∃ earlier last, c.links = earlier ++ [last] ∧ Chain.LeadsBack start earlier last := by
  have hbound : ∀ d, (s.waits registry).bound ≤ d.target → (s.waits registry).next d = none := by
    intro d hd
    show s.blockerOf? registry d = none
    rw [blockerOf?_eq]
    cases hnext : s.successor? registry d with
    | none => rfl
    | some d' =>
        exact (Nat.not_le_of_lt (lt_size_of_recorded (recorded?_of_successor hnext)) hd).elim
  obtain ⟨links, closed, hwalk, hfollow⟩ := Chain.follow_follows hbound start [] first
  replace hwalk : Chain.Follows (s.successor? registry) start [first] links closed :=
    blockerOf?_eq s registry ▸ hwalk
  obtain ⟨htrace, earlier, last, rfl, hback, hopen⟩ := hwalk.trace .outset
  have hcycle : s.cycle? registry start first
      = if closed then some ⟨start, earlier ++ [last]⟩ else none := by
    unfold cycle? Chain.closed?
    rw [hfollow]
    cases closed <;> rfl
  refine ⟨⟨_, closed, hwalk, ?_, hcycle⟩, ?_, fun c hc => ?_⟩
  · rw [List.length_append, List.length_singleton]
    exact Nat.succ_le_succ (length_le_of_trace htrace)
  · rw [hcycle]
    cases closed with
    | true => exact ⟨fun _ => htrace.comesBack (hback rfl), fun _ => rfl⟩
    | false => exact ⟨nofun, fun h => (htrace.not_comesBack (hopen rfl).1 (hopen rfl).2 h).elim⟩
  · rw [hcycle] at hc
    cases closed with
    | true =>
        cases hc
        exact ⟨rfl, htrace, earlier, last, rfl, hback rfl⟩
    | false => cases hc

end Store

end TypeRecords
