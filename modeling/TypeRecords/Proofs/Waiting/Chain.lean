/-
Following a chain of dependencies.

A chain that closes is one link after the other, each what the target of the
link before it waits for, and the last link leads back to the start or to a
target that was there before (`closed?_some`). A chain that does not close
never comes back to its start (`follow_none`).

`blockerOf?` is what chains are followed through in a store; what it says
about the target of a link is spelled out in `blockerOf?_some`.
-/
import Mathlib.Data.List.Chain
import TypeRecords.Proofs.Ownership.Keeping

namespace TypeRecords

-- ====================================================== following

namespace Chain

variable {w : Waits} {start : RecordId}

/-- One thing is what the other waits for. -/
def Waits.Links (w : Waits) (links : List Dependency) : Prop :=
  links.IsChain fun x y => w.next x = some y

theorem Waits.Links.next {links : List Dependency} (h : w.Links links) {i : Nat}
    {x y : Dependency} (hx : links[i]? = some x) (hy : links[i + 1]? = some y) :
    w.next x = some y := by
  obtain ⟨hix, rfl⟩ := List.getElem?_eq_some_iff.mp hx
  obtain ⟨hiy, rfl⟩ := List.getElem?_eq_some_iff.mp hy
  exact List.isChain_iff_getElem.mp h i hiy

/-- Following adds links to those it was given, and stops at the first that
leads back. -/
theorem follow_some {earlier : List Dependency} {last : Dependency} {links : List Dependency}
    (h : follow w start earlier last = some links)
    (hearlier : w.Links (earlier.reverse ++ [last])) :
    w.Links links ∧ earlier.reverse ++ [last] <+: links
      ∧ ∃ before closing, links = before ++ [closing]
        ∧ (closing.target = start ∨ closing.target ∈ before.map (·.target)) := by
  fun_induction follow with
  | case1 earlier last hclose =>
      cases h
      rw [List.reverse_cons]
      refine ⟨hearlier, List.prefix_rfl, _, last, rfl, ?_⟩
      simpa using hclose
  | case2 => cases h
  | case3 earlier last hopen hbound d hnext ih =>
      have hlinks : w.Links ((last :: earlier).reverse ++ [d]) := by
        rw [List.reverse_cons]
        refine hearlier.append (List.isChain_singleton d) ?_
        intro x hx y hy
        obtain rfl : last = x := by simpa using hx
        obtain rfl : d = y := by simpa using hy
        exact hnext
      obtain ⟨hall, hpre, hclose⟩ := ih h hlinks
      rw [List.reverse_cons] at hpre
      exact ⟨hall, (List.prefix_append _ _).trans hpre, hclose⟩
  | case4 => cases h

/-- A chain that closes starts with the first link and ends with one that
leads back. -/
theorem closed?_some {first : Dependency} {links : List Dependency}
    (h : closed? w start first = some links) :
    w.Links links ∧ links.head? = some first
      ∧ ∃ before closing, links = before ++ [closing]
        ∧ (closing.target = start ∨ closing.target ∈ before.map (·.target)) := by
  obtain ⟨hlinks, ⟨more, hmore⟩, hclose⟩ := follow_some h (List.isChain_singleton first)
  refine ⟨hlinks, ?_, hclose⟩
  rw [← hmore]
  rfl

/-- A chain that does not close goes on without coming back to its start. -/
theorem follow_none {earlier : List Dependency} {last : Dependency}
    (h : follow w start earlier last = none) :
    last.target ≠ start
      ∧ (last.target < w.bound →
        ∀ d, w.next last = some d → follow w start (last :: earlier) d = none) := by
  unfold follow at h
  split at h
  · cases h
  · rename_i hopen
    refine ⟨fun heq => hopen (.inl heq), fun hbound d hnext => ?_⟩
    rw [dif_pos hbound] at h
    simpa [hnext] using h

end Chain

-- ====================================================== in a store

namespace Store

variable {s : Store} {registry : RegistryId}

/-- What a target waits for is what its entry is blocked on, as long as the
target is not where the link needs it. -/
theorem blockerOf?_some {link next : Dependency} (h : s.blockerOf? registry link = some next) :
    ∃ i e, s.entryOf? registry link.target = some i ∧ s.entries[i]? = some e
      ∧ e.record.isSome ∧ e.stage.satisfies link.required = false ∧ e.blockedOn = some next := by
  obtain ⟨i, hi, h⟩ := Option.bind_eq_some_iff.mp h
  obtain ⟨e, he, h⟩ := Option.bind_eq_some_iff.mp h
  unfold Entry.blocker? at h
  split at h
  · cases h
  · rename_i hno
    rw [Bool.or_eq_true, not_or] at hno
    refine ⟨i, e, hi, he, ?_, Bool.eq_false_iff.mpr hno.2, h⟩
    cases hr : e.record with
    | none => exact absurd (by rw [hr]; rfl) hno.1
    | some record => rfl

theorem blockerOf?_of_entry {link next : Dependency} {i : EntryId} {e : Entry}
    (hi : s.entryOf? registry link.target = some i) (he : s.entries[i]? = some e)
    (hr : e.record.isSome) (hu : e.stage.satisfies link.required = false)
    (hb : e.blockedOn = some next) : s.blockerOf? registry link = some next := by
  unfold blockerOf? Entry.blocker?
  rw [hi, Option.bind_some, he, Option.bind_some, hu, hb]
  cases hrec : e.record with
  | none => rw [hrec] at hr; cases hr
  | some record => rfl

/-- What an entry shows of its stage is its stage. -/
theorem stageOf_entry {record : RecordId} {i : EntryId} {e : Entry}
    (hi : s.entryOf? registry record = some i) (he : s.entries[i]? = some e) (hs : e.Sound) :
    s.stageOf registry record = e.stage := by
  unfold stageOf
  rw [hi, Option.bind_some, he]
  cases hr : e.record with
  | none => simp [Entry.Sound.snapshot_none hr, (hs.blank hr).1]
  | some r => simp [hs.snapshot hr]

end Store

end TypeRecords
