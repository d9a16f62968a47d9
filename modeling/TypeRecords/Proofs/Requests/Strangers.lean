/-
Records of other registries.

A registry finds the entry of a record by the record's key: what it was made
from, and the arguments. For the registry's own records this is as good as
their identity, since it makes one record for each key. But a record that
another registry has made carries its key too, and the registry may have an
entry of its own under that key.

What a check of such a record comes to depends on this alone
(`Reachable.stranger_checked`). Without an entry under the key the record is
taken for one that needs no completion: it is named in the answer, as finished,
and no entry is touched. With an entry under the key it is that entry which is
looked at, waited for and answered about, and its record is never the one that
was asked for.

Who has made a record is known once the record is there, and does not change
(`Store.MadeBy`). So the second part holds for as long as the check takes,
although the entry's record may come into being only in the meantime.
-/
import TypeRecords.Proofs.Ownership.Pairing
import TypeRecords.Proofs.Requests.Identity

namespace TypeRecords

variable {σ : Type}

-- ====================================================== whose record

namespace Store

variable {s : Store} {H : List Hold} {registry other : RegistryId} {key : Key} {x : RecordId}

/-- A record has one maker. -/
theorem MadeBy.unique (h : s.MadeBy registry x) (h' : s.MadeBy other x) : registry = other := by
  obtain ⟨-, e, he, rfl⟩ := h
  obtain ⟨-, e', he', rfl⟩ := h'
  obtain rfl := Option.some.inj (he.symm.trans he')
  rfl

/-- What is found under the key of a record that another registry has made is
not the entry of that record. -/
theorem MadeBy.not_kept (h : s.MadeBy other x) (hne : other ≠ registry) (ho : s.Owned H)
    (hp : s.Paired H) : ¬ s.Keeps registry key x :=
  fun hkeeps => hne (h.unique (hkeeps.madeBy ho hp))

end Store

-- ====================================================== one step

namespace Turn.Asks

variable {lib : Library σ} {a : Actor} {t t' : Turn σ} {registry : RegistryId} {q : Request}
  {x : RecordId} {f : Frame σ}

/-- A check of what the registry has no entry for is answered by the step that
makes it, and no entry is touched. -/
theorem spared (hask : t.Asks registry q (.check x) f) (h : t.step lib a = some t')
    (hno : t.store.entryOf? registry x = none) :
    t'.store.entries = t.store.entries ∧ t'.frames = f :: t.frames
      ∧ t'.control = .give (.response ⟨x, .complete⟩) .nothing := by
  obtain ⟨u, rfl, hframes, hentries, hsame⟩ := hask.consults h
  unfold consult
  rw [hsame, hno]
  exact ⟨hentries, hframes, rfl⟩

end Turn.Asks

-- ====================================================== whole runs

namespace Store

variable {s : Store} {H : List Hold} {registry other : RegistryId} {key : Key} {x : RecordId}
  {i : EntryId}

/-- A record with a key for which the registry has no entry. -/
theorem unkept_of_find?_none (hkey : s.keyOf x = some key) (hf : s.find? registry key = none) :
    s.entryOf? registry x = none ∧ s.stageOf registry x = .complete
      ∧ ∀ d : Dependency, d.target = x → s.blockerOf? registry d = none := by
  have hno : s.entryOf? registry x = none := by
    rw [entryOf?_eq, hkey]
    exact hf
  refine ⟨hno, stageOf_of_none hno, fun d hd => ?_⟩
  unfold blockerOf?
  rw [hd, hno]
  rfl

end Store

namespace Machine

variable {lib : Library σ} {ok ok' : Machine σ → ThreadId → Prop}
  {start m m' m₁ m₂ : Machine σ}
  {u : ThreadId} {registry other : RegistryId} {q : Request} {c : Call} {x : RecordId} {v : Value}

/-- The step that makes a call is a step of the thread alone. -/
theorem step_of_asks {thread : Thread σ} {f : Frame σ} (ht : m.threads[u]? = some thread)
    (hask : (m.turn thread).Asks registry q c f) (hs : m.step lib u = some m') :
    ∃ turn, (m.turn thread).step lib ⟨u, thread.name⟩ = some turn ∧ m' = m.after u turn := by
  obtain ⟨-, stepper, hstepper, hstepped⟩ := step_cases hs
  obtain rfl := Option.some.inj (ht.symm.trans hstepper)
  cases hstepped with
  | @alone turn hturn => exact ⟨turn, hturn, rfl⟩
  | program p' started hc hp hstore hthreads hnew =>
      have hc' : (m.turn thread).control = .run _ _ := hc
      cases hask with
      | program hrequest => rw [hc'] at hrequest; cases hrequest; cases hp
      | field hlay hr => rw [hc'] at hlay; cases hlay
      | element hmeasure hw => rw [hc'] at hmeasure; cases hmeasure
      | dependency hstopped hcy hw => rw [hc'] at hstopped; cases hstopped

/-- What is asked of the steps of a run may be weakened, knowing where the run
has come from. -/
theorem Run.mono (h : Run lib ok m₁ m₂)
    (hok : ∀ {m : Machine σ} {t : ThreadId}, Reachable lib m₁ m → ok m t → ok' m t) :
    Run lib ok' m₁ m₂ := by
  induction h with
  | refl => exact .refl
  | step t hrun hokay hs ih => exact .step t ih (hok hrun.reachable hokay) hs

/-- Whatever happens during a call happens after it was made. -/
theorem Returns.reaching (h : Returns lib ok u registry q c m m₂ v) :
    Returns lib (fun m' t => ok m' t ∧ Reachable lib m m') u registry q c m m₂ v := by
  obtain ⟨ht, hask, hok, hs, hrun, ht', hf, hc⟩ := h
  refine .intro ht hask ⟨hok, .refl⟩ hs (hrun.mono fun hreach ⟨hok, hover⟩ => ?_) ht' hf hc
  exact ⟨⟨hok, (Reachable.step u .refl hs).trans hreach⟩, hover⟩

/-- A check that finds an entry comes back with a record that the registry
keeps under the key of the record asked for. -/
theorem Returns.keeps_of_check {key : Key} {i : EntryId} (hf : start.Fresh)
    (h : Reachable lib start m) (hr : Returns lib ok u registry q (.check x) m m₂ v)
    (hkey : m.store.keyOf x = some key) (hi : m.store.find? registry key = some i) :
    Reachable lib m m₂ ∧ ∃ y, v = .response y ∧ m₂.store.Keeps registry key y.record := by
  have hlater : ∀ {m'}, Reachable lib m m' →
      m'.store.keyOf x = some key ∧ m'.store.find? registry key = some i := fun hreach => by
    have hgrows := (h.advances hf hreach).grows
    exact ⟨(hgrows.keyOf_of_lt (Store.lt_size_of_keyOf hkey)).trans hkey, hgrows.find? hi⟩
  obtain ⟨hreach, y, hy, hgood⟩ := hr.reaching.answered
    (fun s y => s.keyOf x = some key → s.find? registry key = some i →
      s.Keeps registry key y.record) hf h
    (fun {s y} hanswers hk hfound => by
      have hsought : s.sought? registry (.check x) = some i := by
        show s.entryOf? registry x = some i
        rw [Store.entryOf?_eq, hk]
        exact hfound
      rcases hanswers with ⟨j, hj, e, he, hrecord, -, -⟩ | ⟨hno, -⟩
      · obtain rfl := Option.some.inj (hj.symm.trans hsought)
        obtain ⟨e', he', hreg, hek⟩ := Store.find?_some hfound
        obtain rfl := Option.some.inj (he.symm.trans he')
        exact ⟨j, e, he, hreg, hek, hrecord⟩
      · rw [hsought] at hno
        cases hno)
    fun {m' m'' t} hreach hok _ hs y hkept _ _ => by
      obtain ⟨hk, hfound⟩ := hlater hok.2
      exact (hkept hk hfound).advances (step_advances hs (hreach.owned hf))
  obtain ⟨hk, hfound⟩ := hlater hreach
  exact ⟨hreach, y, hy, hgood hk hfound⟩

/-- What a check of a record comes to that another registry has made, or is
making. The record has a key, and it is never one that the registry keeps.

- If the registry has no entry under the key, nothing of it is looked at, and
  whoever makes the check, a program or a completion step, is answered by the
  same step: with this very record, as finished.
- If the registry has an entry under the key, that entry has another record or
  none yet. It is the one that is looked up, and a check that comes back, whoever
  has made it and whatever else happens in the meantime, names a record that
  the registry keeps under the key, and never the one that was asked for. -/
theorem Reachable.stranger_checked (hf : start.Fresh) (h : Reachable lib start m)
    (hx : m.store.MadeBy other x) (hne : other ≠ registry) :
    ∃ key, m.store.keyOf x = some key ∧ (∀ key', ¬ m.store.Keeps registry key' x)
      ∧ (m.store.find? registry key = none →
        (m.store.entryOf? registry x = none ∧ m.store.stageOf registry x = .complete
          ∧ ∀ d : Dependency, d.target = x → m.store.blockerOf? registry d = none)
        ∧ ∀ u thread q f m', m.threads[u]? = some thread →
          (m.turn thread).Asks registry q (.check x) f → m.step lib u = some m' →
          m'.store.entries = m.store.entries
            ∧ m'.threads[u]? = some { thread with
                control := .give (.response ⟨x, .complete⟩) .nothing
                frames := f :: thread.frames })
      ∧ ∀ i, m.store.find? registry key = some i →
        m.store.entryOf? registry x = some i
          ∧ (∃ e, m.store.entries[i]? = some e ∧ e.registry = registry ∧ e.key = key
            ∧ e.record ≠ some x)
          ∧ ∀ u q m₂ v, Returns lib (fun _ _ => True) u registry q (.check x) m m₂ v →
            ∃ y, v = .response y ∧ y.record ≠ x ∧ m₂.store.Keeps registry key y.record := by
  have ho := h.owned hf
  have hp := h.paired hf
  obtain ⟨key, hkey⟩ := Option.isSome_iff_exists.mp hx.1
  refine ⟨key, hkey, fun _ => hx.not_kept hne ho hp, fun hnone => ?_, fun i hi => ?_⟩
  · have hunkept := Store.unkept_of_find?_none hkey hnone
    refine ⟨hunkept, fun u thread q f m' ht hask hs => ?_⟩
    obtain ⟨turn, hturn, rfl⟩ := step_of_asks ht hask hs
    obtain ⟨hentries, hframes, hcontrol⟩ := hask.spared hturn hunkept.1
    rw [after_threads ht turn, hframes, hcontrol]
    exact ⟨hentries, rfl⟩
  · have hentry : m.store.entryOf? registry x = some i := by
      rw [Store.entryOf?_eq, hkey]
      exact hi
    obtain ⟨e, he, hreg, hek⟩ := Store.find?_some hi
    refine ⟨hentry, ⟨e, he, hreg, hek, fun hr => ?_⟩, fun u q m₂ v hreturns => ?_⟩
    · exact hx.not_kept hne ho hp ⟨i, e, he, hreg, hek, hr⟩
    · obtain ⟨hlater, y, hy, hkeeps⟩ := hreturns.keeps_of_check hf h hkey hi
      refine ⟨y, hy, fun hsame => ?_, hkeeps⟩
      -- the maker of the record stays the other registry
      have hreach := h.trans hlater
      have hmade := ((h.advances hf hlater).grows.madeBy_iff hp
        (Store.lt_size_of_keyOf hkey)).mpr hx
      exact hmade.not_kept hne (hreach.owned hf) (hreach.paired hf) (hsame ▸ hkeeps)

/-- Two registries make a record of one key each. The second registry is asked
about the first one's record, and answers about its own. -/
theorem stranger_checked_boxes :
    ∃ (start m m₂ : Machine Unit) (y : Response), start.Fresh ∧ Reachable boxes start m
      ∧ m.store.MadeBy 0 10
      ∧ Returns boxes (fun _ _ => True) 0 1 .complete (.check 10) m m₂ (.response y)
      ∧ y.record ≠ 10 ∧ m₂.store.Keeps 1 ⟨.generic 0, [2]⟩ y.record := by
  let start : Machine Unit := launch .standard () (.act (.openRegistry .standard) fun other =>
    .request 0 .complete (.generic 0 [2]) fun x =>
      .request other .complete (.generic 0 [2]) fun _ =>
        .request other .complete (.check x.record) fun _ => .done ())
  let m := start.walk boxes 33
  have hreach : Reachable boxes start m := .walk _ 33
  have hmade : m.store.MadeBy 0 10 := by
    obtain ⟨e, he, hreg⟩ : ∃ e, m.store.entries[m.store.place 10]? = some e
        ∧ (e.registry == 0) = true := Option.any_eq_true .. |>.mp (by decide +kernel)
    exact ⟨by decide +kernel, e, he, beq_iff_eq.mp hreg⟩
  have hreturns : Returns boxes (fun _ _ => True) 0 1 .complete (.check 10) m
      ((m.walk boxes 1).walk boxes 1) (.response ⟨12, .complete⟩) :=
    .of_walk 0 (by decide +kernel) (by decide +kernel) (by decide +kernel) (by decide +kernel)
  obtain ⟨key, hkey, -, -, hfound⟩ :=
    Reachable.stranger_checked (fresh_launch _ () _) hreach hmade (by decide : 0 ≠ 1)
  obtain rfl : (⟨.generic 0, [2]⟩ : Key) = key :=
    Option.some.inj
      ((by decide +kernel : m.store.keyOf 10 = some ⟨.generic 0, [2]⟩).symm.trans hkey)
  obtain ⟨-, -, hanswers⟩ := hfound 2 (by decide +kernel)
  obtain ⟨y, hy, hother, hkeeps⟩ := hanswers _ _ _ _ hreturns
  cases hy
  exact ⟨start, m, _, _, fresh_launch _ () _, hreach, hmade, hreturns, hother, hkeeps⟩

end Machine

end TypeRecords
