/-
Initializers come first.

The first candidate of a name in a registry may have an initializer. It runs
with nothing locked, so other threads, and the initializer itself, can ask for
the same name and for others while it runs, and it may fail. What comes of it
(`Chronicle.foreign_founded`):

- No other initializer is started for the name in this registry, then or later,
  because an initializer is started by a registration, and a name is registered
  once.
- Nobody is given the record before the initializer has returned. For a record
  that is given out is listed (`Answered.record`), and a line is given its
  record by the frame that waits for the initializer (`Chronicle.concluded`). If
  the initializer fails this frame is gone, and nobody is ever given the record.
- So whoever is given the record sees a layout that the initializer has
  published, or one that has been published after it. No step takes it away
  (`Chronicle.published`).
-/
import TypeRecords.Proofs.Fields.Publishing
import TypeRecords.Proofs.Foreign.Identity

namespace TypeRecords.Machine.Chronicle

variable {σ : Type} {lib : Library σ} {start : Machine σ} {r : Chronicle lib start}
  {i j k k' : Nat} {job job' : NameJob} {registry : RegistryId} {c : CandidateId} {v : Value}

/-- An initializer is started in a step: its registration is the topmost of
those that wait in frames of the thread, and was not there before. -/
def Starts (r : Chronicle lib start) (k : Nat) (job : NameJob) : Prop :=
  k < r.length ∧ ∃ thread thread', (r.state k).threads[r.mover k]? = some thread
    ∧ (r.state (k + 1)).threads[r.mover k]? = some thread'
    ∧ ((r.state (k + 1)).turn thread').jobs = job :: ((r.state k).turn thread).jobs

/-- Initializers are started by registrations, and are then what the thread
runs. -/
theorem Starts.registers (h : r.Starts k job) :
    r.Registers k job.registry job.candidate
      ∧ job.position = ((r.state k).store.names job.registry).length
      ∧ ∃ callback thread, lib.initializer job.candidate = some callback
        ∧ (r.state (k + 1)).threads[r.mover k]? = some thread
        ∧ thread.control
          = .run ((callback job.registry).bind fun _ => .done .unit) (.start .nothing) := by
  obtain ⟨hk, thread, thread', ht, ht', hjobs⟩ := h
  obtain ⟨mover, moved, hmover, hmoved, hnames⟩ := step_names (r.step k hk)
  obtain rfl := Option.some.inj (ht.symm.trans hmover)
  obtain rfl := Option.some.inj (ht'.symm.trans hmoved)
  obtain ⟨hreg, hposition, callback, hinit, hrun⟩ := hnames.opens hjobs
  exact ⟨⟨hk, (registers?_eq ht).trans hreg⟩, hposition, callback, thread', hinit, ht', hrun⟩

/-- A registration starts the initializer, if there is one. -/
theorem Registers.starts (h : r.Registers k registry c)
    (hinit : (lib.initializer c).isSome = true) :
    r.Starts k ⟨registry, c, ((r.state k).store.names registry).length⟩ := by
  obtain ⟨hk, hreg⟩ := h
  obtain ⟨thread, thread', ht, ht', hnames⟩ := step_names (r.step k hk)
  rw [registers?_eq ht] at hreg
  exact ⟨hk, thread, thread', ht, ht', hnames.founds hreg hinit⟩

/-- Initializers come first. In every run of a process in which no name was
registered at the start and every candidate had a record, with any number of
threads, registries and candidates:

- An initializer is started in the very step that registers its candidate.
- At most one is started for a name in a registry.
- When a call comes back whose name has an initializer, that initializer has
  returned by then, on the thread that started it.
- The record that the call comes back with has the layout that was published for
  it last, if any was. -/
theorem foreign_founded (hf : start.Fresh) (hn : start.store.Unnamed)
    (hown : ∀ candidate ∈ start.store.candidates, candidate.record < start.store.records.size)
    (r : Chronicle lib start) :
    (∀ {k job}, r.Starts k job → r.Registers k job.registry job.candidate
      ∧ ∃ callback thread, lib.initializer job.candidate = some callback
        ∧ (r.state (k + 1)).threads[r.mover k]? = some thread
        ∧ thread.control
          = .run ((callback job.registry).bind fun _ => .done .unit) (.start .nothing))
    ∧ (∀ {k k' job job'}, r.Starts k job → r.Starts k' job' → job.registry = job'.registry →
      start.store.nameOf? job.candidate = start.store.nameOf? job'.candidate →
      k = k' ∧ job = job')
    ∧ ∀ {i j registry c v}, r.Answered i j registry c v →
      ∃ k c₀ x, r.Registers k registry c₀
        ∧ start.store.nameOf? c₀ = start.store.nameOf? c ∧ v = .record x
        ∧ ((lib.initializer c₀).isSome = true → ∃ l position, k < l ∧ l < j
          ∧ r.Starts k ⟨registry, c₀, position⟩ ∧ r.Concludes l ⟨registry, c₀, position⟩
          ∧ r.mover l = r.mover k)
        ∧ ∀ {n layout}, n < j → r.Publishes n x layout →
          ∃ n' layout', n ≤ n' ∧ n' < j ∧ r.Publishes n' x layout'
            ∧ (∀ i l, n' < i → i < j → ¬ r.Publishes i x l)
            ∧ (r.state j).store.records.layoutOf x = some layout'.stored := by
  refine ⟨?_, ?_, ?_⟩
  · intro k job h
    obtain ⟨hreg, -, hruns⟩ := h.registers
    exact ⟨hreg, hruns⟩
  · intro k k' job job' h h' hregistry hname
    obtain ⟨hreg, hposition, -⟩ := h.registers
    obtain ⟨hreg', hposition', -⟩ := h'.registers
    rw [← hregistry] at hreg' hposition'
    obtain ⟨rfl, hcandidate⟩ := registers_once hf hn hreg hreg' hname
    refine ⟨rfl, ?_⟩
    cases job
    cases job'
    cases hregistry
    cases hcandidate
    cases hposition.trans hposition'.symm
    rfl
  · intro i j registry c v h
    obtain ⟨x, rfl, name, hname, n, hmem, hn', hx⟩ := h.record hf hn
    have hj : j ≤ r.length := h.le
    obtain ⟨position, hline⟩ := List.getElem?_of_mem hmem
    obtain ⟨g, hg, -, hthread, hreg, hgname, hgown⟩ := registrant hf hn hj hline
    have hsame : start.store.nameOf? g.candidate = start.store.nameOf? c := by
      rw [hgname, hn', ← r.nameOf?_eq hf hn hj, hname]
    refine ⟨g.step, g.candidate, x, hreg, hsame, rfl, fun hinit => ?_, fun hnj hpub => ?_⟩
    · obtain ⟨l, hl, hlj, hmover, hconcludes⟩ := concluded hf hn hj hline hx hg hinit
      have hentered := roll_getElem? (Nat.lt_trans hl hlj) (hreg.entered hf hn)
      rw [← hthread] at hentered
      obtain rfl := (r.enrolled hf hn hj).store.registration_unique hg hentered rfl
      exact ⟨l, _, hl, hlj, hreg.starts hinit, hconcludes, hmover.trans hthread⟩
    · obtain ⟨candidate, hcand, hrecord⟩ := Option.map_eq_some_iff.mp (hgown x hx)
      have hthere := hown candidate (Array.mem_of_getElem? hcand)
      rw [hrecord] at hthere
      exact published hf hthere hpub hnj hj

/-- Of two candidates of one name the first has an initializer, which publishes
a layout. When the second is asked for, the answer is the first one's record, and
the layout is there. -/
theorem foreign_founded_homonyms :
    ∃ (start : Machine Unit) (r : Chronicle homonyms start), start.Fresh ∧ start.store.Unnamed
      ∧ (∀ candidate ∈ start.store.candidates, candidate.record < start.store.records.size)
      ∧ r.Registers 2 0 0 ∧ (homonyms.initializer 0).isSome = true
      ∧ r.Answered 9 10 0 1 (.record 0) ∧ r.Publishes 3 0 (.scalar 2)
      ∧ (∃ l position, 2 < l ∧ l < 10 ∧ r.Starts 2 ⟨0, 0, position⟩
        ∧ r.Concludes l ⟨0, 0, position⟩ ∧ r.mover l = r.mover 2)
      ∧ ∃ n l, 3 ≤ n ∧ n < 10 ∧ r.Publishes n 0 l
        ∧ (r.state 10).store.records.layoutOf 0 = some l.stored := by
  let r : Chronicle homonyms homonymous := .walk homonyms homonymous 10 (by decide +kernel)
  have hreg : r.Registers 2 0 0 := ⟨by decide, by decide +kernel⟩
  have hanswered : r.Answered 9 10 0 1 (.record 0) :=
    .of_walk 0 (by decide) (by decide) (by decide +kernel) (by decide +kernel) (by decide +kernel)
  have hpublishes : r.Publishes 3 0 (.scalar 2) := ⟨by decide, by decide +kernel⟩
  have hown : ∀ candidate ∈ homonymous.store.candidates,
      candidate.record < homonymous.store.records.size := by decide
  obtain ⟨-, -, hanswers⟩ := foreign_founded fresh_homonymous unnamed_homonymous hown r
  obtain ⟨k, c₀, x, hreg', hname, hx, hinit, hlayout⟩ := hanswers hanswered
  cases hx
  obtain ⟨rfl, rfl⟩ := registers_once fresh_homonymous unnamed_homonymous hreg hreg'
    ((by decide : homonymous.store.nameOf? 0 = homonymous.store.nameOf? 1).trans hname.symm)
  obtain ⟨l, position, hl, hlj, hstarts, hconcludes, hmover⟩ := hinit rfl
  obtain ⟨n, layout, hn, hlt, hpub, -, hlast⟩ := hlayout (by decide) hpublishes
  exact ⟨_, r, fresh_homonymous, unnamed_homonymous, hown, hreg, rfl, hanswered, hpublishes,
    ⟨l, position, hl, hlj, hstarts, hconcludes, hmover⟩, n, layout, hn, hlt, hpub, hlast⟩

end TypeRecords.Machine.Chronicle
