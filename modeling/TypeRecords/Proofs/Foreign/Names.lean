/-
What a step does to names.

Names are kept in two places: in the table of each registry, and on the
candidates, each of which remembers one canonical record together with the
registry that chose it. Most steps touch neither. `Turn.Names` lists the others,
with what they do to both (`Turn.step_names`): a candidate is asked for that
remembers, or whose name is known, or not; somebody who waits looks again; and
an initializer returns. So whatever is proved about names is proved for these
six kinds of steps.
-/
import TypeRecords.Proofs.Process.Records
import TypeRecords.Proofs.Process.Frames

namespace TypeRecords

variable {σ : Type}

-- ====================================================== tables

namespace Store

/-- The names of a registry, in the order they were registered. -/
def names (s : Store) (registry : RegistryId) : List ForeignName :=
  ((s.registries[registry]?).map (·.foreign)).getD []

/-- Tables and candidates are still what they were. -/
structure SameNames (s' s : Store) : Prop where
  names : ∀ registry, s'.names registry = s.names registry
  candidates : s'.candidates = s.candidates

variable {s s' s'' : Store} {registry other : RegistryId}

/-- The names of a registry that is there. -/
theorem names_eq {r : Registry} (h : s.registries[registry]? = some r) :
    s.names registry = r.foreign := by
  unfold names
  rw [h]
  rfl

/-- A change to one registry changes the names of that one only. -/
theorem names_changeRegistry (s : Store) (registry other : RegistryId)
    (f : Registry → Registry) (g : List ForeignName → List ForeignName)
    (hf : ∀ r, (f r).foreign = g r.foreign) (hg : g [] = []) :
    (s.changeRegistry registry f).names other
      = if registry = other then g (s.names other) else s.names other := by
  unfold names changeRegistry
  simp only [Array.getElem?_modify]
  split
  · cases s.registries[other]? with
    | none => exact hg.symm
    | some r => exact hf r
  · rfl

namespace SameNames

/-- A store has the names it has. -/
theorem refl (s : Store) : s.SameNames s := ⟨fun _ => rfl, rfl⟩

/-- What two changes in turn leave alone, both together do. -/
theorem trans (h' : s''.SameNames s') (h : s'.SameNames s) : s''.SameNames s :=
  ⟨fun registry => (h'.names registry).trans (h.names registry),
    h'.candidates.trans h.candidates⟩

/-- Names are a matter of registries and candidates alone. -/
theorem of_eq (hr : s'.registries = s.registries) (hc : s'.candidates = s.candidates) :
    s'.SameNames s :=
  ⟨fun registry => by unfold Store.names; rw [hr], hc⟩

/-- A store with the registries and candidates of another has its names. -/
theorem congr (h : s'.SameNames s) (hr : s''.registries = s'.registries)
    (hc : s''.candidates = s'.candidates) : s''.SameNames s :=
  .trans (.of_eq hr hc) h

end SameNames

/-- A change to a registry that keeps its table keeps all names. -/
theorem changeRegistry_names (s : Store) (registry : RegistryId) {f : Registry → Registry}
    (hf : ∀ r, (f r).foreign = r.foreign) : (s.changeRegistry registry f).SameNames s where
  names other := by
    rw [s.names_changeRegistry registry other f id hf rfl]
    exact ite_self _
  candidates := rfl

/-- Ledgers hold no names. -/
theorem note_names (s : Store) (registry : RegistryId) (f : Ledger → Ledger) :
    (s.note registry f).SameNames s := s.changeRegistry_names registry fun _ => rfl

/-- A new registry has no names yet. -/
theorem addRegistry_names (s : Store) (c : Config) : (s.addRegistry c).1.SameNames s where
  names registry := by
    unfold names addRegistry
    rw [Array.getElem?_push]
    split
    · rename_i h
      subst h
      rw [Array.getElem?_eq_none (Nat.le_refl _)]
      rfl
    · rfl
  candidates := rfl

/-- Blocks are taken beside the names. -/
theorem takeBlock_names (s : Store) (registry : RegistryId) (size align : Nat) :
    (s.takeBlock registry size align).1.SameNames s := by
  unfold takeBlock
  split
  · exact .refl s
  · rename_i r _
    let arena := (r.arena.allocateFrom s.heap size align).1.arena
    have h := s.changeRegistry_names registry (f := fun r => { r with arena }) fun _ => rfl
    exact h.congr rfl rfl

/-- Blocks are returned beside the names. -/
theorem returnBlock_names (s : Store) (registry : RegistryId) (address size : Nat) :
    (s.returnBlock registry address size).1.SameNames s := by
  unfold returnBlock
  split
  · exact .refl s
  · exact s.changeRegistry_names registry fun _ => rfl

/-- No action of a program is about names. -/
theorem perform_names (s : Store) (action : Action) : (s.perform action).1.SameNames s := by
  cases action with
  | takeBlock registry size align => exact s.takeBlock_names registry size align
  | returnBlock registry address size => exact s.returnBlock_names registry address size
  | openRegistry config => exact s.addRegistry_names config
  | share config =>
      simp only [perform]
      split
      · exact .refl s
      · exact (s.addRegistry_names config).congr rfl rfl
  | publish record layout
  | storeWord record index value
  | setSuperclass record superclass
  | addHook hook
  | clearHooks => exact .of_eq rfl rfl

end Store

-- ====================================================== steps about something else

/-- The registration that waits in a frame. -/
def Frame.job? : Frame σ → Option NameJob
  | .founding j => some j
  | _ => none

/-- Whether the control is that of somebody who waits for a name. -/
def Control.stands : Control σ → Bool
  | .standBy .. => true
  | _ => false

/-- Whether the control is neither that of a program, nor of somebody who waits
for a name or hands something over. -/
def Control.isAside : Control σ → Bool
  | .run .. => false
  | .give .. => false
  | .standBy .. => false
  | _ => true

/-- The candidate that a program asks for next, and where. -/
def Control.naming? : Control σ → Option (RegistryId × CandidateId)
  | .run (.canonical registry c _) _ => some (registry, c)
  | _ => none

namespace Turn

/-- The registrations of a thread whose initializers have not returned. -/
def jobs (t : Turn σ) : List NameJob := t.frames.filterMap Frame.job?

/-- The candidate whose name the next step is about, and the registry: it is
asked for, or looked for again, or its initializer has returned. -/
def concerns (t : Turn σ) : Option (RegistryId × CandidateId) :=
  match t.control with
  | .standBy j _ => some (j.registry, j.candidate)
  | .give .. => (t.frames.head?.bind Frame.job?).map fun j => (j.registry, j.candidate)
  | c => c.naming?

/-- Nothing has happened to names: tables and candidates are what they were, no
registration has begun, and nobody waits. -/
structure Quiet (t' t : Turn σ) : Prop where
  store : t'.store.SameNames t.store
  jobs : t'.jobs.Sublist t.jobs
  control : t'.control.stands = false

variable {lib : Library σ} {a : Actor} {t t' u : Turn σ}

/-- No name is the matter of such a control. -/
theorem concerns_aside {c : Control σ} (hc : t.control = c) (h : c.isAside = true) :
    t.concerns = none := by
  unfold concerns
  rw [hc]
  cases c with
  | run p s | give v left | standBy j heard => cases h
  | _ => rfl

/-- What a program is about is the candidate it asks for next, if any. -/
theorem concerns_run {p : Program σ Value} {s : Setting σ} (hc : t.control = .run p s) :
    t.concerns = (Control.run p s).naming? := by
  unfold concerns
  rw [hc]

/-- A step that concerns no name asks for none. -/
theorem naming?_of_concerns (h : t.concerns = none) : t.control.naming? = none := by
  unfold concerns at h
  split at h
  · cases h
  · rename_i hc
    rw [hc]
    rfl
  · exact h

/-- What happens quietly on top of a frame without a registration happens quietly below it.
-/
theorem Quiet.from (h : t'.Quiet u) (hs : u.store.SameNames t.store) (hj : u.jobs = t.jobs) :
    t'.Quiet t :=
  ⟨h.store.trans hs, hj ▸ h.jobs, h.control⟩

/-- The thread changes nothing but what it does next. -/
theorem Quiet.same (hs : t'.store.SameNames t.store) (hj : t'.jobs = t.jobs)
    (hc : t'.control.stands = false) : t'.Quiet t :=
  ⟨hs, hj ▸ List.Sublist.refl _, hc⟩

/-- A handler begins with no name in hand. -/
theorem handle_quiet (t : Turn σ) (f : Failure) (s : Setting σ) : (t.handle f s).Quiet t := by
  unfold handle
  split <;> exact .same (.refl _) rfl rfl

/-- Consulting an entry concerns no name. -/
theorem consult_quiet (t : Turn σ) (registry : RegistryId) (q : Request) (record : RecordId) :
    (t.consult registry q record).Quiet t := by
  unfold consult
  split <;> exact .same (.refl _) rfl rfl

/-- Fields are laid out without a name. -/
theorem startLayout_quiet (t : Turn σ) (registry : RegistryId) (record : RecordId)
    (scratch : Scratch) : (t.startLayout lib registry record scratch).Quiet t := by
  unfold startLayout
  split <;> exact .same (.refl _) rfl rfl

/-- A new entry is known by its key, which is no name. -/
theorem create_names (t : Turn σ) (registry : RegistryId) (q : Request) (key : Key)
    (record : Record) : (t.create registry q key record).1.store.SameNames t.store := by
  let made : Store := { t.store with entries := t.store.entries.push { registry, key } }
  have htake := made.takeBlock_names registry record.blockSize wordSize
  exact (htake.trans (.of_eq (s := t.store) rfl rfl)).congr rfl rfl

/-- A call to a registry goes by keys, not by names. -/
theorem request_quiet {registry : RegistryId} {q : Request} {c : Call}
    (h : Requested lib t a registry q c t') : t'.Quiet t := by
  cases h with
  | check => exact consult_quiet ..
  | empty => exact .same (.refl _) rfl rfl
  | miscount => exact .same (.of_eq rfl rfl) rfl rfl
  | hit => exact .same (t.store.note_names ..) rfl rfl
  | create => exact .same (create_names t registry q ..) rfl rfl
  | instantiate => exact .same (create_names t registry q ..) rfl rfl

/-- Witness tables have no names. -/
theorem requestTable_quiet {registry : RegistryId} {conformance : ConformanceId}
    {conforming : RecordId} {arguments : List TableId}
    (h : TableRequested lib t registry conformance conforming arguments t') : t'.Quiet t := by
  cases h with
  | pattern => exact .same (t.store.note_names ..) rfl rfl
  | cell =>
      unfold Store.cellFor
      split <;> exact .same (.of_eq rfl rfl) rfl rfl

/-- A program comes to names only by asking for a canonical record. -/
theorem run_quiet {p : Program σ Value} {s : Setting σ}
    (hp : ∀ registry c k, p ≠ .canonical registry c k) (h : Ran lib t a s p t') : t'.Quiet t := by
  cases h with
  | request h => exact (request_quiet h).from (.refl _) rfl
  | canonical h => exact (hp _ _ _ rfl).elim
  | table h => exact (requestTable_quiet h).from (.refl _) rfl
  | structLayout => exact (startLayout_quiet ..).from (.refl _) rfl
  | act => exact .same (t.store.perform_names _) rfl rfl
  | raise => exact .same (.of_eq rfl rfl) rfl rfl
  | fail | refuse => exact handle_quiet ..
  | done | look | edit | scratch | draft | fill | storePrivate | guarded | disarm =>
      exact .same (.refl _) rfl rfl

/-- The end of a completion step is quiet. -/
theorem stepped_quiet (t : Turn σ) (d : Drive) (dep : Option Dependency) (left : Local) :
    (t.stepped d dep left).Quiet t := by
  obtain ⟨words, o, hst, -⟩ := stepped_spec t d dep left
  rw [hst]
  exact .same (.refl _) rfl rfl

/-- An answer for a field is taken quietly. -/
theorem laid_quiet (t : Turn σ) (w : FieldWalk σ) (r : Response) : (t.laid w r).Quiet t := by
  unfold laid
  split <;> exact .same (.refl _) rfl rfl

/-- An answer for an element is taken quietly. -/
theorem measured_quiet (t : Turn σ) (w : ElementWalk) (r : Response) :
    (t.measured w r).Quiet t := by
  unfold measured
  split
  · split <;> exact .same (.refl _) rfl rfl
  · exact .same (.refl _) rfl rfl

/-- An attempt at a witness table ends quietly, also in a fault. -/
theorem filled_quiet {j : TableJob} {draft : Draft} (h : Filled lib t a j draft t') :
    t'.Quiet t := by
  cases h with
  | lack => exact .same (.of_eq rfl rfl) rfl rfl
  | table => exact .same ((Store.note_names _ j.registry _).trans (.of_eq rfl rfl)) rfl rfl

/-- A registration that is unwound is dropped; its name stays as it is, and nobody announces
it. -/
theorem unwind_quiet {e : Failure} (h : Unwound t e t') : t'.Quiet t := by
  have hdrop : ∀ {u : Turn σ} {f : Frame σ} {rest : List (Frame σ)}, t.frames = f :: rest →
      u.Quiet { t with frames := rest } → u.Quiet t := fun {u f rest} hf hu => by
    refine ⟨hu.store, hu.jobs.trans ?_, hu.control⟩
    unfold jobs
    rw [hf]
    exact (List.sublist_cons_self f rest).filterMap _
  cases h with
  | ended => exact .same (.refl _) rfl rfl
  | handle hf => exact hdrop hf (handle_quiet ..)
  | abandon hf => exact hdrop hf (.same (.of_eq rfl rfl) rfl rfl)
  | drop hf => exact hdrop hf (.same (.refl _) rfl rfl)

/-- To be answered about an entry is quiet. -/
theorem await_quiet {registry : RegistryId} {entry : EntryId} {q : Request}
    (h : Waited t a registry entry q t') : t'.Quiet t := by
  cases h with
  | answer => exact .same (.refl _) rfl rfl
  | reentrant => exact .same (.of_eq rfl rfl) rfl rfl

/-- A completion step begins quietly. -/
theorem begin_quiet {d : Drive} (h : Begun lib t d t') : t'.Quiet t := by
  have hnote := t.store.note_names d.registry fun l => { l with steps := l.steps + 1 }
  cases h with
  | layout => exact (startLayout_quiet ..).from hnote rfl
  | measure | close | callback => exact .same hnote rfl rfl

/-- A walk over fields goes on quietly. -/
theorem lay_quiet {w : FieldWalk σ} (h : FieldLaid t a w t') : t'.Quiet t := by
  cases h with
  | consult => exact (consult_quiet ..).from (.refl _) rfl
  | compute => exact .same (.refl _) rfl rfl
  | done | lack => exact .same (.of_eq rfl rfl) rfl rfl

/-- A walk over elements goes on quietly. -/
theorem measure_quiet {w : ElementWalk} (h : ElementMeasured t w t') : t'.Quiet t := by
  cases h with
  | done =>
      simp only [settleTuple]
      split <;> exact .same (.of_eq rfl rfl) rfl rfl
  | consult => exact (consult_quiet ..).from (.refl _) rfl

/-- A fresh record is settled without a name. -/
theorem firstStage_names (s : Store) (x : RecordId) : (firstStage lib s x).1.SameNames s := by
  unfold firstStage
  split
  · exact .refl _
  · split
    · exact .refl _
    · simp only [settleLayout]
      split <;> exact .of_eq rfl rfl

/-- An allocation ends quietly: foreign records are not allocated. -/
theorem allocated_quiet {al : Allocation} (h : Allocated lib t a al t') : t'.Quiet t := by
  have hfirst : (firstStage lib t.store al.record).1.SameNames t.store := firstStage_names ..
  have hnote := (Store.note_names _ al.registry
    fun l => { l with instantiations := l.instantiations + 1 }).trans hfirst
  cases h <;> exact .same (hnote.congr rfl rfl) rfl rfl

/-- Waiters are resumed quietly. -/
theorem release_quiet {d : Drive} {dep : Option Dependency} {ready : List Waiter}
    (h : Released t a d dep ready t') : t'.Quiet t := by
  have hnote := t.store.note_names d.registry fun l => { l with resumptions := l.resumptions + 1 }
  cases h with
  | resume => exact .same (hnote.congr rfl rfl) rfl rfl
  | forget => exact .same hnote rfl rfl
  | stop | finish | again => exact .same (.refl _) rfl rfl

/-- What stops waits for an entry, not for a name. -/
theorem stopped_quiet {d : Drive} {dep : Dependency} (h : Stopped t a d dep t') : t'.Quiet t := by
  have hnote := t.store.note_names d.registry fun l => { l with dependencies := l.dependencies + 1 }
  cases h with
  | rely => exact (consult_quiet ..).from hnote rfl
  | cycle | suspend => exact .same (hnote.congr rfl rfl) rfl rfl

/-- Queues are those of entries. -/
theorem enqueue_quiet {d : Drive} {dep : Dependency} (h : Enqueued t a d dep t') :
    t'.Quiet t := by
  cases h <;> exact .same (.of_eq rfl rfl) rfl rfl

/-- Cells are waited for quietly. -/
theorem acquire_quiet {j : TableJob} {arguments : List TableId}
    (h : Acquired lib t a j arguments t') : t'.Quiet t := by
  cases h with
  | full => exact .same (.refl _) rfl rfl
  | instantiate | copy => exact .same ((Store.takeBlock_names ..).trans (.of_eq rfl rfl)) rfl rfl

/-- A report says names and changes none. -/
theorem report_quiet {r : Report} {hooks : List HookId} {policy : FaultPolicy}
    (h : Reported lib t r hooks policy t') : t'.Quiet t := by
  cases h <;> exact .same (.of_eq rfl rfl) rfl rfl

-- ====================================================== steps about names

/-- What a step does to names. -/
inductive Names (lib : Library σ) (t t' : Turn σ) : Prop
  | quiet (hc : t.concerns = none) (hq : t'.Quiet t)
  /-- The candidate that is asked for remembers. -/
  | recalled {registry : RegistryId} {c : CandidateId} {k : RecordId → Program σ Value}
      {s : Setting σ} {candidate : Candidate} {x : RecordId}
      (hc : t.control = .run (.canonical registry c k) s)
      (hcand : t.store.candidates[c]? = some candidate)
      (hx : candidate.uniqueIn registry = some x)
      (ht' : t' = { t with
        control := .give (.record x) .nothing, frames := .forRecord k s :: t.frames })
  /-- Its name has been registered. -/
  | asked {registry : RegistryId} {c : CandidateId} {k : RecordId → Program σ Value}
      {s : Setting σ} {candidate : Candidate} {r : Registry} {position : Nat}
      (hc : t.control = .run (.canonical registry c k) s)
      (hcand : t.store.candidates[c]? = some candidate)
      (hr : t.store.registries[registry]? = some r)
      (hp : r.position? candidate.name = some position)
      (ht' : t' = ({ t with frames := .forRecord k s :: t.frames }).askName
        ⟨registry, c, position⟩ r)
  /-- Its name is registered, with its record. -/
  | registered {registry : RegistryId} {c : CandidateId} {k : RecordId → Program σ Value}
      {s : Setting σ} {candidate : Candidate} {r : Registry}
      (hc : t.control = .run (.canonical registry c k) s)
      (hcand : t.store.candidates[c]? = some candidate)
      (hr : t.store.registries[registry]? = some r) (hp : r.position? candidate.name = none)
      (hinit : lib.initializer c = none)
      (ht' : t' = ({ t with
        store := t.store.changeRegistry registry
          (·.register candidate.name (some candidate.record))
        frames := .forRecord k s :: t.frames }).nameAs registry c candidate.record)
  /-- Its name is registered, and its initializer is started. -/
  | opened {registry : RegistryId} {c : CandidateId} {k : RecordId → Program σ Value}
      {s : Setting σ} {candidate : Candidate} {r : Registry}
      {callback : RegistryId → Program σ Unit}
      (hc : t.control = .run (.canonical registry c k) s)
      (hcand : t.store.candidates[c]? = some candidate)
      (hr : t.store.registries[registry]? = some r) (hp : r.position? candidate.name = none)
      (hinit : lib.initializer c = some callback)
      (ht' : t' = ({ t with
        store := t.store.changeRegistry registry (·.register candidate.name none)
        frames := .forRecord k s :: t.frames }).call
          (.founding ⟨registry, c, (t.store.names registry).length⟩) (callback registry)
          (fun _ => .unit) .nothing)
  /-- Somebody who waits looks again. -/
  | again {j : NameJob} {heard : Nat} {r : Registry} (hc : t.control = .standBy j heard)
      (hr : t.store.registries[j.registry]? = some r) (ht' : t' = t.askName j r)
  /-- An initializer has returned. -/
  | founded {v : Value} {left : Local} {j : NameJob} {rest : List (Frame σ)}
      {candidate : Candidate} (hc : t.control = .give v left)
      (hf : t.frames = .founding j :: rest)
      (hcand : t.store.candidates[j.candidate]? = some candidate)
      (ht' : t' = ({ t with
        store := t.store.changeRegistry j.registry (·.announce j.position candidate.record)
        frames := rest }).nameAs j.registry j.candidate candidate.record)

/-- A request for a canonical record is one of the four that concern a name. -/
theorem canonical_names {registry : RegistryId} {c : CandidateId} {k : RecordId → Program σ Value}
    {s : Setting σ} (hc : t.control = .run (.canonical registry c k) s)
    (h : NameRequested lib { t with frames := .forRecord k s :: t.frames } registry c t') :
    Names lib t t' := by
  cases h with
  | known hcand _ hknown => exact .recalled hc hcand hknown rfl
  | ask hcand hr _ hp => exact .asked hc hcand hr hp rfl
  | register hcand hr _ hp hinit => exact .registered hc hcand hr hp hinit rfl
  | found hcand hr _ hp hinit => exact .opened hc hcand hr hp hinit (by rw [Store.names_eq hr])

/-- An initializer has returned, or something else is handed over. -/
theorem give_names {v : Value} {left : Local} (hc : t.control = .give v left)
    (h : Given lib t a v left t') : Names lib t t' := by
  have hquiet : ∀ {f : Frame σ} {rest : List (Frame σ)}, t.frames = f :: rest → f.job? = none →
      t'.Quiet { t with frames := rest } → Names lib t t' := fun {f rest} hf hj hq => by
    refine .quiet ?_ (hq.from (.refl _) ?_)
    · unfold concerns
      rw [hc, hf]
      show (f.job?.map _) = none
      rw [hj]
      rfl
    · unfold jobs
      rw [hf, List.filterMap_cons_none hj]
  cases h with
  | ended hf =>
      refine .quiet ?_ (.same (.refl _) rfl rfl)
      unfold concerns
      rw [hc, hf]
      rfl
  | founded hf hcand => exact .founded hc hf hcand rfl
  | stepped hf => exact hquiet hf rfl (stepped_quiet ..)
  | laid hf => exact hquiet hf rfl (laid_quiet ..)
  | measured hf => exact hquiet hf rfl (measured_quiet ..)
  | filled hf h => exact hquiet hf rfl (filled_quiet h)
  | response hf | layout hf | table hf | record hf | allocated hf | relied hf | released hf
  | reported hf => exact hquiet hf rfl (.same (.refl _) rfl rfl)

/-- Every step does one of these things to names. -/
theorem step_names (h : t.step lib a = some t') : Names lib t t' := by
  cases step_cases h with
  | @run p s _ hc h =>
      by_cases hp : ∃ registry c k, p = .canonical registry c k
      · obtain ⟨registry, c, k, rfl⟩ := hp
        cases h with
        | canonical h => exact canonical_names hc h
        | refuse hp => cases hp
      · refine .quiet ?_ (run_quiet (fun registry c k heq => hp ⟨registry, c, k, heq⟩) h)
        rw [concerns_run hc]
        cases p with
        | canonical registry c k => exact (hp ⟨registry, c, k, rfl⟩).elim
        | _ => rfl
  | give hc h => exact give_names hc h
  | standBy hc h =>
      cases h with
      | intro hr => exact .again hc hr rfl
  | unwind hc h => exact .quiet (concerns_aside hc rfl) (unwind_quiet h)
  | await hc h => exact .quiet (concerns_aside hc rfl) (await_quiet h)
  | allocated hc h => exact .quiet (concerns_aside hc rfl) (allocated_quiet h)
  | begin hc h => exact .quiet (concerns_aside hc rfl) (begin_quiet h)
  | lay hc h => exact .quiet (concerns_aside hc rfl) (lay_quiet h)
  | measure hc h => exact .quiet (concerns_aside hc rfl) (measure_quiet h)
  | publish hc h =>
      cases h
      exact .quiet (concerns_aside hc rfl) (.same (.of_eq rfl rfl) rfl rfl)
  | release hc h => exact .quiet (concerns_aside hc rfl) (release_quiet h)
  | stopped hc h => exact .quiet (concerns_aside hc rfl) (stopped_quiet h)
  | enqueue hc h => exact .quiet (concerns_aside hc rfl) (enqueue_quiet h)
  | acquire hc h => exact .quiet (concerns_aside hc rfl) (acquire_quiet h)
  | report hc h => exact .quiet (concerns_aside hc rfl) (report_quiet h)

end Turn

-- ====================================================== processes

/-- What a step of a process does to names. -/
theorem Machine.step_names {lib : Library σ} {m m' : Machine σ} {t : ThreadId}
    (h : m.step lib t = some m') :
    ∃ thread thread', m.threads[t]? = some thread ∧ m'.threads[t]? = some thread'
      ∧ Turn.Names lib (m.turn thread) (m'.turn thread') := by
  obtain ⟨thread, thread', hthread, hthread', hmove⟩ := step_mover h
  refine ⟨thread, thread', hthread, hthread', ?_⟩
  rcases hmove with hturn | ⟨p, p', s, hc, hp, hs, hc', hf⟩
  · exact Turn.step_names hturn
  · refine .quiet ?_ (.same (.of_eq (congrArg Store.registries hs) (congrArg Store.candidates hs))
      (congrArg (List.filterMap Frame.job?) hf) ?_)
    · rw [Turn.concerns_run (t := m.turn thread) hc]
      cases hp <;> rfl
    · show thread'.control.stands = false
      rw [hc']
      rfl

end TypeRecords
