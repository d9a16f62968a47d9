/-
What a step enters in a ledger, and what it still owes it.

A counter goes up in one place of the code, and what it counts happens in
another. A request that makes an entry is there before its record is counted; a
step is counted when it begins, and its dependency, if it has one, only after
its outcome has been published and the waiters that this lets go have been taken
up; and these are counted one by one. Between the two places any callback may
run, and with it any number of further requests and steps.

So a counter says less than one would like. What is missing is written on the
stack: `Control.owes` and `Frame.owes` list what a thread has begun and not
entered yet, each item with its registry. `Turn.Posts` lists what a step can do
to ledgers, entries and these items together, as long as nothing unwinds.
-/
import TypeRecords.Machine.Step
import TypeRecords.Proofs.Ownership.Step

namespace TypeRecords

variable {σ : Type}

-- ====================================================== ledgers

/-- The counters of a ledger that have to do with records. -/
inductive Mark
  | hit
  | instantiation
  | step
  | dependency
  | resumption
  deriving DecidableEq

/-- How often something has been entered. -/
def Ledger.tally (l : Ledger) : Mark → Nat
  | .hit => l.hits
  | .instantiation => l.instantiations
  | .step => l.steps
  | .dependency => l.dependencies
  | .resumption => l.resumptions

namespace Store

/-- The ledger of a registry. One that is not open has done nothing. -/
def ledgerOf (s : Store) (registry : RegistryId) : Ledger :=
  ((s.registries[registry]?).map (·.ledger)).getD {}

/-- How often a mark has been entered for a registry. -/
def tally (s : Store) (registry : RegistryId) (mark : Mark) : Nat :=
  (s.ledgerOf registry).tally mark

/-- Registries stay open, and nothing is entered but `posting`. Nothing can be
entered for a registry that is not open. -/
structure Books (s s' : Store) (posting : Option (RegistryId × Mark)) : Prop where
  opens : s.registries.size ≤ s'.registries.size
  tallies : ∀ registry mark, s'.tally registry mark = s.tally registry mark
    + if posting = some (registry, mark) ∧ registry < s.registries.size then 1 else 0

variable {s s' s'' : Store} {posting : Option (RegistryId × Mark)}

/-- Nothing is entered at all. -/
theorem books_none (h : s.registries.size ≤ s'.registries.size)
    (ht : ∀ registry mark, s'.tally registry mark = s.tally registry mark) : s.Books s' none :=
  ⟨h, fun registry mark => by rw [ht, if_neg fun hp => Option.some_ne_none _ hp.1.symm, Nat.add_zero]⟩

/-- Where nothing is entered the counters stay. -/
theorem Books.tally_eq (h : s.Books s' none) (registry : RegistryId) (mark : Mark) :
    s'.tally registry mark = s.tally registry mark := by
  rw [h.tallies, if_neg fun hp => Option.some_ne_none _ hp.1.symm, Nat.add_zero]

/-- Ledgers are kept in the registries. -/
theorem books_of_registries (h : s'.registries = s.registries) : s.Books s' none := by
  refine books_none (Nat.le_of_eq (congrArg Array.size h).symm) fun registry mark => ?_
  unfold tally ledgerOf
  rw [h]

/-- A store that is left alone enters nothing. -/
theorem Books.refl (s : Store) : s.Books s none := books_of_registries rfl

/-- What is entered may be entered last or first. -/
theorem Books.before (h : s.Books s' none) (h' : s'.Books s'' posting)
    (hsize : s'.registries.size = s.registries.size) : s.Books s'' posting :=
  ⟨Nat.le_trans h.opens h'.opens, fun registry mark => by
    rw [h'.tallies, h.tally_eq, hsize]⟩

/-- What is entered may be followed by a step that enters nothing. -/
theorem Books.after (h : s.Books s' posting) (h' : s'.Books s'' none) : s.Books s'' posting :=
  ⟨Nat.le_trans h.opens h'.opens, fun registry mark => by rw [h'.tally_eq, h.tallies]⟩

/-- A change to a registry whose ledger shows `c` more. -/
private theorem tally_changeRegistry (s : Store) (id : RegistryId) {f : Registry → Registry}
    {c : Mark → Nat} (hf : ∀ r mark, (f r).ledger.tally mark = r.ledger.tally mark + c mark)
    (registry : RegistryId) (mark : Mark) :
    (s.changeRegistry id f).tally registry mark = s.tally registry mark
      + if registry = id ∧ registry < s.registries.size then c mark else 0 := by
  unfold tally ledgerOf changeRegistry
  simp only [Array.getElem?_modify]
  by_cases hid : registry = id
  · subst hid
    rw [if_pos rfl]
    cases hr : s.registries[registry]? with
    | none =>
        have hout : ¬ registry < s.registries.size :=
          Nat.not_lt.mpr (Array.getElem?_eq_none_iff.mp hr)
        rw [if_neg fun h => hout h.2]
        rfl
    | some r =>
        have hin : registry < s.registries.size := (Array.getElem?_eq_some_iff.mp hr).1
        rw [if_pos ⟨rfl, hin⟩]
        exact hf r mark
  · rw [if_neg (Ne.symm hid), if_neg fun h => hid h.1]
    rfl

/-- A change to a registry that is none of the ledger's business. -/
theorem books_changeRegistry (s : Store) (id : RegistryId) {f : Registry → Registry}
    (hf : ∀ r mark, (f r).ledger.tally mark = r.ledger.tally mark) :
    s.Books (s.changeRegistry id f) none := by
  refine books_none (Nat.le_of_eq (Array.size_modify ..).symm) fun registry mark => ?_
  rw [tally_changeRegistry s id (c := fun _ => 0) hf, ite_self, Nat.add_zero]

/-- An entry in the ledger. -/
theorem books_note (s : Store) (id : RegistryId) {f : Ledger → Ledger} (mark : Mark)
    (hf : ∀ l x, (f l).tally x = l.tally x + if x = mark then 1 else 0) :
    s.Books (s.note id f) (some (id, mark)) := by
  refine ⟨Nat.le_of_eq (Array.size_modify ..).symm, fun registry x => ?_⟩
  unfold note
  rw [tally_changeRegistry s id (f := (·.note f)) fun r => hf r.ledger]
  by_cases hid : registry = id
  · by_cases hx : x = mark
    · simp [hid, hx]
    · simp [hx, Ne.symm hx]
  · simp [hid, Ne.symm hid]

/-- An entry under one of the other headings. -/
theorem books_aside (s : Store) (id : RegistryId) {f : Ledger → Ledger}
    (hf : ∀ l mark, (f l).tally mark = l.tally mark) : s.Books (s.note id f) none :=
  s.books_changeRegistry id fun r => hf r.ledger

/-- Blocks are counted by the arena, not by the ledger. -/
theorem books_takeBlock (s : Store) (id : RegistryId) (size align : Nat) :
    s.Books (s.takeBlock id size align).1 none := by
  unfold takeBlock
  split
  · exact .refl s
  · rename_i r _
    exact (s.books_changeRegistry id (f := fun x =>
      { x with arena := (r.arena.allocateFrom s.heap size align).1.arena }) fun _ _ => rfl).after
      (books_of_registries rfl)

/-- No operation on an entry counts anything by itself. -/
theorem books_changeEntry (s : Store) (id : EntryId) (f : Entry → Entry) :
    s.Books (s.changeEntry id f) none := books_of_registries rfl

/-- A new registry opens with an empty ledger. -/
theorem books_addRegistry (s : Store) (config : Config) : s.Books (s.addRegistry config).1 none := by
  refine books_none ?_ fun registry mark => ?_
  · show s.registries.size ≤ (s.registries.push (.new config)).size
    rw [Array.size_push]
    exact Nat.le_succ _
  · unfold tally ledgerOf addRegistry
    simp only [Array.getElem?_push]
    split
    · rename_i hnew
      subst hnew
      rw [Array.getElem?_eq_none (Nat.le_refl _)]
      rfl
    · rfl

/-- No action of a program is counted. -/
theorem books_perform (s : Store) (a : Action) : s.Books (s.perform a).1 none := by
  cases a with
  | takeBlock registry size align => exact s.books_takeBlock registry size align
  | returnBlock registry address size =>
      show s.Books (s.returnBlock registry address size).1 none
      unfold returnBlock
      split
      · exact .refl s
      · exact s.books_changeRegistry registry fun _ _ => rfl
  | openRegistry config => exact s.books_addRegistry config
  | share config =>
      simp only [perform]
      split
      · exact .refl s
      · exact (s.books_addRegistry config).after (books_of_registries rfl)
  | publish | storeWord | setSuperclass | addHook | clearHooks => exact books_of_registries rfl

/-- A cell that is looked for is not counted before its table is there. -/
theorem books_cellFor (s : Store) (registry : RegistryId) (conformance : ConformanceId)
    (conforming : RecordId) : s.Books (s.cellFor registry conformance conforming).1 none := by
  unfold cellFor
  split <;> exact books_of_registries rfl

end Store

-- ====================================================== what is owed

/-- What has begun and is not in the ledger, or not yet in full. -/
inductive Due
  /-- A record is being allocated. -/
  | allocation
  /-- A step runs, or has come to an outcome that has not been settled. -/
  | outcome
  /-- A waiter has been let go, and not been taken up yet. -/
  | waiter
  deriving DecidableEq

/-- A thread that takes up `ready` owes each of them, and after them the
dependency. -/
def Drive.owes (d : Drive) (dep : Option Dependency) (ready : List Waiter) :
    List (RegistryId × Due) :=
  dep.toList.map (fun _ => (d.registry, .outcome)) ++ ready.map fun _ => (d.registry, .waiter)

/-- What a thread owes by what it does next. -/
def Control.owes : Control σ → List (RegistryId × Due)
  | .allocated a => [(a.registry, .allocation)]
  | .measure w => [(w.drive.registry, .outcome)]
  | .publish d _ => [(d.registry, .outcome)]
  | .release d dep ready => d.owes dep ready
  | .stopped d _ => [(d.registry, .outcome)]
  | _ => []

/-- What a thread owes by waiting in a frame. -/
def Frame.owes : Frame σ → List (RegistryId × Due)
  | .allocating a => [(a.registry, .allocation)]
  | .stepping d => [(d.registry, .outcome)]
  | .measuring w => [(w.drive.registry, .outcome)]
  | .releasing d dep rest => d.owes dep rest
  | _ => []

/-- What a stack of frames owes. -/
def framesOwe (fs : List (Frame σ)) : List (RegistryId × Due) := fs.flatMap Frame.owes

/-- A stack owes what its topmost frame owes, and what those below it do. -/
@[simp] theorem framesOwe_cons (f : Frame σ) (fs : List (Frame σ)) :
    framesOwe (f :: fs) = f.owes ++ framesOwe fs := rfl

/-- What a thread owes. -/
def Turn.owes (t : Turn σ) : List (RegistryId × Due) := t.control.owes ++ framesOwe t.frames

/-- The registry in whose caches the thread is about to look a key up: it
requests a descriptor with as many arguments as there are parameters, or a tuple
that has elements. -/
def Control.looksUp? (lib : Library σ) : Control σ → Option RegistryId
  | .run (.request registry _ (.generic descriptor arguments) _) _ =>
    if (lib.descriptors[descriptor]?).any (·.parameters == arguments.length) then some registry
    else none
  | .run (.request registry _ (.tuple elements) _) _ =>
    if elements = [] then none else some registry
  | _ => none

-- ====================================================== the list

/-- The entries as far as the books go. -/
structure Store.Level (s s' : Store) : Prop where
  size : s'.entries.size = s.entries.size
  entries : ∀ {i : EntryId} {e : Entry}, s.entries[i]? = some e →
    ∃ e', s'.entries[i]? = some e' ∧ e'.registry = e.registry ∧ e'.queue = e.queue
      ∧ (e.record.isSome = true → e'.stage = e.stage)

/-- Entries that are left alone stay level. -/
theorem Store.Level.of_eq {s s' : Store} (h : s'.entries = s.entries) : s.Level s' :=
  ⟨congrArg Array.size h, fun he => ⟨_, h ▸ he, rfl, rfl, fun _ => rfl⟩⟩

/-- An entry stays level that keeps its registry, its queue, and its stage once it has a
record. -/
theorem Store.Level.of_modify {s s' : Store} {i : EntryId} {f : Entry → Entry}
    (h : s'.entries = s.entries.modify i f)
    (hf : ∀ e, s.entries[i]? = some e → (f e).registry = e.registry ∧ (f e).queue = e.queue
      ∧ (e.record.isSome = true → (f e).stage = e.stage)) : s.Level s' := by
  refine ⟨by rw [h, Array.size_modify], fun {j e} he => ?_⟩
  rw [h, Array.getElem?_modify]
  by_cases hij : i = j
  · subst hij
    rw [if_pos rfl, he]
    exact ⟨f e, rfl, hf e he⟩
  · rw [if_neg hij]
    exact ⟨e, he, rfl, rfl, fun _ => rfl⟩

/-- What a step can do to ledgers, entries and what is owed. -/
inductive Turn.Posts (lib : Library σ) (t t' : Turn σ) : Prop
  /-- Nothing. -/
  | still (hq : t.control.looksUp? lib = none) (hl : t.store.Level t'.store)
      (hb : t.store.Books t'.store none) (ho : t'.owes = t.owes)
  /-- A request finds the entry of its key. -/
  | hit {registry : RegistryId} (hq : t.control.looksUp? lib = some registry)
      (hl : t.store.Level t'.store) (hb : t.store.Books t'.store (some (registry, .hit)))
      (ho : t'.owes = t.owes)
  /-- A request makes the entry of its key. -/
  | create {registry : RegistryId} {key : Key} (hq : t.control.looksUp? lib = some registry)
      (he : t'.store.entries = t.store.entries.push { registry, key })
      (hb : t.store.Books t'.store none) (ho : t'.owes = (registry, .allocation) :: t.owes)
  /-- The allocation of a record is finished. -/
  | allocate {al : Allocation} {stage : Stage} (thread : ThreadId)
      (hc : t.control = .allocated al)
      (he : t'.store.entries
        = t.store.entries.modify al.entry (·.finishAllocation thread al.record stage))
      (hb : t.store.Books t'.store (some (al.registry, .instantiation)))
      (ho : t.owes = (al.registry, .allocation) :: t'.owes)
  /-- A step begins. -/
  | begin {d : Drive} (hc : t.control = .begin d) (hl : t.store.Level t'.store)
      (hb : t.store.Books t'.store (some (d.registry, .step)))
      (ho : t'.owes = (d.registry, .outcome) :: t.owes)
  /-- The outcome of a step is published. -/
  | publish {d : Drive} {o : StepOutcome} {e : Entry} {rest : List (RegistryId × Due)}
      (hc : t.control = .publish d o) (hi : t.store.entries[d.entry]? = some e)
      (he : t'.store.entries = t.store.entries.modify d.entry fun _ => (e.publish o).1)
      (hb : t.store.Books t'.store none) (ho : t.owes = (d.registry, .outcome) :: rest)
      (ho' : t'.owes = d.owes o.dependency (e.publish o).2 ++ rest)
  /-- A waiter is taken up. -/
  | resume {d : Drive} {dep : Option Dependency} {w : Waiter} {ready : List Waiter}
      (hc : t.control = .release d dep (w :: ready)) (hl : t.store.Level t'.store)
      (hb : t.store.Books t'.store (some (d.registry, .resumption)))
      (ho : t.owes.Perm ((d.registry, .waiter) :: t'.owes))
  /-- The dependency of a step is noted. -/
  | depend {d : Drive} {dep : Dependency} (hc : t.control = .stopped d dep)
      (hl : t.store.Level t'.store) (hb : t.store.Books t'.store (some (d.registry, .dependency)))
      (ho : t.owes = (d.registry, .outcome) :: t'.owes)
  /-- A suspended initialization is queued. -/
  | park {d : Drive} {dep : Dependency} {queue : EntryId} {e : Entry}
      (hc : t.control = .enqueue d dep)
      (hq : t.store.entryOf? d.registry dep.target = some queue)
      (hi : t.store.entries[queue]? = some e)
      (he : t'.store.entries = t.store.entries.modify queue fun _ =>
        { e with queue := e.queue ++ [⟨dep.required, d.entry⟩] })
      (hb : t.store.Books t'.store none) (ho : t'.owes = t.owes)

namespace Turn

variable {lib : Library σ} {a : Actor} {t t' : Turn σ} {H : List (RegistryId × Due)}

/-- What a thread owes is owed by its control or by its frames. -/
theorem owes_of_control {c : Control σ} (hc : t.control = c) :
    t.owes = c.owes ++ framesOwe t.frames := by
  rw [owes, hc]

-- ====================================================== nothing to enter

/-- Nothing is entered that a ledger of `s` would show, no entry changes, and
the thread owes `H`. -/
structure Unposted (s : Store) (H : List (RegistryId × Due)) (t : Turn σ) : Prop where
  entries : t.store.entries = s.entries
  books : s.Books t.store none
  owes : t.owes = H

/-- A step that enters nothing is still, unless it looks a key up. -/
theorem Unposted.still (h : t'.Unposted t.store t.owes) (hq : t.control.looksUp? lib = none) :
    Posts lib t t' :=
  .still hq (.of_eq h.entries) h.books h.owes

/-- Who reports a fault is disturbed. -/
theorem raiseIn_disturbed (t : Turn σ) (a : Actor) (registry : RegistryId) (fault : Fault) :
    (t.raiseIn a registry fault).control.disturbed = true := rfl

/-- Consulting an entry is not counted as a hit. -/
theorem consult_unposted (t : Turn σ) (registry : RegistryId) (q : Request) (record : RecordId) :
    (t.consult registry q record).Unposted t.store (framesOwe t.frames) := by
  unfold consult
  split <;> exact ⟨rfl, .refl _, rfl⟩

/-- The beginning of a layout is not counted. -/
theorem startLayout_unposted (lib : Library σ) (t : Turn σ) (registry : RegistryId)
    (record : RecordId) (scratch : Scratch) :
    (t.startLayout lib registry record scratch).Unposted t.store (framesOwe t.frames) := by
  unfold startLayout
  split <;> exact ⟨rfl, .refl _, rfl⟩

/-- A handler takes over without an entry in any ledger. -/
theorem handle_unposted (t : Turn σ) (f : Failure) (s : Setting σ) :
    (t.handle f s).Unposted t.store (framesOwe t.frames) := by
  unfold handle
  split <;> exact ⟨rfl, .refl _, rfl⟩

/-- Names are counted apart from records. -/
theorem askName_unposted (t : Turn σ) (j : NameJob) (r : Registry) :
    (t.askName j r).Unposted t.store (framesOwe t.frames) := by
  unfold askName
  split
  · exact ⟨rfl, Store.books_of_registries rfl, rfl⟩
  · exact ⟨rfl, t.store.books_aside j.registry fun _ mark => by cases mark <;> rfl, rfl⟩

/-- So is a request for a canonical record. -/
theorem requestName_unposted {registry : RegistryId} {candidate : CandidateId}
    (h : NameRequested lib t registry candidate t') :
    t'.Unposted t.store (framesOwe t.frames) := by
  have hbooks : ∀ name canonical,
      t.store.Books (t.store.changeRegistry registry (·.register name canonical)) none :=
    fun name canonical => t.store.books_changeRegistry registry fun _ mark => by cases mark <;> rfl
  cases h with
  | known => exact ⟨rfl, .refl _, rfl⟩
  | ask => exact askName_unposted ..
  | register => exact ⟨rfl, (hbooks ..).after (Store.books_of_registries rfl), rfl⟩
  | found => exact ⟨rfl, hbooks .., rfl⟩

/-- Witness tables are counted apart from records. -/
theorem requestTable_unposted {registry : RegistryId} {conformance : ConformanceId}
    {conforming : RecordId} {arguments : List TableId}
    (h : TableRequested lib t registry conformance conforming arguments t') :
    t'.Unposted t.store (framesOwe t.frames) := by
  cases h with
  | pattern => exact ⟨rfl, t.store.books_aside registry fun _ mark => by cases mark <;> rfl, rfl⟩
  | cell => exact ⟨(t.store.alike_cellFor ..).entries, t.store.books_cellFor .., rfl⟩

/-- So is the beginning of an attempt at one. -/
theorem acquire_unposted {j : TableJob} {arguments : List TableId}
    (h : Acquired lib t a j arguments t') : t'.Unposted t.store (framesOwe t.frames) := by
  let building := t.store.changeCell j.cell (.building a.id)
  have hentries : ∀ size, (building.takeBlock j.registry size wordSize).1.entries
      = t.store.entries := fun size => (building.alike_takeBlock ..).entries
  have hbuilding : t.store.Books building none := Store.books_of_registries rfl
  have hbooks : ∀ size, t.store.Books (building.takeBlock j.registry size wordSize).1 none :=
    fun size => hbuilding.after (building.books_takeBlock ..)
  cases h with
  | full => exact ⟨rfl, .refl _, rfl⟩
  | instantiate | copy => exact ⟨hentries _, hbooks _, rfl⟩

/-- So is the end of an attempt, where it is not a fault. -/
theorem filled_unposted {j : TableJob} {draft : Draft} (h : Filled lib t a j draft t')
    (hcalm : t'.control.disturbed = false) : t'.Unposted t.store (framesOwe t.frames) := by
  cases h with
  | lack => cases hcalm.symm.trans (raiseIn_disturbed ..)
  | table =>
      let added := t.store.addTable ⟨draft.protocol, some j.conforming, draft.witnesses, draft.words⟩
      let stored := added.1.changeCell j.cell (.full added.2)
      have hbooks : t.store.Books stored none := Store.books_of_registries rfl
      exact ⟨rfl, hbooks.after (stored.books_aside j.registry fun _ mark => by cases mark <;> rfl),
        rfl⟩

/-- To be answered is not counted. -/
theorem await_unposted {registry : RegistryId} {entry : EntryId} {q : Request}
    (h : Waited t a registry entry q t') (hcalm : t'.control.disturbed = false) :
    t'.Unposted t.store (framesOwe t.frames) := by
  cases h with
  | answer => exact ⟨rfl, .refl _, rfl⟩
  | reentrant => cases hcalm.symm.trans (raiseIn_disturbed ..)

/-- A walk over fields counts nothing by itself. -/
theorem lay_unposted {w : FieldWalk σ} (h : FieldLaid t a w t')
    (hcalm : t'.control.disturbed = false) : t'.Unposted t.store (framesOwe t.frames) := by
  cases h with
  | done => exact ⟨rfl, Store.books_of_registries rfl, rfl⟩
  | consult => exact consult_unposted { t with frames := .laying w :: t.frames } ..
  | compute => exact ⟨rfl, .refl _, rfl⟩
  | lack => cases hcalm.symm.trans (raiseIn_disturbed ..)

/-- Neither does an answer that it takes. -/
theorem laid_unposted (t : Turn σ) (w : FieldWalk σ) (r : Response) :
    (t.laid w r).Unposted t.store (framesOwe t.frames) := by
  unfold laid
  split <;> exact ⟨rfl, .refl _, rfl⟩

-- ====================================================== requests

/-- A request that makes an entry enters nothing yet. -/
theorem create_books (t : Turn σ) (registry : RegistryId) (q : Request) (key : Key)
    (record : Record) : t.store.Books (t.create registry q key record).1.store none := by
  let s := { t.store with entries := t.store.entries.push { registry, key } }
  have hs : t.store.Books s none := Store.books_of_registries rfl
  exact (hs.after (s.books_takeBlock ..)).after (Store.books_of_registries rfl)

/-- A call that may make a record looks its key up. -/
theorem looksUp?_of_makes {registry : RegistryId} {q : Request} {c : Call}
    {k : Response → Program σ Value} {s : Setting σ} {key : Key} {record : Record}
    (h : c.Makes lib key record) :
    (Control.run (.request registry q c k) s).looksUp? lib = some registry := by
  cases h with
  | tuple hne => exact if_neg hne
  | generic hd hcount =>
      refine if_pos ?_
      rw [hd]
      simpa using hcount

/-- A request finds its entry, makes it, or looks nothing up. -/
theorem request_posts {registry : RegistryId} {q : Request} {c : Call}
    {k : Response → Program σ Value} {s : Setting σ}
    (hc : t.control = .run (.request registry q c k) s)
    (h : Requested lib { t with frames := .forResponse k s :: t.frames } a registry q c t')
    (hcalm : t'.control.disturbed = false) : Posts lib t t' := by
  have howes : t.owes = framesOwe (.forResponse k s :: t.frames) := owes_of_control hc
  have hcreate : ∀ {c : Call} {key : Key} {record : Record} {u : Turn σ},
      t.control = .run (.request registry q c k) s → c.Makes lib key record →
      u.store = (({ t with frames := .forResponse k s :: t.frames }).create registry q key
        record).1.store →
      u.owes = (registry, .allocation) :: framesOwe (.forResponse k s :: t.frames) →
      Posts lib t u := fun {c key record u} hc hmakes hstore hu => by
    obtain ⟨he, -⟩ := create_spec { t with frames := .forResponse k s :: t.frames } registry q key
      record hmakes.record_key?
    have hb := create_books { t with frames := .forResponse k s :: t.frames } registry q key record
    rw [← hstore] at he hb
    exact .create (by rw [hc]; exact looksUp?_of_makes hmakes) he hb (by rw [howes]; exact hu)
  cases h with
  | @check record =>
      have hu := consult_unposted { t with frames := .forResponse k s :: t.frames } registry q record
      exact Unposted.still ⟨hu.entries, hu.books, hu.owes.trans howes.symm⟩ (by rw [hc]; rfl)
  | empty => exact Unposted.still ⟨rfl, .refl _, howes.symm⟩ (by rw [hc]; rfl)
  | miscount => cases hcalm.symm.trans (raiseIn_disturbed ..)
  | hit hmakes =>
      exact .hit (by rw [hc]; exact looksUp?_of_makes hmakes) (.of_eq rfl)
        (t.store.books_note registry .hit fun _ mark => by cases mark <;> rfl) howes.symm
  | create hmakes => exact hcreate hc hmakes rfl rfl
  | instantiate hd hi hmakes => exact hcreate hc hmakes rfl rfl

/-- A program finds or makes the entry of a key by a request, and posts nothing else. -/
theorem run_posts {p : Program σ Value} {s : Setting σ} (hc : t.control = .run p s)
    (h : Ran lib t a s p t') (hcalm : t'.control.disturbed = false) : Posts lib t t' := by
  have howes : t.owes = framesOwe t.frames := owes_of_control hc
  have hstill : t.control.looksUp? lib = none → t'.Unposted t.store (framesOwe t.frames) →
      Posts lib t t' := fun hq hu => Unposted.still (howes ▸ hu) hq
  cases h with
  | request h => exact request_posts hc h hcalm
  | act =>
      exact hstill (by rw [hc]; rfl)
        ⟨(t.store.alike_perform _).entries, t.store.books_perform _, rfl⟩
  | fail => exact hstill (by rw [hc]; rfl) (handle_unposted ..)
  | refuse hp => exact hstill (by rw [hc]; cases hp <;> rfl) (handle_unposted ..)
  | @structLayout _ _ _ k =>
      exact hstill (by rw [hc]; rfl)
        (startLayout_unposted lib { t with frames := .forLayout k s :: t.frames } ..)
  | table h =>
      have hu := requestTable_unposted h
      exact hstill (by rw [hc]; rfl) ⟨hu.entries, hu.books, hu.owes⟩
  | canonical h =>
      have hu := requestName_unposted h
      exact hstill (by rw [hc]; rfl) ⟨hu.entries, hu.books, hu.owes⟩
  | raise => cases hcalm
  | done | look | edit | scratch | draft | fill | storePrivate | guarded | disarm =>
      exact hstill (by rw [hc]; rfl) ⟨rfl, .refl _, rfl⟩

-- ====================================================== records and steps

/-- A fresh record is settled without an entry in any ledger. -/
theorem firstStage_registries (lib : Library σ) (s : Store) (record : RecordId) :
    (firstStage lib s record).1.registries = s.registries := by
  unfold firstStage
  split
  · rfl
  · split
    · rfl
    · simp only [settleLayout]
      split <;> rfl

/-- A record that is allocated is counted. -/
theorem allocated_posts {al : Allocation} (hc : t.control = .allocated al)
    (h : Allocated lib t a al t') : Posts lib t t' := by
  have howes : t.owes = (al.registry, .allocation) :: framesOwe t.frames := owes_of_control hc
  have hfirst := firstStage_registries lib t.store al.record
  let noted := (firstStage lib t.store al.record).1.note al.registry
    fun l => { l with instantiations := l.instantiations + 1 }
  let finish : Entry → Entry :=
    (·.finishAllocation a.id al.record (firstStage lib t.store al.record).2)
  have hnoted : t.store.Books noted (some (al.registry, .instantiation)) :=
    (Store.books_of_registries hfirst).before (Store.books_note _ al.registry .instantiation
      fun _ mark => by cases mark <;> rfl) (congrArg Array.size hfirst)
  have hentries : (noted.changeEntry al.entry finish).entries
      = t.store.entries.modify al.entry finish :=
    congrArg (Array.modify · al.entry finish) (alike_firstStage lib t.store al.record).entries
  have hbooks := hnoted.after (noted.books_changeEntry al.entry finish)
  cases h <;> exact .allocate a.id hc hentries hbooks howes

/-- A step is counted when it begins. -/
theorem begin_posts {d : Drive} (hc : t.control = .begin d) (h : Begun lib t d t') :
    Posts lib t t' := by
  have howes : t.owes = framesOwe t.frames := owes_of_control hc
  have hb := t.store.books_note d.registry .step
    (f := fun l => { l with steps := l.steps + 1 }) fun _ mark => by cases mark <;> rfl
  cases h with
  | measure | close | callback => exact .begin hc (.of_eq rfl) hb (by rw [howes]; rfl)
  | layout =>
      let noted : Turn σ :=
        { t with
          store := t.store.note d.registry fun l => { l with steps := l.steps + 1 }
          frames := .stepping d :: t.frames }
      have hu := startLayout_unposted lib noted d.registry d.record d.scratch
      exact .begin hc (.of_eq hu.entries) (hb.after hu.books) (by rw [howes]; exact hu.owes)

/-- The elements of a tuple are looked at within one step. -/
theorem measure_posts {w : ElementWalk} (hc : t.control = .measure w)
    (h : ElementMeasured t w t') : Posts lib t t' := by
  have howes : t.owes = (w.drive.registry, .outcome) :: framesOwe t.frames := owes_of_control hc
  have hq : t.control.looksUp? lib = none := by rw [hc]; rfl
  cases h with
  | done =>
      refine Unposted.still ⟨(alike_settleTuple t.store w.drive.record).entries,
        Store.books_of_registries ?_, howes.symm⟩ hq
      simp only [settleTuple]
      split <;> rfl
  | @consult element =>
      have hu := consult_unposted { t with frames := .measuring w :: t.frames } w.drive.registry
        (.poll .layoutComplete) element
      exact Unposted.still ⟨hu.entries, hu.books, hu.owes.trans howes.symm⟩ hq

/-- A published outcome is owed until its waiters are taken up and its dependency is noted.
-/
theorem publish_posts {d : Drive} {o : StepOutcome} (hc : t.control = .publish d o)
    (h : Published t d o t') : Posts lib t t' := by
  cases h with
  | intro he => exact .publish hc he rfl (Store.books_of_registries rfl) (owes_of_control hc) rfl

/-- Whoever takes an initialization up leaves its entry as it is, as far as the books
go. -/
theorem level_reclaimed {s s' : Store} {i : EntryId} {e taken : Entry} {thread : ThreadId}
    {scratch : Scratch} (he : s.entries[i]? = some e)
    (htaken : e.reclaim? thread = some (taken, scratch))
    (h : s'.entries = s.entries.modify i fun _ => taken) : s.Level s' := by
  refine .of_modify h fun x hx => ?_
  obtain rfl := Option.some.inj (he.symm.trans hx)
  obtain ⟨-, rfl⟩ := Entry.reclaim?_some htaken
  exact ⟨rfl, rfl, fun _ => rfl⟩

/-- Waiters are counted as they are taken up, whatever becomes of them. -/
theorem release_posts {d : Drive} {dep : Option Dependency} {ready : List Waiter}
    (hc : t.control = .release d dep ready) (h : Released t a d dep ready t') :
    Posts lib t t' := by
  have howes : t.owes = d.owes dep ready ++ framesOwe t.frames := owes_of_control hc
  have hq : t.control.looksUp? lib = none := by rw [hc]; rfl
  have hb := t.store.books_note d.registry .resumption
    (f := fun l => { l with resumptions := l.resumptions + 1 }) fun _ mark => by
      cases mark <;> rfl
  have hperm : ∀ {w : Waiter} {rest : List Waiter}, ready = w :: rest →
      t.owes.Perm ((d.registry, .waiter) :: framesOwe (.releasing d dep rest :: t.frames)) := by
    rintro w rest rfl
    rw [howes]
    exact List.perm_middle.append_right (framesOwe t.frames)
  cases h with
  | resume he hr htaken =>
      exact .resume hc (level_reclaimed he htaken rfl) (hb.after (Store.books_changeEntry ..))
        (hperm rfl)
  | forget => exact .resume hc (.of_eq rfl) hb (hperm rfl)
  | stop hdep =>
      subst hdep
      exact Unposted.still ⟨rfl, .refl _, howes.symm⟩ hq
  | finish hdep | again hdep =>
      subst hdep
      exact Unposted.still ⟨rfl, .refl _, howes.symm⟩ hq

/-- A dependency is counted when the thread comes to it. -/
theorem stopped_posts {d : Drive} {dep : Dependency} (hc : t.control = .stopped d dep)
    (h : Stopped t a d dep t') (hcalm : t'.control.disturbed = false) : Posts lib t t' := by
  have howes : t.owes = (d.registry, .outcome) :: framesOwe t.frames := owes_of_control hc
  have hb := t.store.books_note d.registry .dependency
    (f := fun l => { l with dependencies := l.dependencies + 1 }) fun _ mark => by
      cases mark <;> rfl
  cases h with
  | cycle => cases hcalm.symm.trans (raiseIn_disturbed ..)
  | rely =>
      let noted : Turn σ :=
        { t with
          store := t.store.note d.registry fun l => { l with dependencies := l.dependencies + 1 }
          frames := .relying d :: t.frames }
      have hu := consult_unposted noted d.registry (.blocking dep.required) dep.target
      exact .depend hc (.of_eq hu.entries) (hb.after hu.books) (by rw [howes, hu.owes]; rfl)
  | suspend =>
      exact .depend hc
        (.of_modify (f := (·.suspend d.scratch)) rfl fun e _ => ⟨rfl, rfl, fun _ => rfl⟩)
        (hb.after (Store.books_changeEntry ..)) (by rw [howes]; rfl)

/-- Parking is not counted, and neither is what is taken up again at once. -/
theorem enqueue_posts {d : Drive} {dep : Dependency} (hc : t.control = .enqueue d dep)
    (h : Enqueued t a d dep t') : Posts lib t t' := by
  have howes : t.owes = framesOwe t.frames := owes_of_control hc
  have hq : t.control.looksUp? lib = none := by rw [hc]; rfl
  cases h with
  | park hqueue he => exact .park hc hqueue he rfl (Store.books_of_registries rfl) howes.symm
  | strand => exact Unposted.still ⟨rfl, .refl _, howes.symm⟩ hq
  | reclaim hthere hown htaken =>
      exact .still hq (level_reclaimed hown htaken rfl) (Store.books_of_registries rfl) howes.symm

/-- The outcome of a piece of work reaches the topmost frame; what the frame
owes the thread owes now. -/
theorem give_posts {v : Value} {left : Local} (hc : t.control = .give v left)
    (h : Given lib t a v left t') (hcalm : t'.control.disturbed = false) : Posts lib t t' := by
  have howes : t.owes = framesOwe t.frames := owes_of_control hc
  have hq : t.control.looksUp? lib = none := by rw [hc]; rfl
  have hsame : ∀ {u : Turn σ} {frame : Frame σ} {rest : List (Frame σ)},
      t.frames = frame :: rest → u.Unposted t.store (frame.owes ++ framesOwe rest) →
      Posts lib t u := fun hf hu =>
    Unposted.still ⟨hu.entries, hu.books, by rw [hu.owes, howes, hf, framesOwe_cons]⟩ hq
  cases h with
  | ended => exact Unposted.still ⟨rfl, .refl _, howes.symm⟩ hq
  | response hf | layout hf | table hf | record hf | allocated hf | relied hf | released hf =>
      exact hsame hf ⟨rfl, .refl _, rfl⟩
  | @stepped d rest dep left hf =>
      -- the completion callback is over
      obtain ⟨words, o, hst, -⟩ := stepped_spec { t with frames := rest } d dep left
      rw [hst]
      exact hsame hf ⟨rfl, .refl _, rfl⟩
  | @laid w rest r left hf => exact hsame hf (laid_unposted { t with frames := rest } ..)
  | measured hf =>
      -- an element of a tuple is found
      unfold measured
      split
      · split <;> exact hsame hf ⟨rfl, .refl _, rfl⟩
      · exact hsame hf ⟨rfl, .refl _, rfl⟩
  | filled hf h =>
      have hu := filled_unposted h hcalm
      exact hsame hf ⟨hu.entries, hu.books, hu.owes⟩
  | @founded j rest v left c hf hcand =>
      exact hsame hf ⟨rfl, (t.store.books_changeRegistry j.registry
        (f := (·.announce j.position c.record)) fun _ _ => rfl).after
          (Store.books_of_registries rfl), rfl⟩
  | reported => cases hcalm

-- ====================================================== every step

/-- Every step at whose ends nothing unwinds is on the list. -/
theorem step_posts (h : t.step lib a = some t') (hcalm : t.control.disturbed = false)
    (hcalm' : t'.control.disturbed = false) : Posts lib t t' := by
  have hstill : t.control.owes = [] → t.control.looksUp? lib = none →
      t'.Unposted t.store (framesOwe t.frames) → Posts lib t t' := fun hn hq hu =>
    Unposted.still ⟨hu.entries, hu.books, by rw [hu.owes, owes, hn, List.nil_append]⟩ hq
  cases step_cases h with
  | run hc h => exact run_posts hc h hcalm'
  | give hc h => exact give_posts hc h hcalm'
  | unwind hc => rw [hc] at hcalm; cases hcalm
  | await hc h => exact hstill (by rw [hc]; rfl) (by rw [hc]; rfl) (await_unposted h hcalm')
  | allocated hc h => exact allocated_posts hc h
  | begin hc h => exact begin_posts hc h
  | lay hc h => exact hstill (by rw [hc]; rfl) (by rw [hc]; rfl) (lay_unposted h hcalm')
  | measure hc h => exact measure_posts hc h
  | publish hc h => exact publish_posts hc h
  | release hc h => exact release_posts hc h
  | stopped hc h => exact stopped_posts hc h hcalm'
  | enqueue hc h => exact enqueue_posts hc h
  | acquire hc h => exact hstill (by rw [hc]; rfl) (by rw [hc]; rfl) (acquire_unposted h)
  | standBy hc h =>
      cases h
      exact hstill (by rw [hc]; rfl) (by rw [hc]; rfl) (askName_unposted ..)
  | report hc => rw [hc] at hcalm; cases hcalm

end Turn

end TypeRecords
