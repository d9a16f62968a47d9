/-
What each operation of a thread can come to.

The operations of the machine look at what is stored and branch. Here the
branches of each are listed once, as a relation between the turn before and
the turn after: one case for each branch in which there is a step, with the
guards under which the operation takes it. What is proved of every step of a
thread is proved from these lists, by cases on what the operation in question
has come to. What has no branches is not listed, and neither is what several
operations end in, such as `respond`, `laid` or `conclude`: the lists name it.

The lists say everything that the operations say. A case that nobody tells
apart from another is still a case of its own, and no guard is left out.
-/
import TypeRecords.Machine.Step

namespace TypeRecords

variable {σ : Type}

-- ====================================================== programs and frames

/-- The setting of a program that waits in this frame. -/
def Frame.setting? : Frame σ → Option (Setting σ)
  | .forResponse _ s => some s
  | .forLayout _ s => some s
  | .forTable _ s => some s
  | .forRecord _ s => some s
  | _ => none

/-- The node is for something that a program with these locals does not have. -/
inductive Program.Misses (l : Local) : Program σ Value → Prop
  | scratch {f : Scratch → Scratch} {k : Scratch → Program σ Value}
      (hl : ∀ words, l ≠ .scratch words) : Misses l (.scratch f k)
  | draft {k : Draft → Program σ Value} (hl : ∀ d, l ≠ .draft d) : Misses l (.draft k)
  | fill {index : Nat} {w : Witness} {k : Bool → Program σ Value} (hl : ∀ d, l ≠ .draft d) :
      Misses l (.fill index w k)
  | storePrivate {index value : Nat} {k : Bool → Program σ Value} (hl : ∀ d, l ≠ .draft d) :
      Misses l (.storePrivate index value k)

-- ====================================================== requests

/-- The call asks for the record with this key; if there is none, `record` is what it
makes. -/
inductive Call.Makes (lib : Library σ) : Call → Key → Record → Prop
  | generic {d : Descriptor σ} {descriptor : DescriptorId} {arguments : List RecordId}
      (hd : lib.descriptors[descriptor]? = some d) (hcount : d.parameters = arguments.length) :
      Makes lib (.generic descriptor arguments) ⟨.generic descriptor, arguments⟩
        (d.record descriptor arguments)
  | tuple {elements : List RecordId} (hne : elements ≠ []) :
      Makes lib (.tuple elements) ⟨.tuple, elements⟩ (.ofElements elements)

namespace Call.Makes

variable {lib : Library σ} {c : Call} {key : Key} {record : Record}

/-- What a call makes has the key it asks for. -/
theorem record_key? (h : c.Makes lib key record) : record.key? = some key := by
  cases h <;> rfl

end Call.Makes

namespace Turn

variable {lib : Library σ} {a : Actor} {t t' : Turn σ}

/-- What a call to a registry comes to. -/
inductive Requested (lib : Library σ) (t : Turn σ) (a : Actor) (registry : RegistryId)
    (q : Request) : Call → Turn σ → Prop
  | check {record : RecordId} : Requested lib t a registry q (.check record)
      (t.consult registry q record)
  | empty : Requested lib t a registry q (.tuple []) (t.respond (.finished Records.emptyTuple))
  | miscount {d : Descriptor σ} {descriptor : DescriptorId} {arguments : List RecordId}
      (hd : lib.descriptors[descriptor]? = some d) (hcount : d.parameters ≠ arguments.length) :
      Requested lib t a registry q (.generic descriptor arguments)
        (t.raiseIn a registry (.argumentCount d.name d.parameters arguments.length))
  | hit {c : Call} {key : Key} {record : Record} {entry : EntryId} (hc : c.Makes lib key record)
      (hfound : t.store.find? registry key = some entry) :
      Requested lib t a registry q c (t.hit registry entry q)
  | create {c : Call} {key : Key} {record : Record} (hc : c.Makes lib key record)
      (hnone : t.store.find? registry key = none) :
      Requested lib t a registry q c ((t.create registry q key record).1.goto
        (.allocated (t.create registry q key record).2))
  /-- A new record is shown to the callback of its descriptor first. -/
  | instantiate {d : Descriptor σ} {descriptor : DescriptorId} {arguments : List RecordId}
      {key : Key} {record : Record} {callback : RegistryId → RecordId → Program σ Unit}
      (hd : lib.descriptors[descriptor]? = some d) (hi : d.instantiate = some callback)
      (hc : (Call.generic descriptor arguments).Makes lib key record)
      (hnone : t.store.find? registry key = none) :
      Requested lib t a registry q (.generic descriptor arguments)
        ((t.create registry q key record).1.call (.allocating (t.create registry q key record).2)
          (callback registry (t.create registry q key record).2.record) (fun _ => .unit) .nothing)

/-- A call to a registry comes to one of these, on top of the frame of its continuation. -/
theorem request_cases {registry : RegistryId} {q : Request} {c : Call}
    {k : Response → Program σ Value} {s : Setting σ}
    (h : t.run lib a (.request registry q c k) s = some t') :
    Requested lib { t with frames := .forResponse k s :: t.frames } a registry q c t' := by
  unfold run at h
  cases c with
  | check record => cases h; exact .check
  | tuple elements =>
      cases h
      simp only [requestTuple]
      split
      · rename_i hempty
        rw [hempty]
        exact .empty
      · rename_i hne
        split
        · rename_i entry hfound
          exact .hit (.tuple hne) hfound
        · rename_i hnone
          exact .create (.tuple hne) hnone
  | generic descriptor arguments =>
      simp only [requestGeneric] at h
      split at h
      · cases h
      · rename_i d hd
        split at h
        · rename_i hcount
          cases h
          exact .miscount hd hcount
        · rename_i hcount
          have hmakes : (Call.generic descriptor arguments).Makes lib _ _ :=
            .generic hd (Decidable.not_not.mp hcount)
          split at h
          · rename_i entry hfound
            cases h
            exact .hit hmakes hfound
          · rename_i hnone
            split at h
            · rename_i callback hi
              cases h
              exact .instantiate hd hi hmakes hnone
            · cases h
              exact .create hmakes hnone

/-- What a request for the witness table of a type comes to. -/
inductive TableRequested (lib : Library σ) (t : Turn σ) (registry : RegistryId)
    (conformance : ConformanceId) (conforming : RecordId) (arguments : List TableId) :
    Turn σ → Prop
  | pattern {c : Conformance σ} (hc : lib.conformances[conformance]? = some c)
      (htrivial : lib.isTrivial c = true) :
      TableRequested lib t registry conformance conforming arguments
        { t with
          store := t.store.note registry fun l => { l with patterns := l.patterns + 1 }
          control := .give (.table c.recipe.pattern) .nothing }
  | cell {c : Conformance σ} (hc : lib.conformances[conformance]? = some c)
      (hown : lib.isTrivial c = false) :
      TableRequested lib t registry conformance conforming arguments
        { t with
          store := (t.store.cellFor registry conformance conforming).1
          control := .acquire ⟨registry, (t.store.cellFor registry conformance conforming).2,
            conformance, conforming⟩ arguments }

/-- A request for a witness table takes the pattern or comes to a cell. -/
theorem requestTable_cases {registry : RegistryId} {conformance : ConformanceId}
    {conforming : RecordId} {arguments : List TableId}
    (h : t.requestTable lib registry conformance conforming arguments = some t') :
    TableRequested lib t registry conformance conforming arguments t' := by
  unfold requestTable at h
  split at h
  · cases h
  · rename_i c hc
    split at h
    · rename_i htrivial
      cases h
      exact .pattern hc htrivial
    · rename_i hown
      cases h
      exact .cell hc (Bool.not_eq_true _ ▸ hown)

/-- What a request for the canonical record of a candidate comes to. -/
inductive NameRequested (lib : Library σ) (t : Turn σ) (registry : RegistryId)
    (candidate : CandidateId) : Turn σ → Prop
  /-- The candidate has been told before. -/
  | known {c : Candidate} {r : Registry} {record : RecordId}
      (hc : t.store.candidates[candidate]? = some c) (hr : t.store.registries[registry]? = some r)
      (hknown : c.uniqueIn registry = some record) :
      NameRequested lib t registry candidate (t.goto (.give (.record record) .nothing))
  | ask {c : Candidate} {r : Registry} {position : Nat}
      (hc : t.store.candidates[candidate]? = some c) (hr : t.store.registries[registry]? = some r)
      (hnew : c.uniqueIn registry = none) (hp : r.position? c.name = some position) :
      NameRequested lib t registry candidate (t.askName ⟨registry, candidate, position⟩ r)
  /-- The candidate is the first of its name. -/
  | register {c : Candidate} {r : Registry}
      (hc : t.store.candidates[candidate]? = some c) (hr : t.store.registries[registry]? = some r)
      (hnew : c.uniqueIn registry = none) (hp : r.position? c.name = none)
      (hi : lib.initializer candidate = none) :
      NameRequested lib t registry candidate
        ({ t with store := t.store.changeRegistry registry (·.register c.name (some c.record)) }.nameAs
          registry candidate c.record)
  | found {c : Candidate} {r : Registry} {callback : RegistryId → Program σ Unit}
      (hc : t.store.candidates[candidate]? = some c) (hr : t.store.registries[registry]? = some r)
      (hnew : c.uniqueIn registry = none) (hp : r.position? c.name = none)
      (hi : lib.initializer candidate = some callback) :
      NameRequested lib t registry candidate
        ({ t with store := t.store.changeRegistry registry (·.register c.name none) }.call
          (.founding ⟨registry, candidate, r.foreign.length⟩) (callback registry) (fun _ => .unit)
          .nothing)

/-- A request for a canonical record finds it known, asks for it, or is the first. -/
theorem requestName_cases {registry : RegistryId} {candidate : CandidateId}
    (h : t.requestName lib registry candidate = some t') :
    NameRequested lib t registry candidate t' := by
  unfold requestName at h
  split at h
  · rename_i c r hc hr
    split at h
    · rename_i record hknown
      cases h
      exact .known hc hr hknown
    · rename_i hnew
      split at h
      · rename_i position hp
        cases h
        exact .ask hc hr hnew hp
      · rename_i hp
        split at h
        · rename_i hi
          cases h
          exact .register hc hr hnew hp hi
        · rename_i callback hi
          cases h
          exact .found hc hr hnew hp hi
  · cases h

/-- Whoever stands by looks again after an announcement. -/
inductive StoodBy (t : Turn σ) (j : NameJob) (heard : Nat) : Turn σ → Prop
  | intro {r : Registry} (hr : t.store.registries[j.registry]? = some r)
      (hheard : heard < r.announcements) : StoodBy t j heard (t.askName j r)

/-- There is no step for who stands by before there is an announcement. -/
theorem standBy_cases {j : NameJob} {heard : Nat} (h : t.standBy j heard = some t') :
    StoodBy t j heard t' := by
  unfold standBy at h
  split at h
  · cases h
  · rename_i r hr
    split at h
    · rename_i hheard
      cases h
      exact .intro hr hheard
    · cases h

/-- What is founded is announced as the record of the candidate. -/
theorem founded_some {j : NameJob} (h : t.founded j = some t') :
    ∃ c, t.store.candidates[j.candidate]? = some c
      ∧ t' = { t with
        store := t.store.changeRegistry j.registry (·.announce j.position c.record) }.nameAs
          j.registry j.candidate c.record := by
  unfold founded at h
  split at h
  · cases h
  · rename_i c hc
    cases h
    exact ⟨c, hc, rfl⟩

-- ====================================================== waiting for an entry

/-- What waiting for an entry comes to, when it is over. -/
inductive Waited (t : Turn σ) (a : Actor) (registry : RegistryId) (entry : EntryId) (q : Request) :
    Turn σ → Prop
  | answer {e : Entry} {r : Response} (he : t.store.entries[entry]? = some e)
      (hlook : e.look a.id q = .answer r) : Waited t a registry entry q (t.respond r)
  | reentrant {e : Entry} {record : RecordId} (he : t.store.entries[entry]? = some e)
      (hlook : e.look a.id q = .ownWork record) :
      Waited t a registry entry q
        (t.raiseIn a registry (.reentrant (t.store.records.display record)))

/-- There is no step for who waits while another thread works on the entry. -/
theorem await_cases {registry : RegistryId} {entry : EntryId} {q : Request}
    (h : t.await a registry entry q = some t') : Waited t a registry entry q t' := by
  unfold await at h
  split at h
  · cases h
  · rename_i e he
    split at h
    · rename_i r hlook
      cases h
      exact .answer he hlook
    · rename_i record hlook
      cases h
      exact .reentrant he hlook
    · cases h

-- ====================================================== completion

/-- What making a record known comes to: it may be finished at once. -/
inductive Allocated (lib : Library σ) (t : Turn σ) (a : Actor) (al : Allocation) : Turn σ → Prop
  | finish (hdone : (firstStage lib t.store al.record).2 = .complete) :
      Allocated lib t a al (respond { t with
        store := ((firstStage lib t.store al.record).1.note al.registry fun l =>
            { l with instantiations := l.instantiations + 1 }).changeEntry al.entry
          (·.finishAllocation a.id al.record (firstStage lib t.store al.record).2) }
        (.finished al.record))
  | begin (hopen : (firstStage lib t.store al.record).2 ≠ .complete) :
      Allocated lib t a al { t with
        store := ((firstStage lib t.store al.record).1.note al.registry fun l =>
            { l with instantiations := l.instantiations + 1 }).changeEntry al.entry
          (·.finishAllocation a.id al.record (firstStage lib t.store al.record).2)
        control := .begin ⟨al.registry, al.entry, al.record, al.request,
          (firstStage lib t.store al.record).2, .zero⟩ }

/-- A fresh record is complete at once, or its completion begins. -/
theorem allocated_cases {al : Allocation} (h : t.allocated lib a al = t') :
    Allocated lib t a al t' := by
  subst h
  unfold allocated
  by_cases hdone : (firstStage lib t.store al.record).2 = .complete
  · simp only [if_pos hdone]
    exact .finish hdone
  · simp only [if_neg hdone]
    exact .begin hdone

/-- What the beginning of a completion step comes to. -/
inductive Begun (lib : Library σ) (t : Turn σ) (d : Drive) : Turn σ → Prop
  | measure {r : Record} (hr : t.store.records[d.record]? = some r) (ho : r.origin = .tuple) :
      Begun lib t d { t with
        store := t.store.note d.registry fun l => { l with steps := l.steps + 1 }
        control := .measure ⟨d, r.arguments, []⟩ }
  /-- There is no completion, or it has done its part. -/
  | close {r : Record} {id : DescriptorId} (hr : t.store.records[d.record]? = some r)
      (ho : r.origin = .generic id)
      (hdone : d.stage < .nonTransitive → (lib.descriptors[id]?).bind (·.completion) = none) :
      Begun lib t d { t with
        store := t.store.note d.registry fun l => { l with steps := l.steps + 1 }
        control := .publish d
          (closing (t.store.note d.registry fun l => { l with steps := l.steps + 1 }) d) }
  | layout {r : Record} {id : DescriptorId} (hr : t.store.records[d.record]? = some r)
      (ho : r.origin = .generic id) (hstage : d.stage < .nonTransitive)
      (hcompletion : (lib.descriptors[id]?).bind (·.completion) = some .structLayout) :
      Begun lib t d ({ t with
        store := t.store.note d.registry fun l => { l with steps := l.steps + 1 }
        frames := .stepping d :: t.frames }.startLayout lib d.registry d.record d.scratch)
  | callback {r : Record} {id : DescriptorId}
      {step : RegistryId → RecordId → Program σ (Option Dependency)}
      (hr : t.store.records[d.record]? = some r) (ho : r.origin = .generic id)
      (hstage : d.stage < .nonTransitive)
      (hcompletion : (lib.descriptors[id]?).bind (·.completion) = some (.callback step)) :
      Begun lib t d
        ({ t with store := t.store.note d.registry fun l => { l with steps := l.steps + 1 } }.call
          (.stepping d) (step d.registry d.record) .dependency (.scratch d.scratch))

/-- A tuple is measured, and a generic record is given to its completion as long as it is
not finished for itself. -/
theorem begin_cases {d : Drive} (h : t.begin lib d = some t') : Begun lib t d t' := by
  simp only [begin] at h
  split at h
  · cases h
  · rename_i r hr
    split at h
    · cases h
    · rename_i ho
      cases h
      exact .measure hr ho
    · rename_i id ho
      split at h
      · rename_i hnone
        cases h
        refine .close hr ho fun hstage => ?_
        rwa [if_pos hstage] at hnone
      · rename_i hsome
        by_cases hstage : d.stage < .nonTransitive
        · rw [if_pos hstage] at hsome
          cases h
          exact .layout hr ho hstage hsome
        · rw [if_neg hstage] at hsome
          cases hsome
      · rename_i step hsome
        by_cases hstage : d.stage < .nonTransitive
        · rw [if_pos hstage] at hsome
          cases h
          exact .callback hr ho hstage hsome
        · rw [if_neg hstage] at hsome
          cases hsome

/-- What looking at the next field comes to. -/
inductive FieldLaid (t : Turn σ) (a : Actor) (w : FieldWalk σ) : Turn σ → Prop
  | done (htodo : w.todo = []) :
      FieldLaid t a w { t with
        store := layDown t.store w.record w.layouts
        control := .give (.dependency none)
          (.scratch (w.scratch.set 0 w.index (Nat.zero_lt_succ 3))) }
  | consult {field : Field σ} {rest : List (Field σ)} {record : RecordId}
      (htodo : w.todo = field :: rest)
      (hrecord : field.type = .fixed record ∨ ∃ index, field.type = .argument index
        ∧ (t.store.records.argumentsOf w.record)[index]? = some record) :
      FieldLaid t a w ({ t with frames := .laying w :: t.frames }.consult w.registry
        (.poll .layoutComplete) record)
  /-- The record of the field is asked of a callback. -/
  | compute {field : Field σ} {rest : List (Field σ)}
      {accessor : RegistryId → Request → List RecordId → Program σ Response}
      (htodo : w.todo = field :: rest) (htype : field.type = .computed accessor) :
      FieldLaid t a w (t.call (.laying w)
        (accessor w.registry (.poll .layoutComplete) (t.store.records.argumentsOf w.record))
        .response .nothing)
  /-- The record has fewer arguments than the field wants. -/
  | lack {field : Field σ} {rest : List (Field σ)} {index : Nat} (htodo : w.todo = field :: rest)
      (htype : field.type = .argument index)
      (hnone : (t.store.records.argumentsOf w.record)[index]? = none) :
      FieldLaid t a w (t.raiseIn a w.registry (.argumentCount
        (((t.store.records[w.record]?).map (·.name)).getD "") (index + 1)
        (t.store.records.argumentsOf w.record).length))

/-- A field is consulted, computed, or missing; with none left the layout is written. -/
theorem lay_cases {w : FieldWalk σ} (h : t.lay a w = t') : FieldLaid t a w t' := by
  subst h
  unfold lay
  split
  · rename_i htodo
    exact .done htodo
  · rename_i field rest htodo
    unfold resolve
    cases htype : field.type with
    | fixed record => exact .consult htodo (.inl htype)
    | computed accessor => exact .compute htodo htype
    | argument index =>
        simp only
        split
        · rename_i record hrecord
          exact .consult htodo (.inr ⟨index, htype, hrecord⟩)
        · rename_i hnone
          exact .lack htodo htype hnone

/-- What looking at the next element of a tuple comes to. -/
inductive ElementMeasured (t : Turn σ) (w : ElementWalk) : Turn σ → Prop
  | done (htodo : w.todo = []) :
      ElementMeasured t w { t with
        store := settleTuple t.store w.drive.record
        control := .publish w.drive
          (tupleOutcome (settleTuple t.store w.drive.record) w.drive w.stages) }
  | consult {element : RecordId} {rest : List RecordId} (htodo : w.todo = element :: rest) :
      ElementMeasured t w ({ t with frames := .measuring w :: t.frames }.consult w.drive.registry
        (.poll .layoutComplete) element)

/-- An element is consulted; with none left the layout of the tuple is written. -/
theorem measure_cases {w : ElementWalk} (h : t.measure w = t') : ElementMeasured t w t' := by
  subst h
  unfold measure
  split
  · rename_i htodo
    exact .done htodo
  · rename_i element rest htodo
    exact .consult htodo

/-- What publishing the outcome of a step comes to. -/
inductive Published (t : Turn σ) (d : Drive) (o : StepOutcome) : Turn σ → Prop
  | intro {e : Entry} (he : t.store.entries[d.entry]? = some e) :
      Published t d o { t with
        store := t.store.changeEntry d.entry fun _ => (e.publish o).1
        control := .release { d with stage := (e.publish o).1.stage } o.dependency
          (e.publish o).2 }

/-- Whoever publishes an outcome does so in an entry that is there. -/
theorem publish_cases {d : Drive} {o : StepOutcome} (h : t.publish d o = some t') :
    Published t d o t' := by
  unfold publish at h
  split at h
  · cases h
  · rename_i e he
    cases h
    exact .intro he

/-- What taking up the waiters that were let go comes to. -/
inductive Released (t : Turn σ) (a : Actor) (d : Drive) (dep : Option Dependency) :
    List Waiter → Turn σ → Prop
  /-- The next waiter is still parked. -/
  | resume {w : Waiter} {rest : List Waiter} {e taken : Entry} {record : RecordId}
      {scratch : Scratch} (he : t.store.entries[w.entry]? = some e) (hr : e.record = some record)
      (htaken : e.reclaim? a.id = some (taken, scratch)) :
      Released t a d dep (w :: rest) { t with
        store := (t.store.note d.registry fun l => { l with resumptions := l.resumptions + 1
          }).changeEntry w.entry fun _ => taken
        frames := .releasing d dep rest :: t.frames
        control := .begin ⟨d.registry, w.entry, record, .poll .complete,
          e.published.getD .abstract, scratch⟩ }
  | forget {w : Waiter} {rest : List Waiter}
      (hgone : ∀ e, t.store.entries[w.entry]? = some e → e.record = none ∨ e.saved = none) :
      Released t a d dep (w :: rest) { t with
        store := t.store.note d.registry fun l => { l with resumptions := l.resumptions + 1 }
        frames := .releasing d dep rest :: t.frames
        control := .give .unit .nothing }
  | stop {cause : Dependency} (hdep : dep = some cause) :
      Released t a d dep [] (t.goto (.stopped d cause))
  | finish (hdep : dep = none) (hdone : d.stage = .complete) :
      Released t a d dep [] (t.respond ⟨d.record, d.stage⟩)
  | again (hdep : dep = none) (hopen : d.stage ≠ .complete) :
      Released t a d dep [] (t.goto (.begin d))

/-- While waiters are left the first of them is resumed or forgotten. -/
theorem release_cases {d : Drive} {dep : Option Dependency} {ready : List Waiter}
    (h : t.release a d dep ready = t') : Released t a d dep ready t' := by
  cases ready with
  | cons w rest =>
      simp only [release, Turn.resume] at h
      split at h
      · rename_i hnone
        subst h
        exact .forget fun e he => by cases hnone.symm.trans he
      · rename_i e he
        split at h
        · rename_i record taken scratch hr htaken
          subst h
          exact .resume he hr htaken
        · rename_i hno
          subst h
          refine .forget fun e' he' => ?_
          obtain rfl := Option.some.inj (Eq.trans he.symm he')
          cases hr : e.record with
          | none => exact .inl rfl
          | some record =>
              cases hs : e.saved with
              | none => exact .inr rfl
              | some scratch =>
                  exact (hno record _ scratch hr (by unfold Entry.reclaim?; rw [hs])).elim
  | nil =>
      unfold release at h
      cases dep with
      | some dep => subst h; exact .stop rfl
      | none =>
          simp only at h
          split at h
          · rename_i hdone
            subst h
            exact .finish rfl hdone
          · rename_i hopen
            subst h
            exact .again rfl hopen

/-- What a thread decides when something has stopped its initialization. -/
inductive Stopped (t : Turn σ) (a : Actor) (d : Drive) (dep : Dependency) : Turn σ → Prop
  | cycle {cycle : Cycle} (hcycle : t.store.cycle? d.registry d.record dep = some cycle) :
      Stopped t a d dep
        ({ t with
          store := t.store.note d.registry fun l => { l with dependencies := l.dependencies + 1 }
          }.raiseIn a d.registry (.cycle cycle))
  /-- The thread waits for what has stopped it. -/
  | rely (hopen : t.store.cycle? d.registry d.record dep = none)
      (hwaits : d.request.waits ∧ ¬ d.request.satisfiedBy d.stage) :
      Stopped t a d dep
        ({ t with
          store := t.store.note d.registry fun l => { l with dependencies := l.dependencies + 1 }
          frames := .relying d :: t.frames }.consult d.registry (.blocking dep.required) dep.target)
  | suspend (hopen : t.store.cycle? d.registry d.record dep = none)
      (hparks : ¬ (d.request.waits ∧ ¬ d.request.satisfiedBy d.stage)) :
      Stopped t a d dep { t with
        store := (t.store.note d.registry fun l => { l with dependencies := l.dependencies + 1
          }).changeEntry d.entry (·.suspend d.scratch)
        control := .enqueue d dep }

/-- What has been stopped is at fault, relies on its dependency, or is suspended. -/
theorem stopped_cases {d : Drive} {dep : Dependency} (h : t.stopped a d dep = t') :
    Stopped t a d dep t' := by
  simp only [stopped] at h
  split at h
  · rename_i hcycle
    subst h
    exact .cycle hcycle
  · rename_i hopen
    split at h
    · rename_i hwaits
      subst h
      exact .rely hopen hwaits
    · rename_i hparks
      subst h
      exact .suspend hopen hparks

/-- What queuing a suspended initialization comes to. -/
inductive Enqueued (t : Turn σ) (a : Actor) (d : Drive) (dep : Dependency) : Turn σ → Prop
  | park {queue : EntryId} {e : Entry} (hq : t.store.entryOf? d.registry dep.target = some queue)
      (he : t.store.entries[queue]? = some e) (hopen : e.satisfies dep.required = false) :
      Enqueued t a d dep
        (respond { t with store := t.store.changeEntry queue fun _ =>
          { e with queue := e.queue ++ [⟨dep.required, d.entry⟩] } } ⟨d.record, d.stage⟩)
  /-- What has stopped it is there by now, and it is taken up again. -/
  | reclaim {own taken : Entry} {scratch : Scratch}
      (hthere : ∀ queue e, t.store.entryOf? d.registry dep.target = some queue →
        t.store.entries[queue]? = some e → e.satisfies dep.required = true)
      (hown : t.store.entries[d.entry]? = some own)
      (htaken : own.reclaim? a.id = some (taken, scratch)) :
      Enqueued t a d dep { t with
        store := t.store.changeEntry d.entry fun _ => taken
        control := .begin { d with scratch := scratch } }
  | strand {own : Entry}
      (hthere : ∀ queue e, t.store.entryOf? d.registry dep.target = some queue →
        t.store.entries[queue]? = some e → e.satisfies dep.required = true)
      (hown : t.store.entries[d.entry]? = some own) (hlost : own.saved = none) :
      Enqueued t a d dep (t.respond ⟨d.record, d.stage⟩)

/-- What is suspended is queued where it waits, or taken up if it need not wait. -/
theorem enqueue_cases {d : Drive} {dep : Dependency} (h : t.enqueue a d dep = some t') :
    Enqueued t a d dep t' := by
  simp only [enqueue] at h
  split at h
  · rename_i queue e' hqueued
    cases h
    obtain ⟨id, hid, hqueued⟩ := Option.bind_eq_some_iff.mp hqueued
    obtain ⟨e, he, hqueued⟩ := Option.bind_eq_some_iff.mp hqueued
    obtain ⟨e'', hparked, heq⟩ := Option.map_eq_some_iff.mp hqueued
    obtain ⟨rfl, rfl⟩ := Prod.mk.inj heq
    unfold Entry.enqueue? at hparked
    split at hparked
    · cases hparked
    · rename_i hopen
      cases hparked
      exact .park hid he (Bool.eq_false_iff.mpr hopen)
  · rename_i hnone
    have hthere : ∀ queue e, t.store.entryOf? d.registry dep.target = some queue →
        t.store.entries[queue]? = some e → e.satisfies dep.required = true := by
      intro queue e hq he
      rw [hq, Option.bind_some, he, Option.bind_some, Option.map_eq_none_iff] at hnone
      unfold Entry.enqueue? at hnone
      split at hnone
      · assumption
      · cases hnone
    split at h
    · cases h
    · rename_i own hown
      split at h
      · rename_i hlost
        cases h
        refine .strand hthere hown ?_
        unfold Entry.reclaim? at hlost
        split at hlost
        · assumption
        · cases hlost
      · rename_i taken scratch htaken
        cases h
        exact .reclaim hthere hown htaken

-- ====================================================== witness tables

/-- What waiting for the cell of a witness table comes to, when it is over. -/
inductive Acquired (lib : Library σ) (t : Turn σ) (a : Actor) (j : TableJob)
    (arguments : List TableId) : Turn σ → Prop
  | full {cell : Cell} {table : TableId} (hcell : t.store.cells[j.cell]? = some cell)
      (hfull : cell.state = .full table) :
      Acquired lib t a j arguments (t.goto (.give (.table table) .nothing))
  | instantiate {cell : Cell} {c : Conformance σ} {p : Protocol}
      {callback : RegistryId → RecordId → List TableId → Program σ Unit}
      (hcell : t.store.cells[j.cell]? = some cell) (hempty : cell.state = .empty)
      (hc : lib.conformances[j.conformance]? = some c)
      (hp : lib.protocols[c.recipe.protocol]? = some p) (hi : c.instantiator = some callback) :
      Acquired lib t a j arguments
        ({ t with store := ((t.store.changeCell j.cell (.building a.id)).takeBlock j.registry
            (c.recipe.blockSize p) wordSize).1 }.call (.filling j)
          (callback j.registry j.conforming arguments) (fun _ => .unit)
          (.draft (.start c.recipe p)))
  | copy {cell : Cell} {c : Conformance σ} {p : Protocol}
      (hcell : t.store.cells[j.cell]? = some cell) (hempty : cell.state = .empty)
      (hc : lib.conformances[j.conformance]? = some c)
      (hp : lib.protocols[c.recipe.protocol]? = some p) (hi : c.instantiator = none) :
      Acquired lib t a j arguments
        ({ t with store := ((t.store.changeCell j.cell (.building a.id)).takeBlock j.registry
            (c.recipe.blockSize p) wordSize).1 }.push (.filling j)
          (.give .unit (.draft (.start c.recipe p))))

/-- There is no step at a cell while another attempt is under way. -/
theorem acquire_cases {j : TableJob} {arguments : List TableId}
    (h : t.acquire lib a j arguments = some t') : Acquired lib t a j arguments t' := by
  unfold acquire at h
  split at h
  · cases h
  · rename_i cell hcell
    split at h
    · rename_i table hfull
      cases h
      exact .full hcell hfull
    · cases h
    · rename_i hempty
      split at h
      · cases h
      · rename_i c hc
        split at h
        · cases h
        · rename_i p hp
          split at h
          · rename_i callback hi
            cases h
            exact .instantiate hcell hempty hc hp hi
          · rename_i hi
            cases h
            exact .copy hcell hempty hc hp hi

/-- What a draft comes to when nobody fills it any more. -/
inductive Filled (lib : Library σ) (t : Turn σ) (a : Actor) (j : TableJob) (draft : Draft) :
    Turn σ → Prop
  | lack {p : Protocol} {requirement : Requirement}
      (hp : lib.protocols[draft.protocol]? = some p)
      (hlack : draft.firstEmpty? p = some requirement) :
      Filled lib t a j draft
        ({ t with frames := .filling j :: t.frames }.raiseIn a j.registry
          (.missingWitness p.name requirement.name (t.store.records.display j.conforming)))
  | table {p : Protocol} (hp : lib.protocols[draft.protocol]? = some p)
      (hfull : draft.firstEmpty? p = none) :
      Filled lib t a j draft { t with
        store := (((t.store.addTable ⟨draft.protocol, some j.conforming, draft.witnesses,
            draft.words⟩).1.changeCell j.cell (.full (t.store.addTable ⟨draft.protocol,
            some j.conforming, draft.witnesses, draft.words⟩).2)).note j.registry fun l =>
          { l with tables := l.tables + 1 })
        control := .give (.table (t.store.addTable ⟨draft.protocol, some j.conforming,
          draft.witnesses, draft.words⟩).2) .nothing }

/-- A draft is a table if no slot is empty. -/
theorem filled_cases {j : TableJob} {draft : Draft} (h : t.filled lib a j draft = some t') :
    Filled lib t a j draft t' := by
  unfold filled at h
  split at h
  · cases h
  · rename_i p hp
    split at h
    · rename_i requirement hlack
      cases h
      exact .lack hp hlack
    · rename_i hfull
      cases h
      exact .table hp hfull

-- ====================================================== handing over

/-- What the topmost frame makes of the outcome of a piece of work. -/
inductive Given (lib : Library σ) (t : Turn σ) (a : Actor) : Value → Local → Turn σ → Prop
  | ended {v : Value} {left : Local} (hf : t.frames = []) : Given lib t a v left (t.goto .ended)
  | response {k : Response → Program σ Value} {s : Setting σ} {rest : List (Frame σ)} {r : Response}
      {left : Local} (hf : t.frames = .forResponse k s :: rest) :
      Given lib t a (.response r) left { t with frames := rest, control := .run (k r) s }
  | layout {k : Option Dependency → Scratch → Program σ Value} {s : Setting σ}
      {rest : List (Frame σ)} {dep : Option Dependency} {words : Scratch}
      (hf : t.frames = .forLayout k s :: rest) :
      Given lib t a (.dependency dep) (.scratch words)
        { t with frames := rest, control := .run (k dep words) s }
  | table {k : TableId → Program σ Value} {s : Setting σ} {rest : List (Frame σ)} {table : TableId}
      {left : Local} (hf : t.frames = .forTable k s :: rest) :
      Given lib t a (.table table) left { t with frames := rest, control := .run (k table) s }
  | record {k : RecordId → Program σ Value} {s : Setting σ} {rest : List (Frame σ)} {r : RecordId}
      {left : Local} (hf : t.frames = .forRecord k s :: rest) :
      Given lib t a (.record r) left { t with frames := rest, control := .run (k r) s }
  | allocated {al : Allocation} {rest : List (Frame σ)} {v : Value} {left : Local}
      (hf : t.frames = .allocating al :: rest) :
      Given lib t a v left { t with frames := rest, control := .allocated al }
  | stepped {d : Drive} {rest : List (Frame σ)} {dep : Option Dependency} {left : Local}
      (hf : t.frames = .stepping d :: rest) :
      Given lib t a (.dependency dep) left ({ t with frames := rest }.stepped d dep left)
  | laid {w : FieldWalk σ} {rest : List (Frame σ)} {r : Response} {left : Local}
      (hf : t.frames = .laying w :: rest) :
      Given lib t a (.response r) left ({ t with frames := rest }.laid w r)
  | measured {w : ElementWalk} {rest : List (Frame σ)} {r : Response} {left : Local}
      (hf : t.frames = .measuring w :: rest) :
      Given lib t a (.response r) left ({ t with frames := rest }.measured w r)
  | relied {d : Drive} {rest : List (Frame σ)} {v : Value} {left : Local}
      (hf : t.frames = .relying d :: rest) :
      Given lib t a v left { t with frames := rest, control := .begin d }
  | released {d : Drive} {dep : Option Dependency} {ready : List Waiter} {rest : List (Frame σ)}
      {v : Value} {left : Local} (hf : t.frames = .releasing d dep ready :: rest) :
      Given lib t a v left { t with frames := rest, control := .release d dep ready }
  | filled {j : TableJob} {rest : List (Frame σ)} {v : Value} {draft : Draft} {t' : Turn σ}
      (hf : t.frames = .filling j :: rest)
      (h : Filled lib { t with frames := rest } a j draft t') : Given lib t a v (.draft draft) t'
  | founded {j : NameJob} {rest : List (Frame σ)} {v : Value} {left : Local} {c : Candidate}
      (hf : t.frames = .founding j :: rest) (hc : t.store.candidates[j.candidate]? = some c) :
      Given lib t a v left
        ({ t with
          store := t.store.changeRegistry j.registry (·.announce j.position c.record)
          frames := rest }.nameAs j.registry j.candidate c.record)
  | reported {r : Report} {hooks : List HookId} {policy : FaultPolicy} {rest : List (Frame σ)}
      {v : Value} {left : Local} (hf : t.frames = .reporting r hooks policy :: rest) :
      Given lib t a v left { t with frames := rest, control := .report r hooks policy }

/-- A frame takes only what it waits for; anything else has no step. -/
theorem give_cases {v : Value} {left : Local} (h : t.give lib a v left = some t') :
    Given lib t a v left t' := by
  unfold give at h
  split at h
  · rename_i hf
    cases h
    exact .ended hf
  · rename_i frame rest hf
    simp only at h
    split at h
    · cases h; exact .response hf
    · cases h; exact .layout hf
    · cases h; exact .table hf
    · cases h; exact .record hf
    · cases h; exact .allocated hf
    · cases h; exact .stepped hf
    · cases h; exact .laid hf
    · cases h; exact .measured hf
    · cases h; exact .relied hf
    · cases h; exact .released hf
    · exact .filled hf (filled_cases h)
    · obtain ⟨c, hc, rfl⟩ := founded_some h
      exact .founded hf hc
    · cases h; exact .reported hf
    · cases h

/-- What unwinding comes to at the topmost frame. -/
inductive Unwound (t : Turn σ) (f : Failure) : Turn σ → Prop
  | ended (hf : t.frames = []) : Unwound t f (t.goto .ended)
  /-- A program that waited may have a handler armed. -/
  | handle {frame : Frame σ} {rest : List (Frame σ)} {s : Setting σ}
      (hf : t.frames = frame :: rest) (hs : frame.setting? = some s) :
      Unwound t f ({ t with frames := rest }.handle f s)
  /-- An attempt to build a witness table leaves its cell empty. -/
  | abandon {j : TableJob} {rest : List (Frame σ)} (hf : t.frames = .filling j :: rest) :
      Unwound t f { t with
        store := t.store.changeCell j.cell .empty, frames := rest, control := .unwind f }
  | drop {frame : Frame σ} {rest : List (Frame σ)} (hf : t.frames = frame :: rest)
      (hs : frame.setting? = none) (hj : ∀ j, frame ≠ .filling j) :
      Unwound t f { t with frames := rest, control := .unwind f }

/-- What unwinds takes the topmost frame off; if a program waits there, the failure is
handled as if it were its own. -/
theorem unwind_cases {f : Failure} (h : t.unwind f = t') : Unwound t f t' := by
  unfold unwind at h
  split at h
  · rename_i hf
    subst h
    exact .ended hf
  · rename_i frame rest hf
    subst h
    cases frame with
    | forResponse k s => exact .handle hf rfl
    | forLayout k s => exact .handle hf rfl
    | forTable k s => exact .handle hf rfl
    | forRecord k s => exact .handle hf rfl
    | filling j => exact .abandon hf
    | _ => exact .drop hf rfl nofun

/-- What showing a report comes to. -/
inductive Reported (lib : Library σ) (t : Turn σ) (r : Report) :
    List HookId → FaultPolicy → Turn σ → Prop
  | hook {hook : HookId} {rest : List HookId} {policy : FaultPolicy} :
      Reported lib t r (hook :: rest) policy
        (t.call (.reporting r rest policy) (lib.hook hook r) (fun _ => .unit) .nothing)
  | abort : Reported lib t r [] .abort
      { t with store := { t.store with halted := some r.message }, control := .ended }
  | unwind : Reported lib t r [] .unwind (t.goto (.unwind (.fault r.message)))

/-- A report is shown to one hook after the other, and the policy decides what follows. -/
theorem report_cases {r : Report} {hooks : List HookId} {policy : FaultPolicy}
    (h : t.report lib r hooks policy = t') : Reported lib t r hooks policy t' := by
  subst h
  cases hooks with
  | cons hook rest => exact .hook
  | nil =>
      cases policy with
      | abort => exact .abort
      | unwind => exact .unwind

-- ====================================================== every step

/-- What the next node of a program comes to. -/
inductive Ran (lib : Library σ) (t : Turn σ) (a : Actor) (s : Setting σ) :
    Program σ Value → Turn σ → Prop
  | done {v : Value} : Ran lib t a s (.done v) (t.goto (.give v s.locals))
  | fail {f : Failure} : Ran lib t a s (.fail f) (t.handle f s)
  | look {k : ThreadId → Store → σ → Program σ Value} :
      Ran lib t a s (.look k) (t.goto (.run (k a.id t.store t.shared) s))
  | edit {f : σ → σ} {k : Program σ Value} :
      Ran lib t a s (.edit f k) { t with shared := f t.shared, control := .run k s }
  | act {action : Action} {k : action.Reply → Program σ Value} :
      Ran lib t a s (.act action k)
        { t with
          store := (t.store.perform action).1
          control := .run (k (t.store.perform action).2) s }
  | scratch {f : Scratch → Scratch} {k : Scratch → Program σ Value} {words : Scratch}
      (hl : s.locals = .scratch words) :
      Ran lib t a s (.scratch f k)
        (t.goto (.run (k (f words)) { s with locals := .scratch (f words) }))
  | draft {k : Draft → Program σ Value} {d : Draft} (hl : s.locals = .draft d) :
      Ran lib t a s (.draft k) (t.goto (.run (k d) s))
  | fill {index : Nat} {w : Witness} {k : Bool → Program σ Value} {d : Draft}
      (hl : s.locals = .draft d) :
      Ran lib t a s (.fill index w k)
        (t.goto (.run (k (d.set index w).2) { s with locals := .draft (d.set index w).1 }))
  | storePrivate {index value : Nat} {k : Bool → Program σ Value} {d : Draft}
      (hl : s.locals = .draft d) :
      Ran lib t a s (.storePrivate index value k)
        (t.goto (.run (k (d.storeWord index value).2)
          { s with locals := .draft (d.storeWord index value).1 }))
  /-- A callback cannot change what it does not have. -/
  | refuse {p : Program σ Value} (hp : p.Misses s.locals) :
      Ran lib t a s p (t.handle .refused s)
  | request {registry : RegistryId} {q : Request} {c : Call} {k : Response → Program σ Value}
      {t' : Turn σ}
      (h : Requested lib { t with frames := .forResponse k s :: t.frames } a registry q c t') :
      Ran lib t a s (.request registry q c k) t'
  | structLayout {registry : RegistryId} {record : RecordId} {words : Scratch}
      {k : Option Dependency → Scratch → Program σ Value} :
      Ran lib t a s (.structLayout registry record words k)
        ({ t with frames := .forLayout k s :: t.frames }.startLayout lib registry record words)
  | table {registry : RegistryId} {c : ConformanceId} {conforming : RecordId}
      {arguments : List TableId} {k : TableId → Program σ Value} {t' : Turn σ}
      (h : TableRequested lib { t with frames := .forTable k s :: t.frames } registry c conforming
        arguments t') :
      Ran lib t a s (.table registry c conforming arguments k) t'
  | canonical {registry : RegistryId} {c : CandidateId} {k : RecordId → Program σ Value}
      {t' : Turn σ}
      (h : NameRequested lib { t with frames := .forRecord k s :: t.frames } registry c t') :
      Ran lib t a s (.canonical registry c k) t'
  | raise {policy : FaultPolicy} {limit : Nat} {fault : Fault} :
      Ran lib t a s (.raise policy limit fault)
        ({ t with frames := .forResponse (fun _ => .done .unit) s :: t.frames }.raise a policy
          limit fault)
  | guarded {handler : Failure → Program σ Value} {body : Program σ Value} :
      Ran lib t a s (.guarded handler body)
        (t.goto (.run body { s with handlers := handler :: s.handlers }))
  | disarm {k : Program σ Value} :
      Ran lib t a s (.disarm k) (t.goto (.run k { s with handlers := s.handlers.tail }))

/-- Each node of a program is carried out or refused. -/
theorem run_cases {p : Program σ Value} {s : Setting σ} (h : t.run lib a p s = some t') :
    Ran lib t a s p t' := by
  cases p with
  | done v => cases h; exact .done
  | fail f => cases h; exact .fail
  | look k => cases h; exact .look
  | edit f k => cases h; exact .edit
  | act action k => cases h; exact .act
  | scratch f k =>
      simp only [run] at h
      split at h <;> cases h
      · rename_i words hl
        exact .scratch hl
      · rename_i hl
        exact .refuse (.scratch hl)
  | draft k =>
      simp only [run] at h
      split at h <;> cases h
      · rename_i d hl
        exact .draft hl
      · rename_i hl
        exact .refuse (.draft hl)
  | fill index w k =>
      simp only [run] at h
      split at h <;> cases h
      · rename_i d hl
        exact .fill hl
      · rename_i hl
        exact .refuse (.fill hl)
  | storePrivate index value k =>
      simp only [run] at h
      split at h <;> cases h
      · rename_i d hl
        exact .storePrivate hl
      · rename_i hl
        exact .refuse (.storePrivate hl)
  | request registry q c k => exact .request (request_cases h)
  | structLayout registry record words k => cases h; exact .structLayout
  | table registry c conforming arguments k => exact .table (requestTable_cases h)
  | canonical registry c k => exact .canonical (requestName_cases h)
  | raise policy limit fault => cases h; exact .raise
  | guarded handler body => cases h; exact .guarded
  | disarm k => cases h; exact .disarm
  | spawn name body k => cases h
  | join thread k => cases h
  | settle thread k => cases h

/-- The step of a thread that runs a program. -/
theorem step_run {p : Program σ Value} {s : Setting σ} (hc : t.control = .run p s)
    (h : t.step lib a = some t') : Ran lib t a s p t' := by
  unfold step at h
  rw [hc] at h
  exact run_cases h

/-- The step of a thread whose program calls a registry. -/
theorem step_request {registry : RegistryId} {q : Request} {c : Call}
    {k : Response → Program σ Value} {s : Setting σ}
    (hc : t.control = .run (.request registry q c k) s) (h : t.step lib a = some t') :
    Requested lib { t with frames := .forResponse k s :: t.frames } a registry q c t' := by
  cases step_run hc h with
  | request h => exact h
  | refuse hp => cases hp

/-- The step of a thread that hands something over. -/
theorem step_give {v : Value} {left : Local} (hc : t.control = .give v left)
    (h : t.step lib a = some t') : Given lib t a v left t' := by
  unfold step at h
  rw [hc] at h
  exact give_cases h

/-- The step of a thread that unwinds. -/
theorem step_unwind {f : Failure} (hc : t.control = .unwind f) (h : t.step lib a = some t') :
    Unwound t f t' := by
  unfold step at h
  rw [hc] at h
  exact unwind_cases (Option.some.inj h)

/-- The step of a thread that waits for an entry. -/
theorem step_await {registry : RegistryId} {entry : EntryId} {q : Request}
    (hc : t.control = .await registry entry q) (h : t.step lib a = some t') :
    Waited t a registry entry q t' := by
  unfold step at h
  rw [hc] at h
  exact await_cases h

/-- The step of a thread that has allocated a record. -/
theorem step_allocated {al : Allocation} (hc : t.control = .allocated al)
    (h : t.step lib a = some t') : Allocated lib t a al t' := by
  unfold step at h
  rw [hc] at h
  exact allocated_cases (Option.some.inj h)

/-- The step of a thread that begins to complete a record. -/
theorem step_begin {d : Drive} (hc : t.control = .begin d) (h : t.step lib a = some t') :
    Begun lib t d t' := by
  unfold step at h
  rw [hc] at h
  exact begin_cases h

/-- The step of a thread in a walk over fields. -/
theorem step_lay {w : FieldWalk σ} (hc : t.control = .lay w) (h : t.step lib a = some t') :
    FieldLaid t a w t' := by
  unfold step at h
  rw [hc] at h
  exact lay_cases (Option.some.inj h)

/-- The step of a thread in a walk over elements. -/
theorem step_measure {w : ElementWalk} (hc : t.control = .measure w) (h : t.step lib a = some t') :
    ElementMeasured t w t' := by
  unfold step at h
  rw [hc] at h
  exact measure_cases (Option.some.inj h)

/-- The step of a thread that publishes an outcome. -/
theorem step_publish {d : Drive} {o : StepOutcome} (hc : t.control = .publish d o)
    (h : t.step lib a = some t') : Published t d o t' := by
  unfold step at h
  rw [hc] at h
  exact publish_cases h

/-- The step of a thread that takes up waiters. -/
theorem step_release {d : Drive} {dep : Option Dependency} {ready : List Waiter}
    (hc : t.control = .release d dep ready) (h : t.step lib a = some t') :
    Released t a d dep ready t' := by
  unfold step at h
  rw [hc] at h
  exact release_cases (Option.some.inj h)

/-- The step of a thread whose initialization was stopped. -/
theorem step_stopped {d : Drive} {dep : Dependency} (hc : t.control = .stopped d dep)
    (h : t.step lib a = some t') : Stopped t a d dep t' := by
  unfold step at h
  rw [hc] at h
  exact stopped_cases (Option.some.inj h)

/-- The step of a thread that has suspended its initialization. -/
theorem step_enqueue {d : Drive} {dep : Dependency} (hc : t.control = .enqueue d dep)
    (h : t.step lib a = some t') : Enqueued t a d dep t' := by
  unfold step at h
  rw [hc] at h
  exact enqueue_cases h

/-- The step of a thread at the cell of a witness table. -/
theorem step_acquire {j : TableJob} {arguments : List TableId}
    (hc : t.control = .acquire j arguments) (h : t.step lib a = some t') :
    Acquired lib t a j arguments t' := by
  unfold step at h
  rw [hc] at h
  exact acquire_cases h

/-- The step of a thread that waits for a name. -/
theorem step_standBy {j : NameJob} {heard : Nat} (hc : t.control = .standBy j heard)
    (h : t.step lib a = some t') : StoodBy t j heard t' := by
  unfold step at h
  rw [hc] at h
  exact standBy_cases h

/-- The step of a thread that shows a report. -/
theorem step_report {r : Report} {hooks : List HookId} {policy : FaultPolicy}
    (hc : t.control = .report r hooks policy) (h : t.step lib a = some t') :
    Reported lib t r hooks policy t' := by
  unfold step at h
  rw [hc] at h
  exact report_cases (Option.some.inj h)

/-- A step of a thread, by what the thread does next. -/
inductive Stepped (lib : Library σ) (t : Turn σ) (a : Actor) : Turn σ → Prop
  | run {p : Program σ Value} {s : Setting σ} {t' : Turn σ} (hc : t.control = .run p s)
      (h : Ran lib t a s p t') : Stepped lib t a t'
  | give {v : Value} {left : Local} {t' : Turn σ} (hc : t.control = .give v left)
      (h : Given lib t a v left t') : Stepped lib t a t'
  | unwind {f : Failure} {t' : Turn σ} (hc : t.control = .unwind f) (h : Unwound t f t') :
      Stepped lib t a t'
  | await {registry : RegistryId} {entry : EntryId} {q : Request} {t' : Turn σ}
      (hc : t.control = .await registry entry q) (h : Waited t a registry entry q t') :
      Stepped lib t a t'
  | allocated {al : Allocation} {t' : Turn σ} (hc : t.control = .allocated al)
      (h : Allocated lib t a al t') : Stepped lib t a t'
  | begin {d : Drive} {t' : Turn σ} (hc : t.control = .begin d) (h : Begun lib t d t') :
      Stepped lib t a t'
  | lay {w : FieldWalk σ} {t' : Turn σ} (hc : t.control = .lay w) (h : FieldLaid t a w t') :
      Stepped lib t a t'
  | measure {w : ElementWalk} {t' : Turn σ} (hc : t.control = .measure w)
      (h : ElementMeasured t w t') : Stepped lib t a t'
  | publish {d : Drive} {o : StepOutcome} {t' : Turn σ} (hc : t.control = .publish d o)
      (h : Published t d o t') : Stepped lib t a t'
  | release {d : Drive} {dep : Option Dependency} {ready : List Waiter} {t' : Turn σ}
      (hc : t.control = .release d dep ready) (h : Released t a d dep ready t') :
      Stepped lib t a t'
  | stopped {d : Drive} {dep : Dependency} {t' : Turn σ} (hc : t.control = .stopped d dep)
      (h : Stopped t a d dep t') : Stepped lib t a t'
  | enqueue {d : Drive} {dep : Dependency} {t' : Turn σ} (hc : t.control = .enqueue d dep)
      (h : Enqueued t a d dep t') : Stepped lib t a t'
  | acquire {j : TableJob} {arguments : List TableId} {t' : Turn σ}
      (hc : t.control = .acquire j arguments) (h : Acquired lib t a j arguments t') :
      Stepped lib t a t'
  | standBy {j : NameJob} {heard : Nat} {t' : Turn σ} (hc : t.control = .standBy j heard)
      (h : StoodBy t j heard t') : Stepped lib t a t'
  | report {r : Report} {hooks : List HookId} {policy : FaultPolicy} {t' : Turn σ}
      (hc : t.control = .report r hooks policy) (h : Reported lib t r hooks policy t') :
      Stepped lib t a t'

/-- Every step is that of the control, and comes to what is on its list. -/
theorem step_cases (h : t.step lib a = some t') : Stepped lib t a t' := by
  cases hc : t.control with
  | run p s => exact .run hc (step_run hc h)
  | give v left => exact .give hc (step_give hc h)
  | unwind f => exact .unwind hc (step_unwind hc h)
  | await registry entry q => exact .await hc (step_await hc h)
  | allocated al => exact .allocated hc (step_allocated hc h)
  | begin d => exact .begin hc (step_begin hc h)
  | lay w => exact .lay hc (step_lay hc h)
  | measure w => exact .measure hc (step_measure hc h)
  | publish d o => exact .publish hc (step_publish hc h)
  | release d dep ready => exact .release hc (step_release hc h)
  | stopped d dep => exact .stopped hc (step_stopped hc h)
  | enqueue d dep => exact .enqueue hc (step_enqueue hc h)
  | acquire j arguments => exact .acquire hc (step_acquire hc h)
  | standBy j heard => exact .standBy hc (step_standBy hc h)
  | report r hooks policy => exact .report hc (step_report hc h)
  | ended =>
      unfold step at h
      rw [hc] at h
      cases h

end Turn

end TypeRecords
