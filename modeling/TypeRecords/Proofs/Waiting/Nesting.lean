/-
How work nests.

A thread's control and its frames are each in the middle of something: of
work on an entry, for the request that started it (`owes`); of a request
(`bound`); of a layout, which may or may not come to look at entries; or of
nothing a registry was asked for (`free`).
`Turn.Moves` says how a step changes the stack in these terms, and what
callbacks are allowed to do then decides which stacks there can be:

- if no request is made while a record is being instantiated, then nothing
  but callbacks and layouts is ever found above an allocation
  (`Moves.clear`);
- if callbacks never wait, then work for a request that waits is outermost,
  with no other entry held below it (`Moves.outermost`).
-/
import TypeRecords.Proofs.Ownership.Step

namespace TypeRecords

variable {σ : Type}

-- ====================================================== duties

/-- What a control or a frame is in the middle of. -/
inductive Duty
  /-- Nothing that a registry was asked for. -/
  | free
  /-- A layout. -/
  | layout
  /-- A request. -/
  | bound
  /-- Work on an entry, for a request. -/
  | owes (q : Request)

/-- Whether there is a request that it is for. -/
def Duty.asked : Duty → Bool
  | .free => false
  | .layout => false
  | .bound => true
  | .owes _ => true

/-- To be in the middle of nothing, or of the same. -/
def Duty.Within (d d' : Duty) : Prop := d = .free ∨ d = d'

/-- What a thread is in the middle of by what it does next. -/
def Control.duty : Control σ → Duty
  | .await .. => .bound
  | .lay _ => .layout
  | .allocated a => .owes a.request
  | .begin d => .owes d.request
  | .measure w => .owes w.drive.request
  | .publish d _ => .owes d.request
  | .release d _ _ => .owes d.request
  | .stopped d _ => .owes d.request
  | .enqueue d _ => .owes d.request
  | _ => .free

/-- What a thread is in the middle of by what it comes back to. -/
def Frame.duty : Frame σ → Duty
  | .forResponse .. => .bound
  | .forLayout .. => .layout
  | .laying _ => .layout
  | .allocating a => .owes a.request
  | .stepping d => .owes d.request
  | .measuring w => .owes w.drive.request
  | .relying d => .owes d.request
  | .releasing d _ _ => .owes d.request
  | _ => .free

/-- The entry that a thread wants, and how it wants it. -/
def Control.wants? : Control σ → Option (EntryId × Request)
  | .await _ e q => some (e, q)
  | _ => none

/-- Who wants no entry is not waiting for one. -/
theorem Control.ne_await {c : Control σ} (h : c.wants? = none) (r : RegistryId) (e : EntryId)
    (q : Request) : c ≠ .await r e q := by
  rintro rfl
  cases h

/-- Who wants an entry is waiting for it. -/
theorem Control.await_of_wants {c : Control σ} {e : EntryId} {q : Request}
    (h : c.wants? = some (e, q)) : ∃ r, c = .await r e q := by
  unfold wants? at h
  split at h
  · cases h
    exact ⟨_, rfl⟩
  · cases h

/-- Whether a frame is the allocation of a record. -/
def Frame.allocates : Frame σ → Bool
  | .allocating _ => true
  | _ => false

/-- Whether the record of a field is looked up by the layout itself. -/
def FieldType.consults : FieldType σ → Bool
  | .computed _ => false
  | _ => true

/-- Whether a layout is about to look a record up. -/
def FieldWalk.consults (w : FieldWalk σ) : Bool :=
  match w.todo with
  | [] => false
  | field :: _ => field.type.consults

-- ====================================================== moves

/-- How a step changes the stack. Where the step does not look an entry up, it
does not come to wait for one. -/
inductive Turn.Moves (t t' : Turn σ) : Prop
  /-- The frames stay. -/
  | stay (hf : t'.frames = t.frames) (hd : t'.control.duty.Within t.control.duty)
      (hno : t'.control.wants? = none)
  /-- The topmost frame goes on. -/
  | back {f : Frame σ} (hf : t.frames = f :: t'.frames) (hd : t'.control.duty.Within f.duty)
      (howes : ∀ q, f.duty = .owes q → t'.control.duty = .owes q)
      (hno : t'.control.wants? = none)
  /-- Work is interrupted for something below it, which is not allowed to
  wait. -/
  | deeper {f : Frame σ} (hf : t'.frames = f :: t.frames) (hn : f.allocates = false)
      (hd : f.duty = t.control.duty)
      (hd' : t'.control.duty = .free ∨ t'.control.duty = .layout
        ∨ t'.control.duty = .owes (.poll .complete) ∧ t.control.duty.asked = true)
      (hno : t'.control.wants? = none)
  /-- Work is interrupted to look at an entry. Only an initialization that has
  been stopped waits for it, after its chain was found not to close. -/
  | look {f : Frame σ} {registry : RegistryId} {record : RecordId} {q : Request} {e : EntryId}
      (hf : t'.frames = f :: t.frames) (hn : f.allocates = false)
      (hd : f.duty = t.control.duty)
      (hasked : t.control.duty.asked = true ∨ ∃ w, t.control = .lay w ∧ w.consults = true)
      (hc' : t'.control = .await registry e q)
      (he : t.store.entryOf? registry record = some e) (ha : t.store.Alike t'.store)
      (hw : q.waits = true → ∃ d dep, t.control = .stopped d dep ∧ d.registry = registry
        ∧ dep.target = record ∧ dep.required = q.stage ∧ d.request.waits = true
        ∧ t.store.cycle? registry d.record dep = none)
  /-- Something is begun that is no work on entries. -/
  | aside (fs : List (Frame σ)) (hf : t'.frames = fs ++ t.frames)
      (hfree : ∀ f ∈ fs, f.duty = .free) (hd : t'.control.duty = .free)
  /-- A request finds its entry, or makes one. -/
  | request {registry : RegistryId} {q : Request} {c : Call} {k : Response → Program σ Value}
      {s : Setting σ} (hc : t.control = .run (.request registry q c k) s)
      (hf : t'.frames = .forResponse k s :: t.frames)
      (hd : t'.control.duty = .bound ∨ t'.control.duty.Within (.owes q))
      (hlook : ∀ r e q', t'.control = .await r e q' →
        q' = q ∧ e < t.store.entries.size ∧ t.store.Alike t'.store)
  /-- A request makes an entry, and the instantiation callback runs. -/
  | instantiate {registry : RegistryId} {q : Request} {c : Call} {k : Response → Program σ Value}
      {s : Setting σ} {al : Allocation} (hc : t.control = .run (.request registry q c k) s)
      (hf : t'.frames = .allocating al :: .forResponse k s :: t.frames) (hal : al.request = q)
      (hd : t'.control.duty = .free)
  /-- A layout is begun. -/
  | layout {registry : RegistryId} {record : RecordId} {words : Scratch}
      {k : Option Dependency → Scratch → Program σ Value} {s : Setting σ}
      (hc : t.control = .run (.structLayout registry record words k) s)
      (hf : t'.frames = .forLayout k s :: t.frames) (hd : t'.control.duty.Within .layout)
      (hno : t'.control.wants? = none)
  /-- Something unwinds. -/
  | disturbed (hd : t.control.disturbed ∨ t'.control.disturbed)

namespace Turn

variable {lib : Library σ} {a : Actor} {t t' : Turn σ}

/-- A record is looked up, or there is nothing to look at. -/
theorem consult_cases (t : Turn σ) (registry : RegistryId) (q : Request) (record : RecordId) :
    (∃ e, t.store.entryOf? registry record = some e
        ∧ t.consult registry q record = t.goto (.await registry e q))
      ∨ t.consult registry q record = t.respond (.finished record) := by
  unfold consult
  cases he : t.store.entryOf? registry record with
  | some e => exact .inl ⟨e, rfl, rfl⟩
  | none => exact .inr rfl

/-- The beginning of a layout is in the middle of one, or over already. -/
theorem startLayout_duty (lib : Library σ) (t : Turn σ) (registry : RegistryId)
    (record : RecordId) (scratch : Scratch) :
    (t.startLayout lib registry record scratch).control.duty.Within .layout
      ∧ (t.startLayout lib registry record scratch).control.wants? = none := by
  unfold startLayout
  split
  · exact ⟨.inl rfl, rfl⟩
  · exact ⟨.inr rfl, rfl⟩

/-- A handler is in the middle of nothing. -/
theorem handle_duty (t : Turn σ) (f : Failure) (s : Setting σ) :
    (t.handle f s).control.duty = .free := by
  unfold handle
  split <;> rfl

/-- Where only frames and a free control matter, a step is set aside. -/
theorem moves_aside (hf : t'.frames = t.frames) (hd : t'.control.duty = .free) : Moves t t' :=
  .aside [] hf (fun _ h => by cases h) hd

/-- Work that is interrupted to look a record up, without waiting for it. -/
theorem poll_moves (u : Turn σ) {f : Frame σ} (hf : u.frames = f :: t.frames)
    (ha : t.store.Alike u.store) (hn : f.allocates = false) (hd : f.duty = t.control.duty)
    (hasked : t.control.duty.asked = true ∨ ∃ w, t.control = .lay w ∧ w.consults = true)
    (registry : RegistryId) (stage : Stage) (record : RecordId) :
    Moves t (u.consult registry (.poll stage) record) := by
  rcases consult_cases u registry (.poll stage) record with ⟨e, he, hu⟩ | hu
  · rw [hu]
    exact .look hf hn hd hasked rfl (by rw [← ha.entryOf?]; exact he) ha nofun
  · rw [hu]
    exact .deeper hf hn hd (.inl rfl) rfl

-- ====================================================== programs

/-- A request that finds its entry comes to wait for it. -/
theorem hit_moves {registry : RegistryId} {q : Request} {c : Call}
    {k : Response → Program σ Value} {s : Setting σ} {key : Key} {entry : EntryId}
    (hc : t.control = .run (.request registry q c k) s)
    (hfound : t.store.find? registry key = some entry) :
    Moves t ({ t with frames := .forResponse k s :: t.frames }.hit registry entry q) := by
  refine .request hc rfl (.inl rfl) fun r e q' hc' => ?_
  cases hc'
  obtain ⟨x, hx, -⟩ := Store.find?_some hfound
  exact ⟨rfl, (Array.getElem?_eq_some_iff.mp hx).1, ⟨rfl, rfl⟩⟩

/-- A call to a registry finds an entry, makes one, or makes one and runs a callback. -/
theorem request_moves {registry : RegistryId} {q : Request} {c : Call}
    {k : Response → Program σ Value} {s : Setting σ}
    (hc : t.control = .run (.request registry q c k) s)
    (h : Requested lib { t with frames := .forResponse k s :: t.frames } a registry q c t') :
    Moves t t' := by
  have hidle : ∀ {u : Turn σ}, u.control.wants? = none → ∀ r e q', u.control = .await r e q' →
      q' = q ∧ e < t.store.entries.size ∧ t.store.Alike u.store := fun hno r e q' hc' =>
    (Control.ne_await hno r e q' hc').elim
  cases h with
  | @check record =>
      rcases consult_cases { t with frames := .forResponse k s :: t.frames } registry q record
        with ⟨e, he, hu⟩ | hu
      · rw [hu]
        refine .request hc rfl (.inl rfl) fun r e' q' hc' => ?_
        cases hc'
        obtain ⟨x, hx, -⟩ := Store.entryOf?_some he
        exact ⟨rfl, (Array.getElem?_eq_some_iff.mp hx).1, .refl _⟩
      · rw [hu]
        exact .request hc rfl (.inr (.inl rfl)) (hidle rfl)
  | empty => exact .request hc rfl (.inr (.inl rfl)) (hidle rfl)
  | miscount => exact .disturbed (.inr rfl)
  | hit _ hfound => exact hit_moves hc hfound
  | create => exact .request hc rfl (.inr (.inr rfl)) (hidle rfl)
  | instantiate => exact .instantiate hc rfl rfl rfl

/-- Nobody asks for a name in the middle of a request. -/
theorem askName_duty (t : Turn σ) (j : NameJob) (r : Registry) :
    (t.askName j r).control.duty = .free := by
  unfold askName
  split <;> rfl

/-- A request for a canonical record begins nothing that works on entries. -/
theorem requestName_moves {registry : RegistryId} {candidate : CandidateId}
    (h : NameRequested lib t registry candidate t') :
    ∃ fs, t'.frames = fs ++ t.frames ∧ (∀ f ∈ fs, f.duty = .free) ∧ t'.control.duty = .free := by
  have hnone : ∀ f ∈ ([] : List (Frame σ)), f.duty = .free := fun _ h => by cases h
  cases h with
  | known => exact ⟨[], rfl, hnone, rfl⟩
  | ask => exact ⟨[], askName_frames .., hnone, askName_duty ..⟩
  | register => exact ⟨[], rfl, hnone, rfl⟩
  | found => exact ⟨[_], rfl, fun f hf => by rw [List.mem_singleton.mp hf]; rfl, rfl⟩

/-- Neither does a request for a witness table, which takes no frame. -/
theorem requestTable_moves {registry : RegistryId} {conformance : ConformanceId}
    {conforming : RecordId} {arguments : List TableId}
    (h : TableRequested lib t registry conformance conforming arguments t') :
    t'.frames = t.frames ∧ t'.control.duty = .free := by
  cases h <;> exact ⟨rfl, rfl⟩

/-- A program moves the stack by what it calls. -/
theorem run_moves {p : Program σ Value} {s : Setting σ} (hc : t.control = .run p s)
    (h : Ran lib t a s p t') : Moves t t' := by
  have hhandle : ∀ f, Moves t (t.handle f s) := fun f =>
    moves_aside (handle_frames t f s) (handle_duty t f s)
  cases h with
  | request h => exact request_moves hc h
  | fail => exact hhandle _
  | refuse => exact hhandle _
  | @structLayout registry record words k =>
      obtain ⟨hd, hno⟩ := startLayout_duty lib
        { t with frames := .forLayout k s :: t.frames } registry record words
      exact .layout hc (startLayout_frames ..) hd hno
  | @table _ _ _ _ k _ h =>
      obtain ⟨hf, hd⟩ := requestTable_moves h
      exact .aside [.forTable k s] hf
        (fun f hf => by rw [List.mem_singleton.mp hf]; rfl) hd
  | @canonical _ _ k _ h =>
      obtain ⟨fs, hf, hfree, hd⟩ := requestName_moves h
      refine .aside (fs ++ [.forRecord k s]) (by rw [hf, List.append_assoc]; rfl)
        (fun f hm => ?_) hd
      rcases List.mem_append.mp hm with hm | hm
      · exact hfree f hm
      · rw [List.mem_singleton.mp hm]
        rfl
  | raise => exact .disturbed (.inr rfl)
  | _ => exact moves_aside rfl rfl

-- ====================================================== the other controls

/-- What is handed over lets the topmost frame go on. -/
theorem give_moves {v : Value} {left : Local} (h : Given lib t a v left t') : Moves t t' := by
  cases h with
  | ended => exact moves_aside rfl rfl
  | response hf => exact .back hf (.inl rfl) nofun rfl
  | layout hf => exact .back hf (.inl rfl) nofun rfl
  | table hf => exact .back hf (.inl rfl) nofun rfl
  | record hf => exact .back hf (.inl rfl) nofun rfl
  | allocated hf => exact .back hf (.inr rfl) (fun _ hq => hq) rfl
  | @stepped d rest dep left hf =>
      obtain ⟨words, o, hst, -⟩ := stepped_spec { t with frames := rest } d dep left
      rw [hst]
      exact .back hf (.inr rfl) (fun _ hq => hq) rfl
  | laid hf =>
      unfold laid
      split
      · exact .back hf (.inl rfl) nofun rfl
      · exact .back hf (.inr rfl) nofun rfl
  | measured hf =>
      unfold measured
      split
      · split <;> exact .back hf (.inr rfl) (fun _ hq => hq) rfl
      · exact .back hf (.inr rfl) (fun _ hq => hq) rfl
  | relied hf => exact .back hf (.inr rfl) (fun _ hq => hq) rfl
  | released hf => exact .back hf (.inr rfl) (fun _ hq => hq) rfl
  | filled hf h =>
      cases h with
      | lack => exact .disturbed (.inr rfl)
      | table => exact .back hf (.inl rfl) nofun rfl
  | founded hf => exact .back hf (.inl rfl) nofun rfl
  | reported hf => exact .disturbed (.inr rfl)

/-- A layout is interrupted for the record of a field, or to compute it. -/
theorem lay_moves {w : FieldWalk σ} (hc : t.control = .lay w) (h : FieldLaid t a w t') :
    Moves t t' := by
  have hlayout : Duty.layout = t.control.duty := by rw [hc]; rfl
  cases h with
  | done => exact moves_aside rfl rfl
  | @consult field rest record htodo hrecord =>
      have hconsults : w.consults = true := by
        unfold FieldWalk.consults
        rw [htodo]
        rcases hrecord with htype | ⟨index, htype, -⟩ <;> exact congrArg FieldType.consults htype
      exact poll_moves (f := .laying w) { t with frames := .laying w :: t.frames } rfl (.refl _)
        rfl hlayout (.inr ⟨w, hc, hconsults⟩) ..
  | compute => exact .deeper rfl rfl hlayout (.inl rfl) rfl
  | lack => exact .disturbed (.inr rfl)

/-- A completion step is interrupted for what it runs, or has nothing to run. -/
theorem begin_moves {d : Drive} (hc : t.control = .begin d) (h : Begun lib t d t') :
    Moves t t' := by
  have howes : Duty.owes d.request = t.control.duty := by rw [hc]; rfl
  cases h with
  | measure => exact .stay rfl (.inr howes) rfl
  | close => exact .stay rfl (.inr howes) rfl
  | layout =>
      obtain ⟨hd, hno⟩ := startLayout_duty lib
        { t with
          store := t.store.note d.registry fun l => { l with steps := l.steps + 1 }
          frames := .stepping d :: t.frames } d.registry d.record d.scratch
      exact .deeper (startLayout_frames ..) rfl howes (hd.imp_right .inl) hno
  | callback => exact .deeper rfl rfl howes (.inl rfl) rfl

/-- The step of a tuple is interrupted for each of its elements. -/
theorem measure_moves {w : ElementWalk} (hc : t.control = .measure w)
    (h : ElementMeasured t w t') : Moves t t' := by
  have howes : Duty.owes w.drive.request = t.control.duty := by rw [hc]; rfl
  cases h with
  | done => exact .stay rfl (.inr howes) rfl
  | consult =>
      exact poll_moves (f := .measuring w) { t with frames := .measuring w :: t.frames } rfl
        (.refl _) rfl howes (.inl (by rw [hc]; rfl)) ..

/-- An initialization is interrupted for each waiter that it lets go. -/
theorem release_moves {d : Drive} {dep : Option Dependency} {ready : List Waiter}
    (hc : t.control = .release d dep ready) (h : Released t a d dep ready t') : Moves t t' := by
  have howes : Duty.owes d.request = t.control.duty := by rw [hc]; rfl
  cases h with
  | resume => exact .deeper rfl rfl howes (.inr (.inr ⟨rfl, by rw [hc]; rfl⟩)) rfl
  | forget => exact .deeper rfl rfl howes (.inl rfl) rfl
  | stop => exact .stay rfl (.inr howes) rfl
  | finish => exact moves_aside rfl rfl
  | again => exact .stay rfl (.inr howes) rfl

/-- What has been stopped waits, after its chain was found not to close, or goes on to be
parked. -/
theorem stopped_moves {d : Drive} {dep : Dependency} (hc : t.control = .stopped d dep)
    (h : Stopped t a d dep t') : Moves t t' := by
  have howes : Duty.owes d.request = t.control.duty := by rw [hc]; rfl
  cases h with
  | cycle => exact .disturbed (.inr rfl)
  | rely hopen hwaits =>
      have hnote :=
        t.store.alike_note d.registry fun l => { l with dependencies := l.dependencies + 1 }
      rcases consult_cases
          { t with
            store := t.store.note d.registry fun l => { l with dependencies := l.dependencies + 1 }
            frames := .relying d :: t.frames } d.registry (.blocking dep.required) dep.target
        with ⟨e, he, hu⟩ | hu
      · rw [hu]
        exact .look rfl rfl howes (.inl (by rw [hc]; rfl)) rfl
          (by rw [← hnote.entryOf?]; exact he) hnote
          fun _ => ⟨d, dep, hc, rfl, rfl, rfl, hwaits.1, hopen⟩
      · rw [hu]
        exact .deeper rfl rfl howes (.inl rfl) rfl
  | suspend => exact .stay rfl (.inr howes) rfl

/-- What is parked is given up for now, or taken up again. -/
theorem enqueue_moves {d : Drive} {dep : Dependency} (hc : t.control = .enqueue d dep)
    (h : Enqueued t a d dep t') : Moves t t' := by
  have howes : Duty.owes d.request = t.control.duty := by rw [hc]; rfl
  cases h with
  | park => exact moves_aside rfl rfl
  | reclaim => exact .stay rfl (.inr howes) rfl
  | strand => exact moves_aside rfl rfl

/-- An attempt at a witness table is no work on entries. -/
theorem acquire_moves {j : TableJob} {arguments : List TableId}
    (h : Acquired lib t a j arguments t') : Moves t t' := by
  have hfilling : ∀ f ∈ [Frame.filling (σ := σ) j], f.duty = .free := fun f hf => by
    rw [List.mem_singleton.mp hf]
    rfl
  cases h with
  | full => exact moves_aside rfl rfl
  | instantiate => exact .aside [.filling j] rfl hfilling rfl
  | copy => exact .aside [.filling j] rfl hfilling rfl

/-- Every step changes the stack in one of these ways. -/
theorem step_moves (h : t.step lib a = some t') : Moves t t' := by
  cases step_cases h with
  | run hc h => exact run_moves hc h
  | give hc h => exact give_moves h
  | unwind hc => exact .disturbed (.inl (by rw [hc]; rfl))
  | await hc h =>
      cases h with
      | answer => exact moves_aside rfl rfl
      | reentrant => exact .disturbed (.inr rfl)
  | allocated hc h =>
      cases h with
      | finish => exact moves_aside rfl rfl
      | begin => exact .stay rfl (.inr (by rw [hc]; rfl)) rfl
  | begin hc h => exact begin_moves hc h
  | lay hc h => exact lay_moves hc h
  | measure hc h => exact measure_moves hc h
  | publish hc h => cases h; exact .stay rfl (.inr (by rw [hc]; rfl)) rfl
  | release hc h => exact release_moves hc h
  | stopped hc h => exact stopped_moves hc h
  | enqueue hc h => exact enqueue_moves hc h
  | acquire hc h => exact acquire_moves h
  | standBy hc h => cases h; exact moves_aside (askName_frames ..) (askName_duty ..)
  | report hc => exact .disturbed (.inl (by rw [hc]; rfl))

-- ====================================================== disciplines

/-- The step keeps to one registry, requests nothing and looks no field up
while a record is being instantiated, and does not unwind. -/
def orderly (registry : RegistryId) (t : Turn σ) : Bool :=
  match t.control with
  | .run (.request r ..) _ => r == registry && t.frames.all (!·.allocates)
  | .lay w => !w.consults || t.frames.all (!·.allocates)
  | c => !c.disturbed

/-- The step does not wait for a record unless it is a program's own step,
outside of all callbacks. -/
def polite (t : Turn σ) : Bool :=
  match t.control with
  | .run (.request _ q ..) _ => t.frames.isEmpty || !q.waits
  | _ => true

/-- Orderly steps are not those of an unwinding thread. -/
theorem calm_of_orderly {registry : RegistryId} (h : t.orderly registry = true) :
    t.control.disturbed = false := by
  unfold orderly at h
  split at h
  · rename_i hc
    rw [hc]
    rfl
  · rename_i hc
    rw [hc]
    rfl
  · simpa using h

/-- An orderly request is made to the registry, and not during an instantiation. -/
theorem orderly_request {registry registry' : RegistryId} {q : Request} {c : Call}
    {k : Response → Program σ Value} {s : Setting σ} (h : t.orderly registry = true)
    (hc : t.control = .run (.request registry' q c k) s) :
    registry' = registry ∧ ∀ f ∈ t.frames, f.allocates = false := by
  unfold orderly at h
  rw [hc] at h
  simpa using h

/-- An orderly layout looks no record up during an instantiation. -/
theorem orderly_lay {registry : RegistryId} {w : FieldWalk σ} (h : t.orderly registry = true)
    (hc : t.control = .lay w) (hw : w.consults = true) : ∀ f ∈ t.frames, f.allocates = false := by
  unfold orderly at h
  rw [hc] at h
  simpa [hw] using h

/-- A polite request waits only outside of all callbacks. -/
theorem polite_request {registry : RegistryId} {q : Request} {c : Call}
    {k : Response → Program σ Value} {s : Setting σ} (h : t.polite = true)
    (hc : t.control = .run (.request registry q c k) s) : t.frames = [] ∨ q.waits = false := by
  unfold polite at h
  rw [hc] at h
  simpa using h

-- ====================================================== stacks

/-- `R` holds of the control and of every frame, each with what is below it. -/
def Stacked (R : Duty → List (Frame σ) → Prop) (t : Turn σ) : Prop :=
  R t.control.duty t.frames
    ∧ ∀ (above : List (Frame σ)) (f : Frame σ) (below : List (Frame σ)),
      t.frames = above ++ f :: below → R f.duty below

/-- What holds of a frame and of those below it holds of all. -/
theorem stacked_cons {R : Duty → List (Frame σ) → Prop} {f : Frame σ} {fs : List (Frame σ)}
    (hf : R f.duty fs)
    (hfs : ∀ (above : List (Frame σ)) (g : Frame σ) (below : List (Frame σ)),
      fs = above ++ g :: below → R g.duty below)
    (above : List (Frame σ)) (g : Frame σ) (below : List (Frame σ))
    (h : f :: fs = above ++ g :: below) : R g.duty below := by
  cases above with
  | nil =>
      obtain ⟨rfl, rfl⟩ := List.cons.inj h
      exact hf
  | cons x above =>
      obtain ⟨rfl, h'⟩ := List.cons.inj h
      exact hfs above g below h'

/-- Below what is for a request there is no allocation. -/
def Clear (d : Duty) (below : List (Frame σ)) : Prop :=
  d.asked = true → ∀ f ∈ below, f.allocates = false

/-- Work for a request that waits has no other entry held below it. -/
def Outermost (i : ThreadId) (d : Duty) (below : List (Frame σ)) : Prop :=
  ∀ q, d = .owes q → q.waits = true → framesHold i below = []

/-- What is for nothing, or for the same, has no allocation below it either. -/
theorem clear_within {d d' : Duty} {below : List (Frame σ)} (h : d.Within d')
    (hc : Clear d' below) : Clear d below := by
  rcases h with rfl | rfl
  · exact fun hasked => by cases hasked
  · exact hc

/-- What is for nothing, or for the same, is as far out. -/
theorem outermost_within {i : ThreadId} {d d' : Duty} {below : List (Frame σ)} (h : d.Within d')
    (hc : Outermost i d' below) : Outermost i d below := by
  rcases h with rfl | rfl
  · exact fun q hq => by cases hq
  · exact hc

/-- Orderly steps leave no allocation below anything but callbacks and
layouts. -/
theorem Moves.clear {registry : RegistryId} (h : Moves t t') (ho : t.orderly registry = true)
    (hcalm : t'.control.disturbed = false) (hs : t.Stacked Clear) : t'.Stacked Clear := by
  obtain ⟨hcontrol, hframes⟩ := hs
  have hnone : ∀ {d : Duty} (below : List (Frame σ)), d.asked = false → Clear d below :=
    fun _ hno hasked => (Bool.eq_false_iff.mp hno hasked).elim
  -- something is put on the stack above which nobody allocates
  have hpush : ∀ {f : Frame σ}, t'.frames = f :: t.frames → f.allocates = false →
      Clear f.duty t.frames → (∀ g ∈ t.frames, g.allocates = false) → t'.Stacked Clear := by
    intro f hf hn hclear hbelow
    refine ⟨fun _ g hg => ?_, ?_⟩
    · rw [hf] at hg
      rcases List.mem_cons.mp hg with rfl | hg
      · exact hn
      · exact hbelow g hg
    · rw [hf]
      exact stacked_cons hclear hframes
  cases h with
  | stay hf hd hno => exact ⟨hf ▸ clear_within hd hcontrol, hf ▸ hframes⟩
  | @back f hf hd howes hno =>
      refine ⟨clear_within hd (hframes [] f _ hf), fun above g below hg => ?_⟩
      exact hframes (f :: above) g below (by rw [hf, hg]; rfl)
  | deeper hf hn hd hd' hno =>
      have hfree : t'.control.duty.asked = false → t'.Stacked Clear := fun hno =>
        ⟨hnone _ hno, by rw [hf]; exact stacked_cons (hd ▸ hcontrol) hframes⟩
      rcases hd' with hd' | hd' | ⟨-, hasked⟩
      · exact hfree (by rw [hd']; rfl)
      · exact hfree (by rw [hd']; rfl)
      · exact hpush hf hn (hd ▸ hcontrol) (hcontrol hasked)
  | look hf hn hd hasked hc' he ha hw =>
      refine hpush hf hn (hd ▸ hcontrol) ?_
      rcases hasked with hasked | ⟨w, hc, hconsults⟩
      · exact hcontrol hasked
      · exact orderly_lay ho hc hconsults
  | request hc hf hd hlook =>
      have hclear := (orderly_request ho hc).2
      exact hpush hf rfl (fun _ => hclear) hclear
  | layout hc hf hd hno =>
      refine ⟨clear_within hd (hnone _ rfl), ?_⟩
      rw [hf]
      exact stacked_cons (hnone _ rfl) hframes
  | instantiate hc hf hal hd =>
      have hclear := (orderly_request ho hc).2
      refine ⟨hnone _ (by rw [hd]; rfl), ?_⟩
      rw [hf]
      refine stacked_cons (fun _ g hg => ?_) (stacked_cons (fun _ => hclear) hframes)
      rcases List.mem_cons.mp hg with rfl | hg
      · rfl
      · exact hclear g hg
  | aside fs hf hfree hd =>
      refine ⟨hnone _ (by rw [hd]; rfl), ?_⟩
      rw [hf]
      clear hf
      induction fs with
      | nil => exact hframes
      | cons f fs ih =>
          refine stacked_cons (hnone _ ?_) (ih fun g hg => hfree g (List.mem_cons_of_mem _ hg))
          rw [hfree f List.mem_cons_self]
          rfl
  | disturbed hd => simp [calm_of_orderly ho, hcalm] at hd

/-- Polite steps leave work for requests that wait outermost. -/
theorem Moves.outermost {registry : RegistryId} {i : ThreadId} (h : Moves t t')
    (ho : t.orderly registry = true) (hp : t.polite = true)
    (hcalm : t'.control.disturbed = false) (hs : t.Stacked (Outermost i)) :
    t'.Stacked (Outermost i) := by
  obtain ⟨hcontrol, hframes⟩ := hs
  have hnone : ∀ {d : Duty} (below : List (Frame σ)), (∀ q, d ≠ .owes q) → Outermost i d below :=
    fun _ hne q hq _ => (hne q hq).elim
  -- a request that waits is made on the empty stack
  have hrequest : ∀ {registry : RegistryId} {q : Request} {c : Call}
      {k : Response → Program σ Value} {s : Setting σ},
      t.control = .run (.request registry q c k) s →
      Outermost i (.owes q) (.forResponse k s :: t.frames) := by
    intro registry q c k s hc q' hq' hw
    cases hq'
    rcases polite_request hp hc with hempty | hpoll
    · rw [hempty]
      rfl
    · rw [hpoll] at hw
      cases hw
  cases h with
  | stay hf hd hno => exact ⟨hf ▸ outermost_within hd hcontrol, hf ▸ hframes⟩
  | @back f hf hd howes hno =>
      refine ⟨outermost_within hd (hframes [] f _ hf), fun above g below hg => ?_⟩
      exact hframes (f :: above) g below (by rw [hf, hg]; rfl)
  | deeper hf hn hd hd' hno =>
      refine ⟨fun q hq hw => ?_, ?_⟩
      · rcases hd' with hd' | hd' | ⟨hd', -⟩ <;> rw [hd'] at hq <;> cases hq
        cases hw
      · rw [hf]
        exact stacked_cons (hd ▸ hcontrol) hframes
  | look hf hn hd hasked hc' he ha hw =>
      refine ⟨hnone _ (by rw [hc']; nofun), ?_⟩
      rw [hf]
      exact stacked_cons (hd ▸ hcontrol) hframes
  | aside fs hf hfree hd =>
      refine ⟨hnone _ (by rw [hd]; exact nofun), ?_⟩
      rw [hf]
      clear hf
      induction fs with
      | nil => exact hframes
      | cons f fs ih =>
          refine stacked_cons (hnone _ ?_) (ih fun g hg => hfree g (List.mem_cons_of_mem _ hg))
          rw [hfree f List.mem_cons_self]
          exact nofun
  | request hc hf hd hlook =>
      refine ⟨?_, ?_⟩
      · rcases hd with hd | hd
        · exact hnone _ (by rw [hd]; exact nofun)
        · exact hf ▸ outermost_within hd (hrequest hc)
      · rw [hf]
        exact stacked_cons (hnone _ nofun) hframes
  | instantiate hc hf hal hd =>
      refine ⟨hnone _ (by rw [hd]; exact nofun), ?_⟩
      rw [hf]
      refine stacked_cons ?_ (stacked_cons (hnone _ nofun) hframes)
      show Outermost i (.owes _) _
      rw [hal]
      exact hrequest hc
  | layout hc hf hd hno =>
      refine ⟨outermost_within hd (hnone _ nofun), ?_⟩
      rw [hf]
      exact stacked_cons (hnone _ nofun) hframes
  | disturbed hd => simp [calm_of_orderly ho, hcalm] at hd

end Turn

end TypeRecords
