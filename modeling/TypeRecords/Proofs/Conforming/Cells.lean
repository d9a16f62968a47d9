/-
What a step does to witness tables.

A registry has a cell for each conformance and type whose table somebody has
asked for. The cell is there before the table is: it is `building` while an
attempt is under way, which waits in a frame of the thread that makes it, and it
is empty again if the attempt unwinds. Most steps touch neither cells nor tables.
`Turn.Builds` lists the others, with what they do to both (`Turn.step_builds`): a
request comes to its cell; it takes the table from a full cell, or begins an
attempt on an empty one; and an attempt succeeds or fails. A step that does
nothing of the kind leaves the attempts of its thread as they are, which is read
off the stack (`Turn.attempts_eq`), so there is only the store to look at.
-/
import TypeRecords.Proofs.Process.Frames
import TypeRecords.Proofs.Process.Records

namespace TypeRecords

variable {σ : Type}

-- ====================================================== keys

/-- What a witness table is for. -/
structure TableKey where
  registry : RegistryId
  conformance : ConformanceId
  conforming : RecordId
  deriving DecidableEq

/-- What the table of a cell is for. -/
def Cell.key (c : Cell) : TableKey := ⟨c.registry, c.conformance, c.conforming⟩

/-- What the table of an attempt is for. -/
def TableJob.key (j : TableJob) : TableKey := ⟨j.registry, j.conformance, j.conforming⟩

/-- Whether each type has a table of its own by a conformance, so that it is not
the pattern that serves all of them. -/
def Library.isOwn (lib : Library σ) (c : ConformanceId) : Bool :=
  (lib.conformances[c]?).any fun c => !lib.isTrivial c

/-- Whether tables are own is up to the conformance, if there is one. -/
theorem Library.isOwn_eq {lib : Library σ} {c : ConformanceId} {conformance : Conformance σ}
    (h : lib.conformances[c]? = some conformance) : lib.isOwn c = !lib.isTrivial conformance := by
  unfold isOwn
  rw [h]
  rfl

/-- Own tables are those of a conformance that is there and not trivial. -/
theorem Library.isOwn_eq_true {lib : Library σ} {c : ConformanceId} :
    lib.isOwn c = true ↔ ∃ conformance, lib.conformances[c]? = some conformance
      ∧ lib.isTrivial conformance = false := by
  unfold isOwn
  cases lib.conformances[c]? with
  | none => simp
  | some conformance => simp

/-- What an attempt begins with: the callback, from its beginning and on a fresh
draft, or the draft as it is if there is no callback. -/
def Conformance.opening (c : Conformance σ) (p : Protocol) (j : TableJob)
    (arguments : List TableId) : Control σ :=
  match c.instantiator with
  | some callback =>
    .run ((callback j.registry j.conforming arguments).bind fun _ => .done .unit)
      (.start (.draft (Draft.start c.recipe p)))
  | none => .give .unit (.draft (Draft.start c.recipe p))

-- ====================================================== the store

namespace Store

/-- Cells and tables are still what they were. -/
structure SameTables (s' s : Store) : Prop where
  cells : s'.cells = s.cells
  tables : s'.tables = s.tables

variable {s s' s'' : Store}

/-- A store has the tables it has. -/
theorem SameTables.refl (s : Store) : s.SameTables s := ⟨rfl, rfl⟩

/-- What two changes in turn leave alone, both together do. -/
theorem SameTables.trans (h' : s''.SameTables s') (h : s'.SameTables s) : s''.SameTables s :=
  ⟨h'.cells.trans h.cells, h'.tables.trans h.tables⟩

/-- Blocks are taken beside the tables, also the block that a table will lie in. -/
theorem takeBlock_tables (s : Store) (registry : RegistryId) (size align : Nat) :
    (s.takeBlock registry size align).1.SameTables s := by
  unfold takeBlock
  split <;> exact ⟨rfl, rfl⟩

/-- No action of a program is about tables. -/
theorem perform_tables (s : Store) (action : Action) : (s.perform action).1.SameTables s := by
  cases action with
  | takeBlock registry size align => exact s.takeBlock_tables registry size align
  | returnBlock registry address size =>
      show (s.returnBlock registry address size).1.SameTables s
      unfold returnBlock
      split <;> exact ⟨rfl, rfl⟩
  | share config =>
      simp only [perform]
      split <;> exact ⟨rfl, rfl⟩
  | openRegistry config
  | publish record layout
  | storeWord record index value
  | setSuperclass record superclass
  | addHook hook
  | clearHooks => exact ⟨rfl, rfl⟩

end Store

-- ====================================================== attempts

/-- The attempt that waits in a frame. -/
def Frame.attempt? : Frame σ → Option TableJob
  | .filling j => some j
  | _ => none

/-- Whether the control is that of a request that has come to its cell. -/
def Control.acquires : Control σ → Bool
  | .acquire .. => true
  | _ => false

/-- Whether the next step takes the topmost frame off. -/
def Control.drops : Control σ → Bool
  | .give .. => true
  | .unwind _ => true
  | _ => false

/-- The table that a step looks for: a program asks for it, or a request has come
to its cell. -/
def Control.seeks? (lib : Library σ) : Control σ → Option TableKey
  | .run (.table registry c conforming _ _) _ =>
    if lib.isOwn c then some ⟨registry, c, conforming⟩ else none
  | .acquire j _ => some j.key
  | _ => none

namespace Turn

/-- The attempts of a thread that are under way, the innermost first. -/
def attempts (t : Turn σ) : List TableJob := t.frames.filterMap Frame.attempt?

variable {lib : Library σ} {a : Actor} {t t' u : Turn σ} {s : Store} {thread : ThreadId}

/-- Away from its cell nobody opens an attempt. -/
theorem Opens.attempt?_eq {f : Frame σ} (h : t.Opens f) (hc : t.control.acquires = false) :
    f.attempt? = none := by
  cases h with
  | filling hacquire =>
      rw [hacquire] at hc
      cases hc
  | @call p s f hrun hcall => cases f <;> first | rfl | cases hcall
  | _ => rfl

/-- Attempts begin at a cell, and end with their frame. -/
theorem attempts_eq (h : t.step lib a = some t') (hc : t.control.acquires = false)
    (hon : ∀ j, t.frames ≠ .filling j :: t'.frames) : t'.attempts = t.attempts := by
  unfold attempts
  cases step_stacks h with
  | same hf => rw [hf]
  | @drop f hf hgone =>
      rw [hf]
      cases f with
      | filling j => exact (hon j hf).elim
      | _ => rfl
  | opened fs hf hopens htail =>
      have hnone : fs.filterMap Frame.attempt? = [] :=
        List.filterMap_eq_nil_iff.mpr fun f hm => (hopens f hm).attempt?_eq hc
      rw [hf, List.filterMap_append, hnone, List.nil_append]

-- ====================================================== steps about something else

/-- Cells and tables are those of `s`, and the thread is not at a cell. -/
structure Aside (s : Store) (t : Turn σ) : Prop where
  store : t.store.SameTables s
  control : t.control.acquires = false

/-- Steps aside add up. -/
theorem Aside.from {s' : Store} (h : t.Aside s') (hs : s'.SameTables s) : t.Aside s :=
  ⟨h.store.trans hs, h.control⟩

/-- A handler begins away from all cells. -/
theorem handle_aside (t : Turn σ) (f : Failure) (s : Setting σ) :
    (t.handle f s).Aside t.store := by
  unfold handle
  split <;> exact ⟨.refl _, rfl⟩

/-- Consulting an entry is not about tables. -/
theorem consult_aside (t : Turn σ) (registry : RegistryId) (q : Request) (record : RecordId) :
    (t.consult registry q record).Aside t.store := by
  unfold consult
  split <;> exact ⟨.refl _, rfl⟩

/-- Fields are laid out without tables. -/
theorem startLayout_aside (t : Turn σ) (registry : RegistryId) (record : RecordId)
    (scratch : Scratch) : (t.startLayout lib registry record scratch).Aside t.store := by
  unfold startLayout
  split <;> exact ⟨.refl _, rfl⟩

/-- A new entry comes with no table. -/
theorem create_tables (t : Turn σ) (registry : RegistryId) (q : Request) (key : Key)
    (record : Record) : (t.create registry q key record).1.store.SameTables t.store := by
  let made : Store := { t.store with entries := t.store.entries.push { registry, key } }
  have htake := made.takeBlock_tables registry record.blockSize wordSize
  exact ⟨htake.cells, htake.tables⟩

/-- A call to a registry is about records. -/
theorem request_aside {registry : RegistryId} {q : Request} {c : Call}
    (h : Requested lib t a registry q c t') : t'.Aside t.store := by
  cases h with
  | check => exact consult_aside ..
  | empty => exact ⟨.refl _, rfl⟩
  | miscount => exact ⟨⟨rfl, rfl⟩, rfl⟩
  | hit => exact ⟨⟨rfl, rfl⟩, rfl⟩
  | create => exact ⟨create_tables t registry q .., rfl⟩
  | instantiate => exact ⟨create_tables t registry q .., rfl⟩

/-- Names are kept beside the tables. -/
theorem askName_aside (t : Turn σ) (j : NameJob) (r : Registry) :
    (t.askName j r).Aside t.store := by
  unfold askName
  split <;> exact ⟨⟨rfl, rfl⟩, rfl⟩

/-- A request for a canonical record is about names. -/
theorem requestName_aside {registry : RegistryId} {candidate : CandidateId}
    (h : NameRequested lib t registry candidate t') : t'.Aside t.store := by
  cases h with
  | known => exact ⟨.refl _, rfl⟩
  | ask => exact askName_aside ..
  | register => exact ⟨⟨rfl, rfl⟩, rfl⟩
  | found => exact ⟨⟨rfl, rfl⟩, rfl⟩

/-- A program comes to a cell only by asking for a table. -/
theorem run_aside {p : Program σ Value} {s : Setting σ}
    (hp : ∀ registry c conforming arguments k, p ≠ .table registry c conforming arguments k)
    (h : Ran lib t a s p t') : t'.Aside t.store := by
  cases h with
  | request h => exact (request_aside h).from (.refl _)
  | table h => exact (hp _ _ _ _ _ rfl).elim
  | canonical h => exact (requestName_aside h).from (.refl _)
  | act => exact ⟨t.store.perform_tables _, rfl⟩
  | structLayout => exact (startLayout_aside ..).from (.refl _)
  | raise => exact ⟨⟨rfl, rfl⟩, rfl⟩
  | fail | refuse => exact handle_aside ..
  | done | look | edit | scratch | draft | fill | storePrivate | guarded | disarm =>
      exact ⟨.refl _, rfl⟩

/-- The end of a completion step leaves tables alone. -/
theorem stepped_aside (t : Turn σ) (d : Drive) (dep : Option Dependency) (left : Local) :
    (t.stepped d dep left).Aside t.store := by
  obtain ⟨words, o, hst, -⟩ := stepped_spec t d dep left
  rw [hst]
  exact ⟨.refl _, rfl⟩

/-- An answer for a field is noted beside the tables. -/
theorem laid_aside (t : Turn σ) (w : FieldWalk σ) (r : Response) :
    (t.laid w r).Aside t.store := by
  unfold laid
  split <;> exact ⟨.refl _, rfl⟩

/-- An answer for an element is noted beside the tables. -/
theorem measured_aside (t : Turn σ) (w : ElementWalk) (r : Response) :
    (t.measured w r).Aside t.store := by
  unfold measured
  split
  · split <;> exact ⟨.refl _, rfl⟩
  · exact ⟨.refl _, rfl⟩

/-- To be answered about an entry leaves tables alone. -/
theorem await_aside {registry : RegistryId} {e : EntryId} {q : Request}
    (h : Waited t a registry e q t') : t'.Aside t.store := by
  cases h with
  | answer => exact ⟨.refl _, rfl⟩
  | reentrant => exact ⟨⟨rfl, rfl⟩, rfl⟩

/-- A completion step begins away from all cells. -/
theorem begin_aside {d : Drive} (h : Begun lib t d t') : t'.Aside t.store := by
  cases h with
  | layout => exact (startLayout_aside ..).from ⟨rfl, rfl⟩
  | measure | close | callback => exact ⟨⟨rfl, rfl⟩, rfl⟩

/-- A walk over fields goes on away from all cells. -/
theorem lay_aside {w : FieldWalk σ} (h : FieldLaid t a w t') : t'.Aside t.store := by
  cases h with
  | done => exact ⟨⟨rfl, rfl⟩, rfl⟩
  | consult => exact (consult_aside ..).from (.refl _)
  | compute => exact ⟨.refl _, rfl⟩
  | lack => exact ⟨⟨rfl, rfl⟩, rfl⟩

/-- A walk over elements goes on away from all cells. -/
theorem measure_aside {w : ElementWalk} (h : ElementMeasured t w t') : t'.Aside t.store := by
  cases h with
  | done =>
      simp only [settleTuple]
      split <;> exact ⟨⟨rfl, rfl⟩, rfl⟩
  | consult => exact (consult_aside ..).from (.refl _)

/-- A fresh record is settled beside the tables. -/
theorem firstStage_tables (s : Store) (x : RecordId) : (firstStage lib s x).1.SameTables s := by
  unfold firstStage
  split
  · exact .refl _
  · split
    · exact .refl _
    · simp only [settleLayout]
      split <;> exact ⟨rfl, rfl⟩

/-- An allocation ends away from all cells. -/
theorem allocated_aside {al : Allocation} (h : Allocated lib t a al t') : t'.Aside t.store := by
  have hfirst : (firstStage lib t.store al.record).1.SameTables t.store := firstStage_tables ..
  cases h <;> exact ⟨⟨hfirst.cells, hfirst.tables⟩, rfl⟩

/-- Waiters are resumed away from all cells. -/
theorem release_aside {d : Drive} {dep : Option Dependency} {ready : List Waiter}
    (h : Released t a d dep ready t') : t'.Aside t.store := by
  cases h <;> exact ⟨⟨rfl, rfl⟩, rfl⟩

/-- What stops waits for an entry, not at a cell. -/
theorem stopped_aside {d : Drive} {dep : Dependency} (h : Stopped t a d dep t') :
    t'.Aside t.store := by
  cases h with
  | rely => exact (consult_aside ..).from ⟨rfl, rfl⟩
  | cycle | suspend => exact ⟨⟨rfl, rfl⟩, rfl⟩

/-- Queues are those of entries. -/
theorem enqueue_aside {d : Drive} {dep : Dependency} (h : Enqueued t a d dep t') :
    t'.Aside t.store := by
  cases h <;> exact ⟨⟨rfl, rfl⟩, rfl⟩

/-- Outcomes are published in entries. -/
theorem publish_aside {d : Drive} {o : StepOutcome} (h : Published t d o t') :
    t'.Aside t.store := by
  cases h
  exact ⟨⟨rfl, rfl⟩, rfl⟩

/-- Who waits for a name waits away from all cells. -/
theorem standBy_aside {j : NameJob} {heard : Nat} (h : StoodBy t j heard t') :
    t'.Aside t.store := by
  cases h
  exact askName_aside ..

/-- A report is shown away from all cells. -/
theorem report_aside {r : Report} {hooks : List HookId} {policy : FaultPolicy}
    (h : Reported lib t r hooks policy t') : t'.Aside t.store := by
  cases h <;> exact ⟨⟨rfl, rfl⟩, rfl⟩

-- ====================================================== steps about tables

/-- What a step of `thread` does to cells and tables. -/
inductive Builds (lib : Library σ) (thread : ThreadId) (t t' : Turn σ) : Prop
  /-- Nothing, and the attempts of the thread are what they were. -/
  | aside (hc : t.control.seeks? lib = none) (h : t'.Aside t.store)
      (hf : t'.attempts = t.attempts)
  /-- A request comes to its cell, which is made if it is not there. -/
  | asked {registry : RegistryId} {c : ConformanceId} {conforming : RecordId}
      {arguments : List TableId} {k : TableId → Program σ Value} {s : Setting σ}
      (hc : t.control = .run (.table registry c conforming arguments k) s)
      (hown : lib.isOwn c = true)
      (ht' : t' = { t with
        store := (t.store.cellFor registry c conforming).1
        control := .acquire
          ⟨registry, (t.store.cellFor registry c conforming).2, c, conforming⟩ arguments
        frames := .forTable k s :: t.frames })
  /-- The cell is full, and its table is handed out. -/
  | taken {j : TableJob} {arguments : List TableId} {cell : Cell} {table : TableId}
      (hc : t.control = .acquire j arguments) (hcell : t.store.cells[j.cell]? = some cell)
      (hfull : cell.state = .full table) (ht' : t' = t.goto (.give (.table table) .nothing))
  /-- The cell is empty, and an attempt begins. -/
  | begun {j : TableJob} {arguments : List TableId} {cell : Cell} {c : Conformance σ}
      {p : Protocol} (hc : t.control = .acquire j arguments)
      (hcell : t.store.cells[j.cell]? = some cell) (hempty : cell.state = .empty)
      (hconf : lib.conformances[j.conformance]? = some c)
      (hprot : lib.protocols[c.recipe.protocol]? = some p)
      (hcells : t'.store.cells = (t.store.changeCell j.cell (.building thread)).cells)
      (htables : t'.store.tables = t.store.tables)
      (hf : t'.frames = .filling j :: t.frames) (hc' : t'.control = c.opening p j arguments)
  /-- The draft of an attempt has no hole, and becomes a table. -/
  | succeeded {v : Value} {j : TableJob} {draft : Draft} {p : Protocol}
      (hc : t.control = .give v (.draft draft)) (hf : t.frames = .filling j :: t'.frames)
      (hprot : lib.protocols[draft.protocol]? = some p) (hfull : draft.firstEmpty? p = none)
      (hcells : t'.store.cells
        = (t.store.changeCell j.cell (.full t.store.tables.size)).cells)
      (htables : t'.store.tables = t.store.tables.push
        ⟨draft.protocol, some j.conforming, draft.witnesses, draft.words⟩)
      (hc' : t'.control = .give (.table t.store.tables.size) .nothing)
  /-- Something unwinds through an attempt, and its cell is empty again. -/
  | failed {e : Failure} {j : TableJob} (hc : t.control = .unwind e)
      (hf : t.frames = .filling j :: t'.frames)
      (hcells : t'.store.cells = (t.store.changeCell j.cell .empty).cells)
      (htables : t'.store.tables = t.store.tables) (hc' : t'.control = .unwind e)

/-- A program asks for a table. -/
theorem table_builds {registry : RegistryId} {c : ConformanceId} {conforming : RecordId}
    {arguments : List TableId} {k : TableId → Program σ Value} {s : Setting σ}
    (hc : t.control = .run (.table registry c conforming arguments k) s)
    (h : TableRequested lib { t with frames := .forTable k s :: t.frames } registry c conforming
      arguments t') :
    Builds lib thread t t' := by
  cases h with
  | pattern hknown htrivial =>
      refine .aside ?_ ⟨⟨rfl, rfl⟩, rfl⟩ rfl
      rw [hc]
      simp only [Control.seeks?, Library.isOwn_eq hknown, htrivial, Bool.not_true,
        Bool.false_eq_true, if_false]
  | cell hknown hown => exact .asked hc (by rw [Library.isOwn_eq hknown, hown]; rfl) rfl

/-- A request is at its cell. -/
theorem acquire_builds {j : TableJob} {arguments : List TableId}
    (hc : t.control = .acquire j arguments) (h : Acquired lib t a j arguments t') :
    Builds lib a.id t t' := by
  have htaken : ∀ size, (((t.store.changeCell j.cell (.building a.id)).takeBlock j.registry size
      wordSize).1).SameTables (t.store.changeCell j.cell (.building a.id)) :=
    fun size => Store.takeBlock_tables _ j.registry size wordSize
  cases h with
  | full hcell hfull => exact .taken hc hcell hfull rfl
  | instantiate hcell hempty hconf hprot hi =>
      refine .begun hc hcell hempty hconf hprot (htaken _).cells (htaken _).tables rfl ?_
      unfold Conformance.opening
      rw [hi]
      rfl
  | copy hcell hempty hconf hprot hi =>
      refine .begun hc hcell hempty hconf hprot (htaken _).cells (htaken _).tables rfl ?_
      unfold Conformance.opening
      rw [hi]
      rfl

/-- The callback of an attempt has returned. A hole in the draft is a fault, which
has yet to unwind through the frame. -/
theorem filling_builds {v : Value} {draft : Draft} {j : TableJob} {rest : List (Frame σ)}
    (hc : t.control = .give v (.draft draft)) (hf : t.frames = .filling j :: rest)
    (h : Filled lib { t with frames := rest } a j draft t') : Builds lib thread t t' := by
  cases h with
  | lack =>
      refine .aside (by rw [hc]; rfl) ⟨⟨rfl, rfl⟩, rfl⟩ ?_
      unfold attempts
      rw [hf]
      rfl
  | table hprot hfull => exact .succeeded hc hf hprot hfull rfl rfl rfl

/-- Whatever leaves the frames where they are is about something else. -/
theorem stays_builds {c : Control σ} (h : t.step lib a = some t') (hc : t.control = c)
    (hacquires : c.acquires = false) (hseeks : c.seeks? lib = none) (hdrops : c.drops = false)
    (haside : t'.Aside t.store) : Builds lib a.id t t' := by
  subst hc
  refine .aside hseeks haside (attempts_eq h hacquires fun j hf => ?_)
  have hlength := congrArg List.length hf
  rw [List.length_cons] at hlength
  cases step_stacks h with
  | same hf' =>
      rw [hf'] at hlength
      omega
  | drop hf' hc =>
      rcases hc with ⟨v, left, hc⟩ | ⟨e, hc⟩ <;> rw [hc] at hdrops <;> cases hdrops
  | opened fs hf' hopens htail =>
      rw [hf', List.length_append] at hlength
      omega

/-- Something is handed over, to the frame of an attempt or to another. -/
theorem give_builds {v : Value} {left : Local} (h : t.step lib a = some t')
    (hc : t.control = .give v left) : Builds lib a.id t t' := by
  have hother : (∀ j rest, t.frames ≠ .filling j :: rest) → t'.Aside t.store →
      Builds lib a.id t t' := fun hno haside =>
    .aside (by rw [hc]; rfl) haside (attempts_eq h (by rw [hc]; rfl) fun j => hno j _)
  cases step_give hc h with
  | filled hf h => exact filling_builds hc hf h
  | stepped hf => exact hother (by rw [hf]; nofun) ((stepped_aside ..).from (.refl _))
  | laid hf => exact hother (by rw [hf]; nofun) ((laid_aside ..).from (.refl _))
  | measured hf => exact hother (by rw [hf]; nofun) ((measured_aside ..).from (.refl _))
  | founded hf => exact hother (by rw [hf]; nofun) ⟨⟨rfl, rfl⟩, rfl⟩
  | ended hf | response hf | layout hf | table hf | record hf | allocated hf | relied hf
  | released hf | reported hf => exact hother (by rw [hf]; nofun) ⟨.refl _, rfl⟩

/-- Something unwinds, through the frame of an attempt or through another. -/
theorem unwind_builds {e : Failure} (h : t.step lib a = some t') (hc : t.control = .unwind e) :
    Builds lib a.id t t' := by
  have hother : (∀ j rest, t.frames ≠ .filling j :: rest) → t'.Aside t.store →
      Builds lib a.id t t' := fun hno haside =>
    .aside (by rw [hc]; rfl) haside (attempts_eq h (by rw [hc]; rfl) fun j => hno j _)
  cases step_unwind hc h with
  | ended hf => exact hother (by rw [hf]; nofun) ⟨.refl _, rfl⟩
  | handle hf hs =>
      refine hother (fun j rest hj => ?_) ((handle_aside ..).from (.refl _))
      obtain ⟨rfl, -⟩ := List.cons.inj (hf.symm.trans hj)
      cases hs
  | abandon hf => exact .failed hc hf rfl rfl rfl
  | drop hf hs hj =>
      refine hother (fun j rest heq => ?_) ⟨.refl _, rfl⟩
      exact hj j (List.cons.inj (hf.symm.trans heq)).1

/-- A program takes a step. -/
theorem run_builds {p : Program σ Value} {s : Setting σ} (h : t.step lib a = some t')
    (hc : t.control = .run p s) : Builds lib a.id t t' := by
  have hrun := step_run hc h
  by_cases hp : ∃ registry c conforming arguments k, p = .table registry c conforming arguments k
  · obtain ⟨registry, c, conforming, arguments, k, rfl⟩ := hp
    cases hrun with
    | table h => exact table_builds hc h
    | refuse hp => cases hp
  · refine stays_builds h hc rfl ?_ rfl
      (run_aside (fun _ _ _ _ _ heq => hp ⟨_, _, _, _, _, heq⟩) hrun)
    cases p with
    | table registry c conforming arguments k => exact (hp ⟨_, _, _, _, _, rfl⟩).elim
    | _ => rfl

/-- Every step does one of these things to cells and tables. -/
theorem step_builds (h : t.step lib a = some t') : Builds lib a.id t t' := by
  cases step_cases h with
  | run hc => exact run_builds h hc
  | give hc => exact give_builds h hc
  | unwind hc => exact unwind_builds h hc
  | acquire hc hs => exact acquire_builds hc hs
  | await hc hs => exact stays_builds h hc rfl rfl rfl (await_aside hs)
  | allocated hc hs => exact stays_builds h hc rfl rfl rfl (allocated_aside hs)
  | begin hc hs => exact stays_builds h hc rfl rfl rfl (begin_aside hs)
  | lay hc hs => exact stays_builds h hc rfl rfl rfl (lay_aside hs)
  | measure hc hs => exact stays_builds h hc rfl rfl rfl (measure_aside hs)
  | publish hc hs => exact stays_builds h hc rfl rfl rfl (publish_aside hs)
  | release hc hs => exact stays_builds h hc rfl rfl rfl (release_aside hs)
  | stopped hc hs => exact stays_builds h hc rfl rfl rfl (stopped_aside hs)
  | enqueue hc hs => exact stays_builds h hc rfl rfl rfl (enqueue_aside hs)
  | standBy hc hs => exact stays_builds h hc rfl rfl rfl (standBy_aside hs)
  | report hc hs => exact stays_builds h hc rfl rfl rfl (report_aside hs)

end Turn

-- ====================================================== processes

/-- What a step of a process does to cells and tables. -/
theorem Machine.step_builds {lib : Library σ} {m m' : Machine σ} {t : ThreadId}
    (h : m.step lib t = some m') :
    ∃ thread thread', m.threads[t]? = some thread ∧ m'.threads[t]? = some thread'
      ∧ Turn.Builds lib t (m.turn thread) (m'.turn thread') := by
  obtain ⟨thread, thread', hthread, hthread', hmove⟩ := step_mover h
  refine ⟨thread, thread', hthread, hthread', ?_⟩
  rcases hmove with hturn | ⟨p, p', s, hc, hp, hs, hc', hf⟩
  · exact Turn.step_builds hturn
  · have hrun : (m.turn thread).control = .run p s := hc
    refine .aside ?_ ⟨⟨congrArg Store.cells hs, congrArg Store.tables hs⟩, ?_⟩
      (congrArg (List.filterMap Frame.attempt?) hf)
    · rw [hrun]
      cases hp <;> rfl
    · show thread'.control.acquires = false
      rw [hc']
      rfl

end TypeRecords
