/-
What a step does to records.

Most steps leave all records as they are. `Turn.Writes` lists the others with
what they write: a program changes a record by an action, a request makes one,
and layouts are written by a fresh record that is not completed by anyone, by
the end of a walk over fields, and by the end of a tuple's step
(`Turn.step_writes`).

What a record was made from, and what it refers to, is its outline. Of the
outlines a step leaves all as they are, or adds one for a request, or sets the
superclass of one (`Turn.step_outlines`).
-/
import TypeRecords.Proofs.Ownership.Step
import TypeRecords.Proofs.Process.Run

namespace TypeRecords

variable {σ : Type}

-- ====================================================== outlines

/-- A record without what is filled in by and by. -/
def Record.outline (r : Record) : Record := { r with layout := none, offsets := [], words := [] }

namespace Store

/-- The outlines of all records. -/
def outlines (s : Store) : List Record := s.records.toList.map Record.outline

/-- The outline at an index is that of the record there. -/
theorem outlines_getElem? (s : Store) (x : RecordId) :
    s.outlines[x]? = (s.records[x]?).map Record.outline := by
  unfold outlines
  rw [List.getElem?_map, Array.getElem?_toList]

/-- There is an outline for each record. -/
theorem length_outlines (s : Store) : s.outlines.length = s.records.size := by
  unfold outlines
  rw [List.length_map, Array.length_toList]

/-- What a record refers to is in its outline. -/
theorem referents_eq (s : Store) (x : RecordId) :
    s.records.referents x = ((s.outlines[x]?).map Record.referents).getD [] := by
  rw [outlines_getElem?]
  unfold Records.referents
  cases s.records[x]? <;> rfl

/-- Two stores of the same outlines refer to the same records. -/
theorem referents_congr {s s' : Store} (h : s'.outlines = s.outlines) (x : RecordId) :
    s'.records.referents x = s.records.referents x := by
  rw [referents_eq, referents_eq, h]

/-- Whether a record refers to fixed records only is in the outlines. -/
theorem refersToFixed_congr {s s' : Store} (h : s'.outlines = s.outlines) (x : RecordId) :
    s'.refersToFixed x = s.refersToFixed x := by
  have hfixed : ∀ y, s'.isFixed y = s.isFixed y := by
    have heq : ∀ (s : Store) (y : RecordId),
        s.isFixed y = ((s.outlines[y]?).map (·.origin == .fixed)).getD true := by
      intro s y
      rw [outlines_getElem?]
      unfold isFixed
      cases s.records[y]? <;> rfl
    intro y
    rw [heq, heq, h]
  unfold refersToFixed
  rw [referents_congr h]
  exact congrArg _ (funext hfixed)

/-- A record that was there from the start has no key. -/
theorem keyOf_of_isFixed {s : Store} {x : RecordId} (h : s.isFixed x = true) :
    s.keyOf x = none := by
  unfold isFixed at h
  unfold keyOf
  cases hr : s.records[x]? with
  | none => rfl
  | some r =>
      rw [hr] at h
      show r.key? = none
      unfold Record.key?
      rw [beq_iff_eq.mp h]

/-- A change that keeps the outline of the record it is made to keeps all of them. -/
theorem outlines_changeRecord (s : Store) (x : RecordId) {f : Record → Record}
    (hf : ∀ r, (f r).outline = r.outline) : (s.changeRecord x f).outlines = s.outlines := by
  refine List.ext_getElem? fun y => ?_
  rw [outlines_getElem?, outlines_getElem?]
  unfold changeRecord
  simp only [Array.getElem?_modify]
  by_cases hxy : x = y
  · subst hxy
    cases s.records[x]? with
    | none => simp
    | some r => simp [hf r]
  · simp [hxy]

/-- A new superclass is written into one outline. -/
theorem outlines_setSuperclass (s : Store) (x y : RecordId) :
    (s.perform (.setSuperclass x y)).1.outlines
      = s.outlines.modify x fun r => { r with superclass := some y } := by
  refine List.ext_getElem? fun z => ?_
  rw [outlines_getElem?, List.getElem?_modify, outlines_getElem?]
  show ((s.records.modify x _)[z]?).map Record.outline = _
  rw [Array.getElem?_modify]
  by_cases hxz : x = z
  · subst hxz
    rw [if_pos rfl, Option.map_map]
    cases s.records[x]? <;> simp [Record.outline]
  · rw [if_neg hxz]
    simp [hxz]

/-- Taking a block touches no record. -/
theorem records_takeBlock (s : Store) (id : RegistryId) (size align : Nat) :
    (s.takeBlock id size align).1.records = s.records := by
  unfold takeBlock
  split <;> rfl

/-- Looking for a cell touches no record, and making one neither. -/
theorem records_cellFor (s : Store) (registry : RegistryId) (conformance : ConformanceId)
    (conforming : RecordId) :
    (s.cellFor registry conformance conforming).1.records = s.records := by
  unfold cellFor
  split <;> rfl

/-- Outlines are a matter of the records alone. -/
theorem outlines_congr {s s' : Store} (h : s'.records = s.records) : s'.outlines = s.outlines := by
  unfold outlines
  rw [h]

/-- Of all that a program may change by itself, only a superclass is part of an
outline. -/
theorem outlines_perform (s : Store) (a : Action) (ha : ∀ r x, a ≠ .setSuperclass r x) :
    (s.perform a).1.outlines = s.outlines := by
  cases a with
  | publish record layout => exact s.outlines_changeRecord record fun _ => rfl
  | storeWord record index value => exact s.outlines_changeRecord record fun _ => rfl
  | setSuperclass record superclass => exact (ha record superclass rfl).elim
  | takeBlock registry size align => exact outlines_congr (s.records_takeBlock registry size align)
  | returnBlock registry address size =>
      show (s.returnBlock registry address size).1.outlines = s.outlines
      unfold returnBlock
      split <;> rfl
  | addHook hook => rfl
  | clearHooks => rfl
  | openRegistry config => rfl
  | share config =>
      simp only [perform]
      split <;> rfl

end Store

-- ====================================================== what is written

/-- The record that a call makes when there is none of its key. -/
def Library.made? (lib : Library σ) : Call → Option Record
  | .generic descriptor arguments =>
    (lib.descriptors[descriptor]?).map (·.record descriptor arguments)
  | .tuple elements => some (.ofElements elements)
  | .check _ => none

/-- What a step does to the records. -/
inductive Turn.Writes (lib : Library σ) (t t' : Turn σ) : Prop
  | same (h : t'.store.records = t.store.records)
  /-- A program changes something. -/
  | acted {action : Action} {k : action.Reply → Program σ Value} {s : Setting σ}
      (hc : t.control = .run (.act action k) s)
      (h : t'.store.records = (t.store.perform action).1.records)
  /-- A request makes a record. -/
  | made {registry : RegistryId} {q : Request} {c : Call} {k : Response → Program σ Value}
      {s : Setting σ} {r : Record} (hc : t.control = .run (.request registry q c k) s)
      (hr : lib.made? c = some r) (h : t'.store.records = t.store.records.push r)
  /-- A record that nobody completes is given a layout. -/
  | settled {al : Allocation} (hc : t.control = .allocated al)
      (h : t'.store.records = (firstStage lib t.store al.record).1.records)
  /-- The layout of a record is written down, all of whose fields are known. -/
  | laid {w : FieldWalk σ} (hc : t.control = .lay w) (hw : w.todo = [])
      (h : t'.store.records = (layDown t.store w.record w.layouts).records)
  /-- A tuple is given a layout, all of whose elements have one. -/
  | measured {w : ElementWalk} (hc : t.control = .measure w) (hw : w.todo = [])
      (h : t'.store.records = (settleTuple t.store w.drive.record).records)

namespace Turn

variable {lib : Library σ} {a : Actor} {t t' : Turn σ}

/-- A consultation touches no record. -/
theorem consult_records (t : Turn σ) (registry : RegistryId) (q : Request) (record : RecordId) :
    (t.consult registry q record).store.records = t.store.records := by
  unfold consult
  split <;> rfl

/-- The beginning of a walk over fields writes nothing yet. -/
theorem startLayout_records (t : Turn σ) (registry : RegistryId) (record : RecordId)
    (scratch : Scratch) :
    (t.startLayout lib registry record scratch).store.records = t.store.records := by
  unfold startLayout
  split <;> rfl

/-- A handler is put in charge without touching a record. -/
theorem handle_records (t : Turn σ) (f : Failure) (s : Setting σ) :
    (t.handle f s).store.records = t.store.records := by
  unfold handle
  split <;> rfl

/-- Handing out a record under its name leaves the record as it is. -/
theorem askName_records (t : Turn σ) (j : NameJob) (r : Registry) :
    (t.askName j r).store.records = t.store.records := by
  unfold askName
  split <;> rfl

-- ====================================================== programs

/-- A new record comes last; those that are there keep their place. -/
theorem create_records (t : Turn σ) (registry : RegistryId) (q : Request) (key : Key)
    (record : Record) :
    (t.create registry q key record).1.store.records = t.store.records.push record := by
  show (Store.takeBlock _ registry record.blockSize wordSize).1.records.push record = _
  rw [Store.records_takeBlock]

/-- What a call makes for its key is the record that `made?` names. -/
theorem made?_of_makes {c : Call} {key : Key} {record : Record} (h : c.Makes lib key record) :
    lib.made? c = some record := by
  cases h with
  | generic hd => exact congrArg (Option.map _) hd
  | tuple => rfl

/-- A call to a registry makes a record, or touches none. -/
theorem request_writes {registry : RegistryId} {q : Request} {c : Call}
    {k : Response → Program σ Value} {s : Setting σ}
    (hc : t.control = .run (.request registry q c k) s)
    (h : Requested lib { t with frames := .forResponse k s :: t.frames } a registry q c t') :
    Writes lib t t' := by
  cases h with
  | check => exact .same (consult_records ..)
  | empty => exact .same rfl
  | miscount => exact .same rfl
  | hit => exact .same rfl
  | create hmakes => exact .made hc (made?_of_makes hmakes) (create_records _ registry q _ _)
  | instantiate _ _ hmakes =>
      exact .made hc (made?_of_makes hmakes) (create_records _ registry q _ _)

/-- A request for a canonical record touches no record: the candidates have theirs already.
-/
theorem requestName_records {registry : RegistryId} {candidate : CandidateId}
    (h : NameRequested lib t registry candidate t') :
    t'.store.records = t.store.records := by
  cases h with
  | ask => exact askName_records ..
  | _ => rfl

/-- A request for a witness table touches no record. -/
theorem requestTable_records {registry : RegistryId} {conformance : ConformanceId}
    {conforming : RecordId} {arguments : List TableId}
    (h : TableRequested lib t registry conformance conforming arguments t') :
    t'.store.records = t.store.records := by
  cases h with
  | pattern => rfl
  | cell => exact t.store.records_cellFor ..

/-- A program writes records by its actions and its requests only. -/
theorem run_writes {p : Program σ Value} {s : Setting σ} (hc : t.control = .run p s)
    (h : Ran lib t a s p t') : Writes lib t t' := by
  cases h with
  | request h => exact request_writes hc h
  | act => exact .acted hc rfl
  | fail => exact .same (handle_records ..)
  | refuse => exact .same (handle_records ..)
  | structLayout => exact .same (startLayout_records ..)
  | table h => exact .same ((requestTable_records h).trans rfl)
  | canonical h => exact .same ((requestName_records h).trans rfl)
  | _ => exact .same rfl

-- ====================================================== the other controls

/-- The end of a completion step touches no record. -/
theorem stepped_records (t : Turn σ) (d : Drive) (dep : Option Dependency) (left : Local) :
    (t.stepped d dep left).store.records = t.store.records := by
  obtain ⟨words, o, hst, -⟩ := stepped_spec t d dep left
  rw [hst]
  rfl

/-- An answer is noted in the walk over fields, not in a record. -/
theorem laid_records (t : Turn σ) (w : FieldWalk σ) (r : Response) :
    (t.laid w r).store.records = t.store.records := by
  unfold laid
  split <;> rfl

/-- An answer is noted in the walk over elements, not in a record. -/
theorem measured_records (t : Turn σ) (w : ElementWalk) (r : Response) :
    (t.measured w r).store.records = t.store.records := by
  unfold measured
  split
  · split <;> rfl
  · rfl

/-- Handing over touches no record. -/
theorem give_records {v : Value} {left : Local} (h : Given lib t a v left t') :
    t'.store.records = t.store.records := by
  cases h with
  | stepped => exact stepped_records ..
  | laid => exact laid_records ..
  | measured => exact measured_records ..
  | filled _ h => cases h <;> rfl
  | _ => rfl

/-- Unwinding touches no record. -/
theorem unwind_records {e : Failure} (h : Unwound t e t') :
    t'.store.records = t.store.records := by
  cases h with
  | handle => exact handle_records ..
  | _ => rfl

/-- The beginning of a completion step touches no record. -/
theorem begin_records {d : Drive} (h : Begun lib t d t') : t'.store.records = t.store.records := by
  cases h with
  | layout => exact startLayout_records ..
  | _ => rfl

/-- A walk over fields writes down the layout once no field is left. -/
theorem lay_writes {w : FieldWalk σ} (hc : t.control = .lay w) (h : FieldLaid t a w t') :
    Writes lib t t' := by
  cases h with
  | done htodo => exact .laid hc htodo rfl
  | consult => exact .same (consult_records ..)
  | compute => exact .same rfl
  | lack => exact .same rfl

/-- A walk over elements writes down the layout once no element is left. -/
theorem measure_writes {w : ElementWalk} (hc : t.control = .measure w)
    (h : ElementMeasured t w t') : Writes lib t t' := by
  cases h with
  | done htodo => exact .measured hc htodo rfl
  | consult => exact .same (consult_records ..)

/-- To stop, or to report a cycle, touches no record. -/
theorem stopped_records {d : Drive} {dep : Dependency} (h : Stopped t a d dep t') :
    t'.store.records = t.store.records := by
  cases h with
  | rely => exact consult_records ..
  | _ => rfl

/-- An attempt at a witness table touches no record when it begins. -/
theorem acquire_records {j : TableJob} {arguments : List TableId}
    (h : Acquired lib t a j arguments t') : t'.store.records = t.store.records := by
  cases h with
  | full => rfl
  | instantiate => exact Store.records_takeBlock ..
  | copy => exact Store.records_takeBlock ..

/-- Every step does one of these things to the records. -/
theorem step_writes (h : t.step lib a = some t') : Writes lib t t' := by
  cases step_cases h with
  | run hc h => exact run_writes hc h
  | give hc h => exact .same (give_records h)
  | unwind hc h => exact .same (unwind_records h)
  | await hc h => cases h <;> exact .same rfl
  | allocated hc h => exact .settled hc (by cases h <;> rfl)
  | begin hc h => exact .same (begin_records h)
  | lay hc h => exact lay_writes hc h
  | measure hc h => exact measure_writes hc h
  | publish hc h => cases h; exact .same rfl
  | release hc h => cases h <;> exact .same rfl
  | stopped hc h => exact .same (stopped_records h)
  | enqueue hc h => cases h <;> exact .same rfl
  | acquire hc h => exact .same (acquire_records h)
  | standBy hc h => cases h; exact .same (askName_records ..)
  | report hc h => cases h <;> exact .same rfl

end Turn

-- ====================================================== what becomes of outlines

/-- What a step does to outlines. -/
inductive Turn.Redraws (t t' : Turn σ) : Prop
  | same (h : t'.store.outlines = t.store.outlines)
  /-- A program sets a superclass. -/
  | superclass {record superclass : RecordId} {k : Unit → Program σ Value} {s : Setting σ}
      (hc : t.control = .run (.act (.setSuperclass record superclass) k) s)
      (h : t'.store.outlines
        = t.store.outlines.modify record fun r => { r with superclass := some superclass })
  /-- A request makes a record of what it names. -/
  | made {registry : RegistryId} {q : Request} {c : Call} {k : Response → Program σ Value}
      {s : Setting σ} {r : Record} (hc : t.control = .run (.request registry q c k) s)
      (hr : r.referents = c.names) (ht : r.origin = .tuple → r.kind = .tuple)
      (h : t'.store.outlines = t.store.outlines ++ [r.outline])

/-- A fresh record refers to what the call names. -/
theorem Library.referents_of_made {lib : Library σ} {c : Call} {r : Record}
    (h : lib.made? c = some r) :
    r.referents = c.names ∧ (r.origin = .tuple → r.kind = .tuple) := by
  cases c with
  | check record => cases h
  | tuple elements =>
      cases h
      exact ⟨rfl, fun _ => rfl⟩
  | generic descriptor arguments =>
      obtain ⟨d, -, rfl⟩ := Option.map_eq_some_iff.mp h
      refine ⟨?_, nofun⟩
      unfold Record.referents Descriptor.record
      split
      · rename_i hsuper
        cases hsuper
      · rfl

namespace Turn

variable {lib : Library σ} {a : Actor} {t t' : Turn σ}

/-- A layout is no part of an outline. -/
theorem settleLayout_outlines (s : Store) (x : RecordId) (kind : Kind) :
    (settleLayout s x kind).outlines = s.outlines := by
  unfold settleLayout
  split
  · rfl
  · exact s.outlines_changeRecord x fun _ => rfl

/-- A fresh record is settled within its outline. -/
theorem firstStage_outlines (s : Store) (x : RecordId) :
    (firstStage lib s x).1.outlines = s.outlines := by
  unfold firstStage
  split
  · rfl
  · split
    · rfl
    · exact settleLayout_outlines ..

/-- A tuple is laid out within its outline. -/
theorem settleTuple_outlines (s : Store) (x : RecordId) :
    (settleTuple s x).outlines = s.outlines := by
  unfold settleTuple
  split
  · rfl
  · exact s.outlines_changeRecord x fun _ => rfl

/-- Every step does one of these things to the outlines. -/
theorem step_outlines (h : t.step lib a = some t') : Redraws t t' := by
  cases step_writes h with
  | same hr => exact .same (Store.outlines_congr hr)
  | @acted action k s hc hr =>
      by_cases hs : ∃ record superclass, action = .setSuperclass record superclass
      · obtain ⟨record, superclass, rfl⟩ := hs
        exact .superclass hc ((Store.outlines_congr hr).trans
          (t.store.outlines_setSuperclass record superclass))
      · exact .same ((Store.outlines_congr hr).trans
          (t.store.outlines_perform action fun r x heq => hs ⟨r, x, heq⟩))
  | @made registry q c k s r hc hmade hr =>
      obtain ⟨hrefs, htuple⟩ := Library.referents_of_made hmade
      refine .made hc hrefs htuple ?_
      unfold Store.outlines
      rw [hr, Array.toList_push, List.map_append]
      rfl
  | settled hc hr => exact .same ((Store.outlines_congr hr).trans (firstStage_outlines ..))
  | @laid w hc hw hr =>
      exact .same ((Store.outlines_congr hr).trans
        (t.store.outlines_changeRecord w.record fun _ => rfl))
  | measured hc hw hr => exact .same ((Store.outlines_congr hr).trans (settleTuple_outlines ..))

end Turn

end TypeRecords
