/-
Every step of a thread is on the list of `Turn.Shift`.

One lemma for each thing a thread can do next. Most of what a thread does
concerns no entry: a program goes on, a request finds what it looks for, a
fault is reported. For these `Turn.Keeps` says which holds the thread is left
with, and that is all there is to show. The lemmas that matter are the last
ones, from `allocated_shift` on: each of them says which operation on which
entry a step of the completion protocol comes to.
-/
import TypeRecords.Proofs.Ownership.Shift
import TypeRecords.Proofs.Process.Operations

namespace TypeRecords.Turn

variable {σ : Type} {lib : Library σ} {a : Actor} {t t' : Turn σ}

-- ====================================================== no frame concerned

/-- A consultation leaves the frames as they are. -/
theorem consult_frames (t : Turn σ) (registry : RegistryId) (q : Request) (record : RecordId) :
    (t.consult registry q record).frames = t.frames := by
  unfold consult
  split <;> rfl

/-- The caller of a walk over fields puts its own frame below it; the walk begins without
one. -/
theorem startLayout_frames (lib : Library σ) (t : Turn σ) (registry : RegistryId)
    (record : RecordId) (scratch : Scratch) :
    (t.startLayout lib registry record scratch).frames = t.frames := by
  unfold startLayout
  split <;> rfl

/-- A walk over the fields of a record whose descriptor is known begins at the first one. -/
theorem startLayout_found {registry : RegistryId} {record : RecordId} {words : Scratch}
    {d : Descriptor σ} (h : (t.store.records[record]?).bind lib.descriptorOf? = some d) :
    (t.startLayout lib registry record words).control
      = .lay ⟨registry, record, words, d.fields, 0, []⟩ := by
  unfold startLayout
  rw [h]
  rfl

/-- A handler goes on in the place of the program that failed. -/
theorem handle_frames (t : Turn σ) (f : Failure) (s : Setting σ) :
    (t.handle f s).frames = t.frames := by
  unfold handle
  split <;> rfl

/-- To ask for a record under its name takes no frame. -/
theorem askName_frames (t : Turn σ) (j : NameJob) (r : Registry) :
    (t.askName j r).frames = t.frames := by
  unfold askName
  split <;> rfl

-- ====================================================== no entry concerned

/-- The thread holds `H`, and entries and keys are those of `s`. -/
structure Keeps (i : ThreadId) (s : Store) (H : List Hold) (t : Turn σ) : Prop where
  alike : s.Alike t.store
  holds : t.holds i = H

/-- A thread that keeps what it holds shifts nothing. -/
theorem Keeps.quiet (h : t'.Keeps a.id t.store (t.holds a.id)) : Shift lib a t t' :=
  .quiet h.alike (by rw [h.holds])

/-- A fault is reported by a thread that holds what it held. -/
theorem raise_keeps (i : ThreadId) (t : Turn σ) (a : Actor) (policy : FaultPolicy) (limit : Nat)
    (fault : Fault) :
    (t.raise a policy limit fault).Keeps i t.store (framesHold i t.frames) :=
  ⟨⟨rfl, rfl⟩, rfl⟩

/-- So is one whose policy is that of a registry. -/
theorem raiseIn_keeps (i : ThreadId) (t : Turn σ) (a : Actor) (registry : RegistryId)
    (fault : Fault) : (t.raiseIn a registry fault).Keeps i t.store (framesHold i t.frames) :=
  raise_keeps ..

/-- Consulting an entry is not holding it. -/
theorem consult_keeps (i : ThreadId) (t : Turn σ) (registry : RegistryId) (q : Request)
    (record : RecordId) :
    (t.consult registry q record).Keeps i t.store (framesHold i t.frames) := by
  unfold consult
  split <;> exact ⟨.refl _, rfl⟩

/-- The beginning of a walk over fields takes no entry up. -/
theorem startLayout_keeps (i : ThreadId) (lib : Library σ) (t : Turn σ) (registry : RegistryId)
    (record : RecordId) (scratch : Scratch) :
    (t.startLayout lib registry record scratch).Keeps i t.store (framesHold i t.frames) := by
  unfold startLayout
  split <;> exact ⟨.refl _, rfl⟩

/-- A handler takes over from a program, not from an initialization. -/
theorem handle_keeps (i : ThreadId) (t : Turn σ) (f : Failure) (s : Setting σ) :
    (t.handle f s).Keeps i t.store (framesHold i t.frames) := by
  unfold handle
  split <;> exact ⟨.refl _, rfl⟩

/-- Offsets and a layout are written into a record, not into an entry. -/
theorem alike_layDown (s : Store) (record : RecordId) (layouts : List Layout) :
    s.Alike (layDown s record layouts) :=
  s.alike_changeRecord record fun _ => rfl

/-- So is the layout of a tuple. -/
theorem alike_settleTuple (s : Store) (record : RecordId) : s.Alike (settleTuple s record) := by
  unfold settleTuple
  split
  · exact .refl s
  · exact s.alike_changeRecord record fun _ => rfl

/-- So is what is settled of a fresh record. -/
theorem alike_firstStage (lib : Library σ) (s : Store) (record : RecordId) :
    s.Alike (firstStage lib s record).1 := by
  unfold firstStage
  split
  · exact .refl s
  · split
    · exact .refl s
    · show s.Alike (settleLayout s record _)
      unfold settleLayout
      split
      · exact .refl s
      · exact s.alike_changeRecord record fun _ => rfl

/-- Names are not kept in entries. -/
theorem askName_keeps (i : ThreadId) (t : Turn σ) (j : NameJob) (r : Registry) :
    (t.askName j r).Keeps i t.store (framesHold i t.frames) := by
  unfold askName
  split <;> exact ⟨⟨rfl, rfl⟩, rfl⟩

/-- A request for a canonical record concerns no entry, and the frame of a founding holds
none. -/
theorem requestName_keeps (i : ThreadId) {registry : RegistryId} {candidate : CandidateId}
    (h : NameRequested lib t registry candidate t') :
    t'.Keeps i t.store (framesHold i t.frames) := by
  cases h with
  | known => exact ⟨.refl _, rfl⟩
  | ask => exact askName_keeps ..
  | register => exact ⟨⟨rfl, rfl⟩, rfl⟩
  | found => exact ⟨⟨rfl, rfl⟩, rfl⟩

/-- Witness tables are not kept in entries. -/
theorem requestTable_keeps (i : ThreadId) {registry : RegistryId} {conformance : ConformanceId}
    {conforming : RecordId} {arguments : List TableId}
    (h : TableRequested lib t registry conformance conforming arguments t') :
    t'.Keeps i t.store (framesHold i t.frames) := by
  cases h with
  | pattern => exact ⟨⟨rfl, rfl⟩, rfl⟩
  | cell => exact ⟨t.store.alike_cellFor .., rfl⟩

/-- The frame of an attempt at a witness table holds no entry. -/
theorem acquire_keeps (i : ThreadId) {j : TableJob} {arguments : List TableId}
    (h : Acquired lib t a j arguments t') : t'.Keeps i t.store (framesHold i t.frames) := by
  have hs : t.store.Alike (t.store.changeCell j.cell (.building a.id)) := ⟨rfl, rfl⟩
  cases h with
  | full => exact ⟨.refl _, rfl⟩
  | instantiate => exact ⟨hs.trans (Store.alike_takeBlock ..), rfl⟩
  | copy => exact ⟨hs.trans (Store.alike_takeBlock ..), rfl⟩

/-- Neither the end of an attempt nor its fault concerns an entry. -/
theorem filled_keeps (i : ThreadId) {j : TableJob} {draft : Draft}
    (h : Filled lib t a j draft t') : t'.Keeps i t.store (framesHold i t.frames) := by
  cases h with
  | lack => exact raiseIn_keeps i { t with frames := .filling j :: t.frames } a _ _
  | table => exact ⟨⟨rfl, rfl⟩, rfl⟩

/-- Who is answered has not taken the entry up. -/
theorem await_keeps (i : ThreadId) {registry : RegistryId} {entry : EntryId} {q : Request}
    (h : Waited t a registry entry q t') : t'.Keeps i t.store (framesHold i t.frames) := by
  cases h with
  | answer => exact ⟨.refl _, rfl⟩
  | reentrant => exact raiseIn_keeps ..

/-- A report is shown while everything is held that was. -/
theorem report_keeps (i : ThreadId) {r : Report} {hooks : List HookId} {policy : FaultPolicy}
    (h : Reported lib t r hooks policy t') : t'.Keeps i t.store (framesHold i t.frames) := by
  cases h with
  | hook => exact ⟨.refl _, rfl⟩
  | abort => exact ⟨⟨rfl, rfl⟩, rfl⟩
  | unwind => exact ⟨⟨rfl, rfl⟩, rfl⟩

/-- A walk over fields holds no entry; whoever runs it does. -/
theorem lay_keeps (i : ThreadId) {w : FieldWalk σ} (h : FieldLaid t a w t') :
    t'.Keeps i t.store (framesHold i t.frames) := by
  cases h with
  | done => exact ⟨alike_layDown .., rfl⟩
  | consult =>
      have hk := consult_keeps i { t with frames := .laying w :: t.frames } w.registry
      exact ⟨(hk ..).alike, (hk ..).holds⟩
  | compute => exact ⟨.refl _, rfl⟩
  | lack => exact raiseIn_keeps ..

/-- The same goes for a walk that takes an answer. -/
theorem laid_keeps (i : ThreadId) (t : Turn σ) (w : FieldWalk σ) (r : Response) :
    (t.laid w r).Keeps i t.store (framesHold i t.frames) := by
  unfold laid
  split <;> exact ⟨.refl _, rfl⟩

-- ====================================================== requests

/-- A request whose key has no entry makes one. -/
theorem create_spec (t : Turn σ) (registry : RegistryId) (q : Request) (key : Key) (record : Record)
    (hk : record.key? = some key) :
    (t.create registry q key record).1.store.entries = t.store.entries.push { registry, key }
      ∧ (t.create registry q key record).1.store.keys = t.store.keys ++ [some key]
      ∧ (t.create registry q key record).2
        = ⟨registry, t.store.entries.size, t.store.records.size, q⟩ := by
  let s := { t.store with entries := t.store.entries.push { registry, key } }
  have ha := s.alike_takeBlock registry record.blockSize wordSize
  refine ⟨ha.entries, ?_, ?_⟩
  · have hkeys : (s.takeBlock registry record.blockSize wordSize).1.keys = t.store.keys := ha.keys
    unfold create Store.addRecord Store.keys
    simp only [Array.toList_push, List.map_append, List.map_cons, List.map_nil, hk]
    exact congrArg (· ++ [some key]) hkeys
  · unfold create Store.addRecord
    simp only [ha.records_size, s]

/-- To find an entry for a key is not to hold it. -/
theorem hit_keeps (i : ThreadId) (t : Turn σ) (registry : RegistryId) (entry : EntryId)
    (q : Request) : (t.hit registry entry q).Keeps i t.store (framesHold i t.frames) :=
  ⟨⟨rfl, rfl⟩, rfl⟩

/-- A request is answered, waits, fails, or makes an entry. -/
theorem request_shift {registry : RegistryId} {q : Request} {c : Call}
    {k : Response → Program σ Value} {s : Setting σ}
    (hc : t.control = .run (.request registry q c k) s)
    (h : Requested lib { t with frames := .forResponse k s :: t.frames } a registry q c t') :
    Shift lib a t t' := by
  have hholds : t.holds a.id = framesHold a.id (.forResponse k s :: t.frames) := holds_of_control hc
  have hquiet : ∀ {u : Turn σ},
      u.Keeps a.id t.store (framesHold a.id (.forResponse k s :: t.frames)) → Shift lib a t u :=
    fun hu => Keeps.quiet (hholds ▸ hu)
  cases h with
  | check => exact hquiet (consult_keeps a.id { t with frames := .forResponse k s :: t.frames } ..)
  | empty => exact hquiet ⟨.refl _, rfl⟩
  | miscount =>
      exact hquiet (raiseIn_keeps a.id { t with frames := .forResponse k s :: t.frames } ..)
  | hit => exact hquiet (hit_keeps a.id { t with frames := .forResponse k s :: t.frames } ..)
  | @create _ key record hmakes hnone =>
      obtain ⟨he, hk, hal⟩ := create_spec { t with frames := .forResponse k s :: t.frames }
        registry q key record hmakes.record_key?
      refine .create hc hnone he hk ?_
      rw [hholds, hal]
      exact .refl _
  | @instantiate d _ _ key record _ hd hi hmakes hnone =>
      obtain ⟨he, hk, hal⟩ := create_spec { t with frames := .forResponse k s :: t.frames }
        registry q key record hmakes.record_key?
      refine .create hc hnone he hk ?_
      rw [hholds, hal]
      exact .refl _

/-- A program creates an entry by a request that finds none, and does nothing else to
entries. -/
theorem run_shift {p : Program σ Value} {s : Setting σ} (hc : t.control = .run p s)
    (h : Ran lib t a s p t') : Shift lib a t t' := by
  have hholds : t.holds a.id = framesHold a.id t.frames := holds_of_control hc
  have hquiet : ∀ {u : Turn σ}, u.Keeps a.id t.store (framesHold a.id t.frames) →
      Shift lib a t u :=
    fun hu => Keeps.quiet (hholds ▸ hu)
  cases h with
  | request h => exact request_shift hc h
  | fail => exact hquiet (handle_keeps ..)
  | refuse => exact hquiet (handle_keeps ..)
  | act => exact hquiet ⟨t.store.alike_perform _, rfl⟩
  | @structLayout _ _ _ k =>
      exact hquiet (startLayout_keeps a.id lib { t with frames := .forLayout k s :: t.frames } ..)
  | table h =>
      have hk := requestTable_keeps a.id h
      exact hquiet ⟨hk.alike, hk.holds⟩
  | canonical h =>
      have hk := requestName_keeps a.id h
      exact hquiet ⟨hk.alike, hk.holds⟩
  | raise =>
      exact hquiet
        (raise_keeps a.id { t with frames := .forResponse (fun _ => .done .unit) s :: t.frames } ..)
  | _ => exact hquiet ⟨.refl _, rfl⟩

-- ====================================================== outcomes of a step

/-- An outcome is final exactly when nothing stopped the step. -/
theorem closing_complete_iff (s : Store) (d : Drive) :
    (closing s d).stage = .complete ↔ (closing s d).dependency = none := by
  unfold closing StepOutcome.closing
  split <;> simp [StepOutcome.blocked, StepOutcome.finished]

/-- A step that has been stopped names what has stopped it. -/
theorem blocked_complete_iff {stage : Stage} (hs : stage ≠ .complete) (dep : Dependency) :
    (StepOutcome.blocked stage dep).stage = .complete
      ↔ (StepOutcome.blocked stage dep).dependency = none :=
  ⟨fun h => absurd h hs, nofun⟩

/-- No record is complete by the look of it. -/
theorem inferredStage_unfinished (s : Store) (record : RecordId) :
    s.inferredStage record ≠ .complete := by
  unfold Store.inferredStage
  split <;> decide

/-- The outcome of a tuple is complete just if it depends on nothing. -/
theorem tupleOutcome_complete_iff (s : Store) (d : Drive) (stages : List Stage) :
    (tupleOutcome s d stages).stage = .complete ↔ (tupleOutcome s d stages).dependency = none := by
  simp only [tupleOutcome]
  split
  · exact ⟨fun _ => rfl, fun _ => rfl⟩
  · split
    · exact blocked_complete_iff (by decide) _
    · exact closing_complete_iff s d

/-- Once its callback has come back, a step has an outcome; besides, only the
scratch words may differ. -/
theorem stepped_spec (t : Turn σ) (d : Drive) (dep : Option Dependency) (left : Local) :
    ∃ words o, t.stepped d dep left = t.goto (.publish { d with scratch := words } o)
      ∧ (o.stage = .complete ↔ o.dependency = none) := by
  have hblocked : ∀ dep, _ := fun dep =>
    blocked_complete_iff (inferredStage_unfinished t.store d.record) dep
  have hclosing : ∀ words, _ := fun words =>
    closing_complete_iff t.store { d with scratch := words }
  unfold stepped
  cases left with
  | scratch words =>
      cases dep with
      | some dep => exact ⟨words, _, rfl, hblocked dep⟩
      | none => exact ⟨words, _, rfl, hclosing words⟩
  | nothing =>
      cases dep with
      | some dep => exact ⟨d.scratch, _, rfl, hblocked dep⟩
      | none => exact ⟨d.scratch, _, rfl, hclosing d.scratch⟩
  | draft f =>
      cases dep with
      | some dep => exact ⟨d.scratch, _, rfl, hblocked dep⟩
      | none => exact ⟨d.scratch, _, rfl, hclosing d.scratch⟩

/-- A step has come to its outcome. -/
theorem conclude_shift {d : Drive} {o : StepOutcome} {rest : List Hold} (words : Scratch)
    (ho : o.stage = .complete ↔ o.dependency = none) (ha : t.store.Alike t'.store)
    (hh : t.holds a.id = .active a.id d :: rest)
    (hh' : t'.holds a.id = .concluding a.id { d with scratch := words } o :: rest) :
    Shift lib a t t' :=
  .proceed (.conclude words ho) ha (by rw [hh]) (by rw [hh'])

/-- The outcome of a piece of work reaches the topmost frame. -/
theorem give_shift {v : Value} {left : Local} (hc : t.control = .give v left)
    (h : Given lib t a v left t') : Shift lib a t t' := by
  have hholds : t.holds a.id = framesHold a.id t.frames := holds_of_control hc
  have hframe : ∀ {frame : Frame σ} {rest : List (Frame σ)}, t.frames = frame :: rest →
      t.holds a.id = frame.holds a.id ++ framesHold a.id rest := fun hf => by
    rw [hholds, hf, framesHold_cons]
  have hquiet : ∀ {frame : Frame σ} {rest : List (Frame σ)} {u : Turn σ},
      t.frames = frame :: rest → frame.holds a.id = [] →
      u.Keeps a.id t.store (framesHold a.id rest) → Shift lib a t u := fun hf hn hu => by
    refine Keeps.quiet ?_
    rw [hframe hf, hn]
    exact hu
  cases h with
  | ended => exact .quiet (.refl _) (by rw [hholds]; exact .refl _)
  | response hf => exact hquiet hf rfl ⟨.refl _, rfl⟩
  | layout hf => exact hquiet hf rfl ⟨.refl _, rfl⟩
  | table hf => exact hquiet hf rfl ⟨.refl _, rfl⟩
  | record hf => exact hquiet hf rfl ⟨.refl _, rfl⟩
  | allocated hf => exact .quiet (.refl _) (by rw [hframe hf]; exact .refl _)
  | @stepped d rest dep left hf =>
      obtain ⟨words, o, hst, ho⟩ := stepped_spec { t with frames := rest } d dep left
      rw [hst]
      exact conclude_shift words ho (.refl _) (hframe hf) rfl
  | @laid w rest r _ hf => exact hquiet hf rfl (laid_keeps a.id { t with frames := rest } ..)
  | @measured w rest r _ hf =>
      unfold measured
      split
      · split
        · exact .quiet (.refl _) (by rw [hframe hf]; exact .refl _)
        · exact conclude_shift w.drive.scratch (blocked_complete_iff (by decide) _) (.refl _)
            (hframe hf) rfl
      · exact .quiet (.refl _) (by rw [hframe hf]; exact .refl _)
  | relied hf => exact .quiet (.refl _) (by rw [hframe hf]; exact .refl _)
  | released hf => exact .quiet (.refl _) (by rw [hframe hf]; exact .refl _)
  | filled hf h => exact hquiet hf rfl (filled_keeps a.id h)
  | founded hf => exact hquiet hf rfl ⟨⟨rfl, rfl⟩, rfl⟩
  | reported hf => exact hquiet hf rfl ⟨.refl _, rfl⟩

/-- Unwinding drops a frame and what it holds. -/
theorem unwind_shift {f : Failure} (hc : t.control = .unwind f) (h : Unwound t f t') :
    Shift lib a t t' := by
  have hholds : t.holds a.id = framesHold a.id t.frames := holds_of_control hc
  have hdrop : ∀ {frame : Frame σ} {rest : List (Frame σ)} {u : Turn σ},
      t.frames = frame :: rest → u.Keeps a.id t.store (framesHold a.id rest) →
      Shift lib a t u := fun {frame rest u} hf hu => by
    have hlost : (t.holds a.id).Perm (frame.holds a.id ++ u.holds a.id) := by
      rw [hholds, hf, framesHold_cons, hu.holds]
    exact .lose (.inl (by rw [hc]; rfl)) hu.alike hlost
  cases h with
  | ended => exact .quiet (.refl _) (by rw [hholds]; exact .refl _)
  | @handle frame rest s hf hs => exact hdrop hf (handle_keeps a.id { t with frames := rest } f s)
  | abandon hf => exact hdrop hf ⟨⟨rfl, rfl⟩, rfl⟩
  | drop hf => exact hdrop hf ⟨.refl _, rfl⟩

-- ====================================================== completion

/-- Making a record known finishes its allocation, and changes no other
entry. -/
theorem allocated_entries {al : Allocation} (h : Allocated lib t a al t') :
    t'.store.entries
        = t.store.entries.modify al.entry
          (·.finishAllocation a.id al.record (firstStage lib t.store al.record).2)
      ∧ t'.store.keys = t.store.keys := by
  have ha := (alike_firstStage lib t.store al.record).trans (Store.alike_note _ al.registry
    fun l => { l with instantiations := l.instantiations + 1 })
  have he := congrArg (fun es : Array Entry => es.modify al.entry
    (·.finishAllocation a.id al.record (firstStage lib t.store al.record).2)) ha.entries
  cases h with
  | finish => exact ⟨he, ha.keys⟩
  | begin => exact ⟨he, ha.keys⟩

/-- An allocation is over: the entry is complete at once, or the thread begins to complete
it. -/
theorem allocated_shift {al : Allocation} (hc : t.control = .allocated al)
    (h : Allocated lib t a al t') : Shift lib a t t' := by
  obtain ⟨he, hk⟩ := allocated_entries h
  refine .allocate hc rfl he hk (holds_of_control hc) ?_
  cases h with
  | finish hdone => rw [if_pos hdone]; rfl
  | begin hopen => rw [if_neg hopen]; rfl

/-- A step begins, or there is nothing to run for it. -/
theorem begin_shift {d : Drive} (hc : t.control = .begin d) (h : Begun lib t d t') :
    Shift lib a t t' := by
  have hholds : t.holds a.id = .active a.id d :: framesHold a.id t.frames := holds_of_control hc
  cases h with
  | measure => exact .quiet ⟨rfl, rfl⟩ (by rw [hholds]; exact .refl _)
  | close =>
      exact conclude_shift d.scratch (closing_complete_iff _ d) ⟨rfl, rfl⟩ hholds rfl
  | layout =>
      have hk := startLayout_keeps a.id lib
        { t with
          store := t.store.note d.registry fun l => { l with steps := l.steps + 1 }
          frames := .stepping d :: t.frames } d.registry d.record d.scratch
      exact Keeps.quiet
        ⟨(Store.alike_note t.store ..).trans hk.alike, by rw [hk.holds, hholds]; rfl⟩
  | callback => exact .quiet ⟨rfl, rfl⟩ (by rw [hholds]; exact .refl _)

/-- The next element of a tuple is looked at, or the step comes to its
outcome. -/
theorem measure_shift {w : ElementWalk} (hc : t.control = .measure w)
    (h : ElementMeasured t w t') : Shift lib a t t' := by
  have hholds : t.holds a.id = .active a.id w.drive :: framesHold a.id t.frames :=
    holds_of_control hc
  cases h with
  | done =>
      exact conclude_shift w.drive.scratch (tupleOutcome_complete_iff ..)
        (alike_settleTuple t.store w.drive.record) hholds rfl
  | consult =>
      have hk := consult_keeps a.id { t with frames := .measuring w :: t.frames } w.drive.registry
        (.poll .layoutComplete)
      exact Keeps.quiet ⟨(hk _).alike, by rw [(hk _).holds, hholds]; rfl⟩

/-- The next waiter that was let go is taken up, or there is none left. -/
theorem release_shift {d : Drive} {dep : Option Dependency} {ready : List Waiter}
    (hc : t.control = .release d dep ready) (h : Released t a d dep ready t') :
    Shift lib a t t' := by
  have hholds : t.holds a.id
      = .stopping a.id d dep :: (ready.map (.ready d.registry) ++ framesHold a.id t.frames) :=
    holds_of_control hc
  have hperm : ∀ {w : Waiter} {rest : List Waiter}, ready = w :: rest →
      (t.holds a.id).Perm (.ready d.registry w
        :: framesHold a.id (.releasing d dep rest :: t.frames)) := fun hready => by
    rw [hholds, hready]
    exact List.Perm.swap ..
  cases h with
  | resume he hr htaken => exact .resume hc he hr htaken rfl rfl (hperm rfl) rfl
  | forget hgone => exact .forget hc hgone ⟨rfl, rfl⟩ (hperm rfl)
  | stop hdep => subst hdep; exact .quiet (.refl _) (by rw [hholds]; exact .refl _)
  | finish hdep hdone => subst hdep; exact .finish hc hdone (.refl _) hholds
  | again hdep hopen => exact .proceed (.again hopen) (.refl _) (.of_eq hholds) (.refl _)

/-- A chain that closes is a fault. Otherwise the thread waits, or gives the
initialization up for now. -/
theorem stopped_shift {d : Drive} {dep : Dependency} (hc : t.control = .stopped d dep)
    (h : Stopped t a d dep t') : Shift lib a t t' := by
  have hholds : t.holds a.id = .stopping a.id d (some dep) :: framesHold a.id t.frames :=
    holds_of_control hc
  cases h with
  | cycle =>
      have hperm : (t.holds a.id).Perm
          ([.stopping a.id d (some dep)] ++ framesHold a.id t.frames) := .of_eq hholds
      exact .lose (.inr rfl) ⟨rfl, rfl⟩ hperm
  | rely hopen hwaits =>
      have hu : d.stage ≠ .complete := fun hcomp => by
        refine hwaits.2 ?_
        rw [hcomp]
        exact Stage.satisfies_iff.mpr (by cases d.request.stage <;> decide)
      have hk := consult_keeps a.id
        { t with
          store := t.store.note d.registry fun l => { l with dependencies := l.dependencies + 1 }
          frames := .relying d :: t.frames } d.registry (.blocking dep.required) dep.target
      exact .proceed (.again hu) ((Store.alike_note t.store ..).trans hk.alike) (.of_eq hholds)
        (by rw [hk.holds]; exact .refl _)
  | suspend hopen hparks => exact .suspend hc hopen hparks rfl rfl rfl hholds rfl

/-- A suspended initialization is queued, or taken up again. -/
theorem enqueue_shift {d : Drive} {dep : Dependency} (hc : t.control = .enqueue d dep)
    (h : Enqueued t a d dep t') : Shift lib a t t' := by
  have hholds : t.holds a.id = .leaving d dep :: framesHold a.id t.frames := holds_of_control hc
  cases h with
  | park hq he hopen => exact .park hc hq he hopen rfl rfl hholds
  | reclaim _ hown htaken => exact .reclaim hc hown htaken rfl rfl hholds rfl
  | strand _ hown hlost => exact .strand hc hown hlost (.refl _) hholds

-- ====================================================== every step

/-- Every step of a thread is on the list. -/
theorem step_shift (h : t.step lib a = some t') : Shift lib a t t' := by
  have hquiet : ∀ {u : Turn σ}, t.control.holds a.id = [] →
      u.Keeps a.id t.store (framesHold a.id t.frames) → Shift lib a t u := fun hn hu => by
    refine Keeps.quiet ?_
    unfold holds
    rw [hn]
    exact hu
  cases step_cases h with
  | run hc h => exact run_shift hc h
  | give hc h => exact give_shift hc h
  | unwind hc h => exact unwind_shift hc h
  | await hc h => exact hquiet (by rw [hc]; rfl) (await_keeps a.id h)
  | allocated hc h => exact allocated_shift hc h
  | begin hc h => exact begin_shift hc h
  | lay hc h => exact hquiet (by rw [hc]; rfl) (lay_keeps a.id h)
  | measure hc h => exact measure_shift hc h
  | publish hc h =>
      obtain ⟨he⟩ := h
      exact .publish hc he rfl rfl (holds_of_control hc) rfl
  | release hc h => exact release_shift hc h
  | stopped hc h => exact stopped_shift hc h
  | enqueue hc h => exact enqueue_shift hc h
  | acquire hc h => exact hquiet (by rw [hc]; rfl) (acquire_keeps a.id h)
  | standBy hc h =>
      obtain ⟨-, -⟩ := h
      exact hquiet (by rw [hc]; rfl) (askName_keeps ..)
  | report hc h => exact hquiet (by rw [hc]; rfl) (report_keeps a.id h)

end TypeRecords.Turn
