/-
What stands above a completion step.

In a library without completion callbacks a step of a generic record is a walk
over its fields, and above the step's frame there is nothing but that walk: the
control, or the frame in which the walk waits for its next field. A walk waits
alone as well, unless a program computes the type of the field, and so does the
walk over the elements of a tuple. Only a report comes between, and it unwinds
in the end. `Turn.Stands` says this of a stack, frame by frame, and every step
keeps it (`Stands.step`).

What is it good for: whoever lays a record out, or hands an outcome to a step,
is the walk that this very step has begun. So the record that is written to is
the one the thread holds, and a step that nothing has stopped has laid it out.

It is also how steps are looked at afterwards. Above a frame that lets nothing
run there are few controls, and each has come there in one way
(`Turn.Lands`, `Turn.step_lands`); and a thread that is about to publish an
outcome has it from one of five places (`Turn.Concludes`,
`Turn.step_concludes`).
-/
import TypeRecords.Proofs.Fields.Walking
import TypeRecords.Proofs.Process.Records
import TypeRecords.Proofs.Requests.Serving

namespace TypeRecords

variable {σ : Type}

/-- Records are completed by laying out their fields, or need no completion. -/
def Library.Stock (lib : Library σ) : Prop :=
  ∀ {id : DescriptorId} {d : Descriptor σ}, lib.descriptors[id]? = some d →
    d.completion = none ∨ d.completion = some .structLayout

theorem Library.Stock.no_callback {lib : Library σ} (hlib : lib.Stock) {r : Record}
    {d : Descriptor σ} {step : RegistryId → RecordId → Program σ (Option Dependency)}
    (hd : lib.descriptorOf? r = some d) : d.completion ≠ some (.callback step) := by
  intro hcomp
  unfold Library.descriptorOf? at hd
  split at hd
  · rcases hlib hd with hno | hno <;> rw [hno] at hcomp <;> cases hcomp
  · cases hd

-- ====================================================== stacks

/-- The record of the next field is looked up, not computed. -/
def FieldWalk.looksUp (w : FieldWalk σ) : Bool :=
  match w.todo with
  | [] => true
  | field :: _ =>
    match field.type with
    | .computed _ => false
    | _ => true

/-- A walk stands above the step that has begun it, or a program that has. -/
def FieldWalk.Stands (w : FieldWalk σ) : List (Frame σ) → Prop
  | .stepping d :: _ => w.registry = d.registry ∧ w.record = d.record
  | .forLayout .. :: _ => True
  | _ => False

/-- Whether no program runs above the frame. -/
def Frame.closed : Frame σ → Bool
  | .stepping _ => true
  | .laying w => w.looksUp
  | .measuring _ => true
  | _ => false

/-- Whether the topmost frame, if there is one, lets anything run above it. -/
def Open : List (Frame σ) → Prop
  | f :: _ => f.closed = false
  | [] => True

def Frame.Stands : Frame σ → List (Frame σ) → Prop
  | .laying w, below => w.Stands below
  | .reporting .., _ => True
  | _, below => Open below

/-- What the control may be on a stack. A step that is told that nothing has
stopped it has laid the record out. -/
def Control.Stands (s : Store) : Control σ → List (Frame σ) → Prop
  | .lay w, below => w.Stands below
  | .give v left, below => ∀ d rest, below = .stepping d :: rest →
    ∃ dep words, v = .dependency dep ∧ left = .scratch words
      ∧ (dep = none → (s.records.layoutOf d.record).isSome)
  | .await .., below => ∀ d rest, below ≠ .stepping d :: rest
  | c, below => c.fails = true ∨ Open below

/-- Each frame is with those below it as `P` says. -/
def Layered (P : Frame σ → List (Frame σ) → Prop) : List (Frame σ) → Prop
  | [] => True
  | f :: fs => P f fs ∧ Layered P fs

theorem Layered.imp {P Q : Frame σ → List (Frame σ) → Prop} {fs : List (Frame σ)}
    (h : Layered P fs) (himp : ∀ {f below}, P f below → Q f below) : Layered Q fs := by
  induction fs with
  | nil => trivial
  | cons f fs ih => exact ⟨himp h.1, ih h.2⟩

/-- The control stands on the frames, and these on each other. -/
structure Turn.Stands (t : Turn σ) : Prop where
  control : t.control.Stands t.store t.frames
  frames : Layered Frame.Stands t.frames

theorem Control.stands_of_fails {c : Control σ} (h : c.fails = true) (s : Store)
    (fs : List (Frame σ)) : c.Stands s fs := by
  cases c with
  | unwind f => exact .inl rfl
  | report r hooks policy => exact .inl rfl
  | ended => exact .inl rfl
  | _ => cases h

theorem not_stepping_of_open {fs : List (Frame σ)} (h : Open fs) (d : Drive)
    (rest : List (Frame σ)) : fs ≠ .stepping d :: rest := by
  rintro rfl
  cases h

theorem Control.stands_of_open {c : Control σ} (hc : ∀ w, c ≠ .lay w) (s : Store)
    {fs : List (Frame σ)} (hf : Open fs) : c.Stands s fs := by
  cases c with
  | lay w => exact (hc w rfl).elim
  | give v left => exact fun d rest heq => (not_stepping_of_open hf d rest heq).elim
  | await r e q => exact not_stepping_of_open hf
  | _ => exact .inr hf

/-- Whether the control may stand above a frame that lets nothing run above
it. -/
def Control.closing : Control σ → Bool
  | .lay _ => true
  | .give .. => true
  | .await .. => true
  | c => c.fails

theorem Control.Stands.open {c : Control σ} {s : Store} {fs : List (Frame σ)} (h : c.Stands s fs)
    (hc : c.closing = false) : Open fs := by
  cases c with
  | lay w => cases hc
  | give v left => cases hc
  | await r e q => cases hc
  | _ => exact h.resolve_left (Bool.eq_false_iff.mp hc)

/-- What has been laid out stays so. -/
theorem Control.Stands.mono {c : Control σ} {s s' : Store} {fs : List (Frame σ)}
    (h : c.Stands s fs)
    (hl : ∀ x, (s.records.layoutOf x).isSome → (s'.records.layoutOf x).isSome) :
    c.Stands s' fs := by
  cases c with
  | give v left =>
      intro d rest heq
      obtain ⟨dep, words, hv, hleft, hknown⟩ := h d rest heq
      exact ⟨dep, words, hv, hleft, fun hn => hl _ (hknown hn)⟩
  | _ => exact h

-- ====================================================== what a step comes to

namespace Turn

variable {lib : Library σ} {a : Actor} {t t' : Turn σ} {others : List Hold}

/-- How a completion step begins. -/
inductive Begins (lib : Library σ) (t : Turn σ) (d : Drive) (t' : Turn σ) : Prop
  | tuple {r : Record} (hr : t.store.records[d.record]? = some r) (ho : r.origin = .tuple)
      (hc : t'.control = .measure ⟨d, r.arguments, []⟩) (hf : t'.frames = t.frames)
  /-- There is nothing left to run. -/
  | closing {r : Record} {id : DescriptorId} (s : Store)
      (hr : t.store.records[d.record]? = some r) (ho : r.origin = .generic id)
      (hn : d.stage < .nonTransitive → (lib.descriptors[id]?).bind (·.completion) = none)
      (hc : t'.control = .publish d (Turn.closing s d)) (hf : t'.frames = t.frames)
  | walk {r : Record} {desc : Descriptor σ} (hr : t.store.records[d.record]? = some r)
      (hd : lib.descriptorOf? r = some desc) (hcomp : desc.completion = some .structLayout)
      (hs : d.stage < .nonTransitive)
      (hc : t'.control = .lay ⟨d.registry, d.record, d.scratch, desc.fields, 0, []⟩)
      (hf : t'.frames = .stepping d :: t.frames)
  | callback {r : Record} {desc : Descriptor σ}
      {step : RegistryId → RecordId → Program σ (Option Dependency)} {p : Program σ Value}
      {st : Setting σ} (hr : t.store.records[d.record]? = some r)
      (hd : lib.descriptorOf? r = some desc) (hcomp : desc.completion = some (.callback step))
      (hc : t'.control = .run p st) (hf : t'.frames = .stepping d :: t.frames)

theorem begin_begins {d : Drive} (h : Begun lib t d t') : Begins lib t d t' := by
  -- the completion is that of the record's descriptor
  have hfound : ∀ {r : Record} {id : DescriptorId} {completion : Completion σ},
      r.origin = .generic id → (lib.descriptors[id]?).bind (·.completion) = some completion →
      ∃ desc, lib.descriptorOf? r = some desc ∧ desc.completion = some completion :=
    fun ho hsome => by
      unfold Library.descriptorOf?
      rw [ho]
      exact Option.bind_eq_some_iff.mp hsome
  cases h with
  | measure hr ho => exact .tuple hr ho rfl rfl
  | close hr ho hdone => exact .closing _ hr ho hdone rfl rfl
  | layout hr ho hstage hcompletion =>
      obtain ⟨desc, hd, hcomp⟩ := hfound ho hcompletion
      have hlay : (t.store.records[d.record]?).bind lib.descriptorOf? = some desc := by
        rw [hr, Option.bind_some]
        exact hd
      exact .walk hr hd hcomp hstage (startLayout_found hlay) (startLayout_frames ..)
  | callback hr ho hstage hcompletion =>
      obtain ⟨desc, hd, hcomp⟩ := hfound ho hcompletion
      exact .callback hr hd hcomp rfl rfl

/-- What a walk over fields does next. -/
inductive Lays (a : Actor) (t : Turn σ) (w : FieldWalk σ) (t' : Turn σ) : Prop
  | done {words : Scratch} (hw : w.todo = [])
      (hs : t'.store = layDown t.store w.record w.layouts) (hwords : words.get 0 = w.index)
      (hc : t'.control = .give (.dependency none) (.scratch words)) (hf : t'.frames = t.frames)
  | looksUp {y : RecordId} (hy : w.next? t.store = some y)
      (ht : t' = ({ t with frames := .laying w :: t.frames }).consult w.registry
        (.poll .layoutComplete) y)
  | computes (hw : w.looksUp = false) (hf : t'.frames = .laying w :: t.frames)
      (hc : t'.control.plain = true)
  | fails (hc : t'.control.fails = true)

theorem lay_lays {w : FieldWalk σ} (h : FieldLaid t a w t') : Lays a t w t' := by
  cases h with
  | done htodo => exact .done htodo rfl (Vector.getElem_set_self ..) rfl rfl
  | consult htodo hrecord =>
      refine .looksUp ?_ rfl
      unfold FieldWalk.next?
      rw [htodo]
      rcases hrecord with htype | ⟨index, htype, hindex⟩
      · simp only [htype]
      · simp only [htype]
        exact hindex
  | compute htodo htype =>
      refine .computes ?_ rfl rfl
      unfold FieldWalk.looksUp
      rw [htodo]
      simp only [htype]
  | lack => exact .fails rfl

-- ====================================================== frames that are opened

theorem closed_of_call {f : Frame σ} (h : f.isCall = true) : f.closed = false := by
  cases f <;> first | rfl | cases h

/-- A step keeps what is so of all frames, if it is so of those that it puts on
the stack. -/
theorem layered_step {P : Frame σ → List (Frame σ) → Prop} (hlayers : Layered P t.frames)
    (h : t.step lib a = some t')
    (hopens : ∀ f above, t.Opens f → (∀ g ∈ above, t.Opens g ∧ g.isCall = true) →
      P f (above ++ t.frames)) :
    Layered P t'.frames := by
  cases step_stacks h with
  | same hfs => exact hfs ▸ hlayers
  | drop hfs hgone => exact (hfs ▸ hlayers).2
  | opened fs hfs hall htail =>
      rw [hfs]
      clear hfs
      induction fs with
      | nil => exact hlayers
      | cons f fs ih =>
          refine ⟨hopens f fs (hall f List.mem_cons_self) fun g hg =>
            ⟨hall g (List.mem_cons_of_mem _ hg), htail g hg⟩, ?_⟩
          exact ih (fun g hg => hall g (List.mem_cons_of_mem _ hg)) fun g hg =>
            htail g (List.mem_of_mem_tail hg)

/-- A walk puts its own frame on the stack and no other; only programs do. -/
theorem above_of_lay {w : FieldWalk σ} {above : List (Frame σ)} (hc : t.control = .lay w)
    (habove : ∀ g ∈ above, t.Opens g ∧ g.isCall = true) : above = [] := by
  cases above with
  | nil => rfl
  | cons g above =>
      obtain ⟨hg, hcall⟩ := habove g List.mem_cons_self
      cases hg with
      | call hc' hf => rw [hc] at hc'; cases hc'
      | _ => cases hcall

/-- What is put on the stack stands on it. -/
theorem Opens.stands {f : Frame σ} {above : List (Frame σ)} (h : t.Opens f) (ht : t.Stands)
    (habove : ∀ g ∈ above, t.Opens g ∧ g.isCall = true) : f.Stands (above ++ t.frames) := by
  have hopen : t.control.closing = false → Open (above ++ t.frames) := fun hc => by
    cases above with
    | nil => exact ht.control.open hc
    | cons g above => exact closed_of_call (habove g List.mem_cons_self).2
  cases h with
  | @call p s f hc hf =>
      have hbelow := hopen (by rw [hc]; rfl)
      cases f <;> first | exact hbelow | cases hf
  | laying hc =>
      have hwalk := ht.control
      rw [hc] at hwalk
      rw [above_of_lay hc habove]
      exact hwalk
  | reporting hc => trivial
  | allocating al hc => exact hopen (by rw [hc]; rfl)
  | founding j hc => exact hopen (by rw [hc]; rfl)
  | stepping hc hd => exact hopen (by rw [hc]; rfl)
  | measuring hc => exact hopen (by rw [hc]; rfl)
  | releasing hc => exact hopen (by rw [hc]; rfl)
  | relying hc hcy => exact hopen (by rw [hc]; rfl)
  | filling hc => exact hopen (by rw [hc]; rfl)

/-- The record of a step is there. -/
theorem stepping_there {d : Drive} {rest : List (Frame σ)}
    (ho : t.store.Owned (t.holds a.id ++ others)) (hf : t.frames = .stepping d :: rest) :
    d.record < t.store.records.size := by
  have hm : Hold.active a.id d ∈ t.holds a.id ++ others :=
    List.mem_append_left _
      (mem_holds_of_frame (f := .stepping d) (hf ▸ List.mem_cons_self) List.mem_cons_self)
  obtain ⟨e, he, hd, -⟩ := ho.fits hm
  exact Store.lt_size_of_keyOf (ho.keyed he hd.record)

-- ====================================================== where a step lands

/-- How the control after a step comes to be above the frames it is above. -/
inductive Lands (lib : Library σ) (a : Actor) (t t' : Turn σ) : Prop
  /-- Anything may run there. -/
  | open (hf : Open t'.frames) (hc : ∀ w, t'.control ≠ .lay w)
  /-- Nothing will be handed over from there. -/
  | fails (hc : t'.control.fails = true)
  /-- A program lays a record out itself. -/
  | program {registry : RegistryId} {record : RecordId} {words : Scratch}
      {k : Option Dependency → Scratch → Program σ Value} {s : Setting σ}
      (hc : t.control = .run (.structLayout registry record words k) s)
      (hf : t'.frames = .forLayout k s :: t.frames)
  /-- A step begins its walk. -/
  | begun {d : Drive} {r : Record} {desc : Descriptor σ} (hc : t.control = .begin d)
      (hs : d.stage < .nonTransitive) (hr : t.store.records[d.record]? = some r)
      (hd : lib.descriptorOf? r = some desc) (hcomp : desc.completion = some .structLayout)
      (hc' : t'.control = .lay ⟨d.registry, d.record, d.scratch, desc.fields, 0, []⟩)
      (hf : t'.frames = .stepping d :: t.frames)
  /-- A walk has come to its end. -/
  | done {w : FieldWalk σ} {words : Scratch} (hc : t.control = .lay w) (hw : w.todo = [])
      (hs : t'.store = layDown t.store w.record w.layouts) (hwords : words.get 0 = w.index)
      (hc' : t'.control = .give (.dependency none) (.scratch words)) (hf : t'.frames = t.frames)
  /-- The record of the next field is looked up. -/
  | field {w : FieldWalk σ} {y : RecordId} (hc : t.control = .lay w)
      (hy : w.next? t.store = some y)
      (ht' : t' = ({ t with frames := .laying w :: t.frames }).consult w.registry
        (.poll .layoutComplete) y)
  /-- The next element is looked up. -/
  | element {w : ElementWalk} {y : RecordId} {rest : List RecordId}
      (hc : t.control = .measure w) (hw : w.todo = y :: rest)
      (ht' : t' = ({ t with frames := .measuring w :: t.frames }).consult w.drive.registry
        (.poll .layoutComplete) y)
  /-- What is looked up is found. -/
  | answered {registry : RegistryId} {i : EntryId} {q : Request} {e : Entry} {r : Response}
      (hc : t.control = .await registry i q) (he : t.store.entries[i]? = some e)
      (hl : e.look a.id q = .answer r) (ht' : t' = t.respond r)
  /-- The walk goes on with the answer, or is stopped by it. -/
  | settled {w : FieldWalk σ} {r : Response} {left : Local} {rest : List (Frame σ)}
      (hc : t.control = .give (.response r) left) (hf : t.frames = .laying w :: rest)
      (ht' : t' = ({ t with frames := rest }).laid w r)

theorem Lands.of_plain (hf : Open t'.frames) (hc : t'.control.plain = true) :
    Lands lib a t t' :=
  .open hf fun w hw => by rw [hw] at hc; cases hc

/-- A frame that is put on the stack lets something run above it, or it is that
of a walk or a step. -/
theorem Opens.open {f : Frame σ} (h : t.Opens f) (hbegin : ∀ d, t.control ≠ .begin d)
    (hlay : ∀ w, t.control ≠ .lay w) (hmeasure : ∀ w, t.control ≠ .measure w) :
    f.closed = false := by
  cases h with
  | call hc hf => exact closed_of_call hf
  | stepping hc hd => exact (hbegin _ hc).elim
  | laying hc => exact (hlay _ hc).elim
  | measuring hc => exact (hmeasure _ hc).elim
  | _ => rfl

/-- Where anything may run, all but steps and walks go on to where anything may
run. -/
theorem open_lands (ht : t.Stands) (h : t.step lib a = some t')
    (hopen : t.control.closing = false) (hbegin : ∀ d, t.control ≠ .begin d)
    (hmeasure : ∀ w, t.control ≠ .measure w) (hplain : t'.control.plain = true) :
    Lands lib a t t' := by
  have hbelow := ht.control.open hopen
  refine .of_plain ?_ hplain
  cases step_stacks h with
  | same hfs => exact hfs ▸ hbelow
  | drop hfs hgone =>
      rcases hgone with ⟨v, left, hc⟩ | ⟨e, hc⟩ <;> rw [hc] at hopen <;> cases hopen
  | opened fs hfs hopens htail =>
      rw [hfs]
      cases fs with
      | nil => exact hbelow
      | cons f fs =>
          exact (hopens f List.mem_cons_self).open hbegin
            (fun w hc => by rw [hc] at hopen; cases hopen) hmeasure

theorem begin_lands {d : Drive} (hlib : lib.Stock) (ht : t.Stands) (hc : t.control = .begin d)
    (h : Begun lib t d t') : Lands lib a t t' := by
  have hbelow := ht.control.open (by rw [hc]; rfl)
  cases begin_begins h with
  | tuple hr horigin hc' hf => exact .open (hf ▸ hbelow) (by rw [hc']; nofun)
  | closing s hr horigin hn hc' hf => exact .open (hf ▸ hbelow) (by rw [hc']; nofun)
  | walk hr hd hcomp hs hc' hf => exact .begun hc hs hr hd hcomp hc' hf
  | callback hr hd hcomp hc' hf => exact (hlib.no_callback hd hcomp).elim

theorem lay_lands {w : FieldWalk σ} (hc : t.control = .lay w) (h : FieldLaid t a w t') :
    Lands lib a t t' := by
  cases lay_lays h with
  | done hw hs hwords hc' hf => exact .done hc hw hs hwords hc' hf
  | looksUp hy hturn => exact .field hc hy hturn
  | computes hw hf hplain => exact .of_plain (hf ▸ hw) hplain
  | fails hfails => exact .fails hfails

theorem measure_lands {w : ElementWalk} (ht : t.Stands) (hc : t.control = .measure w)
    (h : ElementMeasured t w t') : Lands lib a t t' := by
  cases h with
  | done => exact .open (ht.control.open (by rw [hc]; rfl)) nofun
  | consult htodo => exact .element hc htodo rfl

theorem await_lands {registry : RegistryId} {i : EntryId} {q : Request}
    (hc : t.control = .await registry i q) (h : Waited t a registry i q t') :
    Lands lib a t t' := by
  cases h with
  | answer he hlook => exact .answered hc he hlook rfl
  | reentrant => exact .fails rfl

theorem unwind_lands {e : Failure} (ht : t.Stands) (h : Unwound t e t') : Lands lib a t t' := by
  cases h with
  | ended | abandon | drop => exact .fails rfl
  | @handle frame rest s hf hs =>
      have hframes := ht.frames
      rw [hf] at hframes
      have hopen : Open rest := by
        cases frame with
        | forResponse k s' | forLayout k s' | forTable k s' | forRecord k s' => exact hframes.1
        | _ => cases hs
      unfold handle
      split
      · exact .fails rfl
      · exact .open hopen nofun

/-- The outcome of a piece of work reaches a frame that stands. -/
theorem give_lands {v : Value} {left : Local} (ht : t.Stands) (hc : t.control = .give v left)
    (h : Given lib t a v left t') : Lands lib a t t' := by
  have hstands : ∀ {f : Frame σ} {rest : List (Frame σ)}, t.frames = f :: rest → f.Stands rest :=
    fun hf => by
      have hframes := ht.frames
      rw [hf] at hframes
      exact hframes.1
  cases h with
  | ended | reported => exact .fails rfl
  | response hf | layout hf | table hf | record hf | allocated hf | relied hf | released hf
  | founded hf => exact .open (hstands hf) nofun
  | @stepped d rest dep left hf =>
      obtain ⟨words, o, hst, -⟩ := stepped_spec { t with frames := rest } d dep left
      rw [hst]
      exact .open (hstands hf) nofun
  | laid hf => exact .settled hc hf rfl
  | measured hf =>
      unfold measured
      split
      · split <;> exact .open (hstands hf) nofun
      · exact .open (hstands hf) nofun
  | filled hf h =>
      cases h with
      | lack => exact .fails rfl
      | table => exact .open (hstands hf) nofun

/-- A step lands in one of these ways. -/
theorem step_lands (hlib : lib.Stock) (ht : t.Stands) (h : t.step lib a = some t') :
    Lands lib a t t' := by
  -- all the others are plain, and put no frame of a step or a walk on the stack
  have hplain : t.control.closing = false → ¬ t.Ventures → Lands lib a t t' := fun hc hv =>
    open_lands ht h hc (fun _ hc => hv (.begin hc)) (fun _ hc => hv (.measure hc))
      ((step_plain h).resolve_right hv)
  cases step_cases h with
  | begin hc h => exact begin_lands hlib ht hc h
  | lay hc h => exact lay_lands hc h
  | measure hc h => exact measure_lands ht hc h
  | give hc h => exact give_lands ht hc h
  | await hc h => exact await_lands hc h
  | unwind hc h => exact unwind_lands ht h
  | report hc h =>
      cases h with
      | hook => exact .open rfl nofun
      | abort | unwind => exact .fails rfl
  | run hc h =>
      by_cases hv : t.Ventures
      · cases hv with
        | program hc' =>
            cases hc.symm.trans hc'
            cases h with
            | structLayout => exact .program hc (startLayout_frames ..)
            | refuse hp => cases hp
        | begin hc' | measure hc' | give hc' => cases hc.symm.trans hc'
      · exact hplain (by rw [hc]; rfl) hv
  | allocated hc | publish hc | release hc | stopped hc | enqueue hc | acquire hc | standBy hc =>
      refine hplain (by rw [hc]; rfl) fun hv => ?_
      cases hv with
      | begin hc' | measure hc' | give hc' | program hc' => cases hc.symm.trans hc'

-- ====================================================== where an outcome comes from

/-- How a thread comes to publish `o` as the outcome of a step of `d'`. -/
inductive Concludes (lib : Library σ) (t t' : Turn σ) (d' : Drive) (o : StepOutcome) : Prop
  /-- There was nothing left to run. -/
  | closing {r : Record} {id : DescriptorId} (s : Store) (hc : t.control = .begin d')
      (hr : t.store.records[d'.record]? = some r) (horigin : r.origin = .generic id)
      (hn : d'.stage < .nonTransitive → (lib.descriptors[id]?).bind (·.completion) = none)
      (ho : o = Turn.closing s d')
  /-- A tuple is laid out. -/
  | tuple {w : ElementWalk} (hc : t.control = .measure w)
      (hs : t'.store = settleTuple t.store w.drive.record) (hd : d' = w.drive)
      (ho : o = tupleOutcome t'.store w.drive w.stages)
  /-- It cannot be, because of an element. -/
  | element {w : ElementWalk} {r : Response} {left : Local} {rest : List (Frame σ)}
      {dep : Dependency} (hc : t.control = .give (.response r) left)
      (hf : t.frames = .measuring w :: rest) (hd : d' = w.drive) (ho : o = .blocked .abstract dep)
  /-- The walk over the fields has been stopped. -/
  | stopped {d : Drive} {dep : Dependency} {words : Scratch} {rest : List (Frame σ)}
      (hc : t.control = .give (.dependency (some dep)) (.scratch words))
      (hf : t.frames = .stepping d :: rest) (hs : t'.store = t.store)
      (hd : d' = { d with scratch := words })
      (ho : o = .blocked (t.store.inferredStage d.record) dep)
  /-- It has come to its end. -/
  | finished {d : Drive} {words : Scratch} {rest : List (Frame σ)} (s : Store)
      (hc : t.control = .give (.dependency none) (.scratch words))
      (hf : t.frames = .stepping d :: rest) (hs : t'.store = t.store)
      (hd : d' = { d with scratch := words }) (ho : o = Turn.closing s d')

theorem give_concludes {v : Value} {left : Local} {d' : Drive} {o : StepOutcome} (ht : t.Stands)
    (hc : t.control = .give v left) (h : Given lib t a v left t')
    (hc' : t'.control = .publish d' o) : Concludes lib t t' d' o := by
  have hcontrol := ht.control
  rw [hc] at hcontrol
  cases give_takes h with
  | plain hplain =>
      rw [hc'] at hplain
      cases hplain
  | @step d dep rest hv hf ht' =>
      subst hv ht'
      obtain ⟨dep', words, hv, rfl, -⟩ := hcontrol d rest hf
      unfold stepped at hc'
      cases dep with
      | some dep => cases hc'; exact .stopped hc hf rfl rfl rfl
      | none => cases hc'; exact .finished _ hc hf rfl rfl rfl
  | field hv hf ht' =>
      subst ht'
      unfold laid at hc'
      split at hc' <;> cases hc'
  | element hv hf ht' =>
      subst hv ht'
      unfold measured at hc'
      split at hc'
      · split at hc'
        · cases hc'
        · cases hc'
          exact .element hc hf rfl rfl
      · cases hc'

/-- An outcome comes from one of these. -/
theorem step_concludes {d' : Drive} {o : StepOutcome} (ht : t.Stands)
    (h : t.step lib a = some t') (hc' : t'.control = .publish d' o) : Concludes lib t t' d' o := by
  have hno : t'.control.plain = true → False := fun hplain => by
    rw [hc'] at hplain
    cases hplain
  rcases step_plain h with hplain | hventures
  · exact (hno hplain).elim
  cases hventures with
  | begin hc =>
      cases begin_begins (step_begin hc h) with
      | tuple hr horigin hmeasure hf => rw [hmeasure] at hc'; cases hc'
      | walk hr hd hcomp hs hlay hf => rw [hlay] at hc'; cases hc'
      | callback hr hd hcomp hrun hf => rw [hrun] at hc'; cases hc'
      | closing s hr horigin hn hpublish hf =>
          rw [hpublish] at hc'
          cases hc'
          exact .closing s hc hr horigin hn rfl
  | measure hc =>
      cases step_measure hc h with
      | done =>
          cases hc'
          exact .tuple hc rfl rfl rfl
      | consult => exact (hno (consult_plain ..)).elim
  | give hc => exact give_concludes ht hc (step_give hc h) hc'
  | program hc =>
      cases step_run hc h with
      | structLayout =>
          unfold startLayout at hc'
          split at hc' <;> cases hc'
      | refuse hp => cases hp

-- ====================================================== every step keeps it

/-- Wherever a step lands, the control stands there. -/
theorem Lands.stands (h : Lands lib a t t') (ht : t.Stands)
    (ho : t.store.Owned (t.holds a.id ++ others)) :
    t'.control.Stands t'.store t'.frames := by
  have hcontrol := ht.control
  have hconsult : ∀ {f : Frame σ} (registry : RegistryId) (q : Request) (y : RecordId)
      (s : Store), (∀ d, f ≠ .stepping d) →
      (({ t with frames := f :: t.frames }).consult registry q y).control.Stands s
        (f :: t.frames) := fun {f} registry q y s hf => by
    have hnot : ∀ d rest, f :: t.frames ≠ .stepping d :: rest := fun d rest heq =>
      hf d (List.cons.inj heq).1
    unfold consult
    split
    · exact hnot
    · exact fun d rest heq => (hnot d rest heq).elim
  cases h with
  | «open» hf hc => exact Control.stands_of_open hc _ hf
  | fails hc => exact Control.stands_of_fails hc ..
  | program hc hf =>
      rw [hf]
      by_cases hlay : ∃ w, t'.control = .lay w
      · obtain ⟨w, hw⟩ := hlay
        rw [hw]
        trivial
      · exact Control.stands_of_open (fun w hw => hlay ⟨w, hw⟩) _ rfl
  | begun hc hs hr hd hcomp hc' hf =>
      rw [hc', hf]
      exact ⟨rfl, rfl⟩
  | @done w words hc hw hs hwords hc' hf =>
      rw [hc] at hcontrol
      rw [hc', hf, hs]
      intro d rest heq
      rw [heq] at hcontrol
      exact ⟨none, _, rfl, rfl, fun _ =>
        hcontrol.2 ▸ Store.layDown_layout (hcontrol.2 ▸ stepping_there ho heq) _⟩
  | field hc hy ht' =>
      rw [ht', consult_frames]
      exact hconsult _ _ _ _ nofun
  | element hc hw ht' =>
      rw [ht', consult_frames]
      exact hconsult _ _ _ _ nofun
  | answered hc he hl ht' =>
      rw [hc] at hcontrol
      rw [ht']
      exact fun d rest heq => (hcontrol d rest heq).elim
  | @settled w r left rest hc hf ht' =>
      have hframes := ht.frames
      rw [hf] at hframes
      rw [ht']
      unfold laid
      split
      · exact fun d below heq => ⟨_, _, rfl, rfl, nofun⟩
      · exact hframes.1

/-- Every step keeps the stack such. -/
theorem Stands.step (ht : t.Stands) (hlib : lib.Stock)
    (ho : t.store.Owned (t.holds a.id ++ others)) (h : t.step lib a = some t') : t'.Stands :=
  ⟨(step_lands hlib ht h).stands ht ho,
    layered_step ht.frames h fun _ _ hopens habove => hopens.stands ht habove⟩

theorem Stands.start {p : Program σ Value} {s : Setting σ} (hc : t.control = .run p s)
    (hf : t.frames = []) : t.Stands :=
  ⟨by rw [hc, hf]; exact .inr trivial, by rw [hf]; trivial⟩

/-- What other threads write does not disturb it. -/
theorem Stands.mono (ht : t.Stands) (hc : t'.control = t.control) (hf : t'.frames = t.frames)
    (hl : ∀ x, (t.store.records.layoutOf x).isSome → (t'.store.records.layoutOf x).isSome) :
    t'.Stands :=
  ⟨by rw [hc, hf]; exact ht.control.mono hl, by rw [hf]; exact ht.frames⟩

/-- A program that concerns other threads goes on where it stands. -/
theorem Stands.program {p p' : Program σ Value} {s : Setting σ} (ht : t.Stands)
    (hc : t.control = .run p s) (hc' : t'.control = .run p' s) (hf : t'.frames = t.frames) :
    t'.Stands := by
  have hbelow := ht.control.open (by rw [hc]; rfl)
  exact ⟨by rw [hc', hf]; exact .inr hbelow, by rw [hf]; exact ht.frames⟩

end Turn

end TypeRecords
