/-
What is promised up the stack.

A frame waits for a response, and goes by it when it gets one: the walk over
the fields of a record takes the response for the record of the next field, a
program that computes a field's type takes it for the answer to its call. That
it is one depends on all that is done above the frame. So the stack is read as
a chain of promises (`Frame.Passes`): each frame says what it is promised by
what is above it, and what it then owes to the frame below. The control of the
thread owes the first of them (`Control.Owes`), and goes by walks and scratch
words besides.

`Turn.Keeps` is kept by every step. A step is a matter of the control and the
topmost frame alone: either the control goes on owing what it owed, or it
pushes a frame that passes on what it owed, or it pays what it owes to the
topmost frame (`give_faithful`). A fault pays nothing.

Where nobody goes by the outcome the promise is `free`. This is how it is
below every thread, and where a frame goes by no more than that the work above
it is over.
-/
import TypeRecords.Proofs.Fields.Walking
import TypeRecords.Proofs.Process.Frames

namespace TypeRecords

variable {σ : Type}

-- ====================================================== promises

/-- What a piece of work owes the frame that waits for it. -/
inductive Promise
  /-- Nothing. -/
  | free
  /-- The answer to a call. -/
  | answer (c : Call)
  /-- The answer to the call for a field's type. -/
  | field (e : Term) (arguments : List RecordId)
  /-- That the record is laid out, or what the scratch words say. -/
  | layout (x : RecordId)

namespace Promise

variable (registry : RegistryId) (terms : DescriptorId → List Term) (s : Store)

/-- The calls whose answers are as promised. -/
def Allows : Promise → Call → Prop
  | .free, _ => True
  | .answer asked, c => c = asked
  | .field e arguments, c => e.call? (s.recordOf? registry) arguments = some c
  | .layout _, _ => False

/-- A value that is handed over is as promised. -/
def Holds : Promise → Value → Local → Prop
  | .free, _, _ => True
  | .layout x, v, left => (v = .dependency none → (s.records.layoutOf x).isSome)
    ∧ ∀ words, left = .scratch words → s.Confirms registry terms x words
  | p, v, _ => ∀ r, v = .response r → ∃ c, p.Allows registry s c ∧ s.Told registry c r

/-- The record of an entry is as promised. -/
def Covers (p : Promise) (i : EntryId) : Prop :=
  p = .free ∨ ∃ c, p.Allows registry s c ∧ s.sought? registry c = some i

/-- A program comes to what is promised; `comes good heard` says that what it
comes to is good by what was heard by then. -/
def Met : Promise → ((Heard → Value → Prop) → Heard → Prop) → Prop
  | .free, _ => True
  | .field e arguments, comes => ∃ heard : Heard,
    (∀ h ∈ heard, s.Told registry h.1 h.2)
      ∧ comes (fun heard v => ∀ r, v = .response r → e.Answered arguments heard r) heard
  | _, _ => False

/-- Whichever handler takes over, it comes to what is promised. -/
def Armed (p : Promise) (st : Setting σ) : Prop :=
  ∀ h ∈ st.handlers, ∀ f, p.Met registry s (h f).Fetches

end Promise

-- ====================================================== stacks

section

variable (lib : Library σ) (registry : RegistryId) (terms : DescriptorId → List Term) (s : Store)

/-- A frame that is promised `p` owes `p'` to the frame below. -/
def Frame.Passes (p p' : Promise) : Frame σ → Prop
  | .forResponse k st => ∃ c, p = .answer c ∧ p'.Armed registry s st
    ∧ p'.Met registry s fun good heard => ∀ r, (k r).Fetches good ((c, r) :: heard)
  | .forTable k st => p = .free ∧ p'.Armed registry s st
    ∧ p'.Met registry s fun good heard => ∀ t, (k t).Fetches good heard
  | .forRecord k st => p = .free ∧ p'.Armed registry s st
    ∧ p'.Met registry s fun good heard => ∀ r, (k r).Fetches good heard
  | .stepping d => p = .layout d.record ∧ p'.Covers registry s d.entry
    ∧ s.Confirms registry terms d.record d.scratch
  | .laying w => p' = .layout w.record ∧ ∃ arguments e es, p = .field e arguments
    ∧ s.Walks lib registry terms w arguments (e :: es)
  | .measuring w => ∃ x rest, w.todo = x :: rest ∧ p = .answer (.check x)
    ∧ p'.Covers registry s w.drive.entry
    ∧ s.Confirms registry terms w.drive.record w.drive.scratch ∧ s.Measures registry w
  | .relying d => p = .free ∧ p'.Covers registry s d.entry
    ∧ s.Confirms registry terms d.record d.scratch
  | .releasing d _ _ => p = .free ∧ p'.Covers registry s d.entry
    ∧ s.Confirms registry terms d.record d.scratch
  | .filling _ => p = .free ∧ p' = .free
  | .founding _ => p = .free ∧ p' = .free
  | .reporting .. => p = .free
  -- no callback instantiates a record or lays one out
  | .allocating _ => False
  | .forLayout .. => False

/-- The frames pass on what the first of them is promised. -/
def Passed : Promise → List (Frame σ) → Prop
  | _, [] => True
  | p, f :: fs => ∃ p', f.Passes lib registry terms s p p' ∧ Passed p' fs

/-- What a thread does next comes to what it owes. -/
def Control.Owes (p : Promise) : Control σ → Prop
  | .run prog st => p.Met registry s prog.Fetches ∧ p.Armed registry s st
  | .give v left => p.Holds registry terms s v left
  | .await _ i _ => p.Covers registry s i
  | .allocated al => p.Covers registry s al.entry
  | .begin d => p.Covers registry s d.entry ∧ s.Confirms registry terms d.record d.scratch
  | .release d _ _ => p.Covers registry s d.entry ∧ s.Confirms registry terms d.record d.scratch
  | .stopped d _ => p.Covers registry s d.entry ∧ s.Confirms registry terms d.record d.scratch
  | .enqueue d _ => p.Covers registry s d.entry ∧ s.Confirms registry terms d.record d.scratch
  | .lay w => p = .layout w.record
    ∧ ∃ arguments coming, s.Walks lib registry terms w arguments coming
  | .measure w => p.Covers registry s w.drive.entry
    ∧ s.Confirms registry terms w.drive.record w.drive.scratch ∧ s.Measures registry w
  | .publish d o => p.Covers registry s d.entry ∧ s.Confirms registry terms d.record d.scratch
    ∧ (.layoutComplete ≤ o.stage → (s.records.layoutOf d.record).isSome)
  | .acquire .. => p = .free
  | .standBy .. => p = .free
  | .unwind _ => True
  | .report .. => True
  | .ended => True

/-- What the thread goes by is so in `s`, and its frames are promised what it
comes to. -/
def Turn.Faithful (t : Turn σ) : Prop :=
  ∃ p, t.control.Owes lib registry terms s p ∧ Passed lib registry terms s p t.frames

end

-- ====================================================== later stores

section Lasts

variable {lib : Library σ} {registry : RegistryId} {terms : DescriptorId → List Term}
  {s s' : Store} {p p' : Promise}

theorem Promise.Allows.lasts {c : Call} (h : p.Allows registry s c) (hl : s.Lasts registry s') :
    p.Allows registry s' c := by
  cases p with
  | free => trivial
  | answer asked => exact h
  | field e arguments => exact Term.call?_mono (fun _ _ => hl.recordOf?) h
  | layout x => exact h.elim

theorem Promise.Holds.lasts {v : Value} {left : Local} (h : p.Holds registry terms s v left)
    (hl : s.Lasts registry s') : p.Holds registry terms s' v left := by
  have hresponse : ∀ p : Promise,
      (∀ r, v = .response r → ∃ c, p.Allows registry s c ∧ s.Told registry c r) →
      ∀ r, v = .response r → ∃ c, p.Allows registry s' c ∧ s'.Told registry c r := by
    intro p h r hr
    obtain ⟨c, hc, ht⟩ := h r hr
    exact ⟨c, hc.lasts hl, hl.told ht⟩
  cases p with
  | free => trivial
  | answer asked => exact hresponse _ h
  | field e arguments => exact hresponse _ h
  | layout x =>
      exact ⟨fun hv => hl.layout_isSome (h.1 hv), fun words hw => hl.confirms (h.2 words hw)⟩

theorem Promise.Covers.lasts {i : EntryId} (h : p.Covers registry s i)
    (hl : s.Lasts registry s') : p.Covers registry s' i :=
  h.imp_right fun ⟨c, hc, hi⟩ => ⟨c, hc.lasts hl, hl.advances.grows.sought? hi⟩

theorem Promise.Met.lasts {comes : (Heard → Value → Prop) → Heard → Prop}
    (h : p.Met registry s comes) (hl : s.Lasts registry s') : p.Met registry s' comes := by
  cases p with
  | free => trivial
  | answer asked => exact h.elim
  | layout x => exact h.elim
  | field e arguments =>
      obtain ⟨heard, hheard, hcomes⟩ := h
      exact ⟨heard, fun x hx => hl.told (hheard x hx), hcomes⟩

theorem Promise.Armed.lasts {st : Setting σ} (h : p.Armed registry s st)
    (hl : s.Lasts registry s') : p.Armed registry s' st :=
  fun x hx f => (h x hx f).lasts hl

theorem Frame.Passes.lasts {f : Frame σ} (h : f.Passes lib registry terms s p p')
    (hl : s.Lasts registry s') : f.Passes lib registry terms s' p p' := by
  cases f with
  | forResponse k st =>
      obtain ⟨c, hp, ha, hm⟩ := h
      exact ⟨c, hp, ha.lasts hl, hm.lasts hl⟩
  | forTable k st => exact ⟨h.1, h.2.1.lasts hl, h.2.2.lasts hl⟩
  | forRecord k st => exact ⟨h.1, h.2.1.lasts hl, h.2.2.lasts hl⟩
  | stepping d => exact ⟨h.1, h.2.1.lasts hl, hl.confirms h.2.2⟩
  | laying w =>
      obtain ⟨hp', arguments, e, es, hp, hw⟩ := h
      exact ⟨hp', arguments, e, es, hp, hw.lasts hl⟩
  | measuring w =>
      obtain ⟨x, rest, htodo, hp, hc, hwords, hm⟩ := h
      exact ⟨x, rest, htodo, hp, hc.lasts hl, hl.confirms hwords, hm.lasts hl⟩
  | relying d => exact ⟨h.1, h.2.1.lasts hl, hl.confirms h.2.2⟩
  | releasing d dep rest => exact ⟨h.1, h.2.1.lasts hl, hl.confirms h.2.2⟩
  | filling j => exact h
  | founding j => exact h
  | reporting r rest policy => exact h
  | allocating al => exact h.elim
  | forLayout k st => exact h.elim

theorem Passed.lasts {fs : List (Frame σ)} (h : Passed lib registry terms s p fs)
    (hl : s.Lasts registry s') : Passed lib registry terms s' p fs := by
  induction fs generalizing p with
  | nil => trivial
  | cons f fs ih =>
      obtain ⟨p', hf, hfs⟩ := h
      exact ⟨p', hf.lasts hl, ih hfs⟩

theorem Control.Owes.lasts {c : Control σ} (h : c.Owes lib registry terms s p)
    (hl : s.Lasts registry s') : c.Owes lib registry terms s' p := by
  have hdrive : ∀ d : Drive,
      p.Covers registry s d.entry ∧ s.Confirms registry terms d.record d.scratch →
      p.Covers registry s' d.entry ∧ s'.Confirms registry terms d.record d.scratch :=
    fun d h => ⟨h.1.lasts hl, hl.confirms h.2⟩
  cases c with
  | run prog st => exact ⟨h.1.lasts hl, h.2.lasts hl⟩
  | give v left => exact Promise.Holds.lasts h hl
  | await r i q => exact Promise.Covers.lasts h hl
  | allocated al => exact Promise.Covers.lasts h hl
  | begin d => exact hdrive d h
  | release d dep ready => exact hdrive d h
  | stopped d dep => exact hdrive d h
  | enqueue d dep => exact hdrive d h
  | lay w =>
      obtain ⟨hp, arguments, coming, hw⟩ := h
      exact ⟨hp, arguments, coming, hw.lasts hl⟩
  | measure w => exact ⟨h.1.lasts hl, hl.confirms h.2.1, h.2.2.lasts hl⟩
  | publish d o =>
      exact ⟨h.1.lasts hl, hl.confirms h.2.1, fun ho => hl.layout_isSome (h.2.2 ho)⟩
  | acquire j arguments => exact h
  | standBy j heard => exact h
  | unwind f => trivial
  | report r hooks policy => trivial
  | ended => trivial

theorem Turn.Faithful.lasts {t : Turn σ} (h : t.Faithful lib registry terms s)
    (hl : s.Lasts registry s') : t.Faithful lib registry terms s' := by
  obtain ⟨p, hc, hfs⟩ := h
  exact ⟨p, hc.lasts hl, hfs.lasts hl⟩

end Lasts

end TypeRecords
