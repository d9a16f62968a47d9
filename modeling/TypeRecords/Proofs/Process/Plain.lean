/-
What a step goes on as.

Three kinds of control are the beginnings of something: an outcome that is about
to be published, a walk over the elements of a tuple, and a walk over the fields
of a record. Most steps lead to none of them; such a control is `plain`, and a
step from anything else but the few that are named in `Turn.step_plain` leads
to a plain one. So whoever has to know where an outcome or a walk comes from
looks at those few only.
-/
import TypeRecords.Proofs.Process.Operations

namespace TypeRecords

variable {σ : Type}

/-- Whether the control is neither an outcome nor a walk. -/
def Control.plain : Control σ → Bool
  | .publish .. => false
  | .measure _ => false
  | .lay _ => false
  | _ => true

namespace Turn

variable {lib : Library σ} {a : Actor} {t t' : Turn σ}

/-- A consultation waits for an entry or answers. -/
theorem consult_plain (t : Turn σ) (registry : RegistryId) (q : Request) (record : RecordId) :
    (t.consult registry q record).control.plain = true := by
  unfold consult
  split <;> rfl

/-- A failure goes to a handler or unwinds. -/
theorem handle_plain (t : Turn σ) (f : Failure) (s : Setting σ) :
    (t.handle f s).control.plain = true := by
  unfold handle
  split <;> rfl

/-- A record is handed out under its name, or is waited for. -/
theorem askName_plain (t : Turn σ) (j : NameJob) (r : Registry) :
    (t.askName j r).control.plain = true := by
  unfold askName
  split <;> rfl

/-- A call to a registry answers, waits, begins a record or fails. -/
theorem request_plain {registry : RegistryId} {q : Request} {c : Call}
    (h : Requested lib t a registry q c t') : t'.control.plain = true := by
  cases h with
  | check => exact consult_plain ..
  | _ => rfl

/-- The canonical record is known, waited for, registered or being founded. -/
theorem requestName_plain {registry : RegistryId} {candidate : CandidateId}
    (h : NameRequested lib t registry candidate t') : t'.control.plain = true := by
  cases h with
  | ask => exact askName_plain ..
  | _ => rfl

/-- A program goes on to something plain, unless it lays a record out itself. -/
theorem run_plain {p : Program σ Value} {s : Setting σ} (h : Ran lib t a s p t')
    (hp : ∀ registry record words k, p ≠ .structLayout registry record words k) :
    t'.control.plain = true := by
  cases h with
  | request h => exact request_plain h
  | fail => exact handle_plain ..
  | refuse => exact handle_plain ..
  | structLayout => exact (hp _ _ _ _ rfl).elim
  | table h => cases h <;> rfl
  | canonical h => exact requestName_plain h
  | _ => rfl

/-- Unwinding goes on, or a handler takes over. -/
theorem unwind_plain {e : Failure} (h : Unwound t e t') : t'.control.plain = true := by
  cases h with
  | handle => exact handle_plain ..
  | _ => rfl

/-- A walk over fields asks for its next field, or is over. -/
theorem lay_plain {w : FieldWalk σ} (h : FieldLaid t a w t') : t'.control.plain = true := by
  cases h with
  | consult => exact consult_plain ..
  | _ => rfl

/-- What stopped is reported, waited for or parked. -/
theorem stopped_plain {d : Drive} {dep : Dependency} (h : Stopped t a d dep t') :
    t'.control.plain = true := by
  cases h with
  | rely => exact consult_plain ..
  | _ => rfl

/-- What is made of an outcome that is handed over. -/
inductive Takes (t t' : Turn σ) (v : Value) (left : Local) : Prop
  | plain (hc : t'.control.plain = true)
  | step {d : Drive} {dep : Option Dependency} {rest : List (Frame σ)} (hv : v = .dependency dep)
      (hf : t.frames = .stepping d :: rest)
      (ht' : t' = ({ t with frames := rest }).stepped d dep left)
  | field {w : FieldWalk σ} {r : Response} {rest : List (Frame σ)} (hv : v = .response r)
      (hf : t.frames = .laying w :: rest) (ht' : t' = ({ t with frames := rest }).laid w r)
  | element {w : ElementWalk} {r : Response} {rest : List (Frame σ)} (hv : v = .response r)
      (hf : t.frames = .measuring w :: rest) (ht' : t' = ({ t with frames := rest }).measured w r)

/-- Outcomes and walks come from three frames only; the others take what is handed over into
something plain. -/
theorem give_takes {v : Value} {left : Local} (h : Given lib t a v left t') :
    Takes t t' v left := by
  cases h with
  | stepped hf => exact .step rfl hf rfl
  | laid hf => exact .field rfl hf rfl
  | measured hf => exact .element rfl hf rfl
  | filled _ h => cases h <;> exact .plain rfl
  | _ => exact .plain rfl

/-- Where outcomes and walks come from. -/
inductive Ventures (t : Turn σ) : Prop
  | begin {d : Drive} (hc : t.control = .begin d)
  | measure {w : ElementWalk} (hc : t.control = .measure w)
  | give {v : Value} {left : Local} (hc : t.control = .give v left)
  /-- A program lays a record out itself. -/
  | program {registry : RegistryId} {record : RecordId} {words : Scratch}
      {k : Option Dependency → Scratch → Program σ Value} {s : Setting σ}
      (hc : t.control = .run (.structLayout registry record words k) s)

/-- Every step leads to a plain control, but from the four controls that venture. -/
theorem step_plain (h : t.step lib a = some t') : t'.control.plain = true ∨ t.Ventures := by
  cases step_cases h with
  | begin hc => exact .inr (.begin hc)
  | measure hc => exact .inr (.measure hc)
  | give hc => exact .inr (.give hc)
  | @run p s _ hc h =>
      by_cases hp : ∃ registry record words k, p = .structLayout registry record words k
      · obtain ⟨registry, record, words, k, rfl⟩ := hp
        exact .inr (.program hc)
      · exact .inl (run_plain h fun registry record words k heq =>
          hp ⟨registry, record, words, k, heq⟩)
  | unwind hc h => exact .inl (unwind_plain h)
  | await hc h => exact .inl (by cases h <;> rfl)
  | allocated hc h => exact .inl (by cases h <;> rfl)
  | lay hc h => exact .inl (lay_plain h)
  | publish hc h => exact .inl (by cases h; rfl)
  | release hc h => exact .inl (by cases h <;> rfl)
  | stopped hc h => exact .inl (stopped_plain h)
  | enqueue hc h => exact .inl (by cases h <;> rfl)
  | acquire hc h => exact .inl (by cases h <;> rfl)
  | standBy hc h => exact .inl (by cases h; exact askName_plain ..)
  | report hc h => exact .inl (by cases h <;> rfl)

/-- What begins a walk over fields or goes on with it. -/
inductive WalksOn (lib : Library σ) (t t' : Turn σ) : Prop
  | begin {d : Drive} {s : Store} (hc : t.control = .begin d)
      (ht' : t' = ({ t with store := s, frames := .stepping d :: t.frames }).startLayout lib
        d.registry d.record d.scratch) (hs : s.records = t.store.records)
  | field {w : FieldWalk σ} {r : Response} {left : Local} {rest : List (Frame σ)}
      (hc : t.control = .give (.response r) left) (hf : t.frames = .laying w :: rest)
      (ht' : t' = ({ t with frames := rest }).laid w r)
  | program {registry : RegistryId} {record : RecordId} {words : Scratch}
      {k : Option Dependency → Scratch → Program σ Value} {s : Setting σ}
      (hc : t.control = .run (.structLayout registry record words k) s)
      (ht' : t' = ({ t with frames := .forLayout k s :: t.frames }).startLayout lib registry record
        words)

/-- A walk over fields is begun by a completion step or by a program, or goes on from an
answer. -/
theorem walks_of_step {w : FieldWalk σ} (h : t.step lib a = some t')
    (hc' : t'.control = .lay w) : WalksOn lib t t' := by
  have hplain : t'.control.plain ≠ true := by
    rw [hc']
    exact Bool.false_ne_true
  cases (step_plain h).resolve_left hplain with
  | begin hc =>
      cases step_begin hc h with
      | layout => exact .begin hc rfl rfl
      | measure | close | callback => cases hc'
  | measure hc =>
      cases step_measure hc h with
      | done => cases hc'
      | consult => exact (hplain (consult_plain ..)).elim
  | program hc =>
      cases step_run hc h with
      | structLayout => exact .program hc rfl
      | refuse hp => cases hp
  | give hc =>
      cases give_takes (step_give hc h) with
      | plain hno => exact (hplain hno).elim
      | @step _ dep _ hv hf ht' =>
          rw [ht'] at hc'
          unfold stepped at hc'
          cases dep <;> cases hc'
      | field hv hf ht' => exact .field (hv ▸ hc) hf ht'
      | element hv hf ht' =>
          rw [ht'] at hc'
          unfold measured at hc'
          split at hc'
          · split at hc' <;> cases hc'
          · cases hc'

end Turn

end TypeRecords
