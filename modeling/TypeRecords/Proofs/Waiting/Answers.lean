/-
What a request comes to.

`Turn.Pending` follows one request from its first step on: above the frame
that waits for the answer is work for the very same request, or the answer is
on its way and settles it. `Turn.Raises` lists what a thread may report. Put
together with `Waiting/Progress.lean`: where callbacks never wait, a request
is answered as it asked, or ends in a fault that is not about reentrancy, or
keeps taking steps (`Run.never_waits`).
-/
import TypeRecords.Proofs.Waiting.Cycles
import TypeRecords.Proofs.Waiting.Progress

namespace TypeRecords

variable {σ : Type}

/-- The outcome that a thread hands over. -/
def Control.outcome? : Control σ → Option Value
  | .give v _ => some v
  | _ => none

/-- An outcome is being handed over. -/
theorem Control.give_of_outcome {c : Control σ} {v : Value} (h : c.outcome? = some v) :
    ∃ left, c = .give v left := by
  unfold outcome? at h
  split at h
  · cases h
    exact ⟨_, rfl⟩
  · cases h

/-- Whether the thread is about to report something. -/
def Control.reports : Control σ → Bool
  | .report .. => true
  | _ => false

namespace Turn

variable {lib : Library σ} {a : Actor} {t t' : Turn σ} {registry : RegistryId}

-- ====================================================== what a request is answered

/-- The request `q`, for whose answer the first frame of `base` waits, is being
served: there is work for it above, or the answer settles it. -/
def Pending (q : Request) (base : List (Frame σ)) (t : Turn σ) : Prop :=
  (∃ above f, t.frames = above ++ f :: base ∧ f.duty = .owes q)
    ∨ t.frames = base ∧ (t.control.duty = .owes q ∨ (∃ r e, t.control = .await r e q)
      ∨ ∃ x left, t.control = .give (.response x) left ∧ q.settledBy x.stage = true)

/-- The request is being served, unless a fault puts an end to it. -/
def Serving (q : Request) (base : List (Frame σ)) (t : Turn σ) : Prop :=
  t.control.disturbed = true ∨ t.Pending q base

namespace Serving

variable {q : Request} {base : List (Frame σ)}

/-- There is work for it above. -/
theorem deeper {f : Frame σ} (hf : t.frames = f :: base) (hd : f.duty = .owes q) :
    t.Serving q base :=
  .inr (.inl ⟨[], f, hf, hd⟩)

/-- The thread works on the entry of the request. -/
theorem working (hf : t.frames = base) (hd : t.control.duty = .owes q) : t.Serving q base :=
  .inr (.inr ⟨hf, .inl hd⟩)

/-- The thread waits for the entry of the request. -/
theorem waiting {r : RegistryId} {e : EntryId} (hf : t.frames = base)
    (hc : t.control = .await r e q) : t.Serving q base :=
  .inr (.inr ⟨hf, .inr (.inl ⟨r, e, hc⟩)⟩)

/-- The answer settles it. -/
theorem answered {x : Response} {left : Local} (hf : t.frames = base)
    (hc : t.control = .give (.response x) left) (hx : q.settledBy x.stage = true) :
    t.Serving q base :=
  .inr (.inr ⟨hf, .inr (.inr ⟨x, left, hc, hx⟩)⟩)

/-- Without a fault it is still being served. -/
theorem pending (h : t.Serving q base) (hcalm : t.control.disturbed = false) :
    t.Pending q base := by
  rcases h with hd | hp
  · rw [hcalm] at hd
    cases hd
  · exact hp

end Serving

/-- A record that is allocated for a request is answered, or begun. -/
theorem allocated_serving {al : Allocation} (h : Allocated lib t a al t') :
    t'.Serving al.request t.frames := by
  cases h with
  | finish => exact .answered rfl rfl al.request.settledBy_complete
  | begin => exact .working rfl rfl

/-- A completion step goes on for the request it was begun for. -/
theorem begin_serving {d : Drive} (h : Begun lib t d t') : t'.Serving d.request t.frames := by
  cases h with
  | measure => exact .working rfl rfl
  | close => exact .working rfl rfl
  | layout => exact .deeper (f := .stepping d) (startLayout_frames ..) rfl
  | callback => exact .deeper (f := .stepping d) rfl rfl

/-- So does the step of a tuple. -/
theorem measure_serving {w : ElementWalk} (h : ElementMeasured t w t') :
    t'.Serving w.drive.request t.frames := by
  cases h with
  | done => exact .working rfl rfl
  | consult => exact .deeper (f := .measuring w) (consult_frames ..) rfl

/-- A waiter that is let go is served above; without waiters, the request is
answered or goes on. -/
theorem release_serving {d : Drive} {dep : Option Dependency} {ready : List Waiter}
    (h : Released t a d dep ready t') : t'.Serving d.request t.frames := by
  cases h with
  | @resume _ rest => exact .deeper (f := .releasing d dep rest) rfl rfl
  | @forget _ rest => exact .deeper (f := .releasing d dep rest) rfl rfl
  | stop => exact .working rfl rfl
  | finish _ hdone => exact .answered rfl rfl (hdone ▸ d.request.settledBy_complete)
  | again => exact .working rfl rfl

/-- What has been stopped waits, or is parked, for the request it was begun for. -/
theorem stopped_serving {d : Drive} {dep : Dependency} (h : Stopped t a d dep t') :
    t'.Serving d.request t.frames := by
  cases h with
  | cycle => exact .inl rfl
  | rely => exact .deeper (f := .relying d) (consult_frames ..) rfl
  | suspend => exact .working rfl rfl

/-- An initialization parks only for a request that it has settled. -/
theorem enqueue_serving {d : Drive} {dep : Dependency}
    (hsettled : d.request.settledBy d.stage = true) (h : Enqueued t a d dep t') :
    t'.Serving d.request t.frames := by
  cases h with
  | park => exact .answered rfl rfl hsettled
  | reclaim => exact .working rfl rfl
  | strand => exact .answered rfl rfl hsettled

/-- Work for the request is done by steps that end in more of it, in the
answer, or in a fault. -/
theorem owes_step {q : Request} (h : t.step lib a = some t') (hs : t.Steady registry a.id)
    (ho : t.control.duty = .owes q) : t'.Serving q t.frames := by
  cases step_cases h with
  | allocated hc h => rw [hc] at ho; cases ho; exact allocated_serving h
  | begin hc h => rw [hc] at ho; cases ho; exact begin_serving h
  | measure hc h => rw [hc] at ho; cases ho; exact measure_serving h
  | publish hc h => rw [hc] at ho; cases ho; cases h; exact .working rfl rfl
  | release hc h => rw [hc] at ho; cases ho; exact release_serving h
  | stopped hc h => rw [hc] at ho; cases ho; exact stopped_serving h
  | enqueue hc h =>
      have hsettled := (hs.leaving _ _ (mem_holds_of_control hc List.mem_cons_self)).2
      rw [hc] at ho
      cases ho
      exact enqueue_serving hsettled h
  | run hc
  | give hc
  | unwind hc
  | await hc
  | lay hc
  | acquire hc
  | standBy hc
  | report hc => rw [hc] at ho; cases ho

/-- Waiting for an entry ends in the answer, or in a fault. -/
theorem await_step {r : RegistryId} {e : EntryId} {q : Request} (h : t.step lib a = some t')
    (hc : t.control = .await r e q) : t'.Serving q t.frames := by
  cases step_await hc h with
  | answer _ hlook => exact .answered rfl rfl (Entry.settled_of_look hlook)
  | reentrant => exact .inl rfl

/-- A request is served from its first step on. -/
theorem request_step {r : RegistryId} {q : Request} {c : Call} {k : Response → Program σ Value}
    {s : Setting σ} (h : t.step lib a = some t')
    (hc : t.control = .run (.request r q c k) s) :
    t'.Serving q (.forResponse k s :: t.frames) := by
  cases step_request hc h with
  | @check record =>
      rcases consult_cases { t with frames := .forResponse k s :: t.frames } r q record
        with ⟨e, -, hu⟩ | hu
      · rw [hu]
        exact .waiting rfl rfl
      · rw [hu]
        exact .answered rfl rfl q.settledBy_complete
  | empty => exact .answered rfl rfl q.settledBy_complete
  | miscount => exact .inl rfl
  | hit => exact .waiting rfl rfl
  | create => exact .working rfl rfl
  | instantiate => exact .deeper rfl rfl

/-- Until a request has come back it stays pending. -/
theorem Pending.step {q : Request} {k : Response → Program σ Value} {s : Setting σ}
    {fs : List (Frame σ)} (hp : t.Pending q (.forResponse k s :: fs))
    (h : t.step lib a = some t') (hs : t.Steady registry a.id)
    (hcalm : t.control.disturbed = false) (hcalm' : t'.control.disturbed = false)
    (habove : fs.length < t'.frames.length) : t'.Pending q (.forResponse k s :: fs) := by
  rcases hp with ⟨above, f, hframes, howes⟩ | ⟨hframes, howes | ⟨r, e, hc⟩ | ⟨x, left, hc, hx⟩⟩
  · -- there is work above: it goes on, or its topmost frame has its turn again
    have hkeep : ∀ gs : List (Frame σ), t'.frames = gs ++ t.frames →
        t'.Pending q (.forResponse k s :: fs) := fun gs hgs =>
      .inl ⟨gs ++ above, f, by rw [hgs, hframes, List.append_assoc], howes⟩
    cases step_moves h with
    | stay hf hd hno => exact hkeep [] hf
    | deeper hf hn hd hd' hno => exact hkeep [_] hf
    | look hf hn hd hasked hc' he ha hw => exact hkeep [_] hf
    | aside gs hf hfree hd => exact hkeep gs hf
    | request hc hf hd hlook => exact hkeep [_] hf
    | instantiate hc hf hal hd => exact hkeep [_, _] hf
    | layout hc hf hd hno => exact hkeep [_] hf
    | disturbed hd => simp [hcalm, hcalm'] at hd
    | back hf hd howes' hno =>
        rw [hframes] at hf
        cases above with
        | nil =>
            obtain ⟨rfl, hrest⟩ := List.cons.inj hf
            exact .inr ⟨hrest.symm, .inl (howes' q howes)⟩
        | cons g above =>
            obtain ⟨rfl, hrest⟩ := List.cons.inj hf
            exact .inl ⟨above, f, hrest.symm, howes⟩
  · rw [← hframes]
    exact (owes_step h hs howes).pending hcalm'
  · rw [← hframes]
    exact (await_step h hc).pending hcalm'
  · -- the answer is taken, and the request has come back
    unfold Turn.step at h
    rw [hc] at h
    simp only [give] at h
    rw [hframes] at h
    cases h
    exact (Nat.lt_irrefl _ habove).elim

-- ====================================================== what a thread reports

/-- What a thread that does not unwind may report next. -/
inductive Raises (a : Actor) (t : Turn σ) : Fault → Prop
  /-- A program asks for it. -/
  | asked {policy : FaultPolicy} {limit : Nat} {fault : Fault} {s : Setting σ}
      (hc : t.control = .run (.raise policy limit fault) s) : Raises a t fault
  | arguments (descriptor : String) (expected actual : Nat) :
      Raises a t (.argumentCount descriptor expected actual)
  | witness (protocol requirement type : String) :
      Raises a t (.missingWitness protocol requirement type)
  /-- The chain of what stopped an initialization closes. -/
  | cycle {d : Drive} {dep : Dependency} {c : Cycle} (hc : t.control = .stopped d dep)
      (hcycle : t.store.cycle? d.registry d.record dep = some c) : Raises a t (.cycle c)
  /-- The thread runs the initialization it would have to wait for. -/
  | reentrant {r : RegistryId} {e : EntryId} {q : Request} {x : Entry} {record : RecordId}
      (hc : t.control = .await r e q) (hx : t.store.entries[e]? = some x)
      (hlook : x.look a.id q = .ownWork record) :
      Raises a t (.reentrant (t.store.records.display record))

/-- A report of what a thread may report. -/
def Reports (a : Actor) (t : Turn σ) (r : Report) : Prop :=
  ∃ fault limit, r.message = fault.diagnostic t.store.records limit ∧ t.Raises a fault

/-- Consulting an entry reports nothing. -/
theorem consult_silent (t : Turn σ) (registry : RegistryId) (q : Request) (record : RecordId) :
    (t.consult registry q record).control.reports = false := by
  rcases consult_cases t registry q record with ⟨e, -, hu⟩ | hu <;> rw [hu] <;> rfl

/-- The beginning of a layout reports nothing. -/
theorem startLayout_silent (t : Turn σ) (registry : RegistryId) (record : RecordId)
    (scratch : Scratch) :
    (t.startLayout lib registry record scratch).control.reports = false := by
  unfold startLayout
  split <;> rfl

/-- A failure that has been reported is not reported again. -/
theorem handle_silent (t : Turn σ) (f : Failure) (s : Setting σ) :
    (t.handle f s).control.reports = false := by
  unfold handle
  split <;> rfl

variable {r : Report} {hooks : List HookId} {policy : FaultPolicy}

/-- There is no reason to give where nothing is reported. -/
theorem Reports.of_silent {u : Turn σ} (h : u.control.reports = false)
    (hr : u.control = .report r hooks policy) : t.Reports a r := by
  rw [hr] at h
  cases h

/-- A call to a registry may report a wrong number of arguments. -/
theorem request_report {registry : RegistryId} {q : Request} {c : Call} {u : Turn σ}
    (h : Requested lib u a registry q c t') (hu : u.store.records = t.store.records)
    (hr : t'.control = .report r hooks policy) : t.Reports a r := by
  cases h with
  | check => exact .of_silent (consult_silent ..) hr
  | miscount =>
      cases hr
      exact ⟨_, 0, by rw [← hu]; rfl, .arguments ..⟩
  | _ => cases hr

/-- To ask for a record under its name reports nothing. -/
theorem askName_silent (t : Turn σ) (j : NameJob) (reg : Registry) :
    (t.askName j reg).control.reports = false := by
  unfold askName
  split <;> rfl

/-- A request for a canonical record reports nothing. -/
theorem requestName_silent {registry : RegistryId} {candidate : CandidateId}
    (h : NameRequested lib t registry candidate t') : t'.control.reports = false := by
  cases h with
  | ask => exact askName_silent ..
  | _ => rfl

/-- A program reports what it raises, and what its calls may report. -/
theorem run_report {p : Program σ Value} {s : Setting σ} (hc : t.control = .run p s)
    (h : Ran lib t a s p t') (hr : t'.control = .report r hooks policy) : t.Reports a r := by
  cases h with
  | request h => exact request_report h rfl hr
  | raise => cases hr; exact ⟨_, _, rfl, .asked hc⟩
  | fail => exact .of_silent (handle_silent ..) hr
  | refuse => exact .of_silent (handle_silent ..) hr
  | structLayout => exact .of_silent (startLayout_silent ..) hr
  | table h => cases h <;> cases hr
  | canonical h => exact .of_silent (requestName_silent h) hr
  | _ => cases hr

/-- What is handed over may show a draft that leaves a requirement out. -/
theorem give_report {v : Value} {left : Local} (hs : t.Fits) (h : Given lib t a v left t')
    (hr : t'.control = .report r hooks policy) : t.Reports a r := by
  cases h with
  | @stepped d rest dep left hf =>
      obtain ⟨words, o, hst, -⟩ := stepped_spec { t with frames := rest } d dep left
      rw [hst] at hr
      cases hr
  | laid =>
      unfold laid at hr
      split at hr <;> cases hr
  | measured =>
      unfold measured at hr
      split at hr
      · split at hr <;> cases hr
      · cases hr
  | filled _ h =>
      cases h with
      | lack =>
          cases hr
          exact ⟨_, 0, rfl, .witness ..⟩
      | table => cases hr
  | reported hf =>
      have hframes := hs.frames
      rw [hf] at hframes
      exact hframes.1.elim
  | _ => cases hr

/-- Who waits for an entry may find that the work on it is its own. -/
theorem await_report {registry : RegistryId} {entry : EntryId} {q : Request}
    (hc : t.control = .await registry entry q) (h : Waited t a registry entry q t')
    (hr : t'.control = .report r hooks policy) : t.Reports a r := by
  cases h with
  | answer => cases hr
  | reentrant hx hlook =>
      cases hr
      exact ⟨_, 0, rfl, .reentrant hc hx hlook⟩

/-- The type of a field may be an argument that is not there. -/
theorem lay_report {w : FieldWalk σ} (h : FieldLaid t a w t')
    (hr : t'.control = .report r hooks policy) : t.Reports a r := by
  cases h with
  | done => cases hr
  | consult => exact .of_silent (consult_silent ..) hr
  | compute => cases hr
  | lack =>
      cases hr
      exact ⟨_, 0, rfl, .arguments ..⟩

/-- Every report has one of these reasons. -/
theorem step_reports (hs : t.Fits) (h : t.step lib a = some t')
    (hcalm : t.control.disturbed = false) (hr : t'.control = .report r hooks policy) :
    t.Reports a r := by
  cases step_cases h with
  | run hc h => exact run_report hc h hr
  | give hc h => exact give_report hs h hr
  | unwind hc => rw [hc] at hcalm; cases hcalm
  | report hc => rw [hc] at hcalm; cases hcalm
  | await hc h => exact await_report hc h hr
  | allocated hc h => cases h <;> cases hr
  | begin hc h =>
      cases h with
      | layout => exact .of_silent (startLayout_silent ..) hr
      | _ => cases hr
  | lay hc h => exact lay_report h hr
  | measure hc h =>
      cases h with
      | done => cases hr
      | consult => exact .of_silent (consult_silent ..) hr
  | publish hc h => cases h; cases hr
  | release hc h => cases h <;> cases hr
  | stopped hc h =>
      cases h with
      | cycle hcycle =>
          cases hr
          exact ⟨_, _, rfl, .cycle hc hcycle⟩
      | rely => exact .of_silent (consult_silent ..) hr
      | suspend => cases hr
  | enqueue hc h => cases h <;> cases hr
  | acquire hc h => cases h <;> cases hr
  | standBy hc h => cases h; exact .of_silent (askName_silent ..) hr

end Turn

-- ====================================================== processes with one thread

namespace Machine

variable {lib : Library σ} {start m m₁ m₂ : Machine σ} {registry : RegistryId}
  {thread thread₁ thread₂ : Thread σ}

/-- The next step of the process is orderly and polite, and made while there
are more than `depth` frames. -/
abbrev Deep (registry : RegistryId) (depth : Nat) (m : Machine σ) : Prop :=
  m.Alone fun t => (t.orderly registry = true ∧ t.polite = true) ∧ depth < t.frames.length

/-- The step that makes a request begins to serve it. -/
theorem step_pending {r : RegistryId} {q : Request} {c : Call} {k : Response → Program σ Value}
    {s : Setting σ} (hs : (m.turn thread).Attentive registry 0) (ht : m.threads = #[thread])
    (hc : thread.control = .run (.request r q c k) s) (hm : m.Courteous registry)
    (hstep : m.step lib 0 = some m₁) (ht₁ : m₁.threads = #[thread₁])
    (hcalm₁ : thread₁.control.disturbed = false) :
    (m₁.turn thread₁).Attentive registry 0
      ∧ (m₁.turn thread₁).Pending q (.forResponse k s :: thread.frames) := by
  obtain ⟨hord, hpol⟩ := hm.2 thread (by rw [ht]; exact Array.mem_singleton.mpr rfl)
  rcases step_single hstep ht ht₁ with hturn | ⟨p, p', s', hrun, hp, -⟩
  · exact ⟨Turn.Attentive.step hturn hs hord hpol hcalm₁,
      (Turn.request_step hturn hc).pending hcalm₁⟩
  · rw [hc] at hrun
    cases hrun
    cases hp

/-- It serves it until it has come back. -/
theorem Run.pending {q : Request} {k : Response → Program σ Value} {s : Setting σ}
    {fs : List (Frame σ)}
    (hs : ∀ thread₁, m₁.threads = #[thread₁] → thread₁.control.disturbed = false →
      (m₁.turn thread₁).Attentive registry 0
        ∧ (m₁.turn thread₁).Pending q (.forResponse k s :: fs))
    (h : Run lib (fun m _ => m.Deep registry fs.length) m₁ m₂) (ht₂ : m₂.threads = #[thread₂])
    (hcalm₂ : thread₂.control.disturbed = false) (hdeep : fs.length < thread₂.frames.length) :
    (m₂.turn thread₂).Pending q (.forResponse k s :: fs) := by
  refine (h.alone (P := fun t => t.control.disturbed = false → t.Attentive registry 0
      ∧ (fs.length < t.frames.length → t.Pending q (.forResponse k s :: fs)))
    (fun thread₁ ht₁ hcalm₁ => ⟨(hs thread₁ ht₁ hcalm₁).1, fun _ => (hs thread₁ ht₁ hcalm₁).2⟩)
    (fun hP hg hstep hcalm' => ?_)
    (fun hP hg hc hp hstore hc' hframes hcalm' => ?_) ht₂ hcalm₂).2 hdeep
  · obtain ⟨⟨hord, hpol⟩, hdepth⟩ := hg
    have hcalm := Turn.calm_of_orderly hord
    obtain ⟨ha, hpending⟩ := hP hcalm
    exact ⟨Turn.Attentive.step hstep ha hord hpol hcalm', fun habove =>
      (hpending hdepth).step hstep ha.steady hcalm hcalm' habove⟩
  · obtain ⟨⟨hord, -⟩, hdepth⟩ := hg
    obtain ⟨ha, hpending⟩ := hP (Turn.calm_of_orderly hord)
    refine ⟨ha.program hc hp hstore hc' hframes, fun _ => ?_⟩
    -- the program is not the one that made the request, so there is work above
    rcases hpending hdepth with ⟨above, f, hf, hd⟩ | ⟨hf, hd | ⟨r, e, hno⟩ | ⟨x, left, hno, -⟩⟩
    · exact .inl ⟨above, f, by rw [hframes, hf], hd⟩
    · rw [hc] at hd
      cases hd
    · rw [hc] at hno
      cases hno
    · rw [hc] at hno
      cases hno

/-- A thread that serves a request has a next step. -/
theorem step_of_serves (hs : (m.turn thread).Attentive registry 0) (ht : m.threads = #[thread])
    (hhalt : m.store.halted = none) (hserves : (m.turn thread).Serves) :
    (m.step lib 0).isSome = true := by
  have hat : m.threads[0]? = some thread := by rw [ht]; rfl
  have hrun : ∀ p s, thread.control ≠ .run p s := by
    intro p s hc
    rcases hserves with hbusy | ⟨v, left, f, below, hgive, -⟩
    · refine hbusy ?_
      show thread.control.duty = .free
      rw [hc]
      rfl
    · have hgive' : thread.control = .give v left := hgive
      rw [hc] at hgive'
      cases hgive'
  rw [step_alone hhalt hat hrun, Option.isSome_map]
  exact Turn.Attentive.enabled (a := ⟨0, thread.name⟩) hs hserves

/-- A thread that looks at what is there reports no reentrancy of its own. -/
theorem step_reported (hs : (m.turn thread).Attentive registry 0) (ht : m.threads = #[thread])
    (hcalm : thread.control.disturbed = false) (hstep : m.step lib 0 = some m₁)
    (ht₁ : m₁.threads = #[thread₁]) {r : Report} {hooks : List HookId} {policy : FaultPolicy}
    (hr : thread₁.control = .report r hooks policy) :
    ∃ fault limit, r.message = fault.diagnostic m.store.records limit
      ∧ (m.turn thread).Raises ⟨0, thread.name⟩ fault
      ∧ ((∃ policy limit s, thread.control = .run (.raise policy limit fault) s)
        ∨ ∀ type, fault ≠ .reentrant type) := by
  rcases step_single hstep ht ht₁ with hturn | ⟨p, p', s', hrun, hp, hstore, hc', -⟩
  · obtain ⟨fault, limit, hmessage, hraises⟩ := Turn.step_reports hs.fits hturn hcalm hr
    refine ⟨fault, limit, hmessage, hraises, ?_⟩
    cases hraises with
    | asked hc => exact .inl ⟨_, _, _, hc⟩
    | arguments descriptor expected actual => exact .inr nofun
    | witness protocol requirement type => exact .inr nofun
    | cycle hc hcycle => exact .inr nofun
    | reentrant hc hx hlook =>
        obtain ⟨x, y, hx', hlook', -⟩ := hs.answered hc
        obtain rfl := Option.some.inj (hx'.symm.trans hx)
        rw [hlook'] at hlook
        cases hlook
  · rw [hc'] at hr
    cases hr

/-- What comes back to the frame that waits for the answer is the answer. -/
theorem answer_of_pending {q : Request} {base : List (Frame σ)} {v : Value} {left : Local}
    (hp : (m.turn thread).Pending q base) (hlength : thread.frames.length = base.length)
    (hc : thread.control = .give v left) :
    thread.frames = base ∧ ∃ x, v = .response x ∧ q.settledBy x.stage = true := by
  have hcontrol : (m.turn thread).control = .give v left := hc
  rcases hp with ⟨above, f, hframes, -⟩ | ⟨hframes, hd | ⟨r, e, hno⟩ | ⟨x, left', hgive, hx⟩⟩
  · have habove := congrArg List.length hframes
    rw [List.length_append, List.length_cons] at habove
    have hsame : (m.turn thread).frames.length = base.length := hlength
    omega
  · rw [hcontrol] at hd
    cases hd
  · rw [hcontrol] at hno
    cases hno
  · rw [hcontrol] at hgive
    cases hgive
    exact ⟨hframes, x, rfl, hx⟩

/-- Nobody waits. One thread, whose steps keep to one registry, request nothing
while a record is being instantiated, wait for a record only outside of all
callbacks, and do not unwind. Then

- an entry that is wanted is there;
- as long as the thread serves a request it has a next step;
- what it reports is never that it wants what it is working on itself, unless
  a program asks for such a report;
- a request that comes back has been answered as it asked. -/
theorem Run.never_waits (hf : start.Fresh)
    (h : Run lib (fun m _ => m.Courteous registry) start m) (ht : m.threads = #[thread])
    (hcalm : thread.control.disturbed = false) :
    (∀ r e q, thread.control = .await r e q → ∃ x y, m.store.entries[e]? = some x
        ∧ x.look 0 q = .answer y ∧ q.settledBy y.stage = true)
      ∧ (m.store.halted = none → (m.turn thread).Serves → (m.step lib 0).isSome = true)
      ∧ (∀ m' thread' r hooks policy, m.step lib 0 = some m' → m'.threads = #[thread'] →
          thread'.control = .report r hooks policy →
          ∃ fault limit, r.message = fault.diagnostic m.store.records limit
            ∧ (m.turn thread).Raises ⟨0, thread.name⟩ fault
            ∧ ((∃ policy limit s, thread.control = .run (.raise policy limit fault) s)
              ∨ ∀ type, fault ≠ .reentrant type))
      ∧ ∀ r q c k s m₁ m₂ thread₂ v left, thread.control = .run (.request r q c k) s →
          m.Courteous registry → m.step lib 0 = some m₁ →
          Run lib (fun m _ => m.Deep registry thread.frames.length) m₁ m₂ →
          m₂.threads = #[thread₂] → thread₂.frames.length = thread.frames.length + 1 →
          thread₂.control = .give v left → thread₂.frames = .forResponse k s :: thread.frames
            ∧ ∃ x, v = .response x ∧ q.settledBy x.stage = true := by
  have hs := h.attentive hf ht hcalm
  refine ⟨fun r e q hc => hs.answered hc, step_of_serves hs ht,
    fun m' thread' r hooks policy hstep ht' hr => step_reported hs ht hcalm hstep ht' hr,
    fun r q c k s m₁ m₂ thread₂ v left hc hm hstep hrun ht₂ hlength hgive => ?_⟩
  have hpending := hrun.pending (fun thread₁ ht₁ => step_pending hs ht hc hm hstep ht₁) ht₂
    (by rw [hgive]; rfl) (hlength ▸ Nat.lt_succ_self _)
  exact answer_of_pending hpending hlength hgive

/-- Of the two types that wait for each other the outer one is requested, by a
request that waits. Once stopped it wants the inner one complete, which is
there; and it is handed out complete. -/
theorem never_waits_pair :
    ∃ (start m₁ m₂ m : Machine Unit) (thread thread₂ : Thread Unit) (x y : Response),
      start.Fresh ∧ Run pair (fun m _ => m.Courteous 0) start m ∧ m.threads = #[thread]
      ∧ (∃ r e q, thread.control = .await r e q ∧ q.waits = true
        ∧ ∃ entry, m.store.entries[e]? = some entry ∧ entry.look 0 q = .answer x)
      ∧ start.step pair 0 = some m₁ ∧ Run pair (fun m _ => m.Deep 0 0) m₁ m₂
      ∧ m₂.threads = #[thread₂]
      ∧ (∃ left, thread₂.control = .give (.response y) left)
      ∧ Request.complete.settledBy y.stage = true := by
  let start : Machine Unit := demanding
  let m₁ := start.walk pair 1
  have hfresh : start.Fresh := fresh_launch _ () _
  have hsteps : ∀ k < 32, (start.walk pair k).Courteous 0
      ∧ ((start.walk pair k).step pair 0).isSome = true := by
    decide +kernel
  have hwants : (start.walk pair 32).threads.size = 1
      ∧ ∀ thread ∈ (start.walk pair 32).threads,
        thread.control.wants? = some (1, .blocking .complete) := by
    decide +kernel
  have hdeep : ∀ k < 39, (m₁.walk pair k).Deep 0 0
      ∧ ((m₁.walk pair k).step pair 0).isSome = true := by
    decide +kernel
  have hback : (m₁.walk pair 39).threads.size = 1
      ∧ ∀ thread ∈ (m₁.walk pair 39).threads, thread.frames.length = 1
        ∧ thread.control.outcome?.isSome = true := by
    decide +kernel
  obtain ⟨hone, hwants⟩ := hwants
  obtain ⟨thread, ht, hwants⟩ := single_thread hone hwants
  obtain ⟨r, hc⟩ := Control.await_of_wants hwants
  obtain ⟨hone₂, hgives⟩ := hback
  obtain ⟨thread₂, ht₂, hlength, hgive⟩ := single_thread hone₂ hgives
  obtain ⟨v, hv⟩ := Option.isSome_iff_exists.mp hgive
  obtain ⟨left, hc₂⟩ := Control.give_of_outcome hv
  obtain ⟨-, hfirst⟩ := hsteps 0 (by decide)
  obtain ⟨next, hnext⟩ := Option.isSome_iff_exists.mp hfirst
  have hnext' : start.step pair 0 = some m₁ := by
    show start.step pair 0 = some ((start.step pair 0).getD start)
    rw [show start.step pair 0 = some next from hnext]
    rfl
  have hrun : Run pair (fun m _ => m.Courteous 0) start (start.walk pair 32) := .walk hsteps
  obtain ⟨hwanted, -⟩ := Run.never_waits hfresh hrun ht (by rw [hc]; rfl)
  obtain ⟨entry, x, hentry, hlook, -⟩ := hwanted r 1 (.blocking .complete) hc
  obtain ⟨-, -, -, hanswered⟩ := Run.never_waits hfresh .refl rfl rfl
  obtain ⟨-, y, rfl, hy⟩ := hanswered _ _ _ _ _ _ _ _ _ _ rfl (hsteps 0 (by decide)).1 hnext'
    (.walk hdeep) ht₂ hlength hc₂
  exact ⟨start, m₁, _, _, thread, thread₂, x, y, hfresh, hrun, ht,
    ⟨r, 1, .blocking .complete, hc, rfl, entry, hentry, hlook⟩, hnext', .walk hdeep, ht₂,
    ⟨left, hc₂⟩, hy⟩

end Machine

end TypeRecords
