/-
How the record of a field is found.

A walk over fields puts a frame on the stack and waits there for the record of its
next field. What goes on above that frame can be any of a few things (`Turn.Fetching`):

- the record is looked up, and attended to like any other request;
- a program is at work directly above the frame, whose result will answer the field by
  what it has heard (`Store.Yields`);
- that program waits in a frame of its own, for the answer to a request or for
  something else, and will go on in such a way whatever it is told;
- a fault is reported, or the answer is there.

A step keeps to this until the answer is taken or the thread unwinds past the frame
(`Fetching.step`). Whatever callbacks run further up, and whatever they request, this
is all that has to be known of them: an answer that gets down to the program is one
that the registry has made since the walk began.
-/
import TypeRecords.Proofs.Resuming.Hearing

namespace TypeRecords

variable {σ : Type}

-- ====================================================== programs

section

variable (s : Store) (since : Store → Prop) (registry : RegistryId) (e : Term)
  (arguments : List RecordId)

/-- The term is answered with this response. -/
structure Store.Meant (r : Response) : Prop where
  record : e.record? (s.recordOf? registry) arguments = some r.record
  supports : s.Supports since registry r

/-- Whatever is come to answers the term, by what was heard by then: `comes good heard`
says that it is good. -/
def Store.Yields (comes : (Heard → Value → Prop) → Heard → Prop) : Prop :=
  ∃ heard : Heard, (∀ p ∈ heard, s.Hears since registry p.1 p.2)
    ∧ comes (fun heard v => ∀ r, v = .response r → e.Answered arguments heard r) heard

/-- So does every handler that may take over. -/
def Setting.Yields (st : Setting σ) : Prop :=
  ∀ h ∈ st.handlers, ∀ f, s.Yields since registry e arguments (h f).Fetches

/-- A program waits for something other than a record, and goes on in this way. -/
def Frame.Yields : Frame σ → Prop
  | .forLayout k st => st.Yields s since registry e arguments
    ∧ s.Yields since registry e arguments fun good heard =>
      ∀ d words, (k d words).Fetches good heard
  | .forTable k st => st.Yields s since registry e arguments
    ∧ s.Yields since registry e arguments fun good heard => ∀ t, (k t).Fetches good heard
  | .forRecord k st => st.Yields s since registry e arguments
    ∧ s.Yields since registry e arguments fun good heard => ∀ r, (k r).Fetches good heard
  | _ => False

end

section

variable {since : Store → Prop} {s s' : Store} {registry : RegistryId} {e : Term}
  {arguments : List RecordId} {comes comes' : (Heard → Value → Prop) → Heard → Prop}
  {st : Setting σ} {f : Frame σ}

namespace Store

theorem Rises.meant {r : Response} (h : s.Rises registry s')
    (hr : s.Meant since registry e arguments r) : s'.Meant since registry e arguments r :=
  ⟨Term.record?_mono (fun _ _ => h.advances.recordOf?) hr.record, h.supports hr.supports⟩

theorem Rises.yields (h : s.Rises registry s') (hc : s.Yields since registry e arguments comes) :
    s'.Yields since registry e arguments comes := by
  obtain ⟨heard, hheard, hcomes⟩ := hc
  exact ⟨heard, fun p hp => h.hears (hheard p hp), hcomes⟩

theorem Yields.imp (h : s.Yields since registry e arguments comes)
    (hc : ∀ good heard, comes good heard → comes' good heard) :
    s.Yields since registry e arguments comes' := by
  obtain ⟨heard, hheard, hcomes⟩ := h
  exact ⟨heard, hheard, hc _ _ hcomes⟩

/-- A program that is answered goes on with what it has heard now. -/
theorem Yields.answered {c : Call} {r : Response} {k : Response → Program σ Value}
    (h : s.Yields since registry e arguments fun good heard =>
      ∀ r, (k r).Fetches good ((c, r) :: heard))
    (hr : s.Hears since registry c r) : s.Yields since registry e arguments (k r).Fetches := by
  obtain ⟨heard, hheard, hcomes⟩ := h
  refine ⟨(c, r) :: heard, fun p hp => ?_, hcomes r⟩
  rcases List.mem_cons.mp hp with rfl | hp
  · exact hr
  · exact hheard p hp

/-- What a program has come to answers the term. -/
theorem Yields.meant {r : Response}
    (h : s.Yields since registry e arguments
      (Program.done (.response r) : Program σ Value).Fetches) :
    s.Meant since registry e arguments r := by
  obtain ⟨heard, hheard, hgood⟩ := h
  have hanswered := hgood r rfl
  refine ⟨hanswered.record? ⟨fun _ => rfl, fun p hp => (hheard p hp).record⟩, ?_⟩
  obtain ⟨c, hmem, -⟩ := hanswered
  exact (hheard _ hmem).supports

end Store

theorem Setting.Yields.rises (h : st.Yields s since registry e arguments)
    (hr : s.Rises registry s') : st.Yields s' since registry e arguments :=
  fun x hx f => hr.yields (h x hx f)

theorem Frame.Yields.rises (h : f.Yields s since registry e arguments)
    (hr : s.Rises registry s') : f.Yields s' since registry e arguments := by
  cases f with
  | forLayout k st | forTable k st | forRecord k st => exact ⟨h.1.rises hr, hr.yields h.2⟩
  | _ => exact h.elim

end

-- ====================================================== requests that come back

namespace Turn

variable {lib : Library σ} {a : Actor} {t t' : Turn σ} {others : List Hold}

/-- What attends to a request goes on, or the answer is about to be taken, or the thread
unwinds to the frame that waits for it. -/
theorem Attends.next {sought : EntryId → Prop} {q : Request} {f : Frame σ}
    {below : List (Frame σ)} {good : Response → Prop} (hat : t.Attends sought q (f :: below) good)
    (h : t.step lib a = some t') (ho : t.store.Owned (t.holds a.id ++ others))
    (ha : f.awaits = true) :
    (t'.Attends sought q (f :: below) fun x => ∃ i, sought i ∧ t'.store.Exactly i q x)
      ∨ t.frames = f :: below
        ∧ ((∃ x left, t.control = .give (.response x) left ∧ good x)
          ∨ ∃ e, t.control = .unwind e) := by
  by_cases hback : below.length < t'.frames.length
  · exact .inl (hat.step h ho ha hback)
  refine .inr ?_
  -- the step has taken the frame off, so it was on top
  have hnot : t'.frames ≠ t.frames := fun hsame => by
    cases hat with
    | above hf hg =>
        rw [hsame, hf, List.length_append, List.length_cons, List.length_cons] at hback
        omega
    | working hf | failing hf | answered hf =>
        rw [hsame, hf, List.length_cons] at hback
        omega
  cases step_stacks h with
  | same hsame => exact (hnot hsame).elim
  | opened fs hf hfs htail =>
      cases hat with
      | above hf' hg =>
          rw [hf, hf', List.length_append, List.length_append, List.length_cons,
            List.length_cons] at hback
          omega
      | working hf' | failing hf' | answered hf' =>
          rw [hf, hf', List.length_append, List.length_cons] at hback
          omega
  | drop hf hc =>
      cases hat with
      | above hf' hg =>
          have hlength := congrArg List.length (hf.symm.trans hf')
          simp only [List.length_append, List.length_cons] at hlength
          omega
      | working hf' hi hserves hleave =>
          rcases hc with ⟨v, left, hc⟩ | ⟨e, hc⟩ <;> rw [hc] at hserves <;> cases hserves
      | failing hf' hfails =>
          refine ⟨hf', .inr ?_⟩
          rcases hc with ⟨v, left, hc⟩ | hc
          · rw [hc] at hfails
            cases hfails
          · exact hc
      | answered hf' hgive hx => exact ⟨hf', .inl ⟨_, _, hgive, hx⟩⟩

theorem Attends.stands {sought : EntryId → Prop} {q : Request} {base : List (Frame σ)}
    {good : Response → Prop} (h : t.Attends sought q base good) : ∃ gs, t.frames = gs ++ base := by
  cases h with
  | @above gs g hf hg => exact ⟨gs ++ [g], hf.trans (List.append_cons gs g base)⟩
  | working hf | failing hf | answered hf => exact ⟨[], hf⟩

/-- A fault is reported above `base`, or the thread unwinds to it. -/
inductive Faults (base : List (Frame σ)) (t : Turn σ) : Prop
  | above (gs : List (Frame σ)) (g : Frame σ) (hf : t.frames = gs ++ g :: base)
      (hg : g.reports = true)
  | failing (hf : t.frames = base) (hc : t.control.fails = true)

variable {base : List (Frame σ)}

theorem Faults.congr (h : t.Faults base) (hc : t'.control = t.control)
    (hf : t'.frames = t.frames) : t'.Faults base := by
  cases h with
  | above gs g hf' hg => exact .above gs g (hf.trans hf') hg
  | failing hf' hc' => exact .failing (hf.trans hf') (hc ▸ hc')

theorem Faults.stands (h : t.Faults base) : ∃ gs, t.frames = gs ++ base := by
  cases h with
  | above gs g hf hg => exact ⟨gs ++ [g], hf.trans (List.append_cons gs g base)⟩
  | failing hf hc => exact ⟨[], hf⟩

theorem Faults.resumes {p : Program σ Value} {st : Setting σ} (h : t.Faults base)
    (hc : t.control = .run p st) (hf : t'.frames = t.frames) : t'.Faults base := by
  cases h with
  | above gs g hf' hg => exact .above gs g (hf.trans hf') hg
  | failing hf' hc' => rw [hc] at hc'; cases hc'

/-- It goes on like this until the thread unwinds past the first frame of `base`. -/
theorem Faults.step (hfault : t.Faults base) (h : t.step lib a = some t') :
    t'.Faults base ∨ t.frames = base ∧ ∃ e, t.control = .unwind e := by
  cases hfault with
  | above gs g hf hg =>
      refine .inl ?_
      cases step_stacks h with
      | same hsame => exact .above gs g (hsame.trans hf) hg
      | opened fs hopened hfs htail =>
          exact .above (fs ++ gs) g (by rw [hopened, hf, List.append_assoc]) hg
      | drop hdrop hc =>
          cases gs with
          | cons g' gs => exact .above gs g (List.cons.inj (hdrop.symm.trans hf)).2 hg
          | nil =>
              -- the hook is done with
              rcases hc with ⟨v, left, hc⟩ | ⟨e, hc⟩
              · obtain ⟨hframes, hfails⟩ := give_reports hf hg (step_give hc h)
                exact .failing hframes hfails
              · exact .failing (unwind_frames hf (step_unwind hc h))
                  (unwind_fails hf (Frame.setting?_of_reports hg) (step_unwind hc h))
  | failing hf hc =>
      cases step_cases h with
      | unwind hcontrol => exact .inr ⟨hf, _, hcontrol⟩
      | report hcontrol h =>
          cases h with
          | hook => exact .inl (.above [] _ (congrArg _ hf) rfl)
          | abort | unwind => exact .inl (.failing hf rfl)
      | run hcontrol | give hcontrol | await hcontrol | allocated hcontrol | begin hcontrol
      | lay hcontrol | measure hcontrol | publish hcontrol | release hcontrol | stopped hcontrol
      | enqueue hcontrol | acquire hcontrol | standBy hcontrol => rw [hcontrol] at hc; cases hc

-- ====================================================== fetching

/-- The thread is about to find the record that the term stands for, and hand it to the
first frame of `base`. -/
inductive Fetching (since : Store → Prop) (registry : RegistryId) (e : Term)
    (arguments : List RecordId) (base : List (Frame σ)) (t : Turn σ) : Prop
  /-- The record is known, and looked up. -/
  | looks {y : RecordId} {q : Request}
      (hcall : ∀ look, e.call? look arguments = some (.check y))
      (hthere : y < t.store.records.size)
      (hat : t.Attends (t.store.sought? registry (.check y) = some ·) q base
        (t.store.Hears since registry (.check y)))
  /-- A fault is reported, or the thread unwinds. -/
  | faults (hfault : t.Faults base)
  | runs {p : Program σ Value} {st : Setting σ} (hf : t.frames = base) (hc : t.control = .run p st)
      (hst : st.Yields t.store since registry e arguments)
      (hp : t.store.Yields since registry e arguments p.Fetches)
  /-- The program waits for the answer to a request. -/
  | asks {c : Call} {q : Request} {k : Response → Program σ Value} {st : Setting σ}
      (hnames : ∀ y ∈ c.names, y < t.store.records.size)
      (hst : st.Yields t.store since registry e arguments)
      (hk : t.store.Yields since registry e arguments fun good heard =>
        ∀ r, (k r).Fetches good ((c, r) :: heard))
      (hat : t.Attends (t.store.sought? registry c = some ·) q (.forResponse k st :: base)
        (t.store.Hears since registry c))
  /-- It waits for something else. -/
  | waits (gs : List (Frame σ)) (g : Frame σ) (hf : t.frames = gs ++ g :: base)
      (hg : g.Yields t.store since registry e arguments)
  /-- It has come to a result. -/
  | told {v : Value} {left : Local} (hf : t.frames = base) (hc : t.control = .give v left)
      (hv : ∀ r, v = .response r → t.store.Meant since registry e arguments r)

variable {since : Store → Prop} {registry : RegistryId} {e : Term} {arguments : List RecordId}

namespace Fetching

/-- What other threads write does not disturb it. -/
theorem rises (h : t.Fetching since registry e arguments base)
    (hr : t.store.Rises registry t'.store) (hc : t'.control = t.control)
    (hf : t'.frames = t.frames) :
    t'.Fetching since registry e arguments base := by
  have hsize := hr.records.size_le
  cases h with
  | looks hcall hthere hat =>
      exact .looks hcall (Nat.lt_of_lt_of_le hthere hsize)
        (hat.mono hc hf (fun i hi => hr.advances.grows.sought? hi) fun x hx => hr.hears hx)
  | faults hfault => exact .faults (hfault.congr hc hf)
  | runs hf' hc' hst hp => exact .runs (hf.trans hf') (hc.trans hc') (hst.rises hr) (hr.yields hp)
  | asks hnames hst hk hat =>
      exact .asks (fun y hy => Nat.lt_of_lt_of_le (hnames y hy) hsize) (hst.rises hr) (hr.yields hk)
        (hat.mono hc hf (fun i hi => hr.advances.grows.sought? hi) fun x hx => hr.hears hx)
  | waits gs g hf' hg => exact .waits gs g (hf.trans hf') (hg.rises hr)
  | told hf' hc' hv => exact .told (hf.trans hf') (hc.trans hc') fun r hr' => hr.meant (hv r hr')

/-- Nothing below is touched. -/
theorem stands (h : t.Fetching since registry e arguments base) : ∃ gs, t.frames = gs ++ base := by
  cases h with
  | looks hcall hthere hat => exact hat.stands
  | faults hfault => exact hfault.stands
  | runs hf | told hf => exact ⟨[], hf⟩
  | @asks c q k st hnames hst hk hat =>
      obtain ⟨gs, hf⟩ := hat.stands
      exact ⟨gs ++ [.forResponse k st], hf.trans (List.append_cons ..)⟩
  | waits gs g hf hg => exact ⟨gs ++ [g], hf.trans (List.append_cons gs g base)⟩

/-- A program that goes on without a step of its own still comes to an answer. -/
theorem resumes {p p' : Program σ Value} {st : Setting σ}
    (h : t.Fetching since registry e arguments base) (hc : t.control = .run p st)
    (hp : Machine.Resumes p p') (hs : t'.store = t.store) (hc' : t'.control = .run p' st)
    (hf : t'.frames = t.frames) : t'.Fetching since registry e arguments base := by
  -- what attends to a request is not a program that is about to take a step
  have hattends : ∀ {sought sought' : EntryId → Prop} {q : Request} {base : List (Frame σ)}
      {good good' : Response → Prop}, t.Attends sought q base good → (∀ i, sought i → sought' i) →
      t'.Attends sought' q base good' := by
    intro sought sought' q base good good' hat hs
    cases hat with
    | above hf' hg =>
        exact .above (hf.trans hf') (hg.imp_right fun ⟨i, hi, hserves⟩ => ⟨i, hs i hi, hserves⟩)
    | working hf' hi hserves | failing hf' hserves => rw [hc] at hserves; cases hserves
    | answered hf' hgive => cases hc.symm.trans hgive
  cases h with
  | looks hcall hthere hat =>
      exact .looks hcall (hs ▸ hthere) (hattends hat fun i hi => hs ▸ hi)
  | faults hfault => exact .faults (hfault.resumes hc hf)
  | asks hnames hst hk hat =>
      exact .asks (hs ▸ hnames) (hs ▸ hst) (hs ▸ hk) (hattends hat fun i hi => hs ▸ hi)
  | waits gs g hf' hg => exact .waits gs g (hf.trans hf') (hs ▸ hg)
  | told hf' hgive hv => cases hc.symm.trans hgive
  | runs hf' hrun hst hyields =>
      cases hc.symm.trans hrun
      refine .runs (hf.trans hf') hc' (hs ▸ hst) ?_
      rw [hs]
      cases hp with
      | spawn name body k t => exact hyields.imp fun _ _ hk => hk t
      | join other k => exact hyields
      | settle other k b => exact hyields.imp fun _ _ hk => hk b

/-- The armed handler takes over, or the thread unwinds. -/
theorem handle {st : Setting σ} (hf : t.frames = base)
    (hst : st.Yields t.store since registry e arguments) (f : Failure) :
    (t.handle f st).Fetching since registry e arguments base := by
  unfold Turn.handle
  split
  · exact .faults (.failing hf rfl)
  · rename_i h rest hhandlers
    refine .runs hf rfl (fun x hx => hst x ?_) (hst h (hhandlers ▸ List.mem_cons_self) f)
    rw [hhandlers]
    exact List.mem_cons_of_mem h hx

end Fetching

/-- A step of the program leads on, if it stays in the registry. -/
theorem run_fetching {p : Program σ Value} {st : Setting σ} (hf : t.frames = base)
    (hc : t.control = .run p st) (hst : st.Yields t.store since registry e arguments)
    (hp : t.store.Yields since registry e arguments p.Fetches)
    (hin : StepsIn lib registry a t t') (hsince : since t'.store) :
    t'.Fetching since registry e arguments base := by
  have hr := hin.rises
  have hhandle : ∀ f, t' = t.handle f st → t'.Fetching since registry e arguments base := by
    rintro f rfl
    exact Fetching.handle hf hst f
  -- the program goes on, under the same handlers
  have hon : ∀ {p' : Program σ Value} {l : Local}, t'.control = .run p' { st with locals := l } →
      t'.frames = t.frames → t.store.Yields since registry e arguments p'.Fetches →
      t'.Fetching since registry e arguments base := fun hc' hf' hp' =>
    .runs (hf'.trans hf) hc' (hst.rises hr) (hr.yields hp')
  have hpushed : ∀ {g : Frame σ} (gs : List (Frame σ)), t'.frames = gs ++ g :: t.frames →
      g.Yields t.store since registry e arguments → t'.Fetching since registry e arguments base :=
    fun gs hf' hg => .waits gs _ (hf'.trans (by rw [hf])) (hg.rises hr)
  cases step_run hc hin.step with
  | @request r q c k _ h =>
      obtain ⟨rfl, hnames⟩ := Control.staysIn_request (hc ▸ hin.law)
      obtain ⟨H, ho'⟩ := hin.owned_after
      have hthere : ∀ y ∈ c.names, y < t'.store.records.size :=
        fun y hy => Nat.lt_of_lt_of_le (hnames y hy) hr.records.size_le
      have hat : t'.Attends (t'.store.sought? r c = some ·) q (.forResponse k st :: base)
          (t'.store.Hears since r c) := by
        rw [← hf]
        exact (request_attends h).mono rfl rfl (fun _ h => h) fun x hx =>
          hx.hears hin.domestic_after ho' hthere hsince
      exact .asks hthere (hst.rises hr) (hr.yields hp) hat
  | done =>
      refine .told hf rfl fun r hv => ?_
      subst hv
      exact hp.meant
  | fail | refuse => exact hhandle _ rfl
  | look => exact hon rfl rfl (hp.imp fun _ _ hk => hk _ _ _)
  | edit => exact hon rfl rfl hp
  | act | scratch | draft | fill | storePrivate => exact hon rfl rfl (hp.imp fun _ _ hk => hk _)
  | @structLayout _ _ _ k =>
      exact hpushed (g := .forLayout k st) [] (startLayout_frames ..) ⟨hst, hp⟩
  | table h => exact hpushed [] (requestTable_frames h) ⟨hst, hp⟩
  | canonical h =>
      rcases requestName_stacks h with hf' | ⟨j, hf'⟩
      · exact hpushed [] hf' ⟨hst, hp⟩
      · exact hpushed [.founding j] hf' ⟨hst, hp⟩
  | raise =>
      obtain ⟨heard, hheard, -⟩ := hp
      -- nothing is handed to the frame that is pushed
      exact .asks (c := .tuple []) (q := .poll .abstract) (k := fun _ => .done .unit)
        (fun y hy => (List.not_mem_nil hy).elim) (hst.rises hr)
        (hr.yields ⟨heard, hheard, fun _ r hv => by cases hv⟩)
        (.failing (congrArg (Frame.forResponse (fun _ => .done .unit) st :: ·) hf) rfl)
  | guarded =>
      refine .runs hf rfl (fun x hx f => ?_) (hp.imp fun _ _ hk => hk.2)
      rcases List.mem_cons.mp hx with rfl | hx
      · exact hp.imp fun _ _ hk => hk.1 f
      · exact hst x hx f
  | disarm => exact .runs hf rfl (fun x hx f => hst x (List.mem_of_mem_tail hx) f) hp

/-- A program that has waited for something other than a record goes on. -/
theorem drop_fetching {g : Frame σ} (hf : t.frames = g :: base)
    (hg : g.Yields t.store since registry e arguments) (hf' : t'.frames = base)
    (h : t.step lib a = some t')
    (hc : (∃ v left, t.control = .give v left) ∨ ∃ e, t.control = .unwind e) :
    t'.Fetching since registry e arguments base := by
  unfold step at h
  rcases hc with ⟨v, left, hc⟩ | ⟨x, hc⟩
  · rw [hc] at h
    unfold give at h
    simp only [hf] at h
    cases g with
    | forTable k st | forRecord k st =>
        cases v <;> cases h
        exact .runs rfl rfl hg.1 (hg.2.imp fun _ _ hk => hk _)
    | forLayout k st =>
        cases v <;> cases left <;> cases h
        exact .runs rfl rfl hg.1 (hg.2.imp fun _ _ hk => hk _ _)
    | _ => exact hg.elim
  · rw [hc] at h
    cases h
    unfold unwind
    rw [hf]
    cases g with
    | forTable k st | forRecord k st | forLayout k st =>
        exact Fetching.handle (t := { t with frames := base }) rfl hg.1 x
    | _ => exact hg.elim

/-- What it has come to, where nothing stands above `base` any more, answers the term. -/
theorem Fetching.meant {r : Response} {left : Local}
    (h : t.Fetching since registry e arguments base) (hf : t.frames = base)
    (hc : t.control = .give (.response r) left) : t.store.Meant since registry e arguments r := by
  -- there is no room for a frame
  have hno : ∀ (gs : List (Frame σ)) (g : Frame σ), t.frames = gs ++ g :: base → False := by
    intro gs g hf'
    have hlength := congrArg List.length (hf.symm.trans hf')
    rw [List.length_append, List.length_cons] at hlength
    omega
  cases h with
  | looks hcall hthere hat =>
      cases hat with
      | above hf' hg => exact (hno _ _ hf').elim
      | working hf' hi hserves => rw [hc] at hserves; cases hserves
      | failing hf' hfails => rw [hc] at hfails; cases hfails
      | answered hf' hgive hx =>
          cases hc.symm.trans hgive
          refine ⟨?_, hx.supports⟩
          unfold Term.record?
          rw [hcall, Option.bind_some]
          exact hx.record
  | faults hfault =>
      cases hfault with
      | above gs g hf' hg => exact (hno gs g hf').elim
      | failing hf' hfails => rw [hc] at hfails; cases hfails
  | runs hf' hrun => cases hc.symm.trans hrun
  | asks hnames hst hk hat =>
      obtain ⟨gs, hf'⟩ := hat.stands
      exact (hno gs _ hf').elim
  | waits gs g hf' hg => exact (hno gs g hf').elim
  | told hf' hgive hv =>
      cases hc.symm.trans hgive
      exact hv r rfl

/-- A step leads on, or the record of the field is taken, or the thread unwinds to the
frame that waits for it. -/
theorem Fetching.step {f : Frame σ} {below : List (Frame σ)}
    (hfetch : t.Fetching since registry e arguments (f :: below))
    (hin : StepsIn lib registry a t t') (hf : f.awaits = true) (hsince : since t'.store) :
    t'.Fetching since registry e arguments (f :: below)
      ∨ t.frames = f :: below
        ∧ ((∃ v left, t.control = .give v left) ∨ ∃ x, t.control = .unwind x) := by
  have h := hin.step
  have hr := hin.rises
  obtain ⟨others, ho⟩ := hin.owned
  obtain ⟨H, ho'⟩ := hin.owned_after
  -- an answer that has been made just now
  have hears : ∀ {c : Call} {q : Request} {x : Response},
      (∀ y ∈ c.names, y < t.store.records.size) →
      (∃ i, t.store.sought? registry c = some i ∧ t'.store.Exactly i q x) →
      t'.store.Hears since registry c x := fun {c q x} hnames ⟨i, hi, hx⟩ => by
    have hanswers : t'.store.Answers registry q c x := .inl ⟨i, hr.advances.grows.sought? hi, hx⟩
    exact hanswers.hears hin.domestic_after ho'
      (fun y hy => Nat.lt_of_lt_of_le (hnames y hy) hr.records.size_le) hsince
  cases hfetch with
  | looks hcall hthere hat =>
      rcases hat.next h ho hf with hnext | ⟨hframes, ⟨x, left, hc, hx⟩ | hc⟩
      · refine .inl (.looks hcall (Nat.lt_of_lt_of_le hthere hr.records.size_le)
          (hnext.mono rfl rfl (fun i hi => hr.advances.grows.sought? hi) fun x hx =>
            hears (fun y hy => ?_) hx))
        rw [List.mem_singleton.mp hy]
        exact hthere
      · exact .inr ⟨hframes, .inl ⟨_, left, hc⟩⟩
      · exact .inr ⟨hframes, .inr hc⟩
  | faults hfault => exact (hfault.step h).imp .faults fun ⟨hframes, hc⟩ => ⟨hframes, .inr hc⟩
  | runs hframes hc hst hp =>
      exact .inl (run_fetching hframes hc hst hp hin hsince)
  | @asks c q k st hnames hst hk hat =>
      rcases hat.next h ho rfl with hnext | ⟨hframes, ⟨x, left, hc, hx⟩ | ⟨x, hc⟩⟩
      · exact .inl (.asks (fun y hy => Nat.lt_of_lt_of_le (hnames y hy) hr.records.size_le)
          (hst.rises hr) (hr.yields hk)
          (hnext.mono rfl rfl (fun i hi => hr.advances.grows.sought? hi) fun x hx =>
            hears hnames hx))
      · unfold Turn.step at h
        rw [hc] at h
        unfold give at h
        simp only [hframes] at h
        cases h
        exact .inl (.runs rfl rfl hst (hk.answered hx))
      · unfold Turn.step at h
        rw [hc] at h
        cases h
        unfold unwind
        rw [hframes]
        exact .inl (Fetching.handle (t := { t with frames := f :: below }) rfl hst x)
  | waits gs g hframes hg =>
      cases step_stacks h with
      | same hsame => exact .inl (.waits gs g (hsame.trans hframes) (hg.rises hr))
      | opened fs hopened hfs htail =>
          exact .inl (.waits (fs ++ gs) g (by rw [hopened, hframes, List.append_assoc])
            (hg.rises hr))
      | drop hdrop hc =>
          cases gs with
          | cons g' gs =>
              exact .inl (.waits gs g (List.cons.inj (hdrop.symm.trans hframes)).2 (hg.rises hr))
          | nil =>
              have hframes' := (List.cons.inj (hdrop.symm.trans hframes)).2
              exact .inl (drop_fetching hframes hg hframes' h hc)
  | told hframes hc hv => exact .inr ⟨hframes, .inl ⟨_, _, hc⟩⟩

end Turn

end TypeRecords
