/-
A callback and its locals.

A program may change the scratch words or the draft among its locals, node by node
(`Program.reshapes`), and nothing else may. While it waits for something they are in the
frame in which it waits, and come back to it from there (`Turn.run_carries`,
`Turn.handle_carries`).

For the callback of an attempt this can be followed on the stack. Directly above the
frame of the attempt there is the callback, or a frame in which it waits, or the report
of a fault, and whatever is above that leaves the locals alone. `Turn.Working` says
so. A step of the thread turns the locals into what the next node of the callback makes
of them, if the callback is what takes the step, and keeps them otherwise
(`Working.step`). Once something has failed it no longer matters what the locals were:
the thread is then at work with any locals at all.
-/
import TypeRecords.Proofs.Conforming.Cells

namespace TypeRecords

variable {σ : Type}

-- ====================================================== locals

/-- What the next node of a program makes of its locals. -/
def Program.reshapes {α : Type} : Program σ α → Local → Local
  | .fill index w _, .draft d => .draft (d.set index w).1
  | .storePrivate index value _, .draft d => .draft (d.storeWord index value).1
  | .scratch f _, .scratch words => .scratch (f words)
  | _, l => l

/-- What a program does not have it does not change. -/
theorem Program.Misses.reshapes_eq {p : Program σ Value} {l : Local} (h : p.Misses l) :
    p.reshapes l = l := by
  cases h with
  | scratch hl => cases l with
    | scratch words => exact (hl words rfl).elim
    | _ => rfl
  | draft hl => rfl
  | fill hl | storePrivate hl => cases l with
    | draft d => exact (hl d rfl).elim
    | _ => rfl

/-- Filling a slot by name is the first thing such a program does. -/
theorem Program.bind_fillNamed {α β : Type} (protocolOf : ProtocolId → Option Protocol)
    (name : String) (w : Witness) (k : Bool → Program σ α) (f : α → Program σ β) :
    (fillNamed protocolOf name w k).bind f = fillNamed protocolOf name w fun b => (k b).bind f := by
  refine congrArg draft (funext fun d => ?_)
  dsimp only
  cases (protocolOf d.protocol).bind (·.position? name) <;> rfl

/-- The control is that of a program with these locals, or something fails. -/
def Control.Carries (l : Local) : Control σ → Prop
  | .run _ s => s.locals = l
  | .give _ left => left = l
  | .unwind _ => True
  | .report .. => True
  | .ended => True
  | _ => False

/-- A program waits with these locals, or a fault is reported. -/
def Frame.Carries (l : Local) : Frame σ → Prop
  | .forResponse _ s => s.locals = l
  | .forLayout _ s => s.locals = l
  | .forTable _ s => s.locals = l
  | .forRecord _ s => s.locals = l
  | .reporting .. => True
  | _ => False

/-- The locals after the next step, if it is one of a program. -/
def Control.reshapes (l : Local) : Control σ → Local
  | .run p _ => p.reshapes l
  | _ => l

namespace Turn

variable {lib : Library σ} {a : Actor} {t t' : Turn σ} {l : Local}

-- ====================================================== programs

theorem handle_carries {s : Setting σ} (hs : s.locals = l) (f : Failure) :
    (t.handle f s).control.Carries l := by
  unfold handle
  split
  · trivial
  · exact hs

/-- Above the frame in which a program waits for a record there may be the one that
allocates it. -/
theorem request_frames {registry : RegistryId} {q : Request} {call : Call}
    (h : Requested lib t a registry q call t') : ∃ fs, t'.frames = fs ++ t.frames := by
  cases h with
  | check => exact ⟨[], consult_frames ..⟩
  | instantiate => exact ⟨[.allocating _], rfl⟩
  | empty | miscount | hit | create => exact ⟨[], rfl⟩

/-- A program goes on with what its node makes of the locals, or waits with them in a
frame of its own. Above this one there may be another, but not that of an attempt. -/
theorem run_carries {p : Program σ Value} {s : Setting σ} (hc : t.control = .run p s)
    (h : Ran lib t a s p t') :
    (t'.frames = t.frames ∧ t'.control.Carries (p.reshapes s.locals))
      ∨ ∃ fs f, t'.frames = fs ++ f :: t.frames ∧ (∀ g ∈ fs, g.attempt? = none)
        ∧ f.attempt? = none ∧ f.Carries (p.reshapes s.locals) := by
  -- what the step has put on the stack, the last but one frame of which is known
  have hpushed : ∀ {f : Frame σ} (fs : List (Frame σ)), t'.frames = fs ++ f :: t.frames →
      f.attempt? = none → f.Carries (p.reshapes s.locals) →
      ∃ fs f, t'.frames = fs ++ f :: t.frames ∧ (∀ g ∈ fs, g.attempt? = none)
        ∧ f.attempt? = none ∧ f.Carries (p.reshapes s.locals) :=
    fun {f} fs hf hnone hcarries => by
      refine ⟨fs, f, hf, fun g hg => ?_, hnone, hcarries⟩
      cases run_stacks hc h with
      | same hsame =>
          have hlength := congrArg List.length (hsame.symm.trans hf)
          simp only [List.length_append, List.length_cons] at hlength
          omega
      | drop hdrop hgone =>
          have hlength := congrArg List.length (hdrop.trans (congrArg _ hf))
          simp only [List.length_append, List.length_cons] at hlength
          omega
      | opened gs hgs hopens htail =>
          have hsame : gs = fs ++ [f] := List.append_cancel_right <|
            hgs.symm.trans (hf.trans (List.append_cons fs f t.frames))
          exact (hopens g (by rw [hsame]; exact List.mem_append_left _ hg)).attempt?_eq
            (by rw [hc]; rfl)
  cases h with
  | done | look | edit | act | draft | guarded | disarm => exact .inl ⟨rfl, rfl⟩
  | scratch hl | fill hl | storePrivate hl => exact .inl ⟨rfl, by rw [hl]; rfl⟩
  | fail => exact .inl ⟨handle_frames .., handle_carries rfl _⟩
  | refuse hp => exact .inl ⟨handle_frames .., handle_carries hp.reshapes_eq.symm _⟩
  | request h =>
      obtain ⟨fs, hf⟩ := request_frames h
      exact .inr (hpushed _ hf rfl rfl)
  | @structLayout _ _ _ k =>
      exact .inr (hpushed (f := .forLayout k s) [] (startLayout_frames ..) rfl rfl)
  | table h => exact .inr (hpushed [] (requestTable_frames h) rfl rfl)
  | canonical h =>
      rcases requestName_stacks h with hf | ⟨j, hf⟩
      · exact .inr (hpushed [] hf rfl rfl)
      · exact .inr (hpushed [.founding j] hf rfl rfl)
  | raise => exact .inr (hpushed (f := .forResponse (fun _ => .done .unit) s) [] rfl rfl rfl)

-- ====================================================== above an attempt

/-- The callback of an attempt is at work with the locals `l`, or something above the
frame of the attempt has failed. -/
inductive Working (t : Turn σ) (j : TableJob) (base : List (Frame σ)) (l : Local) : Prop
  | atop (hf : t.frames = .filling j :: base) (hc : t.control.Carries l)
  | below (fs : List (Frame σ)) (f : Frame σ) (hf : t.frames = fs ++ f :: .filling j :: base)
      (hcarries : f.Carries l)

/-- The locals of that callback after the next step. -/
def reshapes (t : Turn σ) (base : List (Frame σ)) (l : Local) : Local :=
  if t.frames.length = base.length + 1 then t.control.reshapes l else l

variable {j : TableJob} {base : List (Frame σ)}

theorem reshapes_atop (h : t.frames.length = base.length + 1) :
    t.reshapes base l = t.control.reshapes l :=
  if_pos h

theorem reshapes_below (h : t.frames.length ≠ base.length + 1) : t.reshapes base l = l :=
  if_neg h

theorem Working.congr (h : t.Working j base l) (hc : t'.control = t.control)
    (hf : t'.frames = t.frames) : t'.Working j base l := by
  cases h with
  | atop hf' hc' => exact .atop (hf.trans hf') (hc ▸ hc')
  | below fs f hf' hcarries => exact .below fs f (hf.trans hf') hcarries

/-- A program that goes on without a step of its own keeps its locals. -/
theorem Working.resumes {p p' : Program σ Value} {s : Setting σ} (h : t.Working j base l)
    (hc : t.control = .run p s) (hc' : t'.control = .run p' s) (hf : t'.frames = t.frames) :
    t'.Working j base l := by
  cases h with
  | below fs f hf' hcarries => exact .below fs f (hf.trans hf') hcarries
  | atop hf' hcarries =>
      refine .atop (hf.trans hf') ?_
      rw [hc] at hcarries
      rw [hc']
      exact hcarries

/-- What is handed to the frame of an attempt, and does not end it, has a hole. -/
theorem Working.returned {v : Value} {left : Local} (hf : t.frames = .filling j :: base)
    (hc : t.control = .give v left) (h : t.step lib a = some t')
    (hover : base.length < t'.frames.length) : t'.Working j base l := by
  unfold Turn.step give at h
  rw [hc, hf] at h
  cases left with
  | nothing | scratch words => cases v <;> cases h
  | draft d =>
      cases filled_cases h with
      | lack => exact .atop rfl trivial
      | table => exact (Nat.lt_irrefl _ hover).elim

/-- What takes the frame off in which a callback waits goes on with its locals, or
fails. -/
theorem carries_of_drop {f : Frame σ} {rest : List (Frame σ)} (hf : t.frames = f :: rest)
    (hcarries : f.Carries l) (hdrop : t'.frames = rest) (h : t.step lib a = some t')
    (hc : (∃ v left, t.control = .give v left) ∨ ∃ e, t.control = .unwind e) :
    t'.control.Carries l := by
  unfold step at h
  rcases hc with ⟨v, left, hc⟩ | ⟨e, hc⟩
  · rw [hc] at h
    unfold give at h
    simp only [hf] at h
    cases f with
    | forResponse k s | forTable k s | forRecord k s =>
        cases v <;> cases h
        exact hcarries
    | forLayout k s =>
        cases v <;> cases left <;> cases h
        exact hcarries
    | reporting r hooks policy => cases h; trivial
    | _ => exact hcarries.elim
  · rw [hc] at h
    cases h
    unfold unwind
    rw [hf]
    cases f with
    | forResponse k s | forLayout k s | forTable k s | forRecord k s =>
        exact handle_carries hcarries e
    | _ => trivial

/-- As long as the frame of an attempt is there, a step keeps its callback at work. -/
theorem Working.step (hw : t.Working j base l) (h : t.step lib a = some t')
    (hover : base.length < t'.frames.length) : t'.Working j base (t.reshapes base l) := by
  cases hw with
  | below fs f hf hcarries =>
      have hdeep : t.frames.length ≠ base.length + 1 := by
        rw [hf, List.length_append, List.length_cons, List.length_cons]
        omega
      rw [reshapes_below hdeep]
      cases step_stacks h with
      | same hsame => exact .below fs f (hsame.trans hf) hcarries
      | opened gs hgs hopens htail =>
          exact .below (gs ++ fs) f (by rw [hgs, hf, List.append_assoc]) hcarries
      | @drop g hdrop hc =>
          cases fs with
          | cons g' fs => exact .below fs f (List.cons.inj (hdrop.symm.trans hf)).2 hcarries
          | nil =>
              have hrest := (List.cons.inj (hdrop.symm.trans hf)).2
              exact .atop hrest (carries_of_drop hf hcarries hrest h hc)
  | atop hf hc =>
      rw [reshapes_atop (congrArg List.length hf)]
      cases hcontrol : t.control with
      | run p s =>
          rw [hcontrol] at hc
          obtain rfl : s.locals = l := hc
          rcases run_carries hcontrol (step_run hcontrol h) with
            ⟨hsame, hcarries⟩ | ⟨fs, f, hfs, -, -, hcarries⟩
          · exact .atop (hsame.trans hf) hcarries
          · exact .below fs f (hfs.trans (by rw [hf])) hcarries
      | give v left => exact .returned hf hcontrol h hover
      | unwind e =>
          -- the frame of the attempt is not there any more
          rw [unwind_frames hf (step_unwind hcontrol h)] at hover
          exact (Nat.lt_irrefl _ hover).elim
      | report r hooks policy =>
          cases step_report hcontrol h with
          | hook => exact .below [] _ (congrArg _ hf) trivial
          | abort | unwind => exact .atop hf trivial
      | ended =>
          unfold Turn.step at h
          rw [hcontrol] at h
          cases h
      | _ => rw [hcontrol] at hc; exact hc.elim

end Turn

end TypeRecords
