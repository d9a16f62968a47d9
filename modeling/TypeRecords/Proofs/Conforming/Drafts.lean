/-
An attempt works on its own draft.

The callback of an attempt is a program like any other: it makes requests, arms
handlers, and in one of its requests a further attempt may begin above its own
frame. What it may change is the draft among its locals. The locals go with it
into every frame in which it waits, and come back from there, so what reaches the
frame of an attempt in the end is a draft of this very attempt: of the protocol of
its conformance, with a slot for each requirement. `Turn.Drafted` says so of a
thread, and every step keeps it (`Drafted.step`).

It is enough to look at what stands directly above the frame of an attempt: the
callback, a frame in which it waits, or the report of a fault, which unwinds in
the end. Nothing else is put there, because a program that asks for anything puts
its own frame there first (`run_works`).
-/
import Mathlib.Data.List.ReduceOption
import TypeRecords.Proofs.Conforming.Locals
import TypeRecords.Proofs.Fields.Stepping

namespace TypeRecords

variable {σ : Type}

-- ====================================================== drafts

namespace Draft

variable {d : Draft} {p : Protocol}

/-- If no requirement is left out, no slot is empty. -/
theorem slots_isSome (hlength : d.slots.length = p.requirements.length)
    (hfull : d.firstEmpty? p = none) : ∀ slot ∈ d.slots, slot.isSome = true := by
  have hfind : (d.slots.zip p.requirements).find? (·.1.isNone) = none :=
    Option.map_eq_none_iff.mp hfull
  intro slot hm
  rw [← List.map_fst_zip (Nat.le_of_eq hlength)] at hm
  obtain ⟨x, hx, rfl⟩ := List.mem_map.mp hm
  have hx := List.find?_eq_none.mp hfind x hx
  rwa [Bool.not_eq_true, Option.isNone_eq_false_iff] at hx

/-- And there is a witness for each. -/
theorem witnesses_length (hlength : d.slots.length = p.requirements.length)
    (hfull : d.firstEmpty? p = none) : d.witnesses.length = p.requirements.length :=
  (List.reduceOption_length_eq_iff.mpr (slots_isSome hlength hfull)).trans hlength

end Draft

/-- It is a draft of a table of the conformance. -/
def Library.Drafts (lib : Library σ) (c : ConformanceId) (d : Draft) : Prop :=
  ∃ conformance p, lib.conformances[c]? = some conformance
    ∧ lib.protocols[conformance.recipe.protocol]? = some p
    ∧ d.protocol = conformance.recipe.protocol ∧ d.slots.length = p.requirements.length

/-- Among the locals there is such a draft. -/
def Local.Drafts (lib : Library σ) (c : ConformanceId) : Local → Prop
  | .draft d => lib.Drafts c d
  | _ => False

variable {lib : Library σ} {c : ConformanceId}

theorem Library.drafts_start {conformance : Conformance σ} {p : Protocol}
    (hconf : lib.conformances[c]? = some conformance)
    (hprot : lib.protocols[conformance.recipe.protocol]? = some p) :
    lib.Drafts c (Draft.start conformance.recipe p) :=
  ⟨conformance, p, hconf, hprot, rfl, List.length_mapIdx⟩

theorem Library.Drafts.set {d : Draft} (h : lib.Drafts c d) (index : Nat) (w : Witness) :
    lib.Drafts c (d.set index w).1 := by
  obtain ⟨conformance, p, hconf, hprot, hprotocol, hlength⟩ := h
  exact ⟨conformance, p, hconf, hprot, hprotocol, List.length_set.trans hlength⟩

/-- A program does not turn a draft into anything else. -/
theorem Local.Drafts.reshapes {α : Type} {l : Local} (h : l.Drafts lib c) (p : Program σ α) :
    (p.reshapes l).Drafts lib c := by
  cases l with
  | nothing | scratch words => exact h.elim
  | draft d =>
      cases p with
      | fill index w k => exact Library.Drafts.set h index w
      | _ => exact h

-- ====================================================== directly above an attempt

/-- What the control may be directly above the frame of an attempt. -/
def Control.Works (lib : Library σ) (c : ConformanceId) : Control σ → Prop
  | .run _ s => s.locals.Drafts lib c
  | .give _ left => left.Drafts lib c
  | .unwind _ => True
  | .report .. => True
  | .ended => True
  | _ => False

/-- What a frame may be there. -/
def Frame.Works (lib : Library σ) (c : ConformanceId) : Frame σ → Prop
  | .forResponse _ s => s.locals.Drafts lib c
  | .forLayout _ s => s.locals.Drafts lib c
  | .forTable _ s => s.locals.Drafts lib c
  | .forRecord _ s => s.locals.Drafts lib c
  | .reporting .. => True
  | _ => False

theorem Control.Carries.works {control : Control σ} {l : Local} (h : control.Carries l)
    (hl : l.Drafts lib c) : control.Works lib c := by
  cases control with
  | run p s | give v left =>
      obtain rfl := h
      exact hl
  | unwind f => trivial
  | report r hooks policy => trivial
  | ended => trivial
  | _ => exact h.elim

theorem Frame.Carries.works {f : Frame σ} {l : Local} (h : f.Carries l) (hl : l.Drafts lib c) :
    f.Works lib c := by
  cases f with
  | forResponse k s | forLayout k s | forTable k s | forRecord k s =>
      obtain rfl := h
      exact hl
  | reporting r hooks policy => trivial
  | _ => exact h.elim

/-- A program that waits there waits with a draft. -/
theorem Frame.Works.drafts {f : Frame σ} {s : Setting σ} (h : f.Works lib c)
    (hs : f.setting? = some s) : s.locals.Drafts lib c := by
  cases f with
  | forResponse k s' | forLayout k s' | forTable k s' | forRecord k s' =>
      cases hs
      exact h
  | _ => cases hs

/-- The frame of an attempt is on top. -/
def Attempting (c : ConformanceId) (fs : List (Frame σ)) : Prop :=
  ∃ j rest, fs = .filling j :: rest ∧ j.conformance = c

theorem not_attempting {f : Frame σ} {fs : List (Frame σ)} (h : f.attempt? = none) :
    ¬ Attempting c (f :: fs) := by
  rintro ⟨j, rest, heq, -⟩
  rw [(List.cons.inj heq).1] at h
  cases h

/-- A frame may be where it is. -/
def Frame.WorksOn (lib : Library σ) (f : Frame σ) (below : List (Frame σ)) : Prop :=
  ∀ c, Attempting c below → f.Works lib c

namespace Turn

/-- What stands directly above the frame of an attempt may be there. -/
structure Drafted (lib : Library σ) (t : Turn σ) : Prop where
  control : ∀ c, Attempting c t.frames → t.control.Works lib c
  frames : Layered (Frame.WorksOn lib) t.frames

variable {a : Actor} {t t' : Turn σ}

-- ====================================================== programs

theorem handle_works {s : Setting σ} (hs : s.locals.Drafts lib c) (f : Failure) :
    (t.handle f s).control.Works lib c := by
  unfold handle
  split
  · trivial
  · exact hs

/-- A program keeps its draft, or waits with it in a frame of its own. Above this
one there may be another, but not that of an attempt. -/
theorem run_works {p : Program σ Value} {s : Setting σ} (hc : t.control = .run p s)
    (h : Ran lib t a s p t') :
    (t'.frames = t.frames ∧ ∀ c, s.locals.Drafts lib c → t'.control.Works lib c)
      ∨ ∃ fs f, t'.frames = fs ++ f :: t.frames ∧ (∀ g ∈ fs, g.attempt? = none)
        ∧ f.attempt? = none ∧ ∀ c, s.locals.Drafts lib c → f.Works lib c := by
  rcases run_carries hc h with ⟨hf, hcarries⟩ | ⟨fs, f, hf, hfs, hnone, hcarries⟩
  · exact .inl ⟨hf, fun c hs => hcarries.works (hs.reshapes p)⟩
  · exact .inr ⟨fs, f, hf, hfs, hnone, fun c hs => hcarries.works (hs.reshapes p)⟩

-- ====================================================== every step

/-- Frames that are not those of attempts stand on each other, and the lowest of
them on what was there. -/
theorem layered_works {fs : List (Frame σ)} {f : Frame σ} {below : List (Frame σ)}
    (hbelow : Layered (Frame.WorksOn lib) below) (hfs : ∀ g ∈ fs, g.attempt? = none)
    (hnone : f.attempt? = none) (hworks : f.WorksOn lib below) :
    Layered (Frame.WorksOn lib) (fs ++ f :: below) := by
  induction fs with
  | nil => exact ⟨hworks, hbelow⟩
  | cons g fs ih =>
      refine ⟨fun c hon => ?_, ih fun g hg => hfs g (List.mem_cons_of_mem _ hg)⟩
      cases fs with
      | nil => exact (not_attempting hnone hon).elim
      | cons g' fs =>
          exact (not_attempting (hfs g' (List.mem_cons_of_mem _ List.mem_cons_self)) hon).elim

/-- A step that leaves the stack as it is. -/
theorem Drafted.same (hd : t.Drafted lib) (hf : t'.frames = t.frames)
    (hc : ∀ c, Attempting c t.frames → t'.control.Works lib c) : t'.Drafted lib :=
  ⟨hf ▸ hc, hf ▸ hd.frames⟩

/-- Nothing stands on an empty stack. -/
theorem Drafted.start (hf : t.frames = []) : t.Drafted lib := by
  refine ⟨fun c ⟨j, rest, hon, _⟩ => ?_, hf ▸ trivial⟩
  rw [hf] at hon
  cases hon

/-- A step that takes the topmost frame off. -/
theorem Drafted.drop {f : Frame σ} {rest : List (Frame σ)} (hd : t.Drafted lib)
    (hf : t.frames = f :: rest) (hf' : t'.frames = rest)
    (hc : ∀ c, f.Works lib c → t'.control.Works lib c) : t'.Drafted lib := by
  have hlayers := hd.frames
  rw [hf] at hlayers
  exact ⟨fun c hon => hc c (hlayers.1 c (hf' ▸ hon)), hf' ▸ hlayers.2⟩

/-- A step that puts frames on the stack. -/
theorem Drafted.opened {f : Frame σ} (hd : t.Drafted lib) (fs : List (Frame σ))
    (hf : t'.frames = fs ++ f :: t.frames) (hfs : ∀ g ∈ fs, g.attempt? = none)
    (hnone : f.attempt? = none) (hworks : f.WorksOn lib t.frames) : t'.Drafted lib := by
  refine ⟨fun c hon => ?_, hf ▸ layered_works hd.frames hfs hnone hworks⟩
  rw [hf] at hon
  cases fs with
  | nil => exact (not_attempting hnone hon).elim
  | cons g fs => exact (not_attempting (hfs g List.mem_cons_self) hon).elim

/-- What reaches the topmost frame. -/
theorem Drafted.give {v : Value} {left : Local} (hd : t.Drafted lib)
    (h : Given lib t a v left t') : t'.Drafted lib := by
  cases h with
  | ended => exact hd.same rfl fun _ _ => trivial
  | response hf | layout hf | table hf | record hf | reported hf =>
      exact hd.drop hf rfl fun _ hworks => hworks
  | allocated hf | relied hf | released hf | founded hf => exact hd.drop hf rfl fun _ => False.elim
  | stepped hf => exact hd.drop hf (stepped_frames ..) fun _ => False.elim
  | laid hf => exact hd.drop hf (laid_frames ..) fun _ => False.elim
  | measured hf => exact hd.drop hf (measured_frames ..) fun _ => False.elim
  | filled hf h =>
      cases h with
      | lack =>
          -- the frame is still there when the fault is reported
          exact hd.same hf.symm fun _ _ => trivial
      | table => exact hd.drop hf rfl fun _ => False.elim

theorem Drafted.unwind {e : Failure} (hd : t.Drafted lib) (h : Unwound t e t') :
    t'.Drafted lib := by
  cases h with
  | ended => exact hd.same rfl fun _ _ => trivial
  | handle hf hs =>
      exact hd.drop hf (handle_frames ..) fun _ hworks => handle_works (hworks.drafts hs) e
  | abandon hf | drop hf => exact hd.drop hf rfl fun _ _ => trivial

theorem Drafted.report {r : Report} {hooks : List HookId} {policy : FaultPolicy}
    (hd : t.Drafted lib) (h : Reported lib t r hooks policy t') : t'.Drafted lib := by
  cases h with
  | @hook _ rest =>
      exact hd.opened [] (f := .reporting r rest policy) rfl (fun _ hg => nomatch hg) rfl
        fun _ _ => trivial
  | abort | unwind => exact hd.same rfl fun _ _ => trivial

/-- A request that has come to its cell is not directly above an attempt. One that
begins there has a fresh draft. -/
theorem Drafted.acquire {j : TableJob} {arguments : List TableId} (hd : t.Drafted lib)
    (hc : t.control = .acquire j arguments) (h : Acquired lib t a j arguments t') :
    t'.Drafted lib := by
  have hnot : ∀ c, ¬ Attempting c t.frames := fun c hon => by
    have hworks := hd.control c hon
    rw [hc] at hworks
    exact hworks
  have hlayers : Layered (Frame.WorksOn lib) (.filling j :: t.frames) :=
    ⟨fun c hon => (hnot c hon).elim, hd.frames⟩
  cases h with
  | full => exact hd.same rfl fun c hon => (hnot c hon).elim
  | instantiate _ _ hconf hprot | copy _ _ hconf hprot =>
      refine ⟨fun c ⟨i, rest, heq, hi⟩ => ?_, hlayers⟩
      obtain rfl : j = i := Frame.filling.inj (List.cons.inj heq).1
      exact hi ▸ Library.drafts_start hconf hprot

/-- Every step keeps attempts at their own drafts. -/
theorem Drafted.step (hd : t.Drafted lib) (h : t.step lib a = some t') : t'.Drafted lib := by
  -- nothing but a program, its outcome, or a fault is directly above an attempt
  have hother : ∀ {control : Control σ}, t.control = control → (∀ c, ¬ control.Works lib c) →
      control.acquires = false → (∀ v left, control ≠ .give v left) → t'.Drafted lib := by
    rintro control rfl hworks hacquires hgive
    have hnot : ∀ c, ¬ Attempting c t.frames := fun c hon => hworks c (hd.control c hon)
    cases step_stacks h with
    | same hf => exact hd.same hf fun c hon => (hnot c hon).elim
    | drop hf hc =>
        rcases hc with ⟨v, left, hc⟩ | ⟨e, hc⟩
        · exact (hgive v left hc).elim
        · exact (hworks 0 (by rw [hc]; trivial)).elim
    | opened fs hf hopens htail =>
        rcases List.eq_nil_or_concat' fs with rfl | ⟨gs, f, rfl⟩
        · exact hd.same hf fun c hon => (hnot c hon).elim
        · have hnone : ∀ g ∈ gs ++ [f], g.attempt? = none := fun g hg =>
            (hopens g hg).attempt?_eq hacquires
          exact hd.opened _ (hf.trans (List.append_cons gs f t.frames).symm)
            (fun g hg => hnone g (List.mem_append_left _ hg))
            (hnone f (List.mem_append_right _ List.mem_cons_self)) fun c hon => (hnot c hon).elim
  cases step_cases h with
  | @run p s _ hc h =>
      have hs : ∀ c, Attempting c t.frames → s.locals.Drafts lib c := fun c hon => by
        have hworks := hd.control c hon
        rwa [hc] at hworks
      rcases run_works hc h with ⟨hf, hworks⟩ | ⟨fs, f, hf, hfs, hnone, hworks⟩
      · exact hd.same hf fun c hon => hworks c (hs c hon)
      · exact hd.opened fs hf hfs hnone fun c hon => hworks c (hs c hon)
  | give hc h => exact hd.give h
  | unwind hc h => exact hd.unwind h
  | report hc h => exact hd.report h
  | acquire hc h => exact hd.acquire hc h
  | _ hc => exact hother hc (fun _ => id) rfl nofun

end Turn

-- ====================================================== runs

/-- In every run attempts are at their own drafts. -/
theorem Machine.Reachable.drafted {start m : Machine σ} (hf : start.Fresh)
    (h : Reachable lib start m) {u : ThreadId} {thread : Thread σ}
    (hu : m.threads[u]? = some thread) : (m.turn thread).Drafted lib := by
  induction h generalizing u thread with
  | refl => exact .start (hf.running thread (Array.mem_of_getElem? hu)).1
  | @step m _ t h hs ih =>
      refine step_threads (P := Turn.Drafted lib) hs (fun ht hturn _ => (ih ht).step hturn)
        (fun {caller p _ s} ht hc hp _ => ?_) (fun ht => (ih ht).same rfl (ih ht).control)
        (fun hframes _ => .start hframes) hu
      -- a program that goes on does so with its locals
      have hrun : (m.turn caller).control = .run p s := hc
      refine (ih ht).same rfl fun c hon => ?_
      have hworks := (ih ht).control c hon
      rwa [hrun] at hworks

end TypeRecords
