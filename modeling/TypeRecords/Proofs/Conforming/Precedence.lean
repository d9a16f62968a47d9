/-
One rule for the witnesses of a type.

A table that a call comes back with is the pattern of its conformance, or was built by
an attempt, perhaps of another thread. In both cases its witnesses are those of one
rule, `Recipe.Settles`, which takes into account what the callback of the attempt has
written. To say what that is, a run is searched for it: an attempt begins in some step
(`Chronicle.Attempts`), and the writes of its callback are those that its thread makes
from then on directly above the frame of the attempt (`Chronicle.writes`).

- Until it is over, the callback of an attempt works on a draft that holds what the
  rule says of the writes so far (`Attempts.works`), and when it has returned nothing
  is written any more (`Attempts.writes_eq`).
- Every frame of an attempt has been put on its stack by such a beginning
  (`attempts_of_frame`), so the draft that a table is made of is one of these
  (`Succeeds.completes`).
- A call for a conformance that needs no tables of its own takes a single step, which
  does nothing but count it (`Provides.pattern`).
-/
import TypeRecords.Proofs.Conforming.Rule
import TypeRecords.Proofs.Conforming.Tables

namespace TypeRecords

variable {σ : Type} {lib : Library σ}

/-- What a request is for that has come to its cell. -/
def Control.job? : Control σ → Option TableJob
  | .acquire j _ => some j
  | _ => none

theorem Control.acquire_of_job {control : Control σ} {j : TableJob} (h : control.job? = some j) :
    ∃ arguments, control = .acquire j arguments := by
  unfold job? at h
  split at h <;> cases h
  exact ⟨_, rfl⟩

-- ====================================================== one thread

namespace Turn

variable {a : Actor} {t t' : Turn σ} {j : TableJob} {base : List (Frame σ)} {l : Local}

/-- An attempt begins with a draft on which the rule has the only say. -/
theorem opening_carries (c : Conformance σ) (p : Protocol) (j : TableJob)
    (arguments : List TableId) :
    (c.opening p j arguments).Carries (.draft (Draft.start c.recipe p)) := by
  unfold Conformance.opening
  split <;> rfl

/-- Directly above the frame of an attempt there is the control. -/
theorem Working.atop_of_length (h : t.Working j base l)
    (hlength : t.frames.length = base.length + 1) :
    t.frames = .filling j :: base ∧ t.control.Carries l := by
  cases h with
  | atop hf hc => exact ⟨hf, hc⟩
  | below fs f hf =>
      rw [hf, List.length_append, List.length_cons, List.length_cons] at hlength
      omega

/-- The callback of an attempt has returned, or something has failed. -/
inductive Returned (t : Turn σ) (j : TableJob) (base : List (Frame σ)) : Prop
  | here {v : Value} {left : Local} (hf : t.frames = .filling j :: base)
      (hc : t.control = .give v left)
  /-- It does not matter what the locals were. -/
  | failed (h : ∀ l, t.Working j base l)

theorem Returned.congr (h : t.Returned j base) (hc : t'.control = t.control)
    (hf : t'.frames = t.frames) : t'.Returned j base := by
  cases h with
  | here hf' hc' => exact .here (hf.trans hf') (hc.trans hc')
  | failed h => exact .failed fun l => (h l).congr hc hf

theorem Returned.resumes {p p' : Program σ Value} {s : Setting σ} (h : t.Returned j base)
    (hc : t.control = .run p s) (hc' : t'.control = .run p' s) (hf : t'.frames = t.frames) :
    t'.Returned j base := by
  cases h with
  | here hf' hgive => cases hc.symm.trans hgive
  | failed h => exact .failed fun l => (h l).resumes hc hc' hf

/-- No program runs any more directly above the frame. -/
theorem Returned.not_runs (h : t.Returned j base) (hlength : t.frames.length = base.length + 1)
    (p : Program σ Value) (s : Setting σ) : t.control ≠ .run p s := by
  intro hrun
  cases h with
  | here hf hc => cases hc.symm.trans hrun
  | failed h =>
      have hnothing := ((h .nothing).atop_of_length hlength).2
      have hscratch := ((h (.scratch default)).atop_of_length hlength).2
      rw [hrun] at hnothing hscratch
      cases Eq.trans (Eq.symm hnothing) hscratch

/-- If the attempt is not over by the next step, it fails. -/
theorem Returned.step (h : t.Returned j base) (hs : t.step lib a = some t')
    (hover : base.length < t'.frames.length) : t'.Returned j base := by
  refine .failed fun l => ?_
  cases hreturned : id h with
  | here hf hc => exact .returned hf hc hs hover
  | failed hworks =>
      have hkept : t.reshapes base l = l := by
        by_cases hlength : t.frames.length = base.length + 1
        · rw [reshapes_atop hlength]
          cases hc : t.control with
          | run p s => exact (h.not_runs hlength p s hc).elim
          | _ => rfl
        · exact reshapes_below hlength
      exact hkept ▸ (hworks l).step hs hover

/-- The frame of an attempt that is there after a step was there before, or the step
has begun the attempt. -/
theorem filling_before {above : List (Frame σ)} (hs : t.step lib a = some t')
    (hf : t'.frames = above ++ .filling j :: base) :
    (∃ above', t.frames = above' ++ .filling j :: base)
      ∨ (∃ arguments, t.control = .acquire j arguments) ∧ t.frames = base := by
  refine (frame_before hs hf).imp_right fun ⟨hopens, hbase⟩ => ?_
  cases hopens with
  | call hc hcall => cases hcall
  | filling hc =>
      refine ⟨⟨_, hc⟩, hbase.resolve_left ?_⟩
      rintro ⟨p, s, hrun⟩
      rw [hrun] at hc
      cases hc

end Turn

namespace Machine

variable {start : Machine σ}

/-- The pattern of each conformance is a table that is there. -/
def Patterned (m : Machine σ) (lib : Library σ) : Prop :=
  ∀ {c : Conformance σ}, c ∈ lib.conformances →
    ∃ table, m.store.tables[c.recipe.pattern]? = some table
      ∧ table.witnesses = c.recipe.prefilled

namespace Chronicle

variable {r : Chronicle lib start} {i j k b e depth : Nat} {u : ThreadId} {thread : Thread σ}
  {job : TableJob} {key : TableKey} {v : Value} {t : TableId}

-- ====================================================== vocabulary

/-- What thread `u` writes in step `k` into a draft, if it does so with so many frames
on its stack. -/
def write? (r : Chronicle lib start) (u : ThreadId) (frames k : Nat) : Option (Nat × Witness) :=
  if r.mover k = u then
    ((r.state k).threads[u]?).bind fun thread =>
      if thread.frames.length = frames then thread.control.writes? else none
  else none

/-- What the callback of the attempt that begins in step `b`, on so many frames, has
written by state `k`. -/
def writes (r : Chronicle lib start) (b k depth : Nat) : List (Nat × Witness) :=
  (List.range' b (k - b)).filterMap (r.write? (r.mover b) (depth + 1))

/-- A thread that is at a cell begins an attempt in step `b`, on so many frames, and
in state `k` this is still under way. -/
structure Attempts (r : Chronicle lib start) (b k : Nat) (job : TableJob) (depth : Nat) :
    Prop where
  earlier : b < k
  within : k ≤ r.length
  acquires : ∃ thread arguments, (r.state b).threads[r.mover b]? = some thread
    ∧ thread.control = .acquire job arguments ∧ thread.frames.length = depth
  stays : ∀ l, b < l → l ≤ k → (r.state l).Over (r.mover b) depth

/-- In step `e` it comes to a table. -/
structure Completes (r : Chronicle lib start) (b e : Nat) (job : TableJob) (depth : Nat)
    (t : TableId) : Prop where
  attempts : r.Attempts b e job depth
  mover : r.mover e = r.mover b
  succeeds : r.Succeeds e job t
  ends : ¬ (r.state (e + 1)).Over (r.mover b) depth

-- ====================================================== writes

theorem writes_self (r : Chronicle lib start) (b depth : Nat) : r.writes b b depth = [] := by
  unfold writes
  rw [Nat.sub_self]
  rfl

/-- Step by step. -/
theorem writes_succ (hbk : b ≤ k) : r.writes b (k + 1) depth
    = r.writes b k depth ++ (r.write? (r.mover b) (depth + 1) k).toList := by
  have hlast : b + (k - b) = k := Nat.add_sub_cancel' hbk
  unfold writes
  rw [Nat.succ_sub hbk, List.range'_1_concat, hlast, List.filterMap_append]
  congr 1

theorem write?_other (h : r.mover k ≠ u) (frames : Nat) : r.write? u frames k = none := if_neg h

theorem write?_eq {frames : Nat} (hu : r.mover k = u)
    (ht : (r.state k).threads[u]? = some thread) :
    r.write? u frames k
      = if thread.frames.length = frames then thread.control.writes? else none := by
  unfold write?
  rw [if_pos hu, ht]
  rfl

-- ====================================================== attempts

/-- What an attempt begins with. -/
theorem Attempts.begins (h : r.Attempts b k job depth) :
    ∃ c p base arguments thread, lib.conformances[job.conformance]? = some c
      ∧ lib.protocols[c.recipe.protocol]? = some p ∧ base.length = depth
      ∧ (r.state (b + 1)).threads[r.mover b]? = some thread
      ∧ thread.frames = .filling job :: base ∧ thread.control = c.opening p job arguments := by
  obtain ⟨caller, arguments, hcaller, hc, hlength⟩ := h.acquires
  obtain ⟨mover, thread, hmover, hthread, hbuilds⟩ :=
    step_builds (r.step b (Nat.lt_of_lt_of_le h.earlier h.within))
  obtain rfl := Option.some.inj (hcaller.symm.trans hmover)
  have hcontrol : ((r.state b).turn caller).control = .acquire job arguments := hc
  cases hbuilds with
  | aside hseeks => rw [hcontrol] at hseeks; cases hseeks
  | taken hc' hcell hfull ht' =>
      have hover := h.stays (b + 1) (Nat.lt_succ_self b) h.earlier thread hthread
      have hframes : thread.frames = caller.frames := congrArg Turn.frames ht'
      rw [hframes, hlength] at hover
      exact (Nat.lt_irrefl _ hover).elim
  | begun hc' hcell hempty hconf hprot hcells htables hf hopening =>
      cases hcontrol.symm.trans hc'
      exact ⟨_, _, caller.frames, _, thread, hconf, hprot, hlength, hthread, hf, hopening⟩
  | asked hc' | succeeded hc' | failed hc' => cases hcontrol.symm.trans hc'

/-- It is shorter up to an earlier state. -/
theorem Attempts.until (h : r.Attempts b k job depth) {l : Nat} (hbl : b < l) (hlk : l ≤ k) :
    r.Attempts b l job depth :=
  ⟨hbl, Nat.le_trans hlk h.within, h.acquires, fun i hi hil => h.stays i hi (Nat.le_trans hil hlk)⟩

/-- The callback of an attempt works on a draft that holds what the rule says of its
writes. -/
theorem Attempts.works (h : r.Attempts b k job depth) :
    ∃ c p base d thread, lib.conformances[job.conformance]? = some c
      ∧ lib.protocols[c.recipe.protocol]? = some p ∧ base.length = depth
      ∧ (r.state k).threads[r.mover b]? = some thread
      ∧ ((r.state k).turn thread).Working job base (.draft d)
      ∧ d.Follows c.recipe p (r.writes b k depth) := by
  obtain ⟨c, p, base, arguments, first, hconf, hprot, rfl, hfirst, hfs, hopening⟩ := h.begins
  obtain ⟨caller, _, hcaller, hc, -⟩ := h.acquires
  suffices hrun : ∃ thread, (r.state k).threads[r.mover b]? = some thread
      ∧ ∃ d, ((r.state k).turn thread).Working job base (.draft d)
        ∧ d.Follows c.recipe p (r.writes b k base.length) by
    obtain ⟨thread, hthread, d, hworking, hfollows⟩ := hrun
    exact ⟨c, p, base, d, thread, hconf, hprot, rfl, hthread, hworking, hfollows⟩
  refine r.follows (P := fun k t => ∃ d, t.Working job base (.draft d)
      ∧ d.Follows c.recipe p (r.writes b k base.length)) h.earlier h.within ?_
    (fun {i caller caller'} hbi hik hu hcaller hcaller' ⟨d, hworking, hfollows⟩ hmove => ?_)
    fun {i caller} hbi hik hu ⟨d, hworking, hfollows⟩ => ?_
  · have hcarries := Turn.opening_carries c p job arguments
    rw [← hopening] at hcarries
    refine ⟨first, hfirst, Draft.start c.recipe p, .atop hfs hcarries, ?_⟩
    rw [writes_succ (Nat.le_refl b), writes_self, write?_eq rfl hcaller, hc]
    split <;> exact Draft.follows_start c.recipe p
  · rw [writes_succ (Nat.le_of_lt hbi), write?_eq hu hcaller]
    have hover := h.stays (i + 1) (Nat.lt_succ_of_lt hbi) hik caller' hcaller'
    rcases hmove with hturn | ⟨q, q', s, hc, hresumes, hc', hframes⟩
    · have hnext := hworking.step hturn hover
      split
      · rename_i hlength
        obtain ⟨d', hd', hfollows'⟩ := hfollows.reshapes caller.control
        rw [Turn.reshapes_atop hlength] at hnext
        exact ⟨d', hd' ▸ hnext, hfollows'⟩
      · rename_i hlength
        rw [Turn.reshapes_below hlength] at hnext
        exact ⟨d, hnext, (List.append_nil _).symm ▸ hfollows⟩
    · -- the thread goes on with a program that writes nothing
      have hnone : caller.control.writes? = none := by
        rw [hc]
        cases hresumes <;> rfl
      rw [hnone, ite_self]
      exact ⟨d, hworking.resumes hc hc' hframes, (List.append_nil _).symm ▸ hfollows⟩
  · rw [writes_succ (Nat.le_of_lt hbi), write?_other hu]
    exact ⟨d, hworking.congr rfl rfl, (List.append_nil _).symm ▸ hfollows⟩

/-- When the callback has returned, nothing is written any more. -/
theorem Attempts.writes_eq {left : Local} (h : r.Attempts b k job depth)
    (hthread : (r.state k).threads[r.mover b]? = some thread)
    (hlength : thread.frames.length = depth + 1) (hgive : thread.control = .give v left)
    (h' : r.Attempts b e job depth) (hke : k ≤ e) :
    r.writes b e depth = r.writes b k depth := by
  obtain ⟨c, p, base, d, caller, -, -, rfl, hcaller, hworking, -⟩ := h.works
  obtain rfl := Option.some.inj (hthread.symm.trans hcaller)
  have hhere : ((r.state k).turn thread).Returned job base :=
    .here (hworking.atop_of_length hlength).1 hgive
  -- the callback does not run in any of the states between
  have hall : ∀ l, k ≤ l → l ≤ e → ∃ caller, (r.state l).threads[r.mover b]? = some caller
      ∧ ((r.state l).turn caller).Returned job base := by
    intro l hkl hle
    induction hkl with
    | refl => exact ⟨thread, hthread, hhere⟩
    | @step l hkl ih =>
        obtain ⟨caller, hcaller, hreturned⟩ := ih (Nat.le_of_succ_le hle)
        have hbl := Nat.lt_of_lt_of_le h.earlier hkl
        have hstep := r.step l (Nat.lt_of_lt_of_le hle h'.within)
        by_cases hu : r.mover l = r.mover b
        · obtain ⟨mover, next, hmover, hnext, hmove⟩ := step_mover hstep
          rw [hu] at hmover hnext hmove
          obtain rfl := Option.some.inj (hcaller.symm.trans hmover)
          have hover := h'.stays (l + 1) (Nat.lt_succ_of_lt hbl) hle next hnext
          refine ⟨next, hnext, ?_⟩
          rcases hmove with hturn | ⟨q, q', s, hc, -, -, hc', hframes⟩
          · exact hreturned.step hturn hover
          · exact hreturned.resumes hc hc' hframes
        · exact ⟨caller, step_other hstep hu hcaller, hreturned.congr rfl rfl⟩
  induction hke with
  | refl => rfl
  | @step e hke ih =>
      have hbe := Nat.lt_of_lt_of_le h.earlier hke
      rw [writes_succ (Nat.le_of_lt hbe), ih (h'.until hbe (Nat.le_succ e))
        fun l hkl hle => hall l hkl (Nat.le_succ_of_le hle)]
      obtain ⟨caller, hcaller, hreturned⟩ := hall e hke (Nat.le_succ e)
      have hnone : r.write? (r.mover b) (base.length + 1) e = none := by
        by_cases hu : r.mover e = r.mover b
        · rw [write?_eq hu hcaller]
          split
          · rename_i hlength
            cases hc : caller.control with
            | run q s => exact (hreturned.not_runs hlength q s hc).elim
            | _ => rfl
          · rfl
        · exact write?_other hu _
      rw [hnone]
      exact List.append_nil _

/-- A frame of an attempt is on a stack because the attempt has begun there. -/
theorem attempts_of_frame (hf : start.Fresh) (hk : k ≤ r.length)
    (hthread : (r.state k).threads[u]? = some thread) {above base : List (Frame σ)}
    (hframes : thread.frames = above ++ .filling job :: base) :
    ∃ b, r.mover b = u ∧ r.Attempts b k job base.length := by
  induction k generalizing thread above with
  | zero =>
      rw [r.first] at hthread
      have hnil := (hf.running thread (Array.mem_of_getElem? hthread)).1
      rw [hnil] at hframes
      exact absurd hframes.symm (List.append_ne_nil_of_right_ne_nil _ (List.cons_ne_nil _ _))
  | succ k ih =>
      have hstep := r.step k hk
      have hover : (r.state (k + 1)).Over u base.length := fun x hx => by
        obtain rfl := Option.some.inj (hthread.symm.trans hx)
        rw [hframes, List.length_append, List.length_cons]
        omega
      -- an attempt that was under way still is
      have hgoes : ∀ {caller : Thread σ} {above' : List (Frame σ)},
          (r.state k).threads[u]? = some caller → caller.frames = above' ++ .filling job :: base →
          ∃ b, r.mover b = u ∧ r.Attempts b (k + 1) job base.length := by
        intro caller above' hcaller hframes'
        obtain ⟨b, rfl, h⟩ := ih (Nat.le_of_succ_le hk) hcaller hframes'
        refine ⟨b, rfl, Nat.lt_succ_of_lt h.earlier, hk, h.acquires, fun l hbl hl => ?_⟩
        rcases Nat.lt_or_eq_of_le hl with hlt | rfl
        · exact h.stays l hbl (Nat.le_of_lt_succ hlt)
        · exact hover
      by_cases hu : r.mover k = u
      · obtain ⟨caller, next, hcaller, hnext, hmove⟩ := step_mover hstep
        rw [hu] at hcaller hnext hmove
        obtain rfl := Option.some.inj (hthread.symm.trans hnext)
        rcases hmove with hturn | ⟨q, q', s, -, -, -, -, hsame⟩
        · rcases Turn.filling_before hturn hframes with ⟨above', hold⟩ | ⟨⟨arguments, hc⟩, rfl⟩
          · exact hgoes hcaller hold
          · refine ⟨k, hu, Nat.lt_succ_self k, hk, ⟨caller, arguments, hu ▸ hcaller, hc, rfl⟩,
              fun l hkl hl => ?_⟩
            obtain rfl := Nat.le_antisymm hl hkl
            exact hu ▸ hover
        · exact hgoes hcaller (hsame.symm.trans hframes)
      · rcases step_others hstep hu hthread with hold | ⟨hnil, -⟩
        · exact hgoes hold hframes
        · rw [hnil] at hframes
          exact absurd hframes.symm (List.append_ne_nil_of_right_ne_nil _ (List.cons_ne_nil _ _))

/-- What an attempt that succeeds makes its table of. -/
theorem Succeeds.hands (hf : start.Fresh) (hn : start.store.Unbuilt) (h : r.Succeeds e job t) :
    ∃ thread thread' v d p, (r.state e).threads[r.mover e]? = some thread
      ∧ (r.state (e + 1)).threads[r.mover e]? = some thread'
      ∧ thread.control = .give v (.draft d) ∧ thread.frames = .filling job :: thread'.frames
      ∧ lib.protocols[d.protocol]? = some p ∧ d.firstEmpty? p = none
      ∧ t = (r.state e).store.tables.size
      ∧ (r.state (e + 1)).store.tables = (r.state e).store.tables.push
        ⟨d.protocol, some job.conforming, d.witnesses, d.words⟩ := by
  obtain ⟨he, thread, thread', ht, ht', hjob, hgive⟩ := h
  obtain ⟨mover, moved, hmover, hmoved, hbuilds⟩ := step_builds (r.step e he)
  obtain rfl := Option.some.inj (ht.symm.trans hmover)
  obtain rfl := Option.some.inj (ht'.symm.trans hmoved)
  have hon := (hbuilds.stops ((r.tabled hf hn (Nat.le_of_lt he)).threads ht) hjob).1
  have hcontrol : ((r.state (e + 1)).turn thread').control = .give (.table t) .nothing := hgive
  have hattempts := congrArg List.length hjob
  cases hbuilds with
  | succeeded hc hfs hprot hfull hcells htables hc' =>
      obtain ⟨hsame, -⟩ := List.cons.inj (hon.symm.trans hfs)
      obtain rfl := Frame.filling.inj hsame
      cases hcontrol.symm.trans hc'
      exact ⟨thread, thread', _, _, _, ht, ht', hc, hfs, hprot, hfull, rfl, htables⟩
  | aside hc haside hf =>
      rw [hf, List.length_cons] at hattempts
      omega
  | asked hc hown ht' => rw [ht'] at hcontrol; cases hcontrol
  | taken hc hcell hfull ht' =>
      rw [ht', List.length_cons] at hattempts
      have hsame : ((r.state e).turn thread).attempts.length
        = ((r.state e).turn thread).attempts.length + 1 := hattempts
      omega
  | @begun j arguments cell c p hc hcell hempty hconf hprot hcells htables hf hc' =>
      rw [hc'] at hcontrol
      unfold Conformance.opening at hcontrol
      split at hcontrol <;> cases hcontrol
  | failed hc hf hcells htables hc' => cases hcontrol.symm.trans hc'

/-- An attempt that succeeds has begun in some step, and its table follows the rule. -/
theorem Succeeds.completes (hf : start.Fresh) (hn : start.store.Unbuilt)
    (h : r.Succeeds e job t) : ∃ b depth, r.Completes b e job depth t := by
  obtain ⟨thread, thread', v, d, p, ht, ht', -, hframes, -⟩ := h.hands hf hn
  obtain ⟨b, hb, hattempts⟩ := attempts_of_frame hf (Nat.le_of_lt h.1) ht
    (show thread.frames = [] ++ .filling job :: thread'.frames from hframes)
  refine ⟨b, thread'.frames.length, hattempts, hb.symm, h, fun hover => ?_⟩
  exact Nat.lt_irrefl _ (hover thread' (hb ▸ ht'))

theorem Completes.follows (hf : start.Fresh) (hn : start.store.Unbuilt)
    (h : r.Completes b e job depth t) :
    ∃ c p table, lib.conformances[job.conformance]? = some c
      ∧ lib.protocols[c.recipe.protocol]? = some p
      ∧ (r.state (e + 1)).store.tables[t]? = some table
      ∧ table.Follows c.recipe p (r.writes b e depth)
      ∧ (r.state e).store.tables.size ≤ t := by
  obtain ⟨thread, thread', v, d, p, ht, ht', hc, hframes, hprot, hfull, rfl, htables⟩ :=
    h.succeeds.hands hf hn
  obtain ⟨c, p', base, d', caller, hconf, hprot', rfl, hcaller, hworking, hfollows⟩ :=
    h.attempts.works
  rw [h.mover] at ht ht'
  obtain rfl := Option.some.inj (ht.symm.trans hcaller)
  -- the frame that is taken off is that of the attempt
  have hlength : ((r.state e).turn thread).frames.length = base.length + 1 := by
    refine Nat.le_antisymm (Nat.le_of_not_lt fun hlt => h.ends fun x hx => ?_)
      (h.attempts.stays e h.attempts.earlier (Nat.le_refl e) thread ht)
    obtain rfl := Option.some.inj (ht'.symm.trans hx)
    have hlonger := congrArg List.length hframes
    rw [List.length_cons] at hlonger
    have hthread : ((r.state e).turn thread).frames.length = thread.frames.length := rfl
    omega
  obtain ⟨-, hcarries⟩ := hworking.atop_of_length hlength
  rw [show ((r.state e).turn thread).control = .give v (.draft d) from hc] at hcarries
  obtain rfl : d = d' := Local.draft.inj hcarries
  rw [hfollows.protocol] at hprot
  obtain rfl := Option.some.inj (hprot.symm.trans hprot')
  refine ⟨c, p, ⟨d.protocol, some job.conforming, d.witnesses, d.words⟩, hconf, hprot, ?_,
    hfollows.table hfull rfl, Nat.le_refl _⟩
  rw [htables]
  exact Array.getElem?_push_size

-- ====================================================== the pattern

/-- A call for a conformance that needs no tables of its own comes back with the
pattern. Its thread takes one step for it, which is counted, and changes nothing
else. -/
theorem Provides.pattern (h : r.Provides i j key v) (hown : lib.isOwn key.conformance = false) :
    ∃ c, lib.conformances[key.conformance]? = some c ∧ lib.isTrivial c = true
      ∧ v = .table c.recipe.pattern
      ∧ (r.state (i + 1)).store = (r.state i).store.note key.registry
        (fun l => { l with patterns := l.patterns + 1 })
      ∧ ∀ l, i < l → l < j → r.mover l ≠ r.mover i := by
  obtain @⟨thread, thread', left, hij, hj, ht, hask, hover, ht', hlength, hgive⟩ := h
  obtain ⟨arguments, k, s, hc⟩ := Control.table_of_tabling hask
  obtain ⟨caller, next, hcaller, hnext, hmove⟩ := step_mover (r.step i (Nat.lt_of_lt_of_le hij hj))
  obtain rfl := Option.some.inj (ht.symm.trans hcaller)
  -- the one step
  obtain ⟨c, hconf, htrivial, hturn⟩ : ∃ c, lib.conformances[key.conformance]? = some c
      ∧ lib.isTrivial c = true
      ∧ (r.state (i + 1)).turn next = { (r.state i).turn thread with
        store := (r.state i).store.note key.registry fun l => { l with patterns := l.patterns + 1 }
        control := .give (.table c.recipe.pattern) .nothing
        frames := .forTable k s :: thread.frames } := by
    rcases hmove with hturn | ⟨q, q', s', hc', hresumes, -⟩
    · unfold Turn.step at hturn
      rw [show ((r.state i).turn thread).control = _ from hc] at hturn
      simp only [Turn.run, Turn.requestTable] at hturn
      split at hturn
      · cases hturn
      · rename_i c hconf
        have htrivial : lib.isTrivial c = true := by
          rw [Library.isOwn_eq hconf, Bool.not_eq_false'] at hown
          exact hown
        rw [if_pos htrivial] at hturn
        exact ⟨c, hconf, htrivial, (Option.some.inj hturn).symm⟩
    · cases hc.symm.trans hc'
      cases hresumes
  -- whoever takes the answer takes the frame off that waits for it
  have hwaits : ∀ {l : Nat} {caller : Thread σ}, i < l → l < j →
      (r.state l).threads[r.mover i]? = some caller →
      caller.control = .give (.table c.recipe.pattern) .nothing →
      caller.frames = .forTable k s :: thread.frames → r.mover l ≠ r.mover i := by
    intro l caller hil hlj hcaller hcontrol hframes hu
    obtain ⟨mover, next, hmover, hnext, hmove⟩ := step_mover (r.step l (Nat.lt_of_lt_of_le hlj hj))
    rw [hu] at hmover hnext hmove
    obtain rfl := Option.some.inj (hcaller.symm.trans hmover)
    rcases hmove with hturn | ⟨q, q', s', hc', -⟩
    · have hdropped := Turn.call_dropped hframes rfl (.inl ⟨_, _, hcontrol⟩) hturn
      have hdeep := hover (l + 1) (Nat.lt_succ_of_lt hil) hlj next hnext
      rw [show next.frames = thread.frames from hdropped] at hdeep
      exact (Nat.lt_irrefl _ hdeep).elim
    · cases hcontrol.symm.trans hc'
  have hthere : ∀ l, i < l → l ≤ j → ∃ caller, (r.state l).threads[r.mover i]? = some caller
      ∧ caller.control = .give (.table c.recipe.pattern) .nothing
      ∧ caller.frames = .forTable k s :: thread.frames := by
    intro l hil hlj
    refine r.follows (P := fun _ t => t.control = .give (.table c.recipe.pattern) .nothing
      ∧ t.frames = .forTable k s :: thread.frames) hil (Nat.le_trans hlj hj)
      ⟨next, hnext, congrArg Turn.control hturn, congrArg Turn.frames hturn⟩
      (fun hil hl hu hcaller _ hP _ => ?_) fun _ _ _ hP => hP
    exact (hwaits hil (Nat.lt_of_lt_of_le hl hlj) hcaller hP.1 hP.2 hu).elim
  refine ⟨c, hconf, htrivial, ?_, congrArg Turn.store hturn, fun l hil hlj hu => ?_⟩
  · obtain ⟨caller, hcaller, hcontrol, -⟩ := hthere j hij (Nat.le_refl j)
    obtain rfl := Option.some.inj (ht'.symm.trans hcaller)
    cases hgive.symm.trans hcontrol
    rfl
  · obtain ⟨caller, hcaller, hcontrol, hframes⟩ := hthere l hil (Nat.le_of_lt hlj)
    exact hwaits hil hlj hcaller hcontrol hframes hu

-- ====================================================== the callback

/-- Without a callback nothing is written. -/
theorem Attempts.writes_nil (h : r.Attempts b k job depth) {c : Conformance σ}
    (hconf : lib.conformances[job.conformance]? = some c) (hnone : c.instantiator = none) :
    r.writes b k depth = [] := by
  obtain ⟨c', p, base, arguments, thread, hconf', -, rfl, hthread, hframes, hopening⟩ := h.begins
  obtain rfl := Option.some.inj (hconf.symm.trans hconf')
  obtain ⟨caller, _, hcaller, hc, -⟩ := h.acquires
  unfold Conformance.opening at hopening
  rw [hnone] at hopening
  have hfirst : r.writes b (b + 1) base.length = [] := by
    rw [writes_succ (Nat.le_refl b), writes_self, write?_eq rfl hcaller, hc]
    split <;> rfl
  rw [← hfirst]
  exact (h.until (Nat.lt_succ_self b) h.earlier).writes_eq hthread
    (by rw [hframes, List.length_cons]) hopening h h.earlier

/-- The locals of the callback of an attempt, when it is directly above the frame. -/
theorem Attempts.draft (h : r.Attempts b k job depth)
    (hthread : (r.state k).threads[r.mover b]? = some thread)
    (hlength : thread.frames.length = depth + 1) {c : Conformance σ} {p : Protocol}
    (hconf : lib.conformances[job.conformance]? = some c)
    (hprot : lib.protocols[c.recipe.protocol]? = some p) :
    ∃ base d, thread.frames = .filling job :: base ∧ thread.control.Carries (.draft d)
      ∧ d.Follows c.recipe p (r.writes b k depth) := by
  obtain ⟨c', p', base, d, caller, hconf', hprot', rfl, hcaller, hworking, hfollows⟩ := h.works
  obtain rfl := Option.some.inj (hthread.symm.trans hcaller)
  obtain rfl := Option.some.inj (hconf.symm.trans hconf')
  obtain rfl := Option.some.inj (hprot.symm.trans hprot')
  obtain ⟨hframes, hcarries⟩ := hworking.atop_of_length hlength
  exact ⟨base, d, hframes, hcarries, hfollows⟩

/-- A callback has returned, and there is a requirement of which the rule has nothing to
say: the first of these is reported, and no table comes of the attempt. -/
theorem Attempts.leftOut (hf : start.Fresh) (hn : start.store.Unbuilt) {left : Local}
    (h : r.Attempts b k job depth) (hthread : (r.state k).threads[r.mover b]? = some thread)
    (hlength : thread.frames.length = depth + 1) (hgive : thread.control = .give v left)
    {c : Conformance σ} {p : Protocol} (hconf : lib.conformances[job.conformance]? = some c)
    (hprot : lib.protocols[c.recipe.protocol]? = some p)
    (hout : ∃ index requirement, p.requirements[index]? = some requirement
      ∧ ∀ w, ¬ c.recipe.Settles (r.writes b k depth) index requirement w) :
    (∃ index requirement, c.recipe.LeavesOut p (r.writes b k depth) index requirement
      ∧ ((r.state k).turn thread).step lib ⟨r.mover b, thread.name⟩
        = some (((r.state k).turn thread).raiseIn ⟨r.mover b, thread.name⟩ job.registry
          (.missingWitness p.name requirement.name
            ((r.state k).store.records.display job.conforming))))
      ∧ ∀ e t, ¬ r.Completes b e job depth t := by
  obtain ⟨base, d, hframes, hcarries, hfollows⟩ := h.draft hthread hlength hconf hprot
  rw [hgive] at hcarries
  obtain rfl : left = .draft d := hcarries
  obtain ⟨index, requirement, hthere, hunsettled⟩ := hout
  constructor
  · cases hempty : d.firstEmpty? p with
    | none =>
        have hrule : WitnessTable.Follows ⟨d.protocol, none, d.witnesses, d.words⟩ c.recipe p
            (r.writes b k depth) := hfollows.table hempty rfl
        obtain ⟨w, -, hw⟩ := hrule hthere
        exact (hunsettled w ((hw w).mpr rfl)).elim
    | some first =>
        obtain ⟨i, hfirst⟩ := hfollows.firstEmpty_some hempty
        refine ⟨i, first, hfirst, ?_⟩
        unfold Turn.step
        rw [show ((r.state k).turn thread).control = _ from hgive]
        unfold Turn.give
        simp only [turn, hframes, Turn.filled, hfollows.protocol, hprot, hempty]
  · intro e t hcompletes
    obtain ⟨c', p', table, hconf', hprot', -, hrule, -⟩ := hcompletes.follows hf hn
    obtain rfl := Option.some.inj (hconf.symm.trans hconf')
    obtain rfl := Option.some.inj (hprot.symm.trans hprot')
    -- the attempt is not over before the callback has returned
    have hke : k ≤ e := Nat.le_of_not_lt fun hlt => hcompletes.ends
      (h.stays (e + 1) (Nat.lt_succ_of_lt hcompletes.attempts.earlier) hlt)
    rw [h.writes_eq hthread hlength hgive hcompletes.attempts hke] at hrule
    obtain ⟨w, -, hw⟩ := hrule hthere
    exact hunsettled w ((hw w).mpr rfl)

/-- By name a callback writes to the first requirement of that name, if there is one. -/
theorem Attempts.names (h : r.Attempts b k job depth)
    (hthread : (r.state k).threads[r.mover b]? = some thread)
    (hlength : thread.frames.length = depth + 1) {name : String} {w : Witness}
    {next : Bool → Program σ Value} {s : Setting σ}
    (hc : thread.control = .run (.fillNamed (lib.protocols[·]?) name w next) s)
    {c : Conformance σ} {p : Protocol} (hconf : lib.conformances[job.conformance]? = some c)
    (hprot : lib.protocols[c.recipe.protocol]? = some p) :
    (∀ {index}, p.FirstNamed name index →
      ((r.state k).turn thread).step lib ⟨r.mover b, thread.name⟩
        = some (((r.state k).turn thread).goto (.run (.fill index w next) s)))
    ∧ ((∀ requirement ∈ p.requirements, requirement.name ≠ name) →
      ((r.state k).turn thread).step lib ⟨r.mover b, thread.name⟩
        = some (((r.state k).turn thread).goto (.run (next false) s))) := by
  obtain ⟨base, d, -, hcarries, hfollows⟩ := h.draft hthread hlength hconf hprot
  rw [hc] at hcarries
  have hlocals : s.locals = .draft d := hcarries
  unfold Turn.step
  rw [show ((r.state k).turn thread).control = _ from hc]
  simp only [Program.fillNamed, Turn.run, hlocals, hfollows.protocol, hprot, Option.bind_some]
  exact ⟨fun hnamed => by rw [hnamed.position?],
    fun hnone => by rw [Protocol.position?_none hnone]⟩

-- ====================================================== the result

/-- One precedence for the witnesses of all types. In every run of a process in which
nobody had asked for a witness table at the start and each conformance had the table of
its pattern, with any number of threads, registries and conformances:

- A call that comes back does so with a table that stays as it is. It is the pattern of
  the conformance only if this has no callback and the rule yields the entries of the
  pattern for all requirements; the thread then takes one step, which changes nothing
  but a count. Or it is a table that an attempt for the key has come to, and its
  witnesses are those of the rule, for what the callback has written in this attempt.
- If a callback has returned and left some requirement of which the rule has nothing to
  say, the next step of its thread reports the first of these requirements, and no
  table comes of the attempt.
- What a callback writes by name goes to the first requirement of that name. -/
theorem witness_precedence (hf : start.Fresh) (hn : start.store.Unbuilt)
    (hp : start.Patterned lib) (r : Chronicle lib start) :
    (∀ {i j key v}, r.Provides i j key v →
      ∃ c p t table, lib.conformances[key.conformance]? = some c
        ∧ lib.protocols[c.recipe.protocol]? = some p ∧ v = .table t
        ∧ (∀ l, j ≤ l → l ≤ r.length → (r.state l).store.tables[t]? = some table)
        ∧ ((t = c.recipe.pattern ∧ c.instantiator = none
            ∧ table.witnesses = c.recipe.prefilled ∧ table.Follows c.recipe p []
            ∧ (r.state (i + 1)).store = (r.state i).store.note key.registry
              (fun l => { l with patterns := l.patterns + 1 })
            ∧ ∀ l, i < l → l < j → r.mover l ≠ r.mover i)
          ∨ t ≠ c.recipe.pattern ∧ ∃ b e job depth, r.Completes b e job depth t ∧ e < j
            ∧ job.key = key ∧ table.Follows c.recipe p (r.writes b e depth)
            ∧ (c.instantiator = none → r.writes b e depth = [])))
    ∧ (∀ {b k job depth thread v left c p}, r.Attempts b k job depth →
      (r.state k).threads[r.mover b]? = some thread → thread.frames.length = depth + 1 →
      thread.control = .give v left → lib.conformances[job.conformance]? = some c →
      lib.protocols[c.recipe.protocol]? = some p →
      (∃ index requirement, p.requirements[index]? = some requirement
        ∧ ∀ w, ¬ c.recipe.Settles (r.writes b k depth) index requirement w) →
      (∃ index requirement, c.recipe.LeavesOut p (r.writes b k depth) index requirement
        ∧ ((r.state k).turn thread).step lib ⟨r.mover b, thread.name⟩
          = some (((r.state k).turn thread).raiseIn ⟨r.mover b, thread.name⟩ job.registry
            (.missingWitness p.name requirement.name
              ((r.state k).store.records.display job.conforming))))
        ∧ ∀ e t, ¬ r.Completes b e job depth t)
    ∧ ∀ {b k job depth thread name w next s c p}, r.Attempts b k job depth →
      (r.state k).threads[r.mover b]? = some thread → thread.frames.length = depth + 1 →
      thread.control = .run (.fillNamed (lib.protocols[·]?) name w next) s →
      lib.conformances[job.conformance]? = some c →
      lib.protocols[c.recipe.protocol]? = some p →
      (∀ {index}, p.FirstNamed name index →
        ((r.state k).turn thread).step lib ⟨r.mover b, thread.name⟩
          = some (((r.state k).turn thread).goto (.run (.fill index w next) s)))
      ∧ ((∀ requirement ∈ p.requirements, requirement.name ≠ name) →
        ((r.state k).turn thread).step lib ⟨r.mover b, thread.name⟩
          = some (((r.state k).turn thread).goto (.run (next false) s))) := by
  refine ⟨fun {i j key v} h => ?_, fun hattempts hthread hlength hgive hconf hprot hout =>
    hattempts.leftOut hf hn hthread hlength hgive hconf hprot hout,
    fun hattempts hthread hlength hc hconf hprot =>
      hattempts.names hthread hlength hc hconf hprot⟩
  -- what is there from the start stays there
  have hkept : ∀ {l t table}, l ≤ r.length → start.store.tables[t]? = some table →
      (r.state l).store.tables[t]? = some table := fun {l t table} hl ht => by
    refine (r.conserves hf hn (Nat.zero_le l) hl).tables ?_
    rw [r.first]
    exact ht
  cases hown : lib.isOwn key.conformance with
  | false =>
      obtain ⟨c, hconf, htrivial, rfl, hstore, hwaits⟩ := h.pattern hown
      obtain ⟨hnone, p, hprot, hplain⟩ := Library.isTrivial_eq_true.mp htrivial
      obtain ⟨table, ht, hwitnesses⟩ := hp (Array.mem_of_getElem? hconf)
      refine ⟨c, p, _, table, hconf, hprot, rfl, fun l _ hl => hkept hl ht,
        .inl ⟨rfl, hnone, hwitnesses, fun hr => ?_, hstore, hwaits⟩⟩
      rw [hwitnesses]
      exact Recipe.settles_plain hplain hr
  | true =>
      obtain ⟨e, job, t, he, hsucceeds, rfl, rfl⟩ := h.succeeds hf hn hown
      obtain ⟨b, depth, hcompletes⟩ := hsucceeds.completes hf hn
      obtain ⟨c, p, table, hconf, hprot, ht, hrule, hlt⟩ := hcompletes.follows hf hn
      obtain ⟨pattern, hpattern, -⟩ := hp (Array.mem_of_getElem? hconf)
      have hold := hkept (Nat.le_of_lt hsucceeds.1) hpattern
      refine ⟨c, p, t, table, hconf, hprot, rfl, fun l hjl hl =>
        (r.conserves hf hn (Nat.lt_of_lt_of_le he hjl) hl).tables ht, .inr ⟨?_, b, e, job, depth,
          hcompletes, he, rfl, hrule, hcompletes.attempts.writes_nil hconf⟩⟩
      exact fun heq => Nat.not_lt_of_le hlt (heq ▸ (Array.getElem?_eq_some_iff.mp hold).1)

-- ====================================================== by computation

/-- An attempt that can be computed, along the walk of the first thread. -/
theorem Attempts.of_walk {n : Nat} {h : ∀ k < n, ((start.walk lib k).step lib 0).isSome = true}
    (hbk : b < k) (hk : k ≤ n)
    (hcell : ((start.walk lib b).threads[0]?).map
        (fun thread => (thread.frames.length, thread.control.job?)) = some (depth, some job))
    (hover : ∀ l < k + 1, b < l → (start.walk lib l).Over 0 depth) :
    (Chronicle.walk lib start n h).Attempts b k job depth := by
  obtain ⟨thread, ht, hpair⟩ := Option.map_eq_some_iff.mp hcell
  obtain ⟨hlength, hjob⟩ := Prod.mk.inj hpair
  obtain ⟨arguments, hc⟩ := Control.acquire_of_job hjob
  exact ⟨hbk, hk, ⟨thread, arguments, ht, hc, hlength⟩,
    fun l hbl hlk => hover l (Nat.lt_succ_of_le hlk) hbl⟩

end Chronicle

end Machine

/-- Two requirements share a name. -/
def shape : Protocol :=
  ⟨"Shape", [⟨"name", .getter, none⟩, ⟨"area", .method, none⟩, ⟨"area", .method, some 9⟩,
    ⟨"scale", .method, some 8⟩, ⟨"unit", .associatedType, none⟩]⟩

/-- Two conformances with a short pattern and two witnesses registered for the same
requirement, one of them with a callback, and between them one with a long pattern. -/
def patchwork : Library Unit where
  descriptors := #[]
  protocols := #[shape]
  conformances := #[
    { recipe :=
        { protocol := 0, pattern := 0, prefilled := [.function 1]
          resilient := [⟨0, 3, 5⟩, ⟨0, 3, 6⟩], privateWords := 0 }
      instantiator := some fun _ _ _ =>
        .fillNamed (#[shape][·]?) "area" (.function 7) fun _ => .fill 0 (.function 2) fun _ =>
          .fill 0 (.function 3) fun _ => .fill 4 (.associatedType 5) fun _ => .done () },
    { recipe :=
        { protocol := 0, pattern := 1
          prefilled := [.function 1, .function 2, .function 3, .function 4, .associatedType 6,
            .function 0]
          resilient := [], privateWords := 0 }
      instantiator := none },
    { recipe :=
        { protocol := 0, pattern := 0, prefilled := [.function 1]
          resilient := [⟨0, 3, 5⟩, ⟨0, 3, 6⟩], privateWords := 0 }
      instantiator := none }]
  initializer _ := none
  hook _ _ := .done ()

/-- A thread that asks for a table by each of the three. -/
def collector : Machine Unit :=
  { Machine.launch .standard () (.table 0 0 5 [] fun _ => .table 0 1 5 [] fun _ =>
      .table 0 2 5 [] fun _ => .done ()) with
    store :=
      { registries := #[.new { faultPolicy := .unwind }]
        tables := #[⟨0, none, [.function 1], []⟩,
          ⟨0, none, [.function 1, .function 2, .function 3, .function 4, .associatedType 6,
            .function 0], []⟩] } }

theorem fresh_collector : collector.Fresh where
  entries := rfl
  fixed := (Machine.fresh_launch .standard () (.done ())).fixed
  running thread h := by
    obtain rfl := Array.mem_singleton.mp h
    exact ⟨rfl, _, _, rfl⟩

theorem patterned_collector : collector.Patterned patchwork := by
  intro c hc
  obtain ⟨i, hi⟩ := Array.mem_iff_getElem?.mp hc
  match i, hi with
  | 0, hi => cases hi; exact ⟨_, rfl, rfl⟩
  | 1, hi => cases hi; exact ⟨_, rfl, rfl⟩
  | 2, hi => cases hi; exact ⟨_, rfl, rfl⟩

namespace Machine.Chronicle

/-- The first table takes something from each source, the second is the pattern, and for
the third there is nothing at the first requirement called `area`, to which the callback
of the first writes. -/
theorem witness_precedence_patchwork :
    ∃ (start : Machine Unit) (r : Chronicle patchwork start), start.Fresh ∧ start.store.Unbuilt
      ∧ start.Patterned patchwork
      ∧ r.Provides 0 9 ⟨0, 0, 5⟩ (.table 2) ∧ r.Provides 10 11 ⟨0, 1, 5⟩ (.table 1)
      ∧ (∃ c table b e job depth, patchwork.conformances[0]? = some c
        ∧ (r.state 9).store.tables[2]? = some table ∧ r.Completes b e job depth 2
        ∧ table.Follows c.recipe shape (r.writes b e depth)
        ∧ table.witnesses
          = [.function 3, .function 7, .function 9, .function 5, .associatedType 5])
      ∧ (∃ c table, patchwork.conformances[1]? = some c
        ∧ (r.state 11).store.tables[1]? = some table ∧ table.Follows c.recipe shape []
        ∧ (r.state 11).store = (r.state 10).store.note 0
          fun l => { l with patterns := l.patterns + 1 })
      ∧ (∃ (thread : Thread Unit) (turn : Turn Unit) (w : Witness) (next : Bool → _)
          (s : Setting Unit), (r.state 2).threads[0]? = some thread
        ∧ ((r.state 2).turn thread).step patchwork ⟨0, thread.name⟩ = some turn
        ∧ turn.control = .run (.fill 1 w next) s)
      ∧ ∃ (c : Conformance Unit) (thread : Thread Unit) (index : Nat) (requirement : Requirement)
          (type : String), patchwork.conformances[2]? = some c
        ∧ (r.state 14).threads[0]? = some thread
        ∧ c.recipe.LeavesOut shape [] index requirement
        ∧ ((r.state 14).turn thread).step patchwork ⟨0, thread.name⟩
          = some (((r.state 14).turn thread).raiseIn ⟨0, thread.name⟩ 0
            (.missingWitness "Shape" requirement.name type)) := by
  let r : Chronicle patchwork collector := .walk patchwork collector 15 (by decide +kernel)
  have hbuilt : r.Provides 0 9 ⟨0, 0, 5⟩ (.table 2) :=
    .of_walk 0 (by decide) (by decide) (by decide +kernel) (by decide +kernel) (by decide +kernel)
  have hplain : r.Provides 10 11 ⟨0, 1, 5⟩ (.table 1) :=
    .of_walk 0 (by decide) (by decide) (by decide +kernel) (by decide +kernel) (by decide +kernel)
  have hnaming : r.Attempts 1 2 ⟨0, 0, 0, 5⟩ 1 :=
    .of_walk (by decide) (by decide) (by decide +kernel) (by decide +kernel)
  have hleaving : r.Attempts 13 14 ⟨0, 1, 2, 5⟩ 1 :=
    .of_walk (by decide) (by decide) (by decide +kernel) (by decide +kernel)
  obtain ⟨htables, hleft, hnames⟩ := witness_precedence fresh_collector rfl patterned_collector r
  refine ⟨_, r, fresh_collector, rfl, patterned_collector, hbuilt, hplain, ?_, ?_, ?_, ?_⟩
  · obtain ⟨c, p, t, table, hconf, hprot, ht, hkept, ⟨hpattern, -⟩ | ⟨-, b, e, job, depth,
      hcompletes, -, -, hrule, -⟩⟩ := htables hbuilt
    · cases hconf
      cases ht
      cases hpattern
    · cases hconf
      cases hprot
      cases ht
      refine ⟨_, table, b, e, job, depth, rfl, hkept 9 (by decide) (by decide), hcompletes,
        hrule, ?_⟩
      have hcomputed : ((r.state 9).store.tables[2]?).map (·.witnesses)
          = some [.function 3, .function 7, .function 9, .function 5, .associatedType 5] := by
        decide +kernel
      rw [hkept 9 (by decide) (by decide)] at hcomputed
      exact Option.some.inj hcomputed
  · obtain ⟨c, p, t, table, hconf, hprot, ht, hkept, ⟨-, -, -, hrule, hstore, -⟩ | ⟨hnot, -⟩⟩ :=
      htables hplain
    · cases hconf
      cases hprot
      cases ht
      exact ⟨_, table, rfl, hkept 11 (by decide) (by decide), hrule, hstore⟩
    · cases hconf
      cases ht
      exact (hnot rfl).elim
  · obtain ⟨c, p, base, arguments, thread, hconf, hprot, hbase, ht, hframes, hopening⟩ :=
      hnaming.begins
    cases hconf
    cases hprot
    have hc := hopening.trans (congrArg (Control.run · (.start _)) (Program.bind_fillNamed ..))
    obtain ⟨hfirst, -⟩ := hnames hnaming ht (by rw [hframes, List.length_cons, hbase]) hc rfl rfl
    exact ⟨thread, _, _, _, _, ht, hfirst ⟨⟨_, rfl, rfl⟩, by decide⟩, rfl⟩
  · obtain ⟨c, p, base, arguments, thread, hconf, hprot, hbase, ht, hframes, hopening⟩ :=
      hleaving.begins
    cases hconf
    cases hprot
    have hnil := hleaving.writes_nil rfl rfl
    have hunsettled : ∀ w, ¬ Recipe.Settles (patchwork.conformances[2]).recipe (r.writes 13 14 1) 1
        ⟨"area", .method, none⟩ w := by
      intro w hw
      rw [hnil, Recipe.settles_nil] at hw
      cases hw
    obtain ⟨⟨index, requirement, hout, hstep⟩, -⟩ :=
      hleft hleaving ht (by rw [hframes, List.length_cons, hbase]) hopening rfl rfl
        ⟨1, _, rfl, hunsettled⟩
    rw [hnil] at hout
    exact ⟨_, thread, index, requirement, _, rfl, ht, hout, hstep⟩

end Machine.Chronicle

end TypeRecords
