/-
What a call for a canonical record comes back with.

`Chronicle.Answered` is such a call and its answer: a thread asks for a
candidate in some step, and in a later state is about to hand a value to the
very frame that waits for it. In between the other threads may run, and if the
candidate's initializer has been started, it runs above that frame, with
whatever calls it makes.

`Turn.Calls` says where such a call can be while it lasts. There are two ways
for it to be answered: from what is there, or by the frame of the initializer.
Either way the answer is the one that the store has for the candidate by then
(`Answered.answer`). The third way out is a fault, and no answer comes of it.
-/
import TypeRecords.Proofs.Foreign.Enrolling
import TypeRecords.Proofs.Requests.Returning

namespace TypeRecords

variable {σ : Type}

-- ====================================================== one thread

namespace Turn

/-- Where a call can be while it lasts, with the stack it was made on under the
frame that waits for it. -/
inductive Calls (t : Turn σ) (registry : RegistryId) (c : CandidateId) (base : List (Frame σ)) :
    Prop
  /-- The candidate's initializer has been started. -/
  | founding {position : Nat} (above : List (Frame σ))
      (hf : t.frames = above ++ .founding ⟨registry, c, position⟩ :: base)
  | waiting {position heard : Nat} (hc : t.control = .standBy ⟨registry, c, position⟩ heard)
      (hf : t.frames = base)
  | failing {f : Failure} (hc : t.control = .unwind f) (hf : t.frames = base)
  | answered {x : RecordId} {left : Local} (hc : t.control = .give (.record x) left)
      (hf : t.frames = base) (hx : t.store.ListsFor registry c x)

variable {lib : Library σ} {a : Actor} {t t' : Turn σ} {thread : ThreadId} {roll : Roll}
  {n : Nat} {registry : RegistryId} {c : CandidateId} {k : RecordId → Program σ Value}
  {s : Setting σ} {rest base : List (Frame σ)} {j : NameJob}

/-- Whoever knows the position is answered, or waits. -/
theorem Enrols.asked {r : Registry} (fs : List (Frame σ))
    (hcon : t.concerns = some (j.registry, j.candidate))
    (h : Enrols t (({ t with frames := fs }).askName j r) thread roll n) :
    (({ t with frames := fs }).askName j r).Calls j.registry j.candidate fs := by
  cases hx : r.canonical? j.position with
  | some x =>
      have hgive : (({ t with frames := fs }).askName j r).control
          = .give (.record x) .nothing := by
        unfold askName
        rw [hx]
        rfl
      exact .answered hgive (askName_frames ..) (h.answers hcon hgive)
  | none =>
      have hstand : (({ t with frames := fs }).askName j r).control
          = .standBy j r.announcements := by
        unfold askName
        rw [hx]
      exact .waiting hstand (askName_frames ..)

/-- A call begins. -/
theorem Names.calls (h : Names lib t t') (he : Enrols t t' thread roll n)
    (hc : t.control = .run (.canonical registry c k) s) :
    t'.Calls registry c (.forRecord k s :: t.frames) := by
  have hcon := concerns_run hc
  cases h with
  | quiet hq => rw [hq] at hcon; cases hcon
  | recalled hc' hcand hx ht' =>
      cases hc.symm.trans hc'
      subst ht'
      exact .answered rfl rfl (he.answers hcon rfl)
  | @asked _ _ _ _ _ r position hc' hcand hr hposition ht' =>
      cases hc.symm.trans hc'
      subst ht'
      exact he.asked (j := ⟨registry, c, position⟩) _ hcon
  | registered hc' hcand hr hposition hinit ht' =>
      cases hc.symm.trans hc'
      subst ht'
      exact .answered rfl rfl (he.answers hcon rfl)
  | opened hc' hcand hr hposition hinit ht' =>
      cases hc.symm.trans hc'
      subst ht'
      exact .founding [] rfl
  | again hc' => cases hc.symm.trans hc'
  | founded hc' => cases hc.symm.trans hc'

/-- When the initializer has returned, the call is answered. -/
theorem give_founding {v : Value} {left : Local} (hc : t.control = .give v left)
    (hf : t.frames = .founding j :: rest) (h : t.step lib a = some t') :
    t'.frames = rest ∧ ∃ x, t'.control = .give (.record x) .nothing := by
  unfold step give at h
  rw [hc, hf] at h
  obtain ⟨x, -, rfl⟩ := founded_some h
  exact ⟨rfl, _, rfl⟩

/-- A step keeps a call, as long as it is on the stack. -/
theorem Calls.step (h : t.Calls registry c (.forRecord k s :: rest))
    (hs : t.step lib a = some t') (he : Enrols t t' thread roll n)
    (hover : rest.length < t'.frames.length) :
    t'.Calls registry c (.forRecord k s :: rest) := by
  have hon : t'.frames ≠ rest := fun hf => by
    rw [hf] at hover
    omega
  cases h with
  | @founding position above hf =>
      cases step_stacks hs with
      | same hfs => exact .founding above (hfs.trans hf)
      | opened fs hfs hopens htail =>
          exact .founding (fs ++ above) (by rw [hfs, hf, List.append_assoc])
      | @drop f hfs hc =>
          cases above with
          | cons g above =>
              rw [hf] at hfs
              exact .founding above (List.cons.inj hfs).2.symm
          | nil =>
              -- the initializer has ended
              rcases hc with ⟨v, left, hc⟩ | ⟨e, hc⟩
              · obtain ⟨hframes, x, hgive⟩ := give_founding hc hf hs
                refine .answered hgive hframes (he.answers ?_ hgive)
                unfold concerns
                rw [hc, hf]
                rfl
              · refine .failing (f := e) ?_ (List.cons.inj (hfs.symm.trans hf)).2
                unfold Turn.step unwind at hs
                rw [hc, hf] at hs
                cases hs
                rfl
  | @waiting position heard hc hf =>
      have hcon : t.concerns = some (registry, c) := by
        unfold concerns
        rw [hc]
      cases step_standBy hc hs
      rw [← hf]
      exact he.asked (j := ⟨registry, c, position⟩) t.frames hcon
  | failing hc hf => exact (hon (call_dropped hf rfl (.inr ⟨_, hc⟩) hs)).elim
  | answered hc hf hx => exact (hon (call_dropped hf rfl (.inl ⟨_, _, hc⟩) hs)).elim

/-- What other threads do makes no difference to a call. -/
theorem Calls.mono (h : t.Calls registry c base) (hc : t'.control = t.control)
    (hf : t'.frames = t.frames) (hs : t'.store.Retains t.store) : t'.Calls registry c base := by
  cases h with
  | founding above hfs => exact .founding above (hf.trans hfs)
  | waiting hc' hfs => exact .waiting (hc.trans hc') (hf.trans hfs)
  | failing hc' hfs => exact .failing (hc.trans hc') (hf.trans hfs)
  | answered hc' hfs hx => exact .answered (hc.trans hc') (hf.trans hfs) (hs.listsFor hx)

end Turn

/-- Whoever asks for a candidate runs a program. -/
theorem Control.canonical_of_naming {control : Control σ} {registry : RegistryId}
    {c : CandidateId} (h : control.naming? = some (registry, c)) :
    ∃ k s, control = .run (.canonical registry c k) s := by
  unfold naming? at h
  split at h
  · cases h
    exact ⟨_, _, rfl⟩
  · cases h

-- ====================================================== runs

namespace Machine.Chronicle

variable {lib : Library σ} {start : Machine σ} {r : Chronicle lib start} {i j l : Nat}
  {registry : RegistryId} {c : CandidateId} {v : Value}

/-- The call for a canonical record that a thread makes in step `i` is answered
in state `j`: the thread is about to hand a value to the frame that waits for
the answer, which has been there since. -/
inductive Answered (r : Chronicle lib start) (i j : Nat) (registry : RegistryId) (c : CandidateId)
    (v : Value) : Prop
  | intro {thread thread' : Thread σ} {left : Local} (hij : i < j) (hj : j ≤ r.length)
      (ht : (r.state i).threads[r.mover i]? = some thread)
      (hask : thread.control.naming? = some (registry, c))
      (hover : ∀ l, i < l → l ≤ j → (r.state l).Over (r.mover i) thread.frames.length)
      (ht' : (r.state j).threads[r.mover i]? = some thread')
      (hf : thread'.frames.length = thread.frames.length + 1)
      (hc : thread'.control = .give v left)

theorem Answered.le (h : r.Answered i j registry c v) : j ≤ r.length := by
  cases h
  assumption

/-- As long as it is on the stack, a call goes on. -/
theorem calls (hf : start.Fresh) (hn : start.store.Unnamed) {thread : Thread σ} (hil : i < l)
    (hl : l ≤ r.length) (ht : (r.state i).threads[r.mover i]? = some thread)
    {k : RecordId → Program σ Value} {s : Setting σ}
    (hc : thread.control = .run (.canonical registry c k) s)
    (hover : ∀ l', i < l' → l' ≤ l → (r.state l').Over (r.mover i) thread.frames.length) :
    ∃ thread', (r.state l).threads[r.mover i]? = some thread'
      ∧ ((r.state l).turn thread').Calls registry c (.forRecord k s :: thread.frames) := by
  refine r.follow (P := fun t => t.Calls registry c (.forRecord k s :: thread.frames)) hil hl ?_
    (fun {j caller caller'} hi hj hcaller hcaller' hcalls hmove => ?_)
    fun _ hj hcalls => hcalls.mono rfl rfl (r.retains hf hn (Nat.le_succ _) (Nat.le_trans hj hl))
  · have hi := Nat.le_trans hil hl
    have he := r.enrolled hf hn (Nat.le_of_lt hi)
    obtain ⟨mover, thread', hmover, hthread', hnames⟩ := step_names (r.step i hi)
    obtain rfl := Option.some.inj (ht.symm.trans hmover)
    exact ⟨thread', hthread',
      hnames.calls (n := i) (hnames.enrols he.store (he.threads hmover)) hc⟩
  · rcases hmove with hturn | ⟨⟨p, s', hc'⟩, hfs⟩
    · have he := r.enrolled hf hn (Nat.le_of_lt (Nat.lt_of_lt_of_le hj hl))
      exact hcalls.step hturn (n := j)
        ((Turn.step_names hturn).enrols he.store (he.threads hcaller))
        (hover (j + 1) (Nat.lt_succ_of_lt hi) hj caller' hcaller')
    · -- a thread that goes on with a program does so above the call
      have hrun : ((r.state j).turn caller).control = .run p s' := hc'
      cases hcalls with
      | founding above hf => exact .founding above (hfs.trans hf)
      | waiting hc | failing hc | answered hc => cases hrun.symm.trans hc

/-- A call is answered with a record that the registry lists under the name of
the candidate. -/
theorem Answered.record (hf : start.Fresh) (hn : start.store.Unnamed)
    (h : r.Answered i j registry c v) :
    ∃ x, v = .record x ∧ (r.state j).store.ListsFor registry c x := by
  obtain @⟨thread, thread', left, hij, hj, ht, hask, hover, ht', hlength, hgive⟩ := h
  obtain ⟨k, s, hc⟩ := Control.canonical_of_naming hask
  obtain ⟨caller, hcaller, hcalls⟩ := r.calls hf hn hij hj ht hc hover
  obtain rfl := Option.some.inj (ht'.symm.trans hcaller)
  have hcontrol : ((r.state j).turn thread').control = .give v left := hgive
  cases hcalls with
  | founding above hf =>
      have hlong := congrArg List.length hf
      rw [List.length_append, List.length_cons, List.length_cons] at hlong
      have hsame : ((r.state j).turn thread').frames.length = thread.frames.length + 1 := hlength
      omega
  | waiting hc | failing hc => cases hcontrol.symm.trans hc
  | answered hc hf hx =>
      cases hcontrol.symm.trans hc
      exact ⟨_, rfl, hx⟩

-- ====================================================== by computation

/-- A call whose answer can be computed, along the walk of the first thread. -/
theorem Answered.of_walk {n : Nat} {h : ∀ k < n, ((start.walk lib k).step lib 0).isSome = true}
    (depth : Nat) (hij : i < j) (hj : j ≤ n)
    (hcall : ((start.walk lib i).threads[0]?).map
        (fun thread => (thread.frames.length, thread.control.naming?))
      = some (depth, some (registry, c)))
    (hover : ∀ l < j + 1, i < l → (start.walk lib l).Over 0 depth)
    (hend : ((start.walk lib j).threads[0]?).map
        (fun thread => (thread.frames.length, thread.control.outcome?))
      = some (depth + 1, some v)) :
    (Chronicle.walk lib start n h).Answered i j registry c v := by
  obtain ⟨thread, ht, hpair⟩ := Option.map_eq_some_iff.mp hcall
  obtain ⟨rfl, hask⟩ := Prod.mk.inj hpair
  obtain ⟨thread', ht', hends⟩ := Option.map_eq_some_iff.mp hend
  obtain ⟨hlength, hends⟩ := Prod.mk.inj hends
  obtain ⟨left, hgive⟩ := Control.give_of_outcome hends
  exact .intro hij hj ht hask (fun l hi hl => hover l (Nat.lt_succ_of_le hl) hi) ht' hlength hgive

end Machine.Chronicle

namespace Machine

/-- Three foreign types, two of one name. When the first of them is registered
it publishes its layout, and asks for the third. -/
def homonyms : Library Unit :=
  { bare with
    initializer := fun c =>
      if c = 0 then
        some fun registry => .act (.publish 0 (.scalar 2)) fun _ =>
          .canonical registry 2 fun _ => .done ()
      else none }

/-- A process with two registries. The second candidate is asked for in one of
them, and both candidates of its name in the other. -/
def homonymous : Machine Unit :=
  { launch .standard () (.canonical 1 1 fun _ =>
      .canonical 0 0 fun _ => .canonical 0 1 fun _ => .done ()) with
    store := {
      registries := #[.new .standard, .new .standard]
      candidates := #[⟨"Date", 0, none⟩, ⟨"Date", 1, none⟩, ⟨"Zone", 2, none⟩] } }

theorem fresh_homonymous : homonymous.Fresh where
  entries := rfl
  fixed := (fresh_launch .standard () (.done ())).fixed
  running thread h := by
    obtain rfl := Array.mem_singleton.mp h
    exact ⟨rfl, _, _, rfl⟩

theorem unnamed_homonymous : homonymous.store.Unnamed where
  tables registry := by
    match registry with
    | 0 | 1 | _ + 2 => rfl
  candidates := by decide

end Machine

end TypeRecords
