/-
The same walk, begun with no words.

Take a process in which a walk is under way, and another one that is the same but for
the words that the walk has begun with: there they are none (`Machine.Apart`). Nobody
sees the difference. What other threads do does not depend on it, what goes on above the
walk does not reach down to it (`Turn.step_under`), and the walk itself goes past the
same fields, since of those that its words count it is told that they are known
(`Laying.ready`). So the two take the same steps (`Machine.Apart.step`), and once the
walk has come to its outcome or is unwound they are the same.
-/
import TypeRecords.Proofs.Process.Below
import TypeRecords.Proofs.Resuming.Laying

namespace TypeRecords

variable {σ : Type}

/-- The walk as if it had begun with no words. -/
def FieldWalk.afresh (w : FieldWalk σ) : FieldWalk σ := { w with scratch := .zero }

/-- The word that says how many fields have been passed does not depend on what was
there before. -/
theorem Scratch.zero_set (n m : Nat) :
    Vector.set Scratch.zero 0 m (by decide) = Vector.set (Scratch.count n) 0 m (by decide) := by
  rw [← Scratch.count_zero, Scratch.count_set, Scratch.count_set]

-- ====================================================== one thread

namespace Turn

/-- The turns are the same, but for the words that the walk has begun with whose outcome
is awaited in the first frame of `base`. -/
inductive Apart (base : List (Frame σ)) (t : Turn σ) : Turn σ → Prop
  | between {w : FieldWalk σ} (hf : t.frames = base) (hc : t.control = .lay w) :
      Apart base t (t.goto (.lay w.afresh))
  | within (gs : List (Frame σ)) {w : FieldWalk σ} (hf : t.frames = gs ++ .laying w :: base) :
      Apart base t { t with frames := gs ++ .laying w.afresh :: base }

variable {lib : Library σ} {a : Actor} {base : List (Frame σ)} {t t₀ : Turn σ} {w : FieldWalk σ}
  {n : Nat}

theorem Apart.store (h : t.Apart base t₀) : t₀.store = t.store := by
  cases h <;> rfl

theorem Apart.shared (h : t.Apart base t₀) : t₀.shared = t.shared := by
  cases h <;> rfl

theorem Apart.length_le (h : t.Apart base t₀) : base.length ≤ t.frames.length := by
  cases h with
  | between hf hc => rw [hf]
  | within gs hf =>
      rw [hf, List.length_append, List.length_cons]
      omega

/-- It makes no difference to a program. -/
theorem Apart.run_iff {p : Program σ Value} {st : Setting σ} (h : t.Apart base t₀) :
    t₀.control = .run p st ↔ t.control = .run p st := by
  cases h with
  | between hf hc => exact ⟨nofun, fun hrun => by cases hc.symm.trans hrun⟩
  | within gs hf => exact .rfl

/-- The program goes on, or other threads have written something. -/
theorem Apart.goto (h : t.Apart base t₀) {p : Program σ Value} {st : Setting σ}
    (hc : t.control = .run p st) (c : Control σ) : (t.goto c).Apart base (t₀.goto c) := by
  cases h with
  | between hf hlay => cases hc.symm.trans hlay
  | within gs hf => exact .within (t := t.goto c) gs hf

theorem Apart.other (h : t.Apart base t₀) (s : Store) (x : σ) :
    Apart base { t with store := s, shared := x } { t₀ with store := s, shared := x } := by
  cases h with
  | between hf hc => exact .between (t := { t with store := s, shared := x }) hf hc
  | within gs hf => exact .within (t := { t with store := s, shared := x }) gs hf

/-- The walk has not come to its outcome. -/
theorem Apart.not_given (h : t.Apart base t₀) (hf : t.frames = base) {v : Value} {left : Local} :
    t.control ≠ .give v left := by
  intro hgive
  cases h with
  | between hf' hc => cases hc.symm.trans hgive
  | within gs hf' =>
      have hlength := congrArg List.length (hf'.symm.trans hf)
      rw [List.length_append, List.length_cons] at hlength
      omega

theorem consult_apart (hf : t.frames = base) (c : Control σ) (registry : RegistryId) (q : Request)
    (y : RecordId) : Apart base (({ t with frames := .laying w :: t.frames }).consult registry q y)
      (({ t.goto c with frames := .laying w.afresh :: t.frames }).consult registry q y) := by
  rw [hf]
  unfold consult goto
  simp only
  split
  · exact .within [] rfl
  · exact .within [] rfl

/-- The record of a field is sought for the walk. -/
theorem resolve_apart (hf : t.frames = base) (c : Control σ) (registry : RegistryId) (q : Request)
    (owner : RecordId) (type : FieldType σ) :
    (t.goto c).resolve a registry q owner (.laying w.afresh) type
        = t.resolve a registry q owner (.laying w) type
      ∨ Apart base (t.resolve a registry q owner (.laying w) type)
        ((t.goto c).resolve a registry q owner (.laying w.afresh) type) := by
  unfold resolve
  cases type with
  | fixed y => exact .inr (consult_apart hf ..)
  | computed accessor => exact hf ▸ .inr (.within [] rfl)
  | argument i =>
      simp only [goto]
      cases (t.store.records.argumentsOf owner)[i]? with
      | some y => exact .inr (consult_apart hf ..)
      | none => exact .inl rfl

/-- A walk goes on to its next field, or has come to its outcome. -/
theorem lay_apart (hf : t.frames = base) (hw : w.scratch = .count n) (c : Control σ) :
    (t.goto c).lay a w.afresh = t.lay a w ∨ (t.lay a w).Apart base ((t.goto c).lay a w.afresh) := by
  unfold lay
  rw [show w.afresh.todo = w.todo from rfl]
  cases w.todo with
  | nil =>
      refine .inl ?_
      simp only [FieldWalk.afresh, Scratch.zero_set n, hw]
      rfl
  | cons field rest => exact resolve_apart hf ..

/-- A walk is told of a field. -/
theorem laid_apart {r : Response} (hf : t.frames = base) (hw : w.scratch = .count n)
    (hready : w.index < n → .layoutComplete ≤ r.stage) :
    t.laid w.afresh r = t.laid w r ∨ (t.laid w r).Apart base (t.laid w.afresh r) := by
  have hcount : w.scratch[0] = n := by rw [hw]; exact Scratch.count_get n
  have hnone : w.afresh.scratch[0] ≤ w.afresh.index := Nat.zero_le _
  by_cases hlate : r.stage.satisfies .layoutComplete = true
  · refine .inr ?_
    unfold laid
    rw [if_neg fun h => h.2 hlate, if_neg fun h => h.2 hlate]
    exact .between (w := { w with todo := _, index := _, layouts := _ }) hf rfl
  · refine .inl ?_
    have hpast : n ≤ w.index := Nat.not_lt.mp fun hk => hlate (Stage.satisfies_iff.mpr (hready hk))
    unfold laid
    rw [if_pos ⟨hnone, hlate⟩, if_pos ⟨hcount ▸ hpast, hlate⟩]
    simp only [FieldWalk.afresh, Scratch.zero_set n, hw]

variable {registry : RegistryId} {terms : DescriptorId → List Term} {since : Store → Prop}
  {s₀ : Store} {x : RecordId}

/-- The two take the same step, and then they differ at most in this. -/
theorem Apart.step (h : t.Apart base t₀) (hl : t.Laying lib registry terms since x n base)
    (hsince : since t.store) (hfirst : ∀ s, since s → s₀.Rises registry s)
    (hn : s₀.Attests registry terms x n) :
    Option.Rel (fun t' t₀' => t₀' = t' ∨ t'.Apart base t₀') (t.step lib a) (t₀.step lib a) := by
  cases h with
  | @between w hf hc =>
      have hw := hl.between hf hc
      unfold Turn.step
      rw [hc]
      exact .some (lay_apart hf hw.scratch _)
  | @within gs w hf =>
      obtain ⟨s, sh, c, frames⟩ := t
      obtain rfl : frames = gs ++ .laying w :: base := hf
      let u : Turn σ := ⟨s, sh, c, gs⟩
      by_cases hcovered : u.Covered
      · -- it happens above the walk
        show Option.Rel _ ((u.under (.laying w :: base)).step lib a)
          ((u.under (.laying w.afresh :: base)).step lib a)
        rw [u.step_under _ hcovered, u.step_under _ hcovered]
        cases u.step lib a with
        | none => exact .none
        | some u' => exact .some (.inr (.within u'.frames rfl))
      · obtain ⟨hno, hout⟩ := not_or.mp hcovered
        obtain rfl : gs = [] := Decidable.not_not.mp hno
        unfold Turn.step
        cases c with
        | give v left =>
            cases v with
            | response r =>
                obtain ⟨hw, hready⟩ := hl.ready rfl rfl hsince hfirst hn
                let t : Turn σ := ⟨s, sh, .give (.response r) left, base⟩
                exact .some (laid_apart (t := t) rfl hw hready)
            | _ => exact .none
        | unwind e => exact .some (.inl rfl)
        | _ => exact (hout ⟨nofun, nofun⟩).elim

end Turn

-- ====================================================== processes

namespace Machine

variable {lib : Library σ} {m m' m₀ : Machine σ} {t u : ThreadId} {thread : Thread σ} {t₀ : Turn σ}
  {base : List (Frame σ)}

/-- The processes are the same, but for the words that a walk of thread `u` has begun
with. -/
inductive Apart (u : ThreadId) (base : List (Frame σ)) (m : Machine σ) : Machine σ → Prop
  | intro {thread : Thread σ} {t₀ : Turn σ} (hu : m.threads[u]? = some thread)
      (h : (m.turn thread).Apart base t₀) : Apart u base m (m.after u t₀)

/-- The thread that the walk is one of. -/
theorem Apart.turn (h : m.Apart u base m₀) (hu : m.threads[u]? = some thread) :
    ∃ t₀, (m.turn thread).Apart base t₀ := by
  obtain ⟨hthread, h⟩ := h
  obtain rfl := Option.some.inj (hthread.symm.trans hu)
  exact ⟨_, h⟩

theorem Apart.store (h : m.Apart u base m₀) : m₀.store = m.store := by
  obtain ⟨hu, h⟩ := h
  exact h.store

/-- A thread of the other process. -/
theorem after_getElem? (m : Machine σ) (u v : ThreadId) (t₀ : Turn σ) : (m.after u t₀).threads[v]?
    = if u = v then (m.threads[v]?).map fun thread =>
        { thread with control := t₀.control, frames := t₀.frames }
      else m.threads[v]? :=
  Array.getElem?_modify ..

theorem Apart.size (h : m.Apart u base m₀) : m₀.threads.size = m.threads.size := by
  obtain ⟨hu, h⟩ := h
  exact Array.size_modify

/-- The same threads are over in both. -/
theorem Apart.hasEnded (h : m.Apart u base m₀) (v : ThreadId) : m₀.hasEnded v = m.hasEnded v := by
  obtain @⟨thread, t₀, hu, h⟩ := h
  unfold Machine.hasEnded
  rw [after_getElem?]
  by_cases huv : u = v
  · subst huv
    rw [if_pos rfl, hu, Option.map_some]
    cases h with
    | between hf hc =>
        have hlay : thread.control = .lay _ := hc
        simp only [hlay]
        rfl
    | within gs hf => rfl
  · rw [if_neg huv]

-- ====================================================== steps of the two

/-- Two changes at one place are one change. -/
theorem modify_modify {α : Type*} (xs : Array α) (i : Nat) (f g : α → α) :
    (xs.modify i f).modify i g = xs.modify i (g ∘ f) := by
  rw [← Array.toList_inj, Array.toList_modify, Array.toList_modify, Array.toList_modify,
    List.modify_modify_eq]

/-- Changes at two places are made in any order. -/
theorem modify_comm {α : Type*} (xs : Array α) {i j : Nat} (h : i ≠ j) (f g : α → α) :
    (xs.modify i f).modify j g = (xs.modify j g).modify i f := by
  rw [← Array.toList_inj, Array.toList_modify, Array.toList_modify, Array.toList_modify,
    Array.toList_modify, List.modify_modify_ne _ _ _ h]

theorem after_after (m : Machine σ) (u : ThreadId) (t t' : Turn σ) :
    (m.after u t).after u t' = m.after u t' := by
  unfold after
  rw [modify_modify]
  rfl

/-- Threads that are not the same do not disturb each other. -/
theorem after_comm (m : Machine σ) (htu : t ≠ u) (turn : Turn σ) :
    (m.after u t₀).after t turn
      = (m.after t turn).after u { t₀ with store := turn.store, shared := turn.shared } := by
  unfold after
  rw [modify_comm _ htu.symm]

theorem goto_after (m : Machine σ) (u : ThreadId) (t₀ : Turn σ) (c : Control σ) :
    (m.after u t₀).goto u c = (m.goto u c).after u (t₀.goto c) := by
  unfold after goto
  rw [modify_modify, modify_modify]
  rfl

theorem goto_after_comm (m : Machine σ) (htu : t ≠ u) (t₀ : Turn σ) (c : Control σ) :
    (m.after u t₀).goto t c = (m.goto t c).after u t₀ := by
  unfold after goto
  rw [modify_comm _ htu.symm]

theorem goto_goto (m : Machine σ) (u : ThreadId) (c c' : Control σ) :
    (m.goto u c).goto u c' = m.goto u c' := by
  unfold goto
  rw [modify_modify]
  rfl

theorem goto_getElem? (m : Machine σ) (t v : ThreadId) (c : Control σ) : (m.goto t c).threads[v]?
    = if t = v then (m.threads[v]?).map fun thread => { thread with control := c }
      else m.threads[v]? :=
  Array.getElem?_modify ..

/-- A thread that goes on by itself. -/
theorem goto_eq_after (hu : m.threads[u]? = some thread) (c : Control σ) :
    m.goto u c = m.after u ((m.turn thread).goto c) := by
  refine congrArg (Machine.mk m.store m.shared) (Array.ext_getElem? fun v => ?_)
  rw [Array.getElem?_modify, Array.getElem?_modify]
  split
  · rename_i huv
    subst huv
    rw [hu]
    rfl
  · rfl

/-- A program goes on in both. -/
theorem Apart.goto {stepper : Thread σ} {p : Program σ Value} {st : Setting σ}
    (h : m.Apart u base m₀) (ht : m.threads[t]? = some stepper) (hc : stepper.control = .run p st)
    (c : Control σ) : (m.goto t c).Apart u base (m₀.goto t c) := by
  obtain @⟨thread, t₀, hu, h⟩ := h
  by_cases htu : t = u
  · subst htu
    obtain rfl := Option.some.inj (hu.symm.trans ht)
    have hgone : (m.goto t c).threads[t]? = some { thread with control := c } := by
      rw [goto_getElem?, if_pos rfl, hu]
      rfl
    rw [goto_after]
    exact .intro hgone (h.goto hc c)
  · rw [goto_after_comm m htu]
    have hstays : (m.goto t c).threads[u]? = some thread := by
      rw [goto_getElem?, if_neg htu]
      exact hu
    exact .intro hstays h

/-- A thread is started in both. -/
theorem Apart.start (h : m.Apart u base m₀) (new : Thread σ) :
    Apart u base { m with threads := m.threads.push new }
      { m₀ with threads := m₀.threads.push new } := by
  obtain @⟨thread, t₀, hu, h⟩ := h
  have hlt := (Array.getElem?_eq_some_iff.mp hu).1
  have hsame : { m.after u t₀ with threads := (m.after u t₀).threads.push new }
      = ({ m with threads := m.threads.push new } : Machine σ).after u t₀ := by
    refine congrArg (Machine.mk t₀.store t₀.shared) (Array.ext_getElem? fun v => ?_)
    rw [after, Array.getElem?_push, Array.getElem?_modify, Array.getElem?_modify,
      Array.getElem?_push, Array.size_modify]
    by_cases hv : v = m.threads.size
    · subst hv
      rw [if_pos rfl, if_neg (Nat.ne_of_lt hlt), if_pos rfl]
    · rw [if_neg hv, if_neg hv]
  have hstays : (m.threads.push new)[u]? = some thread := by
    rw [Array.getElem?_push, if_neg (Nat.ne_of_lt hlt)]
    exact hu
  rw [hsame]
  exact .intro (m := { m with threads := m.threads.push new }) hstays h

/-- The program concerns other threads. -/
inductive Concerns : Program σ Value → Prop
  | spawn (name : String) (body : Program σ Unit) (k : ThreadId → Program σ Value) :
      Concerns (.spawn name body k)
  | join (other : ThreadId) (k : Program σ Value) : Concerns (.join other k)
  | settle (other : ThreadId) (k : Bool → Program σ Value) : Concerns (.settle other k)

/-- Otherwise a thread does what it does by itself. -/
theorem step_solo {stepper : Thread σ} (hhalt : m.store.halted = none)
    (ht : m.threads[t]? = some stepper)
    (hc : ∀ p st, stepper.control = .run p st → ¬ Concerns p) :
    m.step lib t = ((m.turn stepper).step lib ⟨t, stepper.name⟩).map (m.after t) := by
  unfold step
  rw [hhalt, ht]
  simp only [Option.isSome_none, Bool.false_eq_true, if_false]
  split
  · rename_i hrun
    exact (hc _ _ hrun (.spawn ..)).elim
  · rename_i hrun
    exact (hc _ _ hrun (.join ..)).elim
  · rename_i hrun
    exact (hc _ _ hrun (.settle ..)).elim
  · rfl

section

variable {stepper : Thread σ} {st : Setting σ} (hhalt : m.store.halted = none)
  (ht : m.threads[t]? = some stepper)
include hhalt ht

theorem step_spawn {name : String} {body : Program σ Unit} {k : ThreadId → Program σ Value}
    (hc : stepper.control = .run (.spawn name body k) st) :
    m.step lib t = some { m.goto t (.run (k m.threads.size) st) with
      threads := (m.goto t (.run (k m.threads.size) st)).threads.push (.start name body) } := by
  unfold step
  rw [hhalt, ht]
  simp only [Option.isSome_none, Bool.false_eq_true, if_false]
  rw [hc]

theorem step_join {other : ThreadId} {k : Program σ Value}
    (hc : stepper.control = .run (.join other k) st) :
    m.step lib t = if m.hasEnded other then some (m.goto t (.run k st)) else none := by
  unfold step
  rw [hhalt, ht]
  simp only [Option.isSome_none, Bool.false_eq_true, if_false]
  rw [hc]

theorem step_settle {other : ThreadId} {k : Bool → Program σ Value}
    (hc : stepper.control = .run (.settle other k) st) :
    m.step lib t = some (m.goto t (.run (k (m.hasEnded other)) st)) := by
  unfold step
  rw [hhalt, ht]
  simp only [Option.isSome_none, Bool.false_eq_true, if_false]
  rw [hc]

end

/-- A program that concerns other threads goes on in both, or in neither. -/
theorem Apart.step_concerns {stepper stepper₀ : Thread σ} {p : Program σ Value} {st : Setting σ}
    (h : m.Apart u base m₀) (hhalt : m.store.halted = none) (ht : m.threads[t]? = some stepper)
    (hc : stepper.control = .run p st) (ht₀ : m₀.threads[t]? = some stepper₀)
    (hc₀ : stepper₀.control = .run p st) (hp : Concerns p) :
    Option.Rel (fun m' m₀' => m₀' = m' ∨ m'.Apart u base m₀') (m.step lib t) (m₀.step lib t) := by
  have hhalt₀ : m₀.store.halted = none := h.store ▸ hhalt
  have hgoes : ∀ p', (m.goto t (.run p' st)).Apart u base (m₀.goto t (.run p' st)) :=
    fun p' => h.goto ht hc _
  cases hp with
  | spawn name body k =>
      rw [step_spawn hhalt ht hc, step_spawn hhalt₀ ht₀ hc₀, h.size]
      exact .some (.inr ((hgoes _).start _))
  | join other k =>
      rw [step_join hhalt ht hc, step_join hhalt₀ ht₀ hc₀, h.hasEnded]
      split
      · exact .some (.inr (hgoes k))
      · exact .none
  | settle other k =>
      rw [step_settle hhalt ht hc, step_settle hhalt₀ ht₀ hc₀, h.hasEnded]
      exact .some (.inr (hgoes _))

/-- What a process can come to from here and from there. -/
theorem Apart.step {registry : RegistryId} {terms : DescriptorId → List Term}
    {since : Store → Prop} {s₀ : Store} {x : RecordId} {n : Nat} (h : m.Apart u base m₀)
    (hl : ∀ thread, m.threads[u]? = some thread →
      (m.turn thread).Laying lib registry terms since x n base)
    (hsince : since m.store) (hfirst : ∀ s, since s → s₀.Rises registry s)
    (hn : s₀.Attests registry terms x n) (t : ThreadId) :
    Option.Rel (fun m' m₀' => m₀' = m' ∨ m'.Apart u base m₀') (m.step lib t) (m₀.step lib t) := by
  by_cases hhalt : m.store.halted = none
  case neg =>
    have hhalted : m.store.halted.isSome = true := Option.isSome_iff_ne_none.mpr hhalt
    unfold Machine.step
    rw [h.store, if_pos hhalted, if_pos hhalted]
    exact .none
  have hhalt₀ : m₀.store.halted = none := h.store ▸ hhalt
  have hapart := h
  obtain @⟨thread, t₀, hu, h⟩ := h
  by_cases htu : t = u
  · -- the thread of the walk
    subst htu
    have hu₀ : (m.after t t₀).threads[t]?
        = some { thread with control := t₀.control, frames := t₀.frames } := after_threads hu t₀
    by_cases hconcerns : ∃ p st, thread.control = .run p st ∧ Concerns p
    · obtain ⟨p, st, hc, hp⟩ := hconcerns
      exact hapart.step_concerns hhalt hu hc hu₀ (h.run_iff.mpr hc) hp
    · have hsolo : ∀ p st, thread.control = .run p st → ¬ Concerns p :=
        fun p st hc hp => hconcerns ⟨p, st, hc, hp⟩
      rw [step_solo hhalt hu hsolo,
        step_solo hhalt₀ hu₀ fun p st hc => hsolo p st (h.run_iff.mp hc)]
      have hrel := h.step (a := ⟨t, thread.name⟩) (hl thread hu) hsince hfirst hn
      show Option.Rel _ (((m.turn thread).step lib ⟨t, thread.name⟩).map (m.after t))
        ((t₀.step lib ⟨t, thread.name⟩).map ((m.after t t₀).after t))
      generalize (m.turn thread).step lib ⟨t, thread.name⟩ = next at hrel
      generalize t₀.step lib ⟨t, thread.name⟩ = next₀ at hrel
      cases hrel with
      | none => exact .none
      | @some t' t₀' hnext =>
          refine .some ?_
          rw [after_after]
          refine hnext.imp (congrArg _) fun hnext => ?_
          rw [← after_after m t t' t₀']
          exact .intro (after_threads hu t') hnext
  · -- another one, which is the same in both
    cases ht : m.threads[t]? with
    | none =>
        have ht₀ : (m.after u t₀).threads[t]? = none := by
          rw [after_getElem?, if_neg (Ne.symm htu), ht]
        unfold Machine.step
        rw [ht, ht₀, hhalt, hhalt₀]
        exact .none
    | some stepper =>
        have ht₀ : (m.after u t₀).threads[t]? = some stepper := by
          rw [after_getElem?, if_neg (Ne.symm htu), ht]
        by_cases hconcerns : ∃ p st, stepper.control = .run p st ∧ Concerns p
        · obtain ⟨p, st, hc, hp⟩ := hconcerns
          exact hapart.step_concerns hhalt ht hc ht₀ hc hp
        · have hsolo : ∀ p st, stepper.control = .run p st → ¬ Concerns p :=
            fun p st hc hp => hconcerns ⟨p, st, hc, hp⟩
          have hturn : (m.after u t₀).turn stepper = m.turn stepper := by
            unfold Machine.turn after
            rw [h.store, h.shared]
            rfl
          rw [step_solo hhalt ht hsolo, step_solo hhalt₀ ht₀ hsolo, hturn]
          cases (m.turn stepper).step lib ⟨t, stepper.name⟩ with
          | none => exact .none
          | some turn =>
              have hstays : (m.after t turn).threads[u]? = some thread := by
                rw [after_getElem?, if_neg htu]
                exact hu
              rw [Option.map_some, Option.map_some, after_comm m htu]
              exact .some (.inr (.intro hstays (h.other turn.store turn.shared)))

end Machine

end TypeRecords
