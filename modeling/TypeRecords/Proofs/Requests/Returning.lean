/-
What a request comes back with.

`Machine.Returns` is a request and its return: a thread makes a call in one
state, and in a later one the answer is handed to the very frame that waits
for it. In between the other threads may run, and the thread may do anything
above that frame. With `Turn.Attends` carried along (`Run.attended`), the
answer is known (`Returns.answered`): it is what was right when it was made, as far
as the steps of other threads have left it so.

With a single thread there are no such steps. Then every call that returns
names the record it asked for, in the stage the record is in at that moment,
and has settled the request (`Run.responses_exact`).
-/
import TypeRecords.Proofs.Ownership.Pairing
import TypeRecords.Proofs.Requests.Serving
import TypeRecords.Proofs.Waiting.Answers

namespace TypeRecords

variable {σ : Type}

-- ====================================================== records of keys

namespace Store

/-- The registry keeps a record under a key. -/
def Keeps (s : Store) (registry : RegistryId) (key : Key) (record : RecordId) : Prop :=
  ∃ (i : EntryId) (e : Entry), s.entries[i]? = some e ∧ e.registry = registry ∧ e.key = key
    ∧ e.record = some record

/-- The record was there from the start, or the registry has made it. -/
def Vouches (s : Store) (registry : RegistryId) (record : RecordId) : Prop :=
  s.keyOf record = none ∨ ∃ key, s.Keeps registry key record

variable {s s' : Store} {H : List Hold} {registry : RegistryId} {key key' : Key}
  {record record' : RecordId}

theorem Keeps.keyOf (h : s.Keeps registry key record) (ho : s.Owned H) :
    s.keyOf record = some key := by
  obtain ⟨i, e, he, -, rfl, hr⟩ := h
  exact ho.keyed he hr

/-- A registry has made what it keeps. -/
theorem Keeps.madeBy (h : s.Keeps registry key record) (ho : s.Owned H) (hp : s.Paired H) :
    s.MadeBy registry record := by
  have hkey := h.keyOf ho
  obtain ⟨i, e, he, hreg, -, hr⟩ := h
  exact ⟨Option.isSome_iff_exists.mpr ⟨key, hkey⟩, e, (hp.record he hr).symm ▸ he, hreg⟩

/-- A record carries the descriptor and the arguments of its key. -/
theorem Keeps.carries (h : s.Keeps registry key record) (ho : s.Owned H) :
    ∃ r, s.records[record]? = some r ∧ r.origin = key.origin ∧ r.arguments = key.arguments := by
  obtain ⟨r, hr, hk⟩ := Option.bind_eq_some_iff.mp (h.keyOf ho)
  refine ⟨r, hr, ?_⟩
  unfold Record.key? at hk
  split at hk
  · cases hk
  · cases hk
    exact ⟨rfl, rfl⟩

/-- Entries of one registry and one key are the same entry. -/
theorem Owned.entry_unique (ho : s.Owned H) {i j : EntryId} {e e' : Entry}
    (he : s.entries[i]? = some e) (he' : s.entries[j]? = some e') (hr : e.registry = e'.registry)
    (hk : e.key = e'.key) : i = j := by
  have hi := find?_of_entry ho.distinct he
  rw [hr, hk, find?_of_entry ho.distinct he'] at hi
  exact (Option.some.inj hi).symm

/-- There is one record for each key, and one key for each record. -/
theorem Keeps.record_eq_iff (h : s.Keeps registry key record) (h' : s.Keeps registry key' record')
    (ho : s.Owned H) : record = record' ↔ key = key' := by
  constructor
  · rintro rfl
    exact Option.some.inj ((h.keyOf ho).symm.trans (h'.keyOf ho))
  · rintro rfl
    obtain ⟨i, e, he, hreg, hkey, hr⟩ := h
    obtain ⟨j, e', he', hreg', hkey', hr'⟩ := h'
    obtain rfl := ho.entry_unique he he' (hreg.trans hreg'.symm) (hkey.trans hkey'.symm)
    obtain rfl := Option.some.inj (he.symm.trans he')
    exact Option.some.inj (hr.symm.trans hr')

/-- The registry keeps what it has kept. -/
theorem Keeps.advances (h : s.Keeps registry key record) (ha : s.Advances s') :
    s'.Keeps registry key record := by
  obtain ⟨i, e, he, hreg, hkey, hr⟩ := h
  obtain ⟨e', he', hreg', -, hrecord⟩ := ha.entries he
  obtain ⟨x, hx, -, hkey'⟩ := ha.grows.labels_getElem? he
  obtain rfl := Option.some.inj (he'.symm.trans hx)
  exact ⟨i, e', he', hreg'.trans hreg, hkey'.trans hkey, hrecord record hr⟩

/-- The entry that a call with a key is about is the entry of the key. -/
theorem keeps_of_sought {c : Call} {i : EntryId} {e : Entry} (hkey : c.key? = some key)
    (hs : s.sought? registry c = some i) (he : s.entries[i]? = some e)
    (hr : e.record = some record) : s.Keeps registry key record := by
  rw [sought?_of_key hkey] at hs
  obtain ⟨x, hx, hreg, hk⟩ := find?_some hs
  obtain rfl := Option.some.inj (he.symm.trans hx)
  exact ⟨i, e, he, hreg, hk, hr⟩

/-- The entry found for a record that the registry has made is its own. -/
theorem Vouches.record_eq (h : s.Vouches registry record) (ho : s.Owned H) {i : EntryId}
    {e : Entry} (hs : s.entryOf? registry record = some i) (he : s.entries[i]? = some e)
    (hr : e.record = some record') : record' = record := by
  obtain ⟨x, hx, hreg, hk⟩ := entryOf?_some hs
  obtain rfl := Option.some.inj (he.symm.trans hx)
  rcases h with hnone | ⟨key, hkeeps⟩
  · rw [hnone] at hk
    cases hk
  · refine (Keeps.record_eq_iff ⟨i, e, he, hreg, rfl, hr⟩ hkeeps ho).mpr ?_
    exact Option.some.inj (hk.symm.trans (hkeeps.keyOf ho))

/-- The answer is the record that was asked for: the one of the key, the empty
tuple, or the very record of a check. -/
structure Names (s : Store) (registry : RegistryId) (c : Call) (record : RecordId) : Prop where
  keyed : ∀ key, c.key? = some key → s.Keeps registry key record
  empty : c = .tuple [] → record = Records.emptyTuple
  checked : ∀ asked, c = .check asked → s.Vouches registry asked → record = asked

/-- The part of this that stays true for good. -/
theorem Answers.keyed {q : Request} {c : Call} {x : Response} (h : s.Answers registry q c x) :
    (∀ key, c.key? = some key → s.Keeps registry key x.record)
      ∧ (c = .tuple [] → x.record = Records.emptyTuple) := by
  rcases h with ⟨i, hs, e, he, hr, -, -⟩ | ⟨hs, -, rfl | ⟨rfl, hx⟩⟩
  · refine ⟨fun key hkey => keeps_of_sought hkey hs he hr, ?_⟩
    rintro rfl
    cases hs
  · exact ⟨nofun, nofun⟩
  · exact ⟨nofun, fun _ => hx⟩

theorem Answers.names {q : Request} {c : Call} {x : Response} (h : s.Answers registry q c x)
    (ho : s.Owned H) : s.Names registry c x.record := by
  refine ⟨h.keyed.1, h.keyed.2, ?_⟩
  rintro asked rfl hv
  rcases h with ⟨i, hs, e, he, hr, -, -⟩ | ⟨-, -, hasked | ⟨hno, -⟩⟩
  · exact hv.record_eq ho hs he hr
  · cases hasked
    rfl
  · cases hno

/-- The stage of an answer is the published stage of the record. -/
theorem Answers.stageOf_eq {q : Request} {c : Call} {x : Response} (h : s.Answers registry q c x)
    (ho : s.Owned H) (hempty : s.keyOf Records.emptyTuple = none) :
    s.stageOf registry x.record = x.stage := by
  rcases h with ⟨i, hs, e, he, hr, hstage, -⟩ | ⟨hs, hstage, rfl | ⟨rfl, hx⟩⟩
  · have hreg : e.registry = registry := by
      obtain ⟨y, hy, hreg⟩ : ∃ y, s.entries[i]? = some y ∧ y.registry = registry := by
        cases c with
        | check asked =>
            obtain ⟨y, hy, hreg, -⟩ := entryOf?_some hs
            exact ⟨y, hy, hreg⟩
        | generic descriptor arguments =>
            obtain ⟨y, hy, hreg, -⟩ := find?_some hs
            exact ⟨y, hy, hreg⟩
        | tuple elements =>
            obtain ⟨key, -, hf⟩ := Option.bind_eq_some_iff.mp hs
            obtain ⟨y, hy, hreg, -⟩ := find?_some hf
            exact ⟨y, hy, hreg⟩
      obtain rfl := Option.some.inj (he.symm.trans hy)
      exact hreg
    have hentry := ho.entryOf?_of_record he hr
    rw [hreg] at hentry
    rw [stageOf_entry hentry he (ho.sound he), hstage]
  · rw [hstage]
    exact stageOf_of_none hs
  · rw [hstage, hx]
    refine stageOf_of_none ?_
    rw [entryOf?_eq, hempty]
    rfl

theorem Answers.settled {q : Request} {c : Call} {x : Response} (h : s.Answers registry q c x) :
    q.settledBy x.stage = true := by
  rcases h with ⟨i, -, e, -, -, -, hq⟩ | ⟨-, hstage, -⟩
  · exact hq
  · rw [hstage]
    exact q.settledBy_complete

end Store

-- ====================================================== runs

/-- The call that a program makes next. -/
def Control.call? : Control σ → Option (RegistryId × Request × Call)
  | .run (.request registry q c _) _ => some (registry, q, c)
  | _ => none

theorem Control.request_of_call {control : Control σ} {registry : RegistryId} {q : Request}
    {c : Call} (h : control.call? = some (registry, q, c)) :
    ∃ k s, control = .run (.request registry q c k) s := by
  unfold call? at h
  split at h
  · cases h
    exact ⟨_, _, rfl⟩
  · cases h

namespace Machine

variable {lib : Library σ} {ok : Machine σ → ThreadId → Prop} {start m m' m₀ m₁ m₂ : Machine σ}
  {t u : ThreadId} {registry : RegistryId} {q : Request} {c : Call} {f : Frame σ}
  {below : List (Frame σ)} {v : Value} {good : Store → Response → Prop}

/-- Thread `u` has more than `n` frames. -/
def Over (u : ThreadId) (n : Nat) (m : Machine σ) : Prop :=
  ∀ thread ∈ m.threads[u]?, n < thread.frames.length

instance (u : ThreadId) (n : Nat) (m : Machine σ) : Decidable (m.Over u n) :=
  inferInstanceAs (Decidable (∀ thread ∈ m.threads[u]?, n < thread.frames.length))

/-- Thread `u` makes a call in `m₀`, and in `m₂` is about to hand `v` to the
frame that waits for the answer, which has been there all the time. -/
inductive Returns (lib : Library σ) (ok : Machine σ → ThreadId → Prop) (u : ThreadId)
    (registry : RegistryId) (q : Request) (c : Call) (m₀ m₂ : Machine σ) (v : Value) : Prop
  | intro {m₁ : Machine σ} {thread thread' : Thread σ} {f : Frame σ} {left : Local}
      (ht : m₀.threads[u]? = some thread) (hask : (m₀.turn thread).Asks registry q c f)
      (hok : ok m₀ u) (hs : m₀.step lib u = some m₁)
      (hrun : Run lib (fun m t => ok m t ∧ m.Over u thread.frames.length) m₁ m₂)
      (ht' : m₂.threads[u]? = some thread')
      (hf : thread'.frames.length = thread.frames.length + 1)
      (hc : thread'.control = .give v left)

/-- Thread `u` attends to a call. -/
def Attended (registry : RegistryId) (q : Request) (c : Call) (base : List (Frame σ))
    (good : Store → Response → Prop) (u : ThreadId) (m : Machine σ) : Prop :=
  ∃ thread, m.threads[u]? = some thread
    ∧ (m.turn thread).Attends (m.store.sought? registry c = some ·) q base (good m.store)

/-- A step of a process keeps the call attended to, as long as it has not come
back and the answer stays right. -/
theorem Attended.step (hat : m.Attended registry q c (f :: below) good u)
    (hs : m.step lib t = some m') (ho : m.store.Owned m.holds) (ha : f.awaits = true)
    (hback : m'.Over u below.length)
    (hgood : ∀ {s : Store} {i : EntryId} {x : Response}, s.sought? registry c = some i →
      s.Exactly i q x → good s x)
    (hother : t ≠ u → ∀ x, good m.store x → good m'.store x) :
    m'.Attended registry q c (f :: below) good u := by
  obtain ⟨thread, hu, hat⟩ := hat
  have hgrows := (step_advances hs ho).grows
  obtain ⟨-, stepper, ht, hstepped⟩ := step_cases hs
  cases hstepped with
  | @alone turn hturn =>
      by_cases htu : t = u
      · subst htu
        obtain rfl := Option.some.inj (ht.symm.trans hu)
        have hafter := after_threads ht turn
        have hnext := hat.step hturn (ho.perm (holds_split ht).symm) ha (hback _ hafter)
        exact ⟨_, hafter, hnext.mono rfl rfl (fun i hi => hgrows.sought? hi)
          fun x ⟨i, hi, hx⟩ => hgood (hgrows.sought? hi) hx⟩
      · refine ⟨thread, ?_, hat.mono rfl rfl (fun i hi => hgrows.sought? hi) (hother htu)⟩
        unfold after
        rw [Array.getElem?_modify, if_neg htu]
        exact hu
  | @program p s _ p' started hc hp hstore hthreads hnew =>
      have hlt : u < (m.threads.modify t
          fun thread => { thread with control := .run p' s }).size := by
        rw [Array.size_modify]
        exact (Array.getElem?_eq_some_iff.mp hu).1
      by_cases htu : t = u
      · subst htu
        obtain rfl := Option.some.inj (ht.symm.trans hu)
        refine ⟨{ stepper with control := .run p' s }, ?_, ?_⟩
        · rw [hthreads, Array.getElem?_append_left hlt, Array.getElem?_modify, if_pos rfl, ht]
          rfl
        · have hrun : (m.turn stepper).control = .run p s := hc
          -- a thread that runs a program does so above the frame
          cases hat with
          | above hf hg => exact .above hf (by rw [hstore]; exact hg)
          | working hf hi hserves hleave => rw [hrun] at hserves; cases hserves
          | failing hf hfails => rw [hrun] at hfails; cases hfails
          | answered hf hgive hx => rw [hrun] at hgive; cases hgive
      · refine ⟨thread, ?_, hat.mono rfl rfl (fun i hi => hgrows.sought? hi) (hother htu)⟩
        rw [hthreads, Array.getElem?_append_left hlt, Array.getElem?_modify, if_neg htu]
        exact hu

/-- Until it has come back, a call stays attended to. -/
theorem Run.attended (hf : start.Fresh) (h₁ : Reachable lib start m₁)
    (h : Run lib (fun m t => ok m t ∧ m.Over u below.length) m₁ m₂)
    (hback : m₂.Over u below.length) (ha : f.awaits = true)
    (hgood : ∀ {s : Store} {i : EntryId} {x : Response}, s.sought? registry c = some i →
      s.Exactly i q x → good s x)
    (hother : ∀ {m m' : Machine σ} {t : ThreadId}, Reachable lib start m → ok m t → t ≠ u →
      m.step lib t = some m' → ∀ x, good m.store x → good m'.store x)
    (hat : m₁.Attended registry q c (f :: below) good u) :
    m₂.Attended registry q c (f :: below) good u := by
  induction h with
  | refl => exact hat
  | step t h hok hs ih =>
      have hreach := h₁.trans h.reachable
      exact (ih hok.2).step hs (hreach.owned hf) ha hback hgood
        (fun htu => hother hreach hok.1 htu hs)

/-- What is handed to the frame that waits for the answer is an answer, and a
good one. -/
theorem Returns.answered (good : Store → Response → Prop) (hf : start.Fresh)
    (h₀ : Reachable lib start m₀) (h : Returns lib ok u registry q c m₀ m₂ v)
    (hgood : ∀ {s : Store} {x : Response}, s.Answers registry q c x → good s x)
    (hother : ∀ {m m' : Machine σ} {t : ThreadId}, Reachable lib start m → ok m t → t ≠ u →
      m.step lib t = some m' → ∀ x, good m.store x → good m'.store x) :
    Reachable lib m₀ m₂ ∧ ∃ x, v = .response x ∧ good m₂.store x := by
  obtain @⟨m₁, thread, thread', f, left, ht, hask, hok, hs, hrun, ht', hlength, hgive⟩ := h
  have hreach₁ : Reachable lib m₀ m₁ := .step u .refl hs
  refine ⟨hreach₁.trans hrun.reachable, ?_⟩
  have hat : m₁.Attended registry q c (f :: thread.frames) good u := by
    obtain ⟨-, stepper, hstepper, hstepped⟩ := step_cases hs
    obtain rfl := Option.some.inj (ht.symm.trans hstepper)
    cases hstepped with
    | @alone turn hturn =>
        exact ⟨_, after_threads ht turn,
          (hask.attends hturn).mono rfl rfl (fun _ h => h) fun x hx => hgood hx⟩
    | program p' started hc hp hstore hthreads hnew =>
        have hc' : (m₀.turn thread).control = .run _ _ := hc
        cases hask with
        | program hrequest => rw [hc'] at hrequest; cases hrequest; cases hp
        | field hlay hr => rw [hc'] at hlay; cases hlay
        | element hmeasure hw => rw [hc'] at hmeasure; cases hmeasure
        | dependency hstopped hcy hw => rw [hc'] at hstopped; cases hstopped
  have hback : m₂.Over u thread.frames.length := fun x hx => by
    obtain rfl := Option.some.inj (ht'.symm.trans hx)
    omega
  obtain ⟨x, hx, hat⟩ := hrun.attended hf (h₀.trans hreach₁) hback hask.awaits
    (fun hs hx => hgood (.inl ⟨_, hs, hx⟩)) hother hat
  obtain rfl := Option.some.inj (ht'.symm.trans hx)
  have hcontrol : (m₂.turn thread').control = .give v left := hgive
  cases hat with
  | above hf hg =>
      have hlong := congrArg List.length hf
      rw [List.length_append, List.length_cons, List.length_cons] at hlong
      have hsame : (m₂.turn thread').frames.length = thread.frames.length + 1 := hlength
      omega
  | working hf hi hserves hleave => rw [hcontrol] at hserves; cases hserves
  | failing hf hfails => rw [hcontrol] at hfails; cases hfails
  | answered hf hresponse hx =>
      rw [hcontrol] at hresponse
      cases hresponse
      exact ⟨_, rfl, hx⟩

-- ====================================================== one thread

/-- The empty tuple stays a record without a key. -/
theorem Reachable.keyOf_emptyTuple (hf : start.Fresh)
    (hb : Records.emptyTuple < start.store.records.size) (h : Reachable lib start m) :
    m.store.keyOf Records.emptyTuple = none := by
  rw [(Reachable.refl.advances hf h).grows.keyOf_of_lt hb]
  exact hf.keyOf_none _

/-- Responses are exact. In a run of one thread, whatever it raises and
catches on the way, take any call that comes back: one of a program, wherever
it runs, or one that a completion step makes. It comes back with a response
that names the record asked for; the stage in it is the stage of that record
at the moment of return; and if the call waits, that stage is the one it
waited for or a later one. -/
theorem Run.responses_exact (hf : start.Fresh)
    (hb : Records.emptyTuple < start.store.records.size)
    (h : Run lib (fun m _ => m.threads.size = 1) start m₀)
    (hr : Returns lib (fun m _ => m.threads.size = 1) 0 registry q c m₀ m₂ v) :
    ∃ x, v = .response x ∧ m₂.store.Names registry c x.record
      ∧ m₂.store.stageOf registry x.record = x.stage
      ∧ (q.waits = true → x.stage.satisfies q.stage = true) := by
  obtain ⟨hreach, x, hx, hanswers⟩ := hr.answered (fun s x => s.Answers registry q c x) hf
    h.reachable id
    fun {m m' t} _ hsize hother hs => by
      -- no other thread is there to take a step
      obtain ⟨-, thread, hthread, -⟩ := step_cases hs
      have hlt := (Array.getElem?_eq_some_iff.mp hthread).1
      rw [hsize] at hlt
      exact (hother (Nat.lt_one_iff.mp hlt)).elim
  have hreach₂ := h.reachable.trans hreach
  have ho := hreach₂.owned hf
  refine ⟨x, hx, hanswers.names ho, hanswers.stageOf_eq ho (hreach₂.keyOf_emptyTuple hf hb),
    fun hwaits => ?_⟩
  have hsettled := hanswers.settled
  unfold Request.settledBy at hsettled
  rw [hwaits] at hsettled
  exact hsettled

-- ====================================================== by computation

/-- A call whose return can be computed, along the walk of the first thread. -/
theorem Returns.of_walk {n : Nat} (depth : Nat)
    (hcall : (m.threads[0]?).map (fun thread => (thread.frames.length, thread.control.call?))
      = some (depth, some (registry, q, c)))
    (hfirst : ok m 0 ∧ (m.step lib 0).isSome = true)
    (hsteps : ∀ k < n, (ok ((m.walk lib 1).walk lib k) 0 ∧ ((m.walk lib 1).walk lib k).Over 0 depth)
      ∧ (((m.walk lib 1).walk lib k).step lib 0).isSome = true)
    (hend : (((m.walk lib 1).walk lib n).threads[0]?).map
        (fun thread => (thread.frames.length, thread.control.outcome?))
      = some (depth + 1, some v)) :
    Returns lib ok 0 registry q c m ((m.walk lib 1).walk lib n) v := by
  obtain ⟨thread, ht, hpair⟩ := Option.map_eq_some_iff.mp hcall
  obtain ⟨rfl, hbegins⟩ := Prod.mk.inj hpair
  obtain ⟨thread', ht', hends⟩ := Option.map_eq_some_iff.mp hend
  obtain ⟨hlength, hends⟩ := Prod.mk.inj hends
  obtain ⟨k, s, hc⟩ := Control.request_of_call hbegins
  obtain ⟨left, hgive⟩ := Control.give_of_outcome hends
  exact .intro ht (.program hc) hfirst.1 (step_walk hfirst.2) (.walk hsteps) ht' hlength hgive

/-- Of two types that wait for each other the outer one is requested. While a
step of it runs it requests the inner one, and is told of it in the stage it
has come to. -/
theorem responses_exact_pair :
    ∃ (start m₀ m₂ : Machine Unit) (v : Value), start.Fresh
      ∧ Records.emptyTuple < start.store.records.size
      ∧ Run pair (fun m _ => m.threads.size = 1) start m₀
      ∧ Returns pair (fun m _ => m.threads.size = 1) 0 0 (.poll .complete) (.generic 1 []) m₀ m₂ v
      ∧ ∃ x, v = .response x ∧ m₂.store.stageOf 0 x.record = x.stage := by
  let start : Machine Unit := demanding
  have hsteps : ∀ k < 4, (start.walk pair k).threads.size = 1
      ∧ ((start.walk pair k).step pair 0).isSome = true := by
    decide +kernel
  have hrun : Run pair (fun m _ => m.threads.size = 1) start (start.walk pair 4) := .walk hsteps
  have hreturns : Returns pair (fun m _ => m.threads.size = 1) 0 0 (.poll .complete)
      (.generic 1 []) (start.walk pair 4) (((start.walk pair 4).walk pair 1).walk pair 12)
      (.response ⟨11, .abstract⟩) :=
    .of_walk 2 (by decide +kernel) (by decide +kernel) (by decide +kernel)
      (by decide +kernel)
  have hb : Records.emptyTuple < start.store.records.size := by decide
  obtain ⟨x, hx, -, hstage, -⟩ := hrun.responses_exact (fresh_launch _ () _) hb hreturns
  exact ⟨start, _, _, _, fresh_launch _ () _, hb, hrun, hreturns, x, hx, hstage⟩

end Machine

end TypeRecords
