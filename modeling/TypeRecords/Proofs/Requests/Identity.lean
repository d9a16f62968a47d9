/-
One record for each key.

Two calls that come back, from whichever thread and however deep in callbacks,
name the same record exactly when they ask for the same thing
(`Fresh.one_record_per_key`). That a key has one record is a matter of
labels: no two entries share one (`Store.Owned.distinct`), and an entry keeps
its record. That a record has one key is a matter of keys, which never change.

The callback that runs on a fresh record runs in the step that makes the entry
of the key, and that step is only taken while there is none
(`Turn.unlabeled_of_allocating`). Labels stay, so there is no second time,
whatever becomes of the first.
-/
import TypeRecords.Proofs.Requests.Returning

namespace TypeRecords

variable {σ : Type}

theorem Call.key?_tuple {elements : List RecordId} (h : elements ≠ []) :
    (Call.tuple elements).key? = some ⟨.tuple, elements⟩ :=
  if_neg h

-- ====================================================== instantiation

/-- The allocation that waits in the frame for its callback. -/
def Frame.allocation? : Frame σ → Option Allocation
  | .allocating al => some al
  | _ => none

theorem Frame.allocating_of_allocation {f : Frame σ} {al : Allocation}
    (h : f.allocation? = some al) : f = .allocating al := by
  unfold allocation? at h
  split at h
  · cases h
    rfl
  · cases h

/-- A step that runs a callback on a fresh record makes the entry of its key,
which was not there before. -/
theorem Turn.unlabeled_of_allocating {lib : Library σ} {a : Actor} {t t' : Turn σ} {al : Allocation}
    (h : t.step lib a = some t') (hdeeper : t.frames.length < t'.frames.length)
    (htop : t'.frames.head? = some (.allocating al)) :
    ∃ key, t.store.find? al.registry key = none
      ∧ t'.store.labels = t.store.labels ++ [(al.registry, key)]
      ∧ t'.store.keyOf al.record = some key := by
  obtain ⟨fs, hf, p, s, hc⟩ : ∃ fs, t'.frames = .allocating al :: fs ++ t.frames
      ∧ ∃ p s, t.control = .run p s := by
    cases step_stacks h with
    | same hsame =>
        rw [hsame] at hdeeper
        exact (Nat.lt_irrefl _ hdeeper).elim
    | drop hdrop hc =>
        rw [hdrop, List.length_cons] at hdeeper
        omega
    | opened gs hopened hopens htail =>
        cases gs with
        | nil =>
            rw [hopened] at hdeeper
            exact (Nat.lt_irrefl _ hdeeper).elim
        | cons g gs =>
            rw [hopened] at htop
            obtain rfl := Option.some.inj htop
            refine ⟨gs, hopened, ?_⟩
            cases hopens (.allocating al) List.mem_cons_self with
            | call hc hcall => cases hcall
            | allocating al hc => exact ⟨_, _, hc⟩
  -- the thread holds one entry more than before
  have hholds : t.holds a.id = framesHold a.id t.frames := holds_of_control hc
  have hholds' : t'.holds a.id = t'.control.holds a.id
      ++ (.fresh al :: (framesHold a.id fs ++ framesHold a.id t.frames)) := by
    show t'.control.holds a.id ++ framesHold a.id t'.frames = _
    rw [hf]
    unfold framesHold
    rw [List.cons_append, List.flatMap_cons, List.flatMap_append]
    rfl
  have hmore : (t.holds a.id).length < (t'.holds a.id).length := by
    rw [hholds, hholds']
    simp
    omega
  cases step_shift h with
  | quiet ha hh => exact (Nat.ne_of_gt hmore hh.length_eq).elim
  | lose hd ha hh =>
      have hlength := hh.length_eq
      rw [List.length_append] at hlength
      omega
  | proceed hp ha hh hh' =>
      have hlength := hh.length_eq
      have hlength' := hh'.length_eq
      rw [List.length_cons] at hlength hlength'
      omega
  | @create registry q c k set key hrequest hfind he hk hh =>
      -- and this is the one
      have hal : .fresh al ∈ [Hold.fresh
          ⟨registry, t.store.entries.size, t.store.records.size, q⟩] := by
        have hperm : (t'.control.holds a.id ++ .fresh al :: framesHold a.id fs
            ++ framesHold a.id t.frames).Perm
            ([.fresh ⟨registry, t.store.entries.size, t.store.records.size, q⟩]
              ++ framesHold a.id t.frames) := by
          rw [hholds', hholds] at hh
          simpa using hh
        have hsame := (List.perm_append_right_iff _).mp hperm
        exact hsame.mem_iff.mp (List.mem_append_right _ List.mem_cons_self)
      obtain rfl : al = _ := Hold.fresh.inj (List.mem_singleton.mp hal)
      refine ⟨key, hfind, ?_, ?_⟩
      · unfold Store.labels
        rw [he, Array.toList_push, List.map_append]
        rfl
      · have hsize : t.store.keys.length = t.store.records.size := by
          unfold Store.keys
          rw [List.length_map, Array.length_toList]
        rw [Store.keyOf_eq, hk, ← hsize]
        simp
  | allocate hcontrol
  | publish hcontrol
  | resume hcontrol
  | forget hcontrol
  | finish hcontrol
  | suspend hcontrol
  | park hcontrol
  | reclaim hcontrol
  | strand hcontrol => rw [hc] at hcontrol; cases hcontrol

namespace Machine

variable {lib : Library σ} {start m m' m₁ m₂ : Machine σ} {t u : ThreadId}
  {registry : RegistryId} {key : Key} {c c' : Call} {x x' : Response}

/-- With its step from `m` to `m'` thread `t` runs the instantiation callback
of the record of a key: it puts the frame in which the record's allocation
waits for the callback on its stack. -/
def Instantiates (lib : Library σ) (t : ThreadId) (registry : RegistryId) (key : Key)
    (m m' : Machine σ) : Prop :=
  m.step lib t = some m' ∧ ∃ (thread thread' : Thread σ) (al : Allocation),
    m.threads[t]? = some thread ∧ m'.threads[t]? = some thread'
      ∧ thread.frames.length < thread'.frames.length
      ∧ thread'.frames.head?.bind Frame.allocation? = some al
      ∧ al.registry = registry ∧ m'.store.keyOf al.record = some key

/-- The entry of the key is made by this very step. -/
theorem Instantiates.labels (h : Instantiates lib t registry key m m') :
    m.store.find? registry key = none
      ∧ m'.store.labels = m.store.labels ++ [(registry, key)] := by
  obtain ⟨hs, thread, thread', al, ht, ht', hdeeper, htop, rfl, hkey⟩ := h
  obtain ⟨f, htop, hf⟩ := Option.bind_eq_some_iff.mp htop
  rw [Frame.allocating_of_allocation hf] at htop
  obtain ⟨-, stepper, hstepper, hstepped⟩ := step_cases hs
  obtain rfl := Option.some.inj (ht.symm.trans hstepper)
  cases hstepped with
  | @alone turn hturn =>
      obtain rfl := Option.some.inj ((after_threads ht turn).symm.trans ht')
      obtain ⟨key', hfind, hl, hkey'⟩ := Turn.unlabeled_of_allocating hturn hdeeper htop
      obtain rfl := Option.some.inj (hkey.symm.trans hkey')
      exact ⟨hfind, hl⟩
  | @program p s _ p' started hc hp hstore hthreads hnew =>
      -- such a program opens no frame
      have hlt : t < (m.threads.modify t
          fun thread => { thread with control := .run p' s }).size := by
        rw [Array.size_modify]
        exact (Array.getElem?_eq_some_iff.mp ht).1
      rw [hthreads, Array.getElem?_append_left hlt, Array.getElem?_modify, if_pos rfl, ht] at ht'
      obtain rfl := Option.some.inj ht'
      exact (Nat.lt_irrefl _ hdeeper).elim

/-- The callback of a key does not run twice. -/
theorem Instantiates.not_again (h : Instantiates lib t registry key m m') (hf : start.Fresh)
    (hreach : Reachable lib start m) (hlater : Reachable lib m' m₁) :
    ¬ Instantiates lib u registry key m₁ m₂ := by
  intro hagain
  have hreach' := hreach.step t h.1
  obtain ⟨more, hmore⟩ := (hreach'.advances hf hlater).grows.labels
  refine Store.find?_none hagain.labels.1 ?_
  rw [← hmore, h.labels.2]
  exact List.mem_append_left _ (List.mem_append_right _ List.mem_cons_self)

-- ====================================================== calls that have returned

/-- By the time the process has come to `m`, a call has come back with `x`. -/
def Returned (lib : Library σ) (start : Machine σ) (registry : RegistryId) (c : Call)
    (x : Response) (m : Machine σ) : Prop :=
  ∃ u q m₀ m₂, Reachable lib start m₀
    ∧ Returns lib (fun _ _ => True) u registry q c m₀ m₂ (.response x) ∧ Reachable lib m₂ m

/-- What has come back from a call is the record of its key, at that moment
and ever after. -/
theorem Returned.keyed (hf : start.Fresh) (h : Returned lib start registry c x m) :
    m.store.Owned m.holds ∧ (∀ key, c.key? = some key → m.store.Keeps registry key x.record)
      ∧ (c = .tuple [] → x.record = Records.emptyTuple) := by
  obtain ⟨u, q, m₀, m₂, h₀, hreturns, hlater⟩ := h
  obtain ⟨h₂, y, hy, hkeeps, hempty⟩ := hreturns.answered
    (fun s x => (∀ key, c.key? = some key → s.Keeps registry key x.record)
      ∧ (c = .tuple [] → x.record = Records.emptyTuple)) hf h₀ Store.Answers.keyed
    fun {m m' t} hreach _ _ hs x ⟨hkeeps, hempty⟩ =>
      ⟨fun key hkey => (hkeeps key hkey).advances (step_advances hs (hreach.owned hf)), hempty⟩
  cases hy
  have hreach := h₀.trans h₂
  exact ⟨(hreach.trans hlater).owned hf,
    fun key hkey => (hkeeps key hkey).advances (hreach.advances hf hlater), hempty⟩

theorem Returned.reachable (h : Returned lib start registry c x m) (hf : start.Fresh) :
    Reachable lib start m := by
  obtain ⟨u, q, m₀, m₂, h₀, hreturns, hlater⟩ := h
  obtain ⟨h₂, -⟩ := hreturns.answered (fun _ _ => True) hf h₀ (fun _ => trivial)
    fun _ _ _ _ _ _ => trivial
  exact (h₀.trans h₂).trans hlater

/-- What has come back from a call with a key is a record that carries it. -/
theorem Returned.carries (hf : start.Fresh) (h : Returned lib start registry c x m)
    (hkey : c.key? = some key) :
    ∃ r, m.store.records[x.record]? = some r ∧ r.origin = key.origin
      ∧ r.arguments = key.arguments := by
  obtain ⟨ho, hkeeps, -⟩ := h.keyed hf
  exact (hkeeps key hkey).carries ho

/-- Two calls with keys have come back with the same record exactly if the keys
are the same. -/
theorem Returned.record_eq_iff {key' : Key} (hf : start.Fresh)
    (h : Returned lib start registry c x m) (h' : Returned lib start registry c' x' m)
    (hkey : c.key? = some key) (hkey' : c'.key? = some key') :
    x.record = x'.record ↔ key = key' := by
  obtain ⟨ho, hkeeps, -⟩ := h.keyed hf
  obtain ⟨-, hkeeps', -⟩ := h'.keyed hf
  exact (hkeeps key hkey).record_eq_iff (hkeeps' key' hkey') ho

/-- The empty tuple is nobody's record. -/
theorem Returned.ne_emptyTuple (hf : start.Fresh)
    (hb : Records.emptyTuple < start.store.records.size)
    (h : Returned lib start registry c x m) (hkey : c.key? = some key) :
    x.record ≠ Records.emptyTuple := by
  obtain ⟨ho, hkeeps, -⟩ := h.keyed hf
  intro hempty
  have hsome := (hkeeps key hkey).keyOf ho
  rw [hempty, (h.reachable hf).keyOf_emptyTuple hf hb] at hsome
  cases hsome

/-- One record for each key. Take any run, with any number of threads, whatever
is raised and caught on the way, and any calls to one registry that have come
back in it by the time the process has come to `m`.

- Two requests for generic records have come back with the same record exactly
  if descriptor and arguments are the same.
- Two requests for tuples that are not empty have come back with the same
  record exactly if the elements are the same.
- What comes back as a generic record never comes back as a tuple.
- A record carries what was asked for: its descriptor and arguments, or its
  elements.

And however the run goes on, the instantiation callback of a key does not run
a second time. -/
theorem Fresh.one_record_per_key (hf : start.Fresh)
    (hb : Records.emptyTuple < start.store.records.size) :
    (∀ m d d' as as' x x', Returned lib start registry (.generic d as) x m →
        Returned lib start registry (.generic d' as') x' m →
        (x.record = x'.record ↔ d = d' ∧ as = as'))
      ∧ (∀ m es es' x x', es ≠ [] → es' ≠ [] → Returned lib start registry (.tuple es) x m →
        Returned lib start registry (.tuple es') x' m → (x.record = x'.record ↔ es = es'))
      ∧ (∀ m d as es x x', Returned lib start registry (.generic d as) x m →
        Returned lib start registry (.tuple es) x' m → x.record ≠ x'.record)
      ∧ (∀ m d as x, Returned lib start registry (.generic d as) x m →
        ∃ r, m.store.records[x.record]? = some r ∧ r.origin = .generic d ∧ r.arguments = as)
      ∧ (∀ m es x, es ≠ [] → Returned lib start registry (.tuple es) x m →
        ∃ r, m.store.records[x.record]? = some r ∧ r.origin = .tuple ∧ r.arguments = es)
      ∧ ∀ t u key m m' m₁ m₂, Reachable lib start m → Instantiates lib t registry key m m' →
        Reachable lib m' m₁ → ¬ Instantiates lib u registry key m₁ m₂ := by
  refine ⟨fun m d d' as as' x x' h h' => ?_, fun m es es' x x' hes hes' h h' => ?_,
    fun m d as es x x' h h' => ?_, fun m d as x h => h.carries hf rfl,
    fun m es x hes h => h.carries hf (Call.key?_tuple hes),
    fun t u key m m' m₁ m₂ hreach hi hlater => hi.not_again hf hreach hlater⟩
  · rw [h.record_eq_iff hf h' rfl rfl]
    simp
  · rw [h.record_eq_iff hf h' (Call.key?_tuple hes) (Call.key?_tuple hes')]
    simp
  · by_cases hes : es = []
    · subst hes
      obtain ⟨-, -, hempty⟩ := h'.keyed hf
      rw [hempty rfl]
      exact h.ne_emptyTuple hf hb rfl
    · intro hsame
      have hkeys := (h.record_eq_iff hf h' rfl (Call.key?_tuple hes)).mp hsame
      cases hkeys

/-- A type with one parameter. The callback on its fresh records requests a
tuple. -/
def boxes : Library Unit :=
  { bare with
    descriptors := #[{
      name := "Box"
      kind := .struct
      parameters := 1
      fields := []
      layout := none
      words := []
      instantiate := some fun registry _ =>
        .request registry .complete (.tuple [2, 2]) fun _ => .done ()
      completion := none }] }

/-- Two boxes and a tuple are requested, one after the other. The tuple has
been requested before, by the callback on the first box. -/
theorem one_record_per_key_boxes :
    ∃ (start m : Machine Unit) (x x' y : Response), start.Fresh
      ∧ Records.emptyTuple < start.store.records.size
      ∧ Returned boxes start 0 (.generic 0 [2]) x m ∧ Returned boxes start 0 (.generic 0 [3]) x' m
      ∧ Returned boxes start 0 (.tuple [2, 2]) y m
      ∧ (∃ m', Instantiates boxes 0 0 ⟨.generic 0, [2]⟩ start m'
        ∧ ¬ ∃ m₁ m₂, Reachable boxes m' m₁ ∧ Instantiates boxes 0 0 ⟨.generic 0, [2]⟩ m₁ m₂)
      ∧ x.record ≠ x'.record ∧ x.record ≠ y.record := by
  let start : Machine Unit := launch .standard () (.request 0 .complete (.generic 0 [2]) fun _ =>
    .request 0 .complete (.generic 0 [3]) fun _ =>
      .request 0 .complete (.tuple [2, 2]) fun _ => .done ())
  let m₁ := (start.walk boxes 1).walk boxes 14
  let m₂ := ((m₁.walk boxes 1).walk boxes 1).walk boxes 6
  let m₃ := ((m₂.walk boxes 1).walk boxes 1).walk boxes 1
  have hb : Records.emptyTuple < start.store.records.size := by decide
  have hfirst : Returns boxes (fun _ _ => True) 0 0 .complete (.generic 0 [2]) start m₁
      (.response ⟨10, .complete⟩) :=
    .of_walk 0 (by decide +kernel) (by decide +kernel) (by decide +kernel)
      (by decide +kernel)
  have hsecond : Returns boxes (fun _ _ => True) 0 0 .complete (.generic 0 [3]) (m₁.walk boxes 1) m₂
      (.response ⟨12, .complete⟩) :=
    .of_walk 0 (by decide +kernel) (by decide +kernel) (by decide +kernel)
      (by decide +kernel)
  have hthird : Returns boxes (fun _ _ => True) 0 0 .complete (.tuple [2, 2]) (m₂.walk boxes 1) m₃
      (.response ⟨11, .complete⟩) :=
    .of_walk 0 (by decide +kernel) (by decide +kernel) (by decide +kernel)
      (by decide +kernel)
  have hstart : Instantiates boxes 0 0 ⟨.generic 0, [2]⟩ start (start.walk boxes 1) := by
    have hopens : ((start.walk boxes 1).threads[0]?).map (fun thread =>
        (thread.frames.length, thread.frames.head?.bind Frame.allocation?))
        = some (2, some ⟨0, 0, 10, .complete⟩) := by
      decide +kernel
    obtain ⟨thread, ht, hpair⟩ := Option.map_eq_some_iff.mp hopens
    obtain ⟨hlength, htop⟩ := Prod.mk.inj hpair
    exact ⟨step_walk (by decide +kernel), _, thread, _, rfl, ht,
      hlength ▸ (by decide : 0 < 2), htop, rfl, by decide +kernel⟩
  have hone : Reachable boxes start m₁ := (Reachable.walk _ 1).trans (.walk _ 14)
  have htwo : Reachable boxes m₁ m₂ := ((Reachable.walk _ 1).trans (.walk _ 1)).trans (.walk _ 6)
  have hthree : Reachable boxes m₂ m₃ :=
    ((Reachable.walk _ 1).trans (.walk _ 1)).trans (.walk _ 1)
  have hx : Returned boxes start 0 (.generic 0 [2]) ⟨10, .complete⟩ m₃ :=
    ⟨_, _, _, _, .refl, hfirst, htwo.trans hthree⟩
  have hx' : Returned boxes start 0 (.generic 0 [3]) ⟨12, .complete⟩ m₃ :=
    ⟨_, _, _, _, hone.trans (.walk _ 1), hsecond, hthree⟩
  have hy : Returned boxes start 0 (.tuple [2, 2]) ⟨11, .complete⟩ m₃ :=
    ⟨_, _, _, _, (hone.trans htwo).trans (.walk _ 1), hthird, .refl⟩
  obtain ⟨hgeneric, -, hapart, -, -, honce⟩ :=
    @Fresh.one_record_per_key Unit boxes start 0 (fresh_launch _ () _) hb
  refine ⟨start, m₃, _, _, _, fresh_launch _ () _, hb, hx, hx', hy, ⟨_, hstart, ?_⟩, ?_,
    hapart _ _ _ _ _ _ hx hy⟩
  · rintro ⟨m, m', hlater, hagain⟩
    exact honce _ _ _ _ _ _ _ .refl hstart hlater hagain
  · intro hsame
    have hkey := (hgeneric _ _ _ _ _ _ _ hx hx').mp hsame
    simp at hkey

end Machine

end TypeRecords
