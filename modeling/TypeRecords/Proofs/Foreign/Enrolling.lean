/-
The roll of a run.

Every step of a run keeps to the roll, so a chronicle has one: `Chronicle.roll`
lists what has been registered before each state. What has to be known besides
the tables is who holds a position. A thread that runs the initializer of a
candidate keeps the position of its name in a frame, and it is on the roll with
that candidate and that thread; somebody who waits keeps it in the control
(`Turn.Placed`).

Three results are read off. A name is registered once in a registry
(`Chronicle.registers_once`). A record once listed is listed for good
(`Chronicle.retains`). And a name whose candidate has an initializer has a record
only if, since its registration, that initializer has returned on the thread
that registered it (`Chronicle.concluded`): a line is given a record when it is
written, if there is no initializer, and by the frame that waits for the
initializer otherwise.
-/
import TypeRecords.Proofs.Foreign.Roll
import TypeRecords.Proofs.Process.Chronicle

namespace TypeRecords

variable {σ : Type}

/-- The roll after a step of a thread. -/
def Roll.after (roll : Roll) (step : Nat) (thread : ThreadId) :
    Option (RegistryId × CandidateId) → Roll
  | none => roll
  | some (registry, c) => roll.enter registry ⟨step, thread, c⟩

/-- What is on the roll was there, or has been entered. -/
theorem Roll.mem_after {roll : Roll} {step : Nat} {thread : ThreadId}
    {o : Option (RegistryId × CandidateId)} {registry : RegistryId} {g : Registration}
    (h : g ∈ roll.after step thread o registry) :
    g ∈ roll registry ∨ ∃ c, o = some (registry, c) ∧ g = ⟨step, thread, c⟩ := by
  match o with
  | none => exact .inl h
  | some (other, c) =>
      replace h : g ∈ roll.enter other ⟨step, thread, c⟩ registry := h
      by_cases ho : other = registry
      · subst ho
        rw [enter_same] at h
        exact (List.mem_append.mp h).imp_right fun hg => ⟨c, rfl, List.mem_singleton.mp hg⟩
      · rw [enter_of_ne ho] at h
        exact .inl h

theorem Roll.after_getElem? {roll : Roll} {step : Nat} {thread : ThreadId}
    {o : Option (RegistryId × CandidateId)} {registry : RegistryId} {position : Nat}
    {g : Registration} (h : (roll registry)[position]? = some g) :
    (roll.after step thread o registry)[position]? = some g := by
  cases o with
  | none => exact h
  | some entered => exact enter_getElem? h

-- ====================================================== one thread

namespace Turn

/-- Who a thread registers a name for in its next step, and where: somebody has
asked for it, and the table grows. -/
def registers? (t : Turn σ) (s' : Store) : Option (RegistryId × CandidateId) :=
  t.control.naming?.filter fun asked =>
    (t.store.names asked.1).length < (s'.names asked.1).length

/-- The positions that a thread holds are those it says they are. -/
structure Placed (t : Turn σ) (thread : ThreadId) (roll : Roll) : Prop where
  founding : ∀ j ∈ t.jobs, ∃ g, (roll j.registry)[j.position]? = some g
    ∧ g.candidate = j.candidate ∧ g.thread = thread
  waiting : ∀ j heard, t.control = .standBy j heard → t.store.Sits j

variable {lib : Library σ} {t t' : Turn σ} {s' : Store} {thread : ThreadId} {roll : Roll}
  {step : Nat} {registry : RegistryId} {c : CandidateId} {candidate : Candidate} {x : RecordId}

theorem registers?_of_naming (h : t.control.naming? = none) : t.registers? s' = none := by
  unfold registers?
  rw [h]
  rfl

/-- Nothing is registered by a step that leaves the tables as they are. -/
theorem registers?_of_names (h : ∀ registry, s'.names registry = t.store.names registry) :
    t.registers? s' = none := by
  unfold registers?
  refine Option.filter_eq_none_iff.mpr fun asked _ => ?_
  rw [h]
  simp

theorem registers?_of_register (hc : t.control.naming? = some (registry, c)) {n : ForeignName}
    (h : s'.names registry = t.store.names registry ++ [n]) :
    t.registers? s' = some (registry, c) := by
  unfold registers?
  rw [hc]
  refine Option.filter_eq_some_iff.mpr ⟨rfl, ?_⟩
  rw [h, List.length_append]
  simp

/-- What becomes of the positions when the roll has grown. -/
theorem Placed.grow {roll' : Roll} (h : t.Placed thread roll)
    (hroll : ∀ {registry : RegistryId} {position : Nat} {g : Registration},
      (roll registry)[position]? = some g → (roll' registry)[position]? = some g)
    (hjobs : ∀ j ∈ t'.jobs, j ∈ t.jobs)
    (hwaiting : ∀ j heard, t'.control = .standBy j heard → t'.store.Sits j) :
    t'.Placed thread roll' where
  founding j hj := by
    obtain ⟨g, hg, hname, hthread⟩ := h.founding j (hjobs j hj)
    exact ⟨g, hroll hg, hname, hthread⟩
  waiting := hwaiting

/-- What a step keeps to; and a record that it comes up with for a candidate is
listed under the candidate's name. -/
structure Enrols (t t' : Turn σ) (thread : ThreadId) (roll : Roll) (step : Nat) : Prop where
  store : t'.store.Enrolled (roll.after step thread (t.registers? t'.store))
  placed : t'.Placed thread (roll.after step thread (t.registers? t'.store))
  retains : t'.store.Retains t.store
  answers : ∀ {registry : RegistryId} {c : CandidateId} {x : RecordId} {left : Local},
    t.concerns = some (registry, c) → t'.control = .give (.record x) left →
    t'.store.ListsFor registry c x

theorem Enrols.of {o : Option (RegistryId × CandidateId)} (hr : t.registers? t'.store = o)
    (he : t'.store.Enrolled (roll.after step thread o))
    (hp : t'.Placed thread (roll.after step thread o)) (hk : t'.store.Retains t.store)
    (ha : ∀ {registry : RegistryId} {c : CandidateId} {x : RecordId} {left : Local},
      t.concerns = some (registry, c) → t'.control = .give (.record x) left →
      t'.store.ListsFor registry c x) :
    Enrols t t' thread roll step := by
  subst hr
  exact ⟨he, hp, hk, ha⟩

theorem askName_jobs (t : Turn σ) (j : NameJob) (r : Registry) : (t.askName j r).jobs = t.jobs :=
  congrArg (List.filterMap Frame.job?) (askName_frames t j r)

theorem askName_names (t : Turn σ) (j : NameJob) (r : Registry) (registry : RegistryId) :
    (t.askName j r).store.names registry = t.store.names registry := by
  unfold askName
  split
  · rfl
  · exact (Store.note_names ..).names registry

/-- A record is handed out that is listed under the name of the candidate. -/
theorem nameAs_enrols {u : Turn σ} {o : Option (RegistryId × CandidateId)}
    (hcon : t.concerns = some (registry, c)) (hreg : t.registers? u.store = o)
    (he : u.store.Enrolled (roll.after step thread o)) (hp : t.Placed thread roll)
    (hjobs : ∀ j ∈ u.jobs, j ∈ t.jobs) (hk : u.store.Retains t.store)
    (hfor : u.store.ListsFor registry c x) :
    Enrols t (u.nameAs registry c x) thread roll step := by
  have ⟨name, hname, hlists⟩ := hfor
  obtain ⟨candidate, hcand, rfl⟩ := Option.map_eq_some_iff.mp hname
  have hretains := u.store.remember_retains c registry x
  refine .of hreg (he.remember hcand hlists) (hp.grow Roll.after_getElem? hjobs (by nofun))
    (hretains.trans hk) fun hcon' hgive => ?_
  rw [hcon] at hcon'
  cases hcon'
  cases hgive
  exact hretains.listsFor hfor

/-- Somebody who knows the position is given the record, or waits. -/
theorem askName_enrols {j : NameJob} {r : Registry} (fs : List (Frame σ))
    (hfs : fs.filterMap Frame.job? = t.jobs) (hcon : t.concerns = some (j.registry, j.candidate))
    (he : t.store.Enrolled roll) (hp : t.Placed thread roll)
    (hr : t.store.registries[j.registry]? = some r) (hsits : t.store.Sits j) :
    Enrols t (({ t with frames := fs }).askName j r) thread roll step := by
  have hjobs : ∀ i ∈ fs.filterMap Frame.job?, i ∈ t.jobs := fun i hi => hfs ▸ hi
  unfold askName
  split
  · rename_i x hx
    exact nameAs_enrols hcon (registers?_of_names fun _ => rfl) he hp hjobs (.refl _)
      (hsits.lists hr hx)
  · have hsame := Store.note_names t.store j.registry
      fun l => { l with foreignWaits := l.foreignWaits + 1 }
    refine .of (registers?_of_names hsame.names) (he.same hsame)
      (hp.grow id hjobs fun i heard hi => ?_) hsame.retains (fun _ => nofun)
    cases hi
    exact hsame.retains.sits hsits

/-- Every step keeps to the roll. -/
theorem Names.enrols (h : Names lib t t') (he : t.store.Enrolled roll) (hp : t.Placed thread roll) :
    Enrols t t' thread roll step := by
  cases h with
  | quiet hc hq =>
      refine .of (registers?_of_naming (naming?_of_concerns hc)) (he.same hq.store)
        (hp.grow id (fun j hj => hq.jobs.subset hj) fun j heard hj => ?_) hq.store.retains
        fun hcon => by rw [hc] at hcon; cases hcon
      have hstands := hq.control
      rw [hj] at hstands
      cases hstands
  | recalled hc hcand hx ht' =>
      subst ht'
      refine .of (registers?_of_names fun _ => rfl) he (hp.grow id (fun _ => id) (by nofun))
        (.refl _) fun hcon hgive => ?_
      rw [concerns_run hc] at hcon
      cases hcon
      cases hgive
      exact ⟨_, Store.nameOf?_eq hcand, he.cached hcand (Store.uniqueIn_eq_some hx)⟩
  | @asked registry c k s candidate r position hc hcand hr hposition ht' =>
      subst ht'
      obtain ⟨n, hn, hname⟩ := Store.Enrolled.of_position? hr hposition
      exact askName_enrols (j := ⟨registry, c, position⟩) _ rfl (concerns_run hc) he hp hr
        ⟨n, hn, (Store.nameOf?_eq hcand).trans (congrArg some hname.symm)⟩
  | @registered registry c k s candidate r hc hcand hr hposition hinit ht' =>
      subst ht'
      let registered := t.store.changeRegistry registry
        (·.register candidate.name (some candidate.record))
      have hnames : registered.names registry
          = t.store.names registry ++ [⟨candidate.name, some candidate.record⟩] :=
        Store.names_register hr
      have hlists : registered.Lists registry candidate.name candidate.record :=
        ⟨⟨candidate.name, some candidate.record⟩, by rw [hnames]; simp, rfl, rfl⟩
      refine nameAs_enrols (concerns_run hc) (registers?_of_register (by rw [hc]; rfl) hnames)
        (he.register hr (Store.nameOf?_eq hcand) hposition fun x hx => ?_) hp (fun _ => id)
        (Store.register_retains hr) ⟨_, Store.nameOf?_eq hcand, hlists⟩
      cases hx
      exact Store.ownOf?_eq hcand
  | @opened registry c k s candidate r callback hc hcand hr hposition hinit ht' =>
      subst ht'
      let registered := t.store.changeRegistry registry (·.register candidate.name none)
      have hnames : registered.names registry
          = t.store.names registry ++ [⟨candidate.name, none⟩] := Store.names_register hr
      refine .of (o := some (registry, c)) (registers?_of_register (by rw [hc]; rfl) hnames)
        (he.register hr (Store.nameOf?_eq hcand) hposition (by nofun)) ⟨fun j hj => ?_, by nofun⟩
        (Store.register_retains hr) (fun _ => nofun)
      rcases List.mem_cons.mp (hj : j ∈ ⟨registry, c, _⟩ :: t.jobs) with rfl | hold
      · refine ⟨⟨step, thread, c⟩, ?_, rfl, rfl⟩
        show (roll.enter registry _ registry)[_]? = _
        rw [Roll.enter_same, (he.lines registry).length_eq, List.getElem?_concat_length]
      · obtain ⟨g, hg, hname, hthread⟩ := hp.founding j hold
        exact ⟨g, Roll.enter_getElem? hg, hname, hthread⟩
  | @again j heard r hc hr ht' =>
      subst ht'
      refine askName_enrols t.frames rfl ?_ he hp hr (hp.waiting j heard hc)
      unfold concerns
      rw [hc]
  | @founded v left j rest candidate hc hf hcand ht' =>
      subst ht'
      have hjobs : t.jobs = j :: rest.filterMap Frame.job? := by
        unfold jobs
        rw [hf]
        rfl
      obtain ⟨g, hg, hname, -⟩ := hp.founding j (by rw [hjobs]; exact List.mem_cons_self)
      have hown : t.store.ownOf? g.candidate = some candidate.record := by
        rw [hname]
        exact Store.ownOf?_eq hcand
      have hlists := he.announce_lists (x := candidate.record) hg (hname ▸ Store.nameOf?_eq hcand)
      refine nameAs_enrols ?_ (registers?_of_naming (by rw [hc]; rfl)) (he.announce hg hown) hp
        (fun i hi => ?_) (he.announce_retains hg hown) ⟨_, Store.nameOf?_eq hcand, hlists⟩
      · unfold concerns
        rw [hc, hf]
        rfl
      · rw [hjobs]
        exact List.mem_cons_of_mem _ hi

-- ====================================================== new records

/-- A line has a record after a step because it had one, or it has been written
for a candidate without an initializer, or the frame that waits for the
initializer has been handed its end. -/
theorem Names.canonical (h : Names lib t t') {position : Nat} {n : ForeignName}
    (hn : (t'.store.names registry)[position]? = some n) (hx : n.canonical = some x) :
    (∃ n, (t.store.names registry)[position]? = some n ∧ n.canonical = some x)
      ∨ (∃ c, t.registers? t'.store = some (registry, c) ∧ lib.initializer c = none
          ∧ position = (t.store.names registry).length)
      ∨ ∃ v left j rest, t.control = .give v left ∧ t.frames = .founding j :: rest
          ∧ j.registry = registry ∧ j.position = position := by
  have hold : (∀ registry, t'.store.names registry = t.store.names registry) →
      ∃ n, (t.store.names registry)[position]? = some n ∧ n.canonical = some x := fun h =>
    ⟨n, h registry ▸ hn, hx⟩
  cases h with
  | quiet hc hq => exact .inl (hold hq.store.names)
  | recalled hc hcand hx ht' =>
      subst ht'
      exact .inl (hold fun _ => rfl)
  | asked hc hcand hr hposition ht' => exact .inl (hold fun _ => by rw [ht', askName_names])
  | again hc hr ht' => exact .inl (hold fun _ => by rw [ht', askName_names])
  | @registered other c k s candidate r hc hcand hr hposition hinit ht' =>
      subst ht'
      by_cases ho : other = registry
      · subst ho
        have hnames : (t.store.changeRegistry other
            (·.register candidate.name (some candidate.record))).names other
              = t.store.names other ++ [⟨candidate.name, some candidate.record⟩] :=
          Store.names_register hr
        rcases getElem?_concat_cases (hnames ▸ hn) with hn | ⟨rfl, -⟩
        · exact .inl ⟨n, hn, hx⟩
        · exact .inr (.inl ⟨c, registers?_of_register (by rw [hc]; rfl) hnames, hinit, rfl⟩)
      · exact .inl ⟨n, t.store.names_changeRegistry_of_ne ho ▸ hn, hx⟩
  | @opened other c k s candidate r callback hc hcand hr hposition hinit ht' =>
      subst ht'
      by_cases ho : other = registry
      · subst ho
        have hnames : (t.store.changeRegistry other (·.register candidate.name none)).names other
            = t.store.names other ++ [⟨candidate.name, none⟩] := Store.names_register hr
        rcases getElem?_concat_cases (hnames ▸ hn) with hn | ⟨-, rfl⟩
        · exact .inl ⟨n, hn, hx⟩
        · cases hx
      · exact .inl ⟨n, t.store.names_changeRegistry_of_ne ho ▸ hn, hx⟩
  | @founded v left j rest candidate hc hf hcand ht' =>
      subst ht'
      have hnames := t.store.names_announce j.registry registry j.position candidate.record
      have hat := hnames ▸ hn
      split at hat
      · rename_i ho
        by_cases hp : j.position = position
        · exact .inr (.inr ⟨v, left, j, rest, hc, hf, ho, hp⟩)
        · rw [List.getElem?_modify] at hat
          exact .inl ⟨n, by simpa [hp] using hat, hx⟩
      · exact .inl ⟨n, hat, hx⟩

/-- A registration that waits in a frame after a step and not before has just
been made, and its initializer is what the thread runs next. -/
theorem Names.opens (h : Names lib t t') {j : NameJob} (hj : t'.jobs = j :: t.jobs) :
    t.registers? t'.store = some (j.registry, j.candidate)
      ∧ j.position = (t.store.names j.registry).length
      ∧ ∃ callback, lib.initializer j.candidate = some callback
        ∧ t'.control
          = .run ((callback j.registry).bind fun _ => .done .unit) (.start .nothing) := by
  have hsame : t'.jobs ≠ t.jobs := by
    rw [hj]
    exact List.cons_ne_self j t.jobs
  cases h with
  | quiet hc hq =>
      have hle := hq.jobs.length_le
      rw [hj, List.length_cons] at hle
      omega
  | recalled hc hcand hx ht' => exact (hsame (by rw [ht']; rfl)).elim
  | asked hc hcand hr hposition ht' => exact (hsame (by rw [ht', askName_jobs]; rfl)).elim
  | again hc hr ht' => exact (hsame (by rw [ht', askName_jobs])).elim
  | registered hc hcand hr hposition hinit ht' => exact (hsame (by rw [ht']; rfl)).elim
  | @opened registry c k s candidate r callback hc hcand hr hposition hinit ht' =>
      subst ht'
      obtain rfl : ⟨registry, c, (t.store.names registry).length⟩ = j := (List.cons.inj hj).1
      exact ⟨registers?_of_register (by rw [hc]; rfl) (Store.names_register hr), rfl, callback,
        hinit, rfl⟩
  | @founded v left j' rest candidate hc hf hcand ht' =>
      subst ht'
      have hlength := congrArg List.length hj
      unfold jobs at hlength
      rw [hf] at hlength
      simp only [nameAs, List.filterMap_cons, Frame.job?, List.length_cons] at hlength
      omega

/-- A candidate that is registered is left waiting for its initializer, if it
has one. -/
theorem Names.founds (h : Names lib t t') (hreg : t.registers? t'.store = some (registry, c))
    (hinit : (lib.initializer c).isSome = true) :
    t'.jobs = ⟨registry, c, (t.store.names registry).length⟩ :: t.jobs := by
  have hasks : t.control.naming? = some (registry, c) := (Option.filter_eq_some_iff.mp hreg).1
  have hgrows : t'.store.names registry ≠ t.store.names registry := fun hsame => by
    have hlt := (Option.filter_eq_some_iff.mp hreg).2
    rw [hsame] at hlt
    simp at hlt
  cases h with
  | quiet hc => rw [naming?_of_concerns hc] at hasks; cases hasks
  | recalled hc hcand hx ht' => exact (hgrows (by rw [ht'])).elim
  | asked hc hcand hr hposition ht' => exact (hgrows (by rw [ht', askName_names])).elim
  | again hc => rw [hc] at hasks; cases hasks
  | founded hc => rw [hc] at hasks; cases hasks
  | registered hc hcand hr hposition hnone =>
      rw [hc] at hasks
      cases hasks
      rw [hnone] at hinit
      cases hinit
  | opened hc hcand hr hposition hsome ht' =>
      rw [hc] at hasks
      cases hasks
      rw [ht']
      rfl

end Turn

-- ====================================================== processes

/-- No name has been registered, and no candidate has been told of a record. -/
structure Store.Unnamed (s : Store) : Prop where
  tables : ∀ registry, s.names registry = []
  candidates : ∀ candidate ∈ s.candidates, candidate.unique = none

theorem Store.Unnamed.enrolled {s : Store} (h : s.Unnamed) : s.Enrolled fun _ => [] where
  lines registry := by
    rw [h.tables]
    exact .nil
  distinct registry := by
    rw [h.tables]
    exact .nil
  cached hcand hx := by
    rw [h.candidates _ (Array.mem_of_getElem? hcand)] at hx
    cases hx

namespace Machine

/-- Who is registered by a step that a thread takes, and where. -/
def registers? (m m' : Machine σ) (t : ThreadId) : Option (RegistryId × CandidateId) :=
  (m.threads[t]?).bind fun thread => (m.turn thread).registers? m'.store

/-- Tables, candidates and threads are as the roll says. -/
structure Enrolled (m : Machine σ) (roll : Roll) : Prop where
  store : m.store.Enrolled roll
  threads : ∀ {u : ThreadId} {thread : Thread σ}, m.threads[u]? = some thread →
    (m.turn thread).Placed u roll

variable {lib : Library σ} {m m' start : Machine σ} {t : ThreadId}

theorem registers?_eq {thread : Thread σ} (h : m.threads[t]? = some thread) :
    m.registers? m' t = (m.turn thread).registers? m'.store := by
  unfold registers?
  rw [h]
  rfl

/-- A thread that is about to run its first program holds no position. -/
theorem placed_of_start {thread : Thread σ} {roll : Roll} (hf : thread.frames = [])
    (hc : ∃ p s, thread.control = .run p s) : (m.turn thread).Placed t roll where
  founding j hj := by
    have hjobs : (m.turn thread).jobs = [] := congrArg (List.filterMap Frame.job?) hf
    rw [hjobs] at hj
    cases hj
  waiting j heard hj := by
    obtain ⟨p, s, hc⟩ := hc
    cases hj.symm.trans hc

theorem Fresh.enrolled (hf : start.Fresh) (hn : start.store.Unnamed) :
    start.Enrolled fun _ => [] where
  store := hn.enrolled
  threads hu := by
    obtain ⟨hframes, hrun⟩ := hf.running _ (Array.mem_of_getElem? hu)
    exact placed_of_start hframes hrun

/-- Every step of a process keeps to the roll. -/
theorem Enrolled.step {roll : Roll} (he : m.Enrolled roll) (h : m.step lib t = some m')
    (step : Nat) :
    m'.Enrolled (roll.after step t (m.registers? m' t)) ∧ m'.store.Retains m.store := by
  obtain ⟨thread, thread', hthread, hthread', hnames⟩ := step_names h
  have henrols : Turn.Enrols _ _ t roll step := hnames.enrols he.store (he.threads hthread)
  rw [registers?_eq hthread]
  refine ⟨⟨henrols.store, fun {u other} hu => ?_⟩, henrols.retains⟩
  by_cases htu : t = u
  · subst htu
    obtain rfl := Option.some.inj (hthread'.symm.trans hu)
    exact henrols.placed
  · rcases step_others h htu hu with hold | ⟨hframes, hrun⟩
    · have hplaced := he.threads hold
      exact ⟨fun j hj => by
          obtain ⟨g, hg, hname, hon⟩ := hplaced.founding j hj
          exact ⟨g, Roll.after_getElem? hg, hname, hon⟩,
        fun j heard hj => henrols.retains.sits (hplaced.waiting j heard hj)⟩
    · exact placed_of_start hframes hrun

-- ====================================================== runs

namespace Chronicle

/-- What has been registered before each state. -/
def roll (r : Chronicle lib start) : Nat → Roll
  | 0 => fun _ => []
  | k + 1 => (r.roll k).after k (r.mover k) ((r.state k).registers? (r.state (k + 1)) (r.mover k))

/-- A candidate is registered in a step. -/
def Registers (r : Chronicle lib start) (k : Nat) (registry : RegistryId) (c : CandidateId) :
    Prop :=
  k < r.length ∧ (r.state k).registers? (r.state (k + 1)) (r.mover k) = some (registry, c)

/-- An initializer returns in a step: its end is handed to the frame that waits
for it. -/
def Concludes (r : Chronicle lib start) (k : Nat) (j : NameJob) : Prop :=
  k < r.length ∧ ∃ thread v left rest, (r.state k).threads[r.mover k]? = some thread
    ∧ thread.control = .give v left ∧ thread.frames = .founding j :: rest

variable {r : Chronicle lib start} {registry : RegistryId} {position i j k : Nat}
  {g : Registration} {c : CandidateId}

/-- What is on the roll has been registered. -/
theorem mem_roll (hk : k ≤ r.length) (hg : g ∈ r.roll k registry) :
    g.step < k ∧ g.thread = r.mover g.step ∧ r.Registers g.step registry g.candidate := by
  induction k with
  | zero => cases hg
  | succ k ih =>
      rcases Roll.mem_after hg with hg | ⟨c, hreg, rfl⟩
      · obtain ⟨hlt, hrest⟩ := ih (Nat.le_of_succ_le hk) hg
        exact ⟨Nat.lt_succ_of_lt hlt, hrest⟩
      · exact ⟨Nat.lt_succ_self k, rfl, hk, hreg⟩

theorem roll_getElem? (hij : i ≤ j) (hg : (r.roll i registry)[position]? = some g) :
    (r.roll j registry)[position]? = some g := by
  induction hij with
  | refl => exact hg
  | step _ ih => exact Roll.after_getElem? ih

section

variable (hf : start.Fresh) (hn : start.store.Unnamed)

include hf hn

/-- The roll of a run fits every state of it. -/
theorem enrolled (r : Chronicle lib start) (hk : k ≤ r.length) :
    (r.state k).Enrolled (r.roll k) := by
  induction k with
  | zero =>
      rw [r.first]
      exact hf.enrolled hn
  | succ k ih => exact ((ih (Nat.le_of_succ_le hk)).step (r.step k hk) k).1

/-- Whatever is listed stays listed. -/
theorem retains (r : Chronicle lib start) (hij : i ≤ j) (hj : j ≤ r.length) :
    (r.state j).store.Retains (r.state i).store := by
  induction hij with
  | refl => exact .refl _
  | @step j hij ih =>
      have hle := Nat.le_of_succ_le hj
      exact ((r.enrolled hf hn hle).step (r.step j hj) j).2.trans (ih hle)

/-- Candidates keep their names. -/
theorem nameOf?_eq (r : Chronicle lib start) (hk : k ≤ r.length) (c : CandidateId) :
    (r.state k).store.nameOf? c = start.store.nameOf? c := by
  have h := (r.retains hf hn (Nat.zero_le k) hk).nameOf? c
  rwa [r.first] at h

theorem ownOf?_eq (r : Chronicle lib start) (hk : k ≤ r.length) (c : CandidateId) :
    (r.state k).store.ownOf? c = start.store.ownOf? c := by
  have h := (r.retains hf hn (Nat.zero_le k) hk).ownOf? c
  rwa [r.first] at h

/-- Whoever is registered has the next line from then on. -/
theorem Registers.entered (h : r.Registers k registry c) :
    (r.roll (k + 1) registry)[((r.state k).store.names registry).length]?
      = some ⟨k, r.mover k, c⟩ := by
  obtain ⟨hk, hreg⟩ := h
  have hlines := (r.enrolled hf hn (Nat.le_of_lt hk)).store.lines registry
  rw [roll, hreg, hlines.length_eq]
  show (Roll.enter _ registry _ registry)[_]? = _
  rw [Roll.enter_same, List.getElem?_concat_length]

/-- A name is registered once. -/
theorem registers_once {k k' : Nat} {c c' : CandidateId} (h : r.Registers k registry c)
    (h' : r.Registers k' registry c') (hname : start.store.nameOf? c = start.store.nameOf? c') :
    k = k' ∧ c = c' := by
  -- both have a line in any later state, and it is the same line
  have hlate : max k k' + 1 ≤ r.length := Nat.succ_le_of_lt (Nat.max_lt.mpr ⟨h.1, h'.1⟩)
  have he := (r.enrolled hf hn hlate).store
  have hg := roll_getElem? (Nat.succ_le_succ (Nat.le_max_left k k')) (h.entered hf hn)
  have hg' := roll_getElem? (Nat.succ_le_succ (Nat.le_max_right k k')) (h'.entered hf hn)
  rw [← r.nameOf?_eq hf hn hlate c, ← r.nameOf?_eq hf hn hlate c'] at hname
  rw [← he.registration_unique hg hg' hname, hg] at hg'
  cases hg'
  exact ⟨rfl, rfl⟩

/-- A candidate with an initializer is canonical for nobody before its
initializer has returned, on the thread that registered it. -/
theorem concluded (hk : k ≤ r.length) {n : ForeignName} {x : RecordId}
    (hline : ((r.state k).store.names registry)[position]? = some n)
    (hx : n.canonical = some x) (hg : (r.roll k registry)[position]? = some g)
    (hinit : (lib.initializer g.candidate).isSome = true) :
    ∃ l, g.step < l ∧ l < k ∧ r.mover l = g.thread
      ∧ r.Concludes l ⟨registry, g.candidate, position⟩ := by
  induction k generalizing n with
  | zero =>
      rw [r.first, hn.tables] at hline
      cases hline
  | succ k ih =>
      have hle := Nat.le_of_succ_le hk
      have he := r.enrolled hf hn hle
      obtain ⟨thread, thread', hthread, -, hnames⟩ := step_names (r.step k hk)
      have hold : ∀ {g'}, (r.roll k registry)[position]? = some g' → g' = g := fun hg' =>
        Option.some.inj ((Roll.after_getElem? hg').symm.trans hg)
      rcases hnames.canonical hline hx with ⟨n, hn', hx⟩ | ⟨c, hreg, hnone, rfl⟩
        | ⟨v, left, j, rest, hc, hfs, rfl, rfl⟩
      · obtain ⟨g', hg', -⟩ := he.store.line hn'
        obtain ⟨l, hl, hlk, hrest⟩ := ih hle hn' hx (hold hg' ▸ hg')
        exact ⟨l, hl, Nat.lt_succ_of_lt hlk, hrest⟩
      · -- it was registered just now, and has no initializer
        have hentered := Registers.entered hf hn (r := r) ⟨hk, (registers?_eq hthread).trans hreg⟩
        obtain rfl := Option.some.inj (hentered.symm.trans hg)
        rw [hnone] at hinit
        cases hinit
      · obtain ⟨g', hg', hname, hon⟩ := (he.threads hthread).founding j <| by
          unfold Turn.jobs
          rw [hfs]
          exact List.mem_cons_self
        obtain rfl := hold hg'
        refine ⟨k, (mem_roll hle (List.mem_of_getElem? hg')).1, Nat.lt_succ_self k, hon.symm, hk,
          thread, v, left, rest, hthread, hc, ?_⟩
        rw [hname]
        exact hfs

end

end Chronicle

end Machine

end TypeRecords
