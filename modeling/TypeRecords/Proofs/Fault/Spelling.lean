/-
Why spelling out a name comes to an end.

The name of a record contains the names of its arguments, which contain the
names of theirs. Records may refer to each other in circles over superclasses
and dependencies, and a record can be passed on as an argument before it is
finished; so it takes an argument that there is no circle in this one
direction. It is the order in which records come into being. A request can only
name records that are there, the record that it makes comes after all of them,
and arguments never change (`Machine.step_record`). So whatever has arguments
was created by some step, and after each of them (`Chronicle.created_after`).

# What follows for names

`Records.Spells` is spelling out without any precaution: it holds of a record
and a text if going from arguments to their arguments comes to an end, and the
text is what comes of it. `Records.display` looks at numbers before it goes on,
so that it is a function of all records there could be; on records that are
ordered by age the two agree (`Records.Descending.spells_iff`).

# What follows for reports

A fault that a thread comes upon is worded with the names of records that are
there (`Turn.blamed`): those on a chain of dependencies, which is followed only
through records that are there, the record of an entry, or the type that a
witness table is for.
-/
import TypeRecords.Proofs.Conforming.Attempts
import TypeRecords.Proofs.Fields.Known
import TypeRecords.Proofs.Waiting.Cycles

namespace TypeRecords

variable {σ : Type}

-- ====================================================== spelling out

/-- The name of a record, with its arguments under `names`. -/
def Record.spell (r : Record) (names : List String) : String :=
  let list := String.intercalate ", " names
  if r.kind = .tuple then "(" ++ list ++ ")"
  else if r.arguments = [] then r.name
  else r.name ++ "<" ++ list ++ ">"

namespace Records

variable {rs : Records} {x : RecordId} {r : Record} {text : String}

/-- Spelling out the name of a record, and for that the names of its arguments,
comes to an end, with this text. -/
inductive Spells (rs : Records) : RecordId → String → Prop
  | intro {x : RecordId} {r : Record} {names : List String} (hr : rs[x]? = some r)
      (hnames : List.Forall₂ (Spells rs) r.arguments names) : Spells rs x (r.spell names)

/-- Arguments that can be spelled in one way each are shown that way. -/
theorem names_eq {xs : List RecordId} {names : List String}
    (h : List.Forall₂ rs.Spells xs names)
    (hone : ∀ y ∈ xs, ∀ text, rs.Spells y text → text = rs.display y) :
    names = xs.map rs.display := by
  induction h with
  | nil => rfl
  | cons hname hnames ih =>
    rw [List.map_cons, ← hone _ List.mem_cons_self _ hname,
      ← ih fun y hy => hone y (List.mem_cons_of_mem _ hy)]

/-- Arguments are older than what they are arguments of. -/
def Descending (rs : Records) : Prop :=
  ∀ (x : RecordId) (r : Record), rs[x]? = some r → ∀ y ∈ r.arguments, y < x

/-- A record is shown by its own name and the names of its arguments. -/
theorem display_eq (hr : rs[x]? = some r) (hold : ∀ y ∈ r.arguments, y < x) :
    rs.display x = r.spell (r.arguments.map rs.display) := by
  have hnames : (r.arguments.map fun y => if _h : y < x then rs.display y else "")
      = r.arguments.map rs.display :=
    List.map_congr_left fun y hy => dif_pos (hold y hy)
  rw [display, hr]
  simp only [hnames]
  rfl

namespace Descending

/-- Going from records to their arguments comes to an end. -/
theorem wellFounded (h : rs.Descending) : WellFounded fun y x => y ∈ rs.argumentsOf x := by
  refine Subrelation.wf (fun {y x} hy => ?_) Nat.lt_wfRel.wf
  unfold argumentsOf at hy
  split at hy
  · rename_i r hr
    exact h x r hr y hy
  · cases hy

/-- So every record has a name that can be spelled out: the one it is shown by. -/
theorem spells (h : rs.Descending) (hx : x < rs.size) : rs.Spells x (rs.display x) := by
  induction x using Nat.strong_induction_on with
  | h x ih =>
    have hr : rs[x]? = some rs[x] := Array.getElem?_eq_getElem hx
    have hold := h x _ hr
    rw [display_eq hr hold]
    refine .intro hr (List.forall₂_map_right_iff.mpr (List.forall₂_same.mpr fun y hy => ?_))
    exact ih y (hold y hy) (Nat.lt_trans (hold y hy) hx)

/-- There is only one way to spell a name. -/
theorem eq_display (h : rs.Descending) (hs : rs.Spells x text) : text = rs.display x := by
  induction x using Nat.strong_induction_on generalizing text with
  | h x ih =>
    obtain ⟨hr, hnames⟩ := hs
    have hold := h x _ hr
    rw [display_eq hr hold, names_eq hnames fun y hy _ hy' => ih y (hold y hy) hy']

/-- It has no other. -/
theorem spells_iff (h : rs.Descending) (hx : x < rs.size) :
    rs.Spells x text ↔ text = rs.display x :=
  ⟨h.eq_display, fun heq => heq ▸ h.spells hx⟩

end Descending

end Records

-- ====================================================== what programs name

/-- The records that a report of the cycle names. -/
def Cycle.records (c : Cycle) : List RecordId := c.start :: c.links.map (·.target)

/-- The records that the next step names, besides those it may come to refer
to: the type that a table is asked for, and those in a cycle that a program
reports of its own accord. -/
def Control.mentions : Control σ → List RecordId
  | .run (.table _ _ conforming _ _) _ => [conforming]
  | .run (.raise _ _ (.cycle c)) _ => c.records
  | c => c.names

/-- What a step may come to refer to is mentioned by it. -/
theorem Control.mem_mentions {c : Control σ} {x : RecordId} (h : x ∈ c.names) :
    x ∈ c.mentions := by
  unfold mentions
  split
  · cases h
  · cases h
  · exact h

/-- Whatever a step names is there. -/
def Machine.Literate (m : Machine σ) : Prop :=
  ∀ thread ∈ m.threads, ∀ x ∈ thread.control.mentions, x < m.store.records.size

instance (m : Machine σ) : Decidable m.Literate :=
  inferInstanceAs (Decidable (∀ thread ∈ m.threads, ∀ x ∈ thread.control.mentions,
    x < m.store.records.size))

/-- Where everything that is mentioned is there, so is everything that is referred to. -/
theorem Machine.Literate.grounded {m : Machine σ} (h : m.Literate) : m.Grounded :=
  fun thread hthread x hx => h thread hthread x (Control.mem_mentions hx)

-- ====================================================== in the order of creation

namespace Machine

variable {lib : Library σ} {start m m' : Machine σ} {t u : ThreadId} {x y : RecordId}

/-- A record that is there after a step was there before, with the arguments
that it has, or is the last one, and its arguments are what a thread has
named. -/
theorem step_record {r' : Record} (h : m.step lib t = some m')
    (hr' : m'.store.records[x]? = some r') :
    (∃ r, m.store.records[x]? = some r ∧ r'.arguments = r.arguments)
      ∨ x = m.store.records.size
        ∧ ∀ y ∈ r'.arguments, ∃ thread ∈ m.threads, y ∈ thread.control.names := by
  obtain ⟨-, thread, hthread, hstepped⟩ := step_cases h
  cases hstepped with
  | program p' started hc hp hstore hthreads hnew => exact .inl ⟨r', hstore ▸ hr', rfl⟩
  | @alone turn hturn =>
      have hwrites := Turn.step_writes hturn
      rcases hwrites.record hwrites.gains hr'
        with ⟨r, hr, hgains⟩ | ⟨registry, q, c, k, s, hc, hmade, hx⟩
      · exact .inl ⟨r, hr, hgains.arguments⟩
      · refine .inr ⟨hx, fun y hy => ⟨thread, Array.mem_of_getElem? hthread, ?_⟩⟩
        rw [show thread.control = _ from hc]
        show y ∈ c.names
        rw [← Library.arguments_of_made hmade]
        exact hy

namespace Chronicle

variable {r : Chronicle lib start} {i j k : Nat}

/-- The record comes into being in this step. -/
def Creates (r : Chronicle lib start) (k : Nat) (x : RecordId) : Prop :=
  (r.state k).store.records.size ≤ x ∧ x < (r.state (k + 1)).store.records.size

/-- A record was there from the start, or some step has made it. -/
theorem created (r : Chronicle lib start) (hx : x < (r.state k).store.records.size) :
    x < start.store.records.size ∨ ∃ i < k, r.Creates i x := by
  induction k with
  | zero => exact .inl (r.first ▸ hx)
  | succ k ih =>
      rcases Nat.lt_or_ge x (r.state k).store.records.size with hlt | hge
      · exact (ih hlt).imp_right fun ⟨i, hi, hcreates⟩ => ⟨i, Nat.lt_succ_of_lt hi, hcreates⟩
      · exact .inr ⟨k, Nat.lt_succ_self k, hge, hx⟩

/-- What has arguments was created, and they were there by then. -/
theorem created_after (hplain : ∀ record ∈ start.store.records, record.arguments = [])
    (hg : ∀ j < r.length, (r.state j).Grounded) (hk : k ≤ r.length) {record : Record}
    (hr : (r.state k).store.records[x]? = some record) (hy : y ∈ record.arguments) :
    ∃ j < k, r.Creates j x ∧ y < (r.state j).store.records.size := by
  induction k generalizing record with
  | zero =>
      rw [r.first] at hr
      rw [hplain record (Array.mem_of_getElem? hr)] at hy
      cases hy
  | succ k ih =>
      have hx := (Array.getElem?_eq_some_iff.mp hr).1
      rcases step_record (r.step k hk) hr with ⟨old, hold, hargs⟩ | ⟨hlast, hnamed⟩
      · obtain ⟨j, hj, hcreates⟩ := ih (Nat.le_of_succ_le hk) hold (hargs ▸ hy)
        exact ⟨j, Nat.lt_succ_of_lt hj, hcreates⟩
      · obtain ⟨thread, hthread, hname⟩ := hnamed y hy
        exact ⟨k, Nat.lt_succ_self k, ⟨Nat.le_of_eq hlast.symm, hx⟩, hg k hk thread hthread y hname⟩

/-- Records are made of older ones, as long as programs name only those that are there. -/
theorem descending (hplain : ∀ record ∈ start.store.records, record.arguments = [])
    (hg : ∀ j < r.length, (r.state j).Grounded) (hk : k ≤ r.length) :
    (r.state k).store.records.Descending := by
  intro x record hr y hy
  obtain ⟨j, -, hcreates, hlt⟩ := created_after hplain hg hk hr hy
  exact Nat.lt_of_lt_of_le hlt hcreates.1

end Chronicle

end Machine

-- ====================================================== what reports name

/-- A chain that closes stays among the records that there are. -/
theorem Chain.follow_bound {w : Waits} {start : RecordId} {earlier links : List Dependency}
    {last : Dependency} (h : follow w start earlier last = some links) (hstart : start < w.bound)
    (hearlier : ∀ d ∈ earlier, d.target < w.bound) : ∀ d ∈ links, d.target < w.bound := by
  fun_induction follow with
  | case1 earlier last hclose =>
      cases h
      intro d hd
      rcases List.mem_cons.mp (List.mem_reverse.mp hd) with rfl | hd
      · rcases hclose with heq | hmem
        · exact heq ▸ hstart
        · obtain ⟨e, he, heq⟩ := List.mem_map.mp hmem
          exact heq ▸ hearlier e he
      · exact hearlier d hd
  | case2 => cases h
  | case3 earlier last hopen hbound d hnext ih =>
      exact ih h fun e he => (List.mem_cons.mp he).elim (· ▸ hbound) (hearlier e)
  | case4 => cases h

/-- A cycle that is found runs through records that are there. -/
theorem Store.cycle?_bound {s : Store} {registry : RegistryId} {start : RecordId}
    {first : Dependency} {c : Cycle} (h : s.cycle? registry start first = some c)
    (hstart : start < s.records.size) : ∀ x ∈ c.records, x < s.records.size := by
  obtain ⟨links, hlinks, rfl⟩ := Option.map_eq_some_iff.mp h
  intro x hx
  rcases List.mem_cons.mp hx with rfl | hx
  · exact hstart
  · obtain ⟨d, hd, rfl⟩ := List.mem_map.mp hx
    exact Chain.follow_bound hlinks hstart nofun d hd

/-- A thread is told of work of its own on the record that the entry has. -/
theorem Entry.record_of_ownWork {e : Entry} {thread : ThreadId} {q : Request} {x : RecordId}
    (h : e.look thread q = .ownWork x) : e.record = some x := by
  unfold look at h
  split at h
  · cases h
  · split at h
    · cases h
    · split at h
      · cases h
      · split at h
        · cases h
          assumption
        · cases h

namespace Turn

/-- The records whose names go into the report, if the next step of the thread
comes upon a fault, or raises one for a program. -/
def blamed (t : Turn σ) (a : Actor) : List RecordId :=
  match t.control, t.frames with
  | .stopped d dep, _ => ((t.store.cycle? d.registry d.record dep).map Cycle.records).getD []
  | .await _ e q, _ =>
    match t.store.entries[e]? with
    | some entry =>
      match entry.look a.id q with
      | .ownWork x => [x]
      | _ => []
    | none => []
  | .give _ _, .filling j :: _ => [j.conforming]
  | .run (.raise _ _ (.cycle c)) _, _ => c.records
  | _, _ => []

/-- The types of the tables that a thread is after are there. -/
structure Typed (t : Turn σ) : Prop where
  acquires : ∀ {j : TableJob} {arguments : List TableId}, t.control = .acquire j arguments →
    j.conforming < t.store.records.size
  attempts : ∀ j ∈ t.attempts, j.conforming < t.store.records.size

variable {lib : Library σ} {a : Actor} {t t' : Turn σ}

/-- A step goes after the tables of types that are there. -/
theorem Typed.step (hs : t.Typed) (h : t.step lib a = some t')
    (hm : ∀ x ∈ t.control.mentions, x < t.store.records.size) : t'.Typed := by
  have hle := (step_writes h).gains.size_le
  have hold : ∀ j ∈ t.attempts, j.conforming < t'.store.records.size := fun j hj =>
    Nat.lt_of_lt_of_le (hs.attempts j hj) hle
  -- an attempt that is over has taken its frame with it
  have hpop : ∀ {j : TableJob}, t.frames = .filling j :: t'.frames →
      ∀ i ∈ t'.attempts, i.conforming < t'.store.records.size := by
    intro j hf i hi
    refine hold i ?_
    rw [attempts_of_filling hf]
    exact List.mem_cons_of_mem _ hi
  cases step_builds h with
  | aside hc haside hf =>
      refine ⟨fun hacquire => ?_, fun j hj => hold j (hf ▸ hj)⟩
      have hnot := haside.control
      rw [hacquire] at hnot
      cases hnot
  | @asked registry c conforming arguments k s hc hown ht' =>
      have hthere : conforming < t'.store.records.size :=
        Nat.lt_of_lt_of_le (hm conforming (hc ▸ List.mem_cons_self)) hle
      subst ht'
      refine ⟨fun hacquire => ?_, hold⟩
      cases hacquire
      exact hthere
  | taken hc hcell hfull ht' =>
      subst ht'
      exact ⟨nofun, hold⟩
  | @begun j arguments cell c p hc hcell hempty hconf hprot hcells htables hf hc' =>
      refine ⟨fun hacquire => ?_, fun i hi => ?_⟩
      · have hnot := opening_acquires c p j arguments
        rw [← hc', hacquire] at hnot
        cases hnot
      · rw [attempts_of_filling hf] at hi
        rcases List.mem_cons.mp hi with rfl | hi
        · exact Nat.lt_of_lt_of_le (hs.acquires hc) hle
        · exact hold i hi
  | succeeded hc hf hprot hfull hcells htables hc' =>
      refine ⟨fun hacquire => ?_, hpop hf⟩
      cases hc'.symm.trans hacquire
  | failed hc hf hcells htables hc' =>
      refine ⟨fun hacquire => ?_, hpop hf⟩
      cases hc'.symm.trans hacquire

/-- A thread whose program is running is after the tables that it attempts, and no other. -/
theorem Typed.of_run {p : Program σ Value} {s : Setting σ} (hc : t.control = .run p s)
    (hattempts : ∀ j ∈ t.attempts, j.conforming < t.store.records.size) : t.Typed :=
  ⟨fun hacquire => (by cases hc.symm.trans hacquire), hattempts⟩

/-- Whoever has no frames is after nothing yet. -/
theorem Typed.start {p : Program σ Value} {s : Setting σ} (hc : t.control = .run p s)
    (hf : t.frames = []) : t.Typed := by
  refine .of_run hc ?_
  unfold Turn.attempts
  rw [hf]
  nofun

end Turn

namespace Machine

variable {lib : Library σ} {start m m' : Machine σ} {t u : ThreadId} {thread : Thread σ}
  {x : RecordId}

/-- All threads are after tables of types that are there. -/
def Typed (m : Machine σ) : Prop :=
  ∀ (u : ThreadId) (thread : Thread σ), m.threads[u]? = some thread → (m.turn thread).Typed

/-- Whichever thread takes the step, the others are after what they were after. -/
theorem Typed.step (hm : m.Typed) (h : m.step lib t = some m') (hl : m.Literate) : m'.Typed := by
  intro u thread hu
  have hle := (step_gains h).size_le
  have hkeep : ∀ {thread : Thread σ} {turn : Turn σ}, (m.turn thread).Typed →
      turn.store = m'.store → turn.frames = thread.frames → ∀ j ∈ turn.attempts,
      j.conforming < turn.store.records.size := by
    intro thread turn ht hstore hframes j hj
    rw [hstore]
    refine Nat.lt_of_lt_of_le (ht.attempts j ?_) hle
    unfold Turn.attempts at hj
    rw [hframes] at hj
    exact hj
  refine step_threads (P := Turn.Typed) h (fun hthread hturn _ => ?_)
    (fun hthread hc hp hstore => .of_run rfl (hkeep (hm _ _ hthread) rfl rfl))
    (fun hu => ⟨fun hacquire => ?_, hkeep (hm _ _ hu) rfl rfl⟩)
    (fun hframes ⟨p, s, hrun⟩ => .start hrun hframes) hu
  · exact (hm _ _ hthread).step hturn (hl _ (Array.mem_of_getElem? hthread))
  · exact Nat.lt_of_lt_of_le ((hm _ _ hu).acquires hacquire) hle

/-- At first nobody is after a table. -/
theorem Fresh.typed (hf : start.Fresh) : start.Typed := by
  intro u thread hu
  obtain ⟨hframes, p, s, hrun⟩ := hf.running thread (Array.mem_of_getElem? hu)
  exact .start hrun hframes

/-- The types of all tables that are ever asked for are there. -/
theorem Chronicle.typed (hf : start.Fresh) (r : Chronicle lib start)
    (hl : ∀ k ≤ r.length, (r.state k).Literate) {k : Nat} (hk : k ≤ r.length) :
    (r.state k).Typed := by
  induction k with
  | zero =>
      rw [r.first]
      exact hf.typed
  | succ k ih => exact (ih (Nat.le_of_succ_le hk)).step (r.step k hk) (hl k (Nat.le_of_succ_le hk))

/-- Whatever a thread may report, the names in it are those of records that are
there. -/
theorem blamed_lt (ho : m.store.Owned m.holds) (hm : m.Typed) (hl : m.Literate)
    (hu : m.threads[u]? = some thread) (hx : x ∈ (m.turn thread).blamed ⟨u, thread.name⟩) :
    x < m.store.records.size := by
  unfold Turn.blamed at hx
  split at hx
  · rename_i d dep hc
    have hstop : .stopping u d (some dep) ∈ m.holds := mem_holds_of_control hu (by
      rw [show thread.control = _ from hc]
      exact List.mem_cons_self)
    obtain ⟨e, he, hd, -⟩ := ho.fits hstop
    cases hcycle : m.store.cycle? d.registry d.record dep with
    | none =>
        rw [show (m.turn thread).store.cycle? _ _ _ = _ from hcycle] at hx
        cases hx
    | some c =>
        rw [show (m.turn thread).store.cycle? _ _ _ = _ from hcycle] at hx
        exact Store.cycle?_bound hcycle (Store.lt_size_of_keyOf (ho.keyed he hd.record)) x hx
  · split at hx
    · rename_i entry he
      split at hx
      · rename_i hlook
        obtain rfl := List.mem_singleton.mp hx
        exact Store.lt_size_of_keyOf (ho.keyed he (Entry.record_of_ownWork hlook))
      · cases hx
    · cases hx
  · rename_i j rest hc hf
    obtain rfl := List.mem_singleton.mp hx
    refine (hm _ _ hu).attempts j ?_
    rw [Turn.attempts_of_filling hf]
    exact List.mem_cons_self
  · rename_i c s hc
    refine hl thread (Array.mem_of_getElem? hu) x ?_
    rw [show thread.control = _ from hc]
    exact hx
  · cases hx

/-- Wherever a run gets to in which only records that are there are named, and
whatever its callbacks pass on, make a superclass of what, or wait for:

- an argument of a record, or an element of a tuple, needs no completion and was
  there from the start, or was created in an earlier step than the record;
- so there is an end to going from arguments to their arguments;
- the name of a record can be spelled out in one way, and in no other, which is
  its `display`;
- and so can every name that goes into a report. -/
theorem Chronicle.arguments_older (hf : start.Fresh)
    (hplain : ∀ record ∈ start.store.records, record.arguments = [])
    (r : Chronicle lib start) (hl : ∀ k ≤ r.length, (r.state k).Literate) {k : Nat}
    (hk : k ≤ r.length) :
    (∀ (x y : RecordId) (record : Record), (r.state k).store.records[x]? = some record →
      y ∈ record.arguments →
      (∃ old, (r.state k).store.records[y]? = some old ∧ old.origin = .fixed)
        ∨ ∃ i j, i < j ∧ j < k ∧ r.Creates i y ∧ r.Creates j x)
    ∧ (WellFounded fun y x => y ∈ (r.state k).store.records.argumentsOf x)
    ∧ (∀ x < (r.state k).store.records.size, ∀ text,
      (r.state k).store.records.Spells x text ↔ text = (r.state k).store.records.display x)
    ∧ ∀ (u : ThreadId) (thread : Thread σ), (r.state k).threads[u]? = some thread →
      ∀ x ∈ ((r.state k).turn thread).blamed ⟨u, thread.name⟩,
        ∃ text, (r.state k).store.records.Spells x text := by
  have hg : ∀ j < r.length, (r.state j).Grounded := fun j hj => (hl j (Nat.le_of_lt hj)).grounded
  have hold := Chronicle.descending hplain hg hk
  refine ⟨fun x y record hr hy => ?_, hold.wellFounded, fun x hx text => hold.spells_iff hx,
    fun u thread hu x hx => ?_⟩
  · obtain ⟨j, hj, hcreates, hlt⟩ := Chronicle.created_after hplain hg hk hr hy
    rcases r.created hlt with hfirst | ⟨i, hi, hbefore⟩
    · exact .inl (r.fixed hf hfirst hk)
    · exact .inr ⟨i, j, hi, hj, hbefore, hcreates⟩
  · have hlt := blamed_lt ((r.reachable hk).owned hf) (r.typed hf hl hk) (hl k hk) hu hx
    exact ⟨_, hold.spells hlt⟩

/-- A class that passes itself on, unfinished, as an argument, is its own
superclass, and waits for itself. -/
def narcissus : Library Unit :=
  { bare with
    descriptors := #[
      { name := "Narcissus"
        kind := .object
        parameters := 0
        fields := []
        layout := none
        words := []
        instantiate := some fun registry record =>
          .request registry (.poll .abstract) (.generic 1 [record]) fun _ =>
            .act (.setSuperclass record record) fun _ => .done ()
        completion := some (.callback fun _ record => .done (some ⟨record, .complete⟩)) },
      { name := "Image"
        kind := .struct
        parameters := 1
        fields := []
        layout := none
        words := []
        instantiate := none
        completion := none }] }

/-- The image comes after the class, and both have a name when the class is
found to wait for itself. -/
theorem Chronicle.arguments_older_narcissus :
    ∃ (start : Machine Unit) (r : Chronicle narcissus start), start.Fresh
      ∧ (∀ record ∈ start.store.records, record.arguments = [])
      ∧ (∀ k ≤ r.length, (r.state k).Literate)
      ∧ (r.state r.length).store.records.referents 10 = [10]
      ∧ (∃ i j, i < j ∧ j < r.length ∧ r.Creates i 10 ∧ r.Creates j 11)
      ∧ (r.state r.length).store.records.display 11 = "Image<Narcissus>"
      ∧ ∃ thread, (r.state r.length).threads[0]? = some thread
        ∧ ((r.state r.length).turn thread).blamed ⟨0, thread.name⟩ = [10, 10]
        ∧ ∃ text, (r.state r.length).store.records.Spells 10 text := by
  let start : Machine Unit := demanding
  have hfresh : start.Fresh := fresh_launch _ () _
  have hplain : ∀ record ∈ start.store.records, record.arguments = [] := by
    show ∀ record ∈ Records.builtins, record.arguments = []
    decide
  have hsteps : ∀ k < 18, ((start.walk narcissus k).step narcissus 0).isSome = true := by
    decide +kernel
  have hl : ∀ k ≤ 18, (start.walk narcissus k).Literate := by decide +kernel
  let r : Chronicle narcissus start := .walk narcissus start 18 hsteps
  obtain ⟨holder, -, hnames, hreport⟩ :=
    Chronicle.arguments_older hfresh hplain r hl (Nat.le_refl 18)
  obtain ⟨m, hm⟩ : ∃ m, start.walk narcissus 18 = m := ⟨_, rfl⟩
  rw [show r.state 18 = m from hm] at holder hnames hreport
  -- the two records, and the thread that is stopped
  have hclass : (m.store.records[10]?).any (fun r => decide (r.origin = .generic 0
      ∧ r.arguments = [] ∧ r.spell [] = "Narcissus")) = true := by
    rw [← hm]
    decide +kernel
  have himage : (m.store.records[11]?).any (fun r => decide (r.arguments = [10]
      ∧ r.spell ["Narcissus"] = "Image<Narcissus>")) = true := by
    rw [← hm]
    decide +kernel
  have hstop : m.threads.size = 1 ∧ ∀ thread ∈ m.threads, thread.control.stop?
      = some (⟨0, 0, 10, .complete, .abstract, .zero⟩, ⟨10, .complete⟩) := by
    rw [← hm]
    decide +kernel
  have hreferents : m.store.records.referents 10 = [10] := by
    rw [← hm]
    decide +kernel
  obtain ⟨c, hc, hcd⟩ := (Option.any_eq_true ..).mp hclass
  obtain ⟨horigin, hnone, hname⟩ := of_decide_eq_true hcd
  obtain ⟨i, hi, hid⟩ := (Option.any_eq_true ..).mp himage
  obtain ⟨hargs, hname'⟩ := of_decide_eq_true hid
  have hspells : m.store.records.Spells 10 "Narcissus" := hname ▸ .intro hc (hnone ▸ .nil)
  have hspells' : m.store.records.Spells 11 "Image<Narcissus>" :=
    hname' ▸ .intro hi (hargs ▸ .cons hspells .nil)
  have hcycle : m.store.cycle? 0 10 ⟨10, .complete⟩ = some ⟨10, [⟨10, .complete⟩]⟩ := by
    simp [Store.cycle?, Chain.closed?, Chain.follow]
  obtain ⟨hone, hstop⟩ := hstop
  obtain ⟨thread, hthreads, hstops⟩ := single_thread hone hstop
  have ht : m.threads[0]? = some thread := by rw [hthreads]; rfl
  have hcontrol := Control.stopped_of_stop hstops
  have hblamed : (m.turn thread).blamed ⟨0, thread.name⟩ = [10, 10] := by
    unfold Turn.blamed turn
    simp only [hcontrol, hcycle]
    rfl
  refine ⟨start, r, hfresh, hplain, hl, ?_⟩
  rw [show r.state r.length = m from hm]
  refine ⟨hreferents, ?_, ?_, thread, ht, hblamed, ?_⟩
  · rcases holder 11 10 i hi (hargs ▸ List.mem_cons_self) with ⟨old, hold, hfixed⟩ | hcreated
    · obtain rfl := Option.some.inj (hc.symm.trans hold)
      cases horigin.symm.trans hfixed
    · exact hcreated
  · exact ((hnames 11 (Array.getElem?_eq_some_iff.mp hi).1 _).mp hspells').symm
  · exact hreport 0 thread ht 10 (hblamed ▸ List.mem_cons_self)

end Machine

end TypeRecords
