/-
Saved progress changes nothing.

Scratch words that the steps of a record have left behind, now or earlier, count fields
whose layouts are known (`Counted.leftBehind`). Suppose the layout of the record is about to be
computed with such words, and let the process go on from there. Let it go on once more
from the same state, but with no words, and let the same threads take the same steps.
They can, and whatever can go on in one of the two can in the other; they differ in the
words of the walk alone, and when the walk has come to its outcome or is unwound in
nothing at all (`Chronicle.GoesAs`).

So the outcome is the same, with all that has been written. What it is can be said as
well (`Store.Comes`): the first field, in the order of the fields, whose layout was not
known when the walk asked for it, or none, and then the layouts of all fields are known
and the record is laid out (`Run.lays_as_afresh`).

The argument goes along the run. The walk is under way as long as the frame is there that
waits for it (`Chronicle.laying`), and as long as it is a step keeps the two processes
together (`Machine.Apart.step`).
-/
import TypeRecords.Proofs.Process.Chronicle
import TypeRecords.Proofs.Resuming.Afresh
import TypeRecords.Proofs.Resuming.Saved

namespace TypeRecords.Machine

variable {σ : Type}

-- ====================================================== runs in one registry

section

variable {lib : Library σ} {registry : RegistryId} {m m' : Machine σ}

/-- Until the frame that waits for the outcome is gone, a step of any thread keeps a walk
under way. -/
theorem step_laying {terms : DescriptorId → List Term} {since : Store → Prop} {s₀ : Store}
    {x : RecordId} {n : Nat} {f : Frame σ} {below : List (Frame σ)} {t u : ThreadId}
    {thread thread' : Thread σ} (h : m.step lib t = some m') (hs : m.store.Domestic lib registry)
    (ho : m.store.Owned m.holds) (hlaw : m.StaysIn registry t) (hlib : lib.Reads terms)
    (hf : f.layout = true) (hu : m.threads[u]? = some thread)
    (hl : (m.turn thread).Laying lib registry terms since x n (f :: below))
    (hu' : m'.threads[u]? = some thread') (hover : below.length < thread'.frames.length)
    (hsince : since m.store) (hsince' : since m'.store)
    (hfirst : ∀ s, since s → s₀.Rises registry s) (hn : s₀.Attests registry terms x n) :
    (m'.turn thread').Laying lib registry terms since x n (f :: below) := by
  by_cases htu : t = u
  · subst htu
    obtain ⟨mover, mover', hmover, hmover', hmove⟩ := step_mover h
    obtain rfl := Option.some.inj (hu.symm.trans hmover)
    obtain rfl := Option.some.inj (hu'.symm.trans hmover')
    rcases hmove with hturn | ⟨p, p', st, hc, hp, hstore, hc', hframes⟩
    · exact hl.step (step_stepsIn h hs ho hlaw hu hturn rfl) hlib hf hover hsince hsince' hfirst hn
    · exact hl.resumes hc hp hstore hc' hframes
  · obtain rfl := Option.some.inj ((step_other h htu hu).symm.trans hu')
    exact hl.rises (step_rises h hs ho hlaw) rfl rfl

end

-- ====================================================== the same steps again

/-- Where the same threads lead to from another state, as far as they have a step. -/
def replay (lib : Library σ) (mover : Nat → ThreadId) (m : Machine σ) : Nat → Machine σ
  | 0 => m
  | k + 1 => ((m.replay lib mover k).step lib (mover k)).getD (m.replay lib mover k)

theorem isSome_of_rel {α β : Type*} {R : α → β → Prop} {a : Option α} {b : Option β}
    (h : Option.Rel R a b) : b.isSome = a.isSome := by
  cases h <;> rfl

namespace Chronicle

variable {lib : Library σ} {m m₀ : Machine σ} {registry : RegistryId}
  {terms : DescriptorId → List Term} {u : ThreadId} {thread : Thread σ} {base : List (Frame σ)}
  {x : RecordId} {n k : Nat} {fields : List (Field σ)}

/-- The frames are there in the first `k` states and the next one. -/
def Lasts (r : Chronicle lib m) (u : ThreadId) (base : List (Frame σ)) (k : Nat) : Prop :=
  ∀ i ≤ k, ∀ thread ∈ (r.state i).threads[u]?, base.length ≤ thread.frames.length

/-- The store is one of the first `k` of the run, or the next one. -/
def Visits (r : Chronicle lib m) (k : Nat) (s : Store) : Prop := ∃ i ≤ k, s = (r.state i).store

/-- `r₀` goes as `r` does, but for the words that a walk of thread `u` has begun with. -/
structure GoesAs (r₀ : Chronicle lib m₀) (r : Chronicle lib m) (u : ThreadId)
    (base : List (Frame σ)) : Prop where
  length : r₀.length = r.length
  /-- The same threads take the same steps. -/
  mover : r₀.mover = r.mover
  states : ∀ k ≤ r.length, r₀.state k = r.state k
    ∨ r.Lasts u base k ∧ (r.state k).Apart u base (r₀.state k)
  /-- Whatever can go on in one of them can in the other. -/
  steps : ∀ k ≤ r.length, ∀ t,
    ((r₀.state k).step lib t).isSome = ((r.state k).step lib t).isSome

section

variable (r : Chronicle lib m) (hlaw : ∀ k < r.length, (r.state k).StaysIn registry (r.mover k))
  (hs : m.store.Domestic lib registry) (ho : m.store.Owned m.holds)
include hlaw hs ho

theorem keeps (hk : k ≤ r.length) : (r.state k).store.Domestic lib registry
    ∧ (r.state k).store.Owned (r.state k).holds ∧ m.store.Rises registry (r.state k).store :=
  (r.run hk fun j hj => hlaw j (Nat.lt_of_lt_of_le hj hk)).keeps hs ho

theorem visits_rises (hk : k ≤ r.length) {s : Store} (h : r.Visits k s) :
    m.store.Rises registry s := by
  obtain ⟨i, hi, rfl⟩ := h
  exact (r.keeps hlaw hs ho (Nat.le_trans hi hk)).2.2

variable (hlib : lib.Reads terms) (hu : m.threads[u]? = some thread)
  (hbase : Awaited base) (hframes : thread.frames = base)
  (hc : thread.control = .lay ⟨registry, x, .count n, fields, 0, []⟩)
  (hx : m.store.Struct lib x fields) (hn : m.store.Attests registry terms x n)
include hlib hu hbase hframes hc hx hn

/-- A walk that a run begins with is under way as long as the frame is there that waits
for it. -/
theorem laying {l : Nat} (hl : l ≤ r.length) (hlasts : r.Lasts u base l) (hk : k ≤ l) :
    ∃ thread, (r.state k).threads[u]? = some thread
      ∧ ((r.state k).turn thread).Laying lib registry terms (r.Visits l) x n base := by
  obtain ⟨f, below, rfl, hf⟩ := hbase
  induction k with
  | zero =>
      rw [r.first]
      exact ⟨thread, hu, .goes (.start hx) hframes hc⟩
  | succ k ih =>
      obtain ⟨before, hbefore, hlaying⟩ := ih (Nat.le_of_succ_le hk)
      have hlt : k < r.length := Nat.lt_of_lt_of_le hk hl
      have hstep := r.step k hlt
      obtain ⟨hs', ho', -⟩ := r.keeps hlaw hs ho (Nat.le_of_lt hlt)
      obtain ⟨after, hafter⟩ : ∃ after, (r.state (k + 1)).threads[u]? = some after := by
        by_cases hmover : r.mover k = u
        · obtain ⟨-, after, -, hafter, -⟩ := step_mover hstep
          exact ⟨after, hmover ▸ hafter⟩
        · exact ⟨before, step_other hstep hmover hbefore⟩
      exact ⟨after, hafter, step_laying hstep hs' ho' (hlaw k hlt) hlib hf hbefore hlaying hafter
        (hlasts (k + 1) hk after hafter) ⟨k, Nat.le_of_succ_le hk, rfl⟩ ⟨k + 1, hk, rfl⟩
        (fun _ hv => r.visits_rises hlaw hs ho hl hv) hn⟩

/-- While the walk is under way a step keeps the two processes together. -/
theorem next (hk : k ≤ r.length)
    (h : m₀ = r.state k ∨ r.Lasts u base k ∧ (r.state k).Apart u base m₀) (t : ThreadId) :
    Option.Rel (fun m' m₀' => m₀' = m' ∨ m'.Apart u base m₀')
      ((r.state k).step lib t) (m₀.step lib t) := by
  rcases h with rfl | ⟨hlasts, happart⟩
  · cases (r.state k).step lib t with
    | none => exact .none
    | some m' => exact .some (.inl rfl)
  · obtain ⟨walker, hwalker, hlaying⟩ :=
      r.laying hlaw hs ho hlib hu hbase hframes hc hx hn hk hlasts (Nat.le_refl k)
    refine happart.step (fun thread hthread => ?_) ⟨k, Nat.le_refl k, rfl⟩
      (fun _ hv => r.visits_rises hlaw hs ho hk hv) hn t
    obtain rfl := Option.some.inj (hwalker.symm.trans hthread)
    exact hlaying

/-- The two stay together. -/
theorem replays (happart : m.Apart u base m₀) (hk : k ≤ r.length) :
    m₀.replay lib r.mover k = r.state k
      ∨ r.Lasts u base k ∧ (r.state k).Apart u base (m₀.replay lib r.mover k) := by
  -- where they differ the frames are there
  have hthere : ∀ {j : Nat} {m' : Machine σ}, (r.state j).Apart u base m' →
      ∀ thread ∈ (r.state j).threads[u]?, base.length ≤ thread.frames.length := by
    intro j m' h thread hthread
    obtain ⟨t₀, happart⟩ := h.turn hthread
    exact happart.length_le
  induction k with
  | zero =>
      have hfirst : (r.state 0).Apart u base m₀ := r.first.symm ▸ happart
      refine .inr ⟨fun i hi => ?_, hfirst⟩
      obtain rfl := Nat.le_zero.mp hi
      exact hthere hfirst
  | succ k ih =>
      have hbefore := ih (Nat.le_of_succ_le hk)
      have hnext := r.next hlaw hs ho hlib hu hbase hframes hc hx hn (Nat.le_of_succ_le hk) hbefore
        (r.mover k)
      rw [replay]
      rcases hbefore with hsame | ⟨hlasts, -⟩
      · rw [hsame, r.step k hk]
        exact .inl rfl
      · rw [r.step k hk] at hnext
        generalize (m₀.replay lib r.mover k).step lib (r.mover k) = next at hnext
        cases hnext with
        | some hnext =>
            refine hnext.imp_right fun hafter => ⟨fun i hi => ?_, hafter⟩
            rcases Nat.lt_or_eq_of_le hi with hlt | rfl
            · exact hlasts i (Nat.le_of_lt_succ hlt)
            · exact hthere hafter

/-- The run goes the same way without the words. -/
theorem goes (happart : m.Apart u base m₀) : ∃ r₀ : Chronicle lib m₀, r₀.GoesAs r u base := by
  have hsame : ∀ k ≤ r.length, ∀ t, ((m₀.replay lib r.mover k).step lib t).isSome
      = ((r.state k).step lib t).isSome := fun k hk t => isSome_of_rel <|
    r.next hlaw hs ho hlib hu hbase hframes hc hx hn hk
      (r.replays hlaw hs ho hlib hu hbase hframes hc hx hn happart hk) t
  refine ⟨{
    length := r.length
    state := m₀.replay lib r.mover
    mover := r.mover
    first := rfl
    step := fun k hk => ?_ }, rfl, rfl, fun k hk =>
      r.replays hlaw hs ho hlib hu hbase hframes hc hx hn happart hk, hsame⟩
  have hsome := hsame k (Nat.le_of_lt hk) (r.mover k)
  rw [r.step k hk] at hsome
  obtain ⟨next, hnext⟩ := Option.isSome_iff_exists.mp hsome
  rw [replay, hnext]
  rfl

end

end Chronicle

-- ====================================================== the outcome

section

variable {lib : Library σ} {start m m₁ : Machine σ} {registry : RegistryId}
  {terms : DescriptorId → List Term} {u : ThreadId} {thread : Thread σ} {x : RecordId}
  {words words' : Scratch} {fields : List (Field σ)} {w : FieldWalk σ}

/-- A walk that is about to begin, with its words and without. -/
theorem Apart.begin (hu : m.threads[u]? = some thread) (hc : thread.control = .lay w) :
    m.Apart u thread.frames (m.goto u (.lay w.afresh)) := by
  rw [goto_eq_after hu]
  exact .intro hu (.between rfl hc)

/-- The words of a walk are nothing that is held. -/
theorem holds_relaid (hu : m.threads[u]? = some thread) (hc : thread.control = .lay w)
    (w' : FieldWalk σ) : (m.goto u (.lay w')).holds.Perm m.holds := by
  rw [goto_eq_after hu]
  refine (holds_after hu _).trans (List.Perm.trans ?_ (holds_split hu).symm)
  unfold Thread.holds
  rw [hc]
  exact .refl _

/-- What is left behind is so for a record that is there. -/
theorem LeftBehind.there (h : m.LeftBehind x words) (ho : m.store.Owned m.holds) :
    x < m.store.records.size := by
  cases h with
  | parked he hr hw => exact Store.lt_size_of_keyOf (ho.keyed he hr)
  | held hm hd hr hw => exact hr ▸ ho.drive_there hm hd

/-- Saved progress changes nothing. Take scratch words that completion steps of a record
have left behind in some state of a run, a record that is completed by laying out its
fields, and any later state in which its layout is about to be computed. However the
process goes on if that is done with these words, it goes on in the same way if it is done
with none, through states that are the same but for the words of this walk as long as it
is under way. When it has come to its outcome there is no difference, and the outcome is
either the first field, in the order of the fields, whose layout was not known when it was
asked for, the layouts of those before it being known; or there is no such field, the
layouts of all are known, and the record is laid out. -/
theorem Run.lays_as_afresh (hf : start.Fresh) (hwhole : start.store.Whole)
    (hempty : Records.emptyTuple < start.store.records.size)
    (hplaced : lib.Placed start.store.records.size) (hlib : lib.Reads terms)
    (h₁ : Run lib (fun m t => m.StaysIn registry t) start m₁) (hleft : m₁.LeftBehind x words)
    (h : Run lib (fun m t => m.StaysIn registry t) m₁ m) (hx : m.store.Struct lib x fields)
    (hu : m.threads[u]? = some thread)
    (hc : thread.control = .lay ⟨registry, x, words', fields, 0, []⟩)
    (r : Chronicle lib (m.goto u (.lay ⟨registry, x, words, fields, 0, []⟩)))
    (hlaw : ∀ k < r.length, (r.state k).StaysIn registry (r.mover k)) :
    ∃ r₀ : Chronicle lib (m.goto u (.lay ⟨registry, x, .zero, fields, 0, []⟩)),
      r₀.GoesAs r u thread.frames
        ∧ ∀ k ≤ r.length, r.Lasts u thread.frames k →
          ∀ walker, (r.state k).threads[u]? = some walker →
          walker.frames.length = thread.frames.length →
          ∀ dep left, walker.control = .give (.dependency dep) left →
            r₀.state k = r.state k ∧ ∃ words, left = .scratch words
              ∧ (r.state k).store.Comes lib registry terms (r.Visits k) x dep words := by
  -- the words count fields whose layouts are known
  have hs₀ := hf.domestic hwhole hempty hplaced registry
  obtain ⟨hs₁, ho₁, -⟩ := h₁.keeps hs₀ hf.owned
  obtain ⟨hs, ho, hrises⟩ := h.keeps hs₁ ho₁
  obtain ⟨n, rfl, hn₁⟩ := (hf.counted.run h₁ hlib hs₀ hf.owned).leftBehind hleft
    (hx.before hrises.records (hleft.there ho₁))
  have hn := hrises.attests hn₁
  -- where the walk begins with them
  let begun : Machine σ := m.goto u (.lay ⟨registry, x, .count n, fields, 0, []⟩)
  let walker : Thread σ :=
    { thread with control := .lay ⟨registry, x, .count n, fields, 0, []⟩ }
  have hwalker : begun.threads[u]? = some walker := by
    rw [goto_getElem?, if_pos rfl, hu]
    rfl
  have hbase : Awaited thread.frames :=
    ((h₁.reachable.trans h.reachable).awaited hf hu).control _ hc
  have howned : begun.store.Owned begun.holds := ho.perm (holds_relaid hu hc _)
  have happart : begun.Apart u thread.frames
      (m.goto u (.lay ⟨registry, x, .zero, fields, 0, []⟩)) := by
    have hbegin := Apart.begin hwalker rfl
    rwa [goto_goto] at hbegin
  obtain ⟨r₀, hgoes⟩ := r.goes hlaw hs howned hlib hwalker hbase rfl rfl hx hn happart
  refine ⟨r₀, hgoes, fun k hk hlasts walker' hwalker' hlength dep left hgive => ?_⟩
  obtain ⟨walker'', hwalker'', hlaying⟩ :=
    r.laying hlaw hs howned hlib hwalker hbase rfl rfl hx hn hk hlasts (Nat.le_refl k)
  obtain rfl := Option.some.inj (hwalker'.symm.trans hwalker'')
  have hframes : walker'.frames = thread.frames := by
    obtain ⟨gs, hover⟩ := hlaying.stands
    have hover' : walker'.frames = gs ++ thread.frames := hover
    rw [hover', List.length_append] at hlength
    rw [hover', List.eq_nil_of_length_eq_zero (show gs.length = 0 by omega), List.nil_append]
  refine ⟨(hgoes.states k hk).resolve_right fun ⟨_, hdiffer⟩ => ?_, hlaying.hands hframes hgive⟩
  obtain ⟨t₀, hdiffer⟩ := hdiffer.turn hwalker'
  exact hdiffer.not_given hframes hgive

/-- The walk of a completion step has passed the fields that it does not go on to. -/
theorem Counted.todo {d : Drive} (hm : m.Counted lib registry terms)
    (hu : m.threads[u]? = some thread) (hwalk : (m.turn thread).walks? = some (w, d))
    (hx : m.store.Struct lib d.record fields) : w.todo = fields.drop w.index := by
  obtain ⟨hc, below, hframes⟩ := Turn.walks?_some hwalk
  obtain ⟨-, hlaying⟩ := hm.threads hu [] d below hframes
  obtain ⟨s₀, n, -, -, hl⟩ := hlaying hx
  obtain ⟨fields', hx', htodo⟩ := (hl.between hframes hc).todo
  obtain rfl := hx.unique hx'
  exact htodo

end

-- ====================================================== an interrupted layout

/-- A type of a number and of `inner`. -/
def outer : Descriptor Unit where
  name := "Outer"
  kind := .struct
  parameters := 0
  fields := [⟨"count", .fixed 3⟩,
    ⟨"inner", .computed fun registry q _ => .request registry q (.generic 2 []) .done⟩]
  layout := none
  words := []
  instantiate := none
  completion := some .structLayout

/-- A type of a `root`. -/
def inner : Descriptor Unit where
  name := "Inner"
  kind := .struct
  parameters := 0
  fields := [⟨"root", .computed fun registry q _ => .request registry q (.generic 0 []) .done⟩]
  layout := none
  words := []
  instantiate := none
  completion := some .structLayout

/-- A type whose completion requests `outer`. -/
def root : Descriptor Unit where
  name := "Root"
  kind := .struct
  parameters := 0
  fields := []
  layout := none
  words := []
  instantiate := none
  completion := some (.callback fun registry _ =>
    .request registry (.poll .complete) (.generic 1 []) fun _ => .done none)

def relay : Library Unit := { bare with descriptors := #[root, outer, inner] }

/-- The types of the fields of `relay`. -/
def relayTerms : DescriptorId → List Term
  | 1 => [.fixed 3, .apply 2 []]
  | 2 => [.apply 0 []]
  | _ => []

theorem relay_reads : relay.Reads relayTerms := by
  intro id d hd hc
  match id, hd with
  | 0, hd =>
      obtain rfl := Option.some.inj hd
      cases hc
  | 1, hd =>
      obtain rfl := Option.some.inj hd
      refine .cons rfl (.cons (fun registry q arguments r => ?_) .nil)
      exact ⟨.generic 2 [], List.mem_cons_self, fun look hl => by simp [Term.call?, Term.records?]⟩
  | 2, hd =>
      obtain rfl := Option.some.inj hd
      refine .cons (fun registry q arguments r => ?_) .nil
      exact ⟨.generic 0 [], List.mem_cons_self, fun look hl => by simp [Term.call?, Term.records?]⟩

theorem relay_placed {n : Nat} (h : 3 < n) : relay.Placed n := by
  intro d hd field hf y htype
  obtain ⟨i, hi⟩ := Array.getElem?_of_mem hd
  match i, hi with
  | 0, hi =>
      obtain rfl := Option.some.inj hi
      cases hf
  | 1, hi =>
      obtain rfl := Option.some.inj hi
      rcases List.mem_cons.mp hf with rfl | hf
      · cases htype
        exact h
      · obtain rfl := List.mem_singleton.mp hf
        cases htype
  | 2, hi =>
      obtain rfl := Option.some.inj hi
      obtain rfl := List.mem_singleton.mp hf
      cases htype

/-- The outer type stops at its second field, since the inner one waits for the root, and
is parked with words that count the first one. When it is taken up again, with these words
or with none, it is laid out. -/
theorem lays_as_afresh_relay :
    ∃ (start m₁ m : Machine Unit) (thread walker : Thread Unit)
      (r : Chronicle relay (m.goto 0 (.lay ⟨0, 11, .count 1, outer.fields, 0, []⟩)))
      (r₀ : Chronicle relay (m.goto 0 (.lay ⟨0, 11, .zero, outer.fields, 0, []⟩))),
      start.Fresh ∧ start.store.Whole ∧ Records.emptyTuple < start.store.records.size
      ∧ relay.Placed start.store.records.size ∧ relay.Reads relayTerms
      ∧ Run relay (fun m t => m.StaysIn 0 t) start m₁ ∧ m₁.LeftBehind 11 (.count 1)
      ∧ Run relay (fun m t => m.StaysIn 0 t) m₁ m ∧ m.store.Struct relay 11 outer.fields
      ∧ m.threads[0]? = some thread
      ∧ thread.control = .lay ⟨0, 11, .count 1, outer.fields, 0, []⟩
      ∧ (∀ k < r.length, (r.state k).StaysIn 0 (r.mover k))
      ∧ r₀.GoesAs r 0 thread.frames ∧ r.Lasts 0 thread.frames r.length
      ∧ (r.state r.length).threads[0]? = some walker
      ∧ walker.frames.length = thread.frames.length
      ∧ walker.control = .give (.dependency none) (.scratch (.count 2))
      ∧ r₀.state r.length = r.state r.length
      ∧ (r.state r.length).store.Comes relay 0 relayTerms (r.Visits r.length) 11 none
        (.count 2) := by
  let start : Machine Unit := demanding
  let m₁ : Machine Unit := start.walk relay 30
  let m : Machine Unit := m₁.walk relay 18
  have hfresh : start.Fresh := fresh_launch _ () _
  have hwhole : start.store.Whole := by decide +kernel
  have hempty : Records.emptyTuple < start.store.records.size := by decide +kernel
  have hplaced : relay.Placed start.store.records.size := relay_placed (by decide +kernel)
  have h₁ : Run relay (fun m t => m.StaysIn 0 t) start m₁ := .walk (by decide +kernel)
  have h : Run relay (fun m t => m.StaysIn 0 t) m₁ m := .walk (by decide +kernel)
  have hleft : m₁.LeftBehind 11 (.count 1) := by
    have hentry : (m₁.store.entries[1]?).map (fun e => (e.record, e.saved))
        = some (some 11, some (.count 1)) := by decide +kernel
    obtain ⟨e, he, hshape⟩ := Option.map_eq_some_iff.mp hentry
    obtain ⟨hrecord, hsaved⟩ := Prod.mk.inj hshape
    exact .parked he hrecord hsaved
  have hx : m.store.Struct relay 11 outer.fields := by
    have horigin : (m.store.records[11]?).map (·.origin) = some (.generic 1) := by
      decide +kernel
    obtain ⟨rec, hrec, ho⟩ := Option.map_eq_some_iff.mp horigin
    exact .intro (d := outer) hrec ho rfl rfl
  -- the walk that is about to begin is the one of a completion step
  have hview : (m.threads[0]?).any (fun thread => (m.turn thread).walks?.any fun p =>
      decide (p.1.registry = 0 ∧ p.1.record = 11 ∧ p.1.scratch = .count 1 ∧ p.1.index = 0
        ∧ p.1.layouts = [] ∧ p.2.record = 11 ∧ thread.frames.length = 4)) = true := by
    decide +kernel
  obtain ⟨thread, hthread, hview⟩ := (Option.any_eq_true _ _).mp hview
  obtain ⟨⟨w, d⟩, hwalk, hview⟩ := (Option.any_eq_true _ _).mp hview
  obtain ⟨hregistry, hrecord, hscratch, hindex, hlayouts, hdrive, hlength⟩ :=
    of_decide_eq_true hview
  have hc : thread.control = .lay ⟨0, 11, .count 1, outer.fields, 0, []⟩ := by
    have hs₀ := hfresh.domestic hwhole hempty hplaced 0
    obtain ⟨hs₁, ho₁, -⟩ := h₁.keeps hs₀ hfresh.owned
    have hcounted := (hfresh.counted.run h₁ relay_reads hs₀ hfresh.owned).run h relay_reads hs₁ ho₁
    obtain ⟨hlay, -⟩ := Turn.walks?_some hwalk
    have hx' : m.store.Struct relay d.record outer.fields := by
      rwa [show d.record = 11 from hdrive]
    obtain ⟨registry, record, scratch, todo, index, layouts⟩ := w
    subst hregistry hrecord hscratch hindex hlayouts
    obtain rfl : todo = outer.fields := hcounted.todo hthread hwalk hx'
    exact hlay
  let r := Chronicle.walk relay (m.goto 0 (.lay ⟨0, 11, .count 1, outer.fields, 0, []⟩)) 9
    (by decide +kernel)
  have hlaw : ∀ k < r.length, (r.state k).StaysIn 0 (r.mover k) := by decide +kernel
  have hlasts : ∀ i ≤ 9, ∀ walker ∈ (r.state i).threads[0]?, 4 ≤ walker.frames.length := by
    decide +kernel
  have hend : ((r.state 9).threads[0]?).map (fun walker =>
      (((r.state 9).turn walker).hands?, walker.frames.length))
        = some (some (.dependency none, .scratch (.count 2)), 4) := by decide +kernel
  obtain ⟨walker, hwalker, hend⟩ := Option.map_eq_some_iff.mp hend
  obtain ⟨hhands, hlength'⟩ := Prod.mk.inj hend
  have hgive : walker.control = .give (.dependency none) (.scratch (.count 2)) :=
    Turn.give_of_hands hhands
  rw [← hlength] at hlasts hlength'
  obtain ⟨r₀, hgoes, houtcome⟩ := Run.lays_as_afresh hfresh hwhole hempty hplaced relay_reads h₁
    hleft h hx hthread hc r hlaw
  obtain ⟨hsame, words, hwords, hcomes⟩ :=
    houtcome 9 (Nat.le_refl 9) hlasts walker hwalker hlength' none _ hgive
  cases hwords
  exact ⟨start, m₁, m, thread, walker, r, r₀, hfresh, hwhole, hempty, hplaced, relay_reads, h₁,
    hleft, h, hx, hthread, hc, hlaw, hgoes, hlasts, hwalker, hlength', hgive, hsame, hcomes⟩

end TypeRecords.Machine
