/-
The search for an unfinished record is exact.

What a record is held back by are the records that can be reached from it over
records that are finished for themselves and no further (`Graph.Reaches`).
`Store.search_exact` says that the search comes to an end, that it finds
nothing exactly when nothing holds the record back, and that what it finds
does.

# Ending

The search meets no record twice. Its definition counts down on the records
below a bound that have not been met, and passes over a reference that leads
beyond it. `Graph.Explores` is the search without the bound, one round after
the other. Where references lead to records that are there, the two do the same
(`explore_explores`), and there are at most as many rounds as records.

# Finding

Everything on the stack can be reached, and none of it is the record that the
search began with (`explore_found`). That nothing is passed over is
`unfinished_none`.
-/
import TypeRecords.Proofs.Finishing.Search
import TypeRecords.Proofs.Process.Run

namespace TypeRecords

/-- Neither the last stage nor one of the first two. -/
theorem Stage.eq_nonTransitive {s : Stage} (hc : s ≠ .complete) (hs : ¬ s < .nonTransitive) :
    s = .nonTransitive := by
  cases s with
  | nonTransitive => rfl
  | complete => exact (hc rfl).elim
  | abstract => exact (hs (by decide)).elim
  | layoutComplete => exact (hs (by decide)).elim

namespace Search

variable {g : Graph} {f : Frontier} {initial x : RecordId} {dep : Dependency}

-- ====================================================== reaching

/-- One gets from `initial` to a record over references, and each record on the
way is finished for itself and no further. -/
inductive Graph.Reaches (g : Graph) (initial : RecordId) : RecordId → Prop
  | direct {x : RecordId} (h : x ∈ g.referents initial) : Reaches g initial x
  | further {x y : RecordId} (hy : Reaches g initial y) (hstage : g.stage y = .nonTransitive)
      (h : x ∈ g.referents y) : Reaches g initial x

/-- References lead to records below the bound. -/
def Graph.Closed (g : Graph) : Prop := ∀ r, ∀ x ∈ g.referents r, x < g.bound

-- ====================================================== rounds

/-- Meets records in order, wherever they are. -/
def Frontier.discover (f : Frontier) : List RecordId → Frontier
  | [] => f
  | r :: rest =>
    if r ∈ f.met then f.discover rest else Frontier.discover ⟨r :: f.met, r :: f.work⟩ rest

theorem Frontier.meet_eq_discover {bound : Nat} {rs : List RecordId} (h : ∀ r ∈ rs, r < bound) :
    f.meet bound rs = f.discover rs := by
  induction rs generalizing f with
  | nil => rfl
  | cons r rest ih =>
      have hr : ¬ bound ≤ r := Nat.not_le.mpr (h r List.mem_cons_self)
      have hrest := fun {f : Frontier} => ih (f := f) fun x hx => h x (List.mem_cons_of_mem _ hx)
      unfold meet discover
      by_cases hm : r ∈ f.met
      · rw [if_pos (.inl hm), if_pos hm, hrest]
      · rw [if_neg (not_or.mpr ⟨hm, hr⟩), if_neg hm, hrest]

/-- The search that has come to a frontier is over after so many rounds, with
this result. Each round takes the topmost record from the stack. -/
inductive Graph.Explores (g : Graph) : Frontier → Nat → Option Dependency → Prop
  | over {met : List RecordId} : Explores g ⟨met, []⟩ 0 none
  | finished {met rest : List RecordId} {r : RecordId} {n : Nat} {out : Option Dependency}
      (hstage : g.stage r = .complete) (h : Explores g ⟨met, rest⟩ n out) :
      Explores g ⟨met, r :: rest⟩ (n + 1) out
  | found {met rest : List RecordId} {r : RecordId} (hstage : g.stage r < .nonTransitive) :
      Explores g ⟨met, r :: rest⟩ 1 (some ⟨r, .nonTransitive⟩)
  | searched {met rest : List RecordId} {r : RecordId} {n : Nat} {out : Option Dependency}
      (hstage : g.stage r = .nonTransitive)
      (h : Explores g (Frontier.discover ⟨met, rest⟩ (g.referents r)) n out) :
      Explores g ⟨met, r :: rest⟩ (n + 1) out

/-- Where the search for what holds a record back begins. -/
def Graph.outset (g : Graph) (initial : RecordId) : Frontier :=
  Frontier.discover ⟨[initial], []⟩ (g.referents initial)

/-- The search does not need the bound, and each round uses up a record that
has not been met or one that is on the stack. -/
theorem explore_explores (hg : g.Closed) (f : Frontier) :
    ∃ n ≤ f.rounds g.bound, g.Explores f n (explore g f) := by
  fun_induction explore g f with
  | case1 f hwork =>
      obtain ⟨met, work⟩ := f
      obtain rfl : work = [] := hwork
      exact ⟨0, Nat.zero_le _, .over⟩
  | case2 f r rest hwork hdone ih =>
      obtain ⟨met, work⟩ := f
      obtain rfl : work = r :: rest := hwork
      obtain ⟨n, hn, h⟩ := ih
      refine ⟨n + 1, ?_, .finished hdone h⟩
      unfold Frontier.rounds at hn ⊢
      simp only [List.length_cons] at hn ⊢
      omega
  | case3 f r rest hwork hopen hself =>
      obtain ⟨met, work⟩ := f
      obtain rfl : work = r :: rest := hwork
      refine ⟨1, ?_, .found hself⟩
      unfold Frontier.rounds
      simp only [List.length_cons]
      omega
  | case4 f r rest hwork hopen hself ih =>
      obtain ⟨met, work⟩ := f
      obtain rfl : work = r :: rest := hwork
      obtain ⟨n, hn, h⟩ := ih
      rw [Frontier.meet_eq_discover (hg r)] at h ⊢
      refine ⟨n + 1, ?_, .searched (Stage.eq_nonTransitive hopen hself) h⟩
      rw [Frontier.rounds_meet] at hn
      unfold Frontier.rounds at hn ⊢
      simp only [List.length_cons] at hn ⊢
      omega

theorem unfinished_explores (hg : g.Closed) (initial : RecordId) :
    ∃ n ≤ g.bound, g.Explores (g.outset initial) n (unfinished g initial) := by
  obtain ⟨n, hn, h⟩ :=
    explore_explores hg (Frontier.meet g.bound ⟨[initial], []⟩ (g.referents initial))
  refine ⟨n, Nat.le_trans hn ?_, ?_⟩
  · rw [Frontier.rounds_meet]
    show unseen g.bound [initial] ≤ g.bound
    unfold unseen
    exact Nat.le_trans List.countP_le_length (Nat.le_of_eq List.length_range)
  · unfold Graph.outset
    rw [← Frontier.meet_eq_discover (hg initial)]
    exact h

-- ====================================================== what is found

/-- If all records on the stack hold `initial` back or can be searched for one
that does, then what is found is reached from it and unfinished. -/
theorem explore_found (h : explore g f = some dep) (hmet : initial ∈ f.met)
    (hwork : ∀ r ∈ f.work, r ≠ initial ∧ g.Reaches initial r) :
    dep.required = .nonTransitive ∧ dep.target ≠ initial ∧ g.Reaches initial dep.target
      ∧ g.stage dep.target < .nonTransitive := by
  fun_induction explore with
  | case1 => cases h
  | case2 f r rest hf hdone ih =>
      rw [hf] at hwork
      exact ih h hmet fun x hx => hwork x (List.mem_cons_of_mem _ hx)
  | case3 f r rest hf hopen hself =>
      cases h
      rw [hf] at hwork
      obtain ⟨hne, hreach⟩ := hwork r List.mem_cons_self
      exact ⟨rfl, hne, hreach, hself⟩
  | case4 f r rest hf hopen hself ih =>
      rw [hf] at hwork
      obtain ⟨-, hreach⟩ := hwork r List.mem_cons_self
      refine ih h (Frontier.mem_met_meet.mpr (.inl hmet)) fun x hx => ?_
      rcases Frontier.mem_work_meet.mp hx with hx | ⟨hx, -, hnew⟩
      · exact hwork x (List.mem_cons_of_mem _ hx)
      · refine ⟨?_, hreach.further (Stage.eq_nonTransitive hopen hself) hx⟩
        rintro rfl
        exact hnew hmet

theorem unfinished_found (h : unfinished g initial = some dep) :
    dep.required = .nonTransitive ∧ dep.target ≠ initial ∧ g.Reaches initial dep.target
      ∧ g.stage dep.target < .nonTransitive := by
  refine explore_found h (Frontier.mem_met_meet.mpr (.inl List.mem_cons_self)) fun r hr => ?_
  rcases Frontier.mem_work_meet.mp hr with hr | ⟨hr, -, hnew⟩
  · cases hr
  · exact ⟨fun heq => hnew (List.mem_singleton.mpr heq), .direct hr⟩

/-- If nothing is found, then everything that can be reached has been met. -/
theorem reaches_met {met : List RecordId} (hg : g.Closed)
    (hfirst : ∀ x ∈ g.referents initial, x < g.bound → x ∈ met)
    (hmet : ∀ r ∈ met, r = initial ∨ g.Settled met r) (h : g.Reaches initial x) : x ∈ met := by
  induction h with
  | direct hx => exact hfirst _ hx (hg _ _ hx)
  | further _ hstage hx ih =>
      rcases hmet _ ih with rfl | hdone | ⟨-, hall⟩
      · exact hfirst _ hx (hg _ _ hx)
      · cases hstage.symm.trans hdone
      · exact hall _ hx (hg _ _ hx)

/-- Nothing is found exactly when all that can be reached, besides the record
itself, is at least finished for itself. -/
theorem unfinished_eq_none_iff (hg : g.Closed) :
    unfinished g initial = none
      ↔ ∀ x, x ≠ initial → g.Reaches initial x → .nonTransitive ≤ g.stage x := by
  constructor
  · intro h x hne hreach
    obtain ⟨met, hfirst, hmet⟩ := unfinished_none h
    rcases hmet x (reaches_met hg hfirst hmet hreach) with heq | hdone | ⟨hstage, -⟩
    · exact (hne heq).elim
    · rw [hdone]
      decide
    · exact hstage
  · intro h
    cases hfound : unfinished g initial with
    | none => rfl
    | some dep =>
        obtain ⟨-, hne, hreach, hstage⟩ := unfinished_found hfound
        exact (Nat.not_le_of_lt hstage (h _ hne hreach)).elim

end Search

-- ====================================================== in a store

namespace Store

variable {s : Store}

theorem Whole.closed (h : s.Whole) (registry : RegistryId) : (s.graph registry).Closed := by
  intro r x hx
  replace hx : x ∈ s.records.referents r := hx
  unfold Records.referents at hx
  split at hx
  · rename_i record hr
    exact h record (Array.mem_of_getElem? hr) x hx
  · cases hx

/-- The search for something unfinished is exact, whatever refers to what, in
circles or to itself, and whatever stage each record is in:

- it is over after at most as many rounds as there are records;
- it finds nothing exactly when all records that can be reached from `record`
  over records finished for themselves, and no further, are at least finished
  for themselves, `record` aside;
- what it finds is such a record, which is not finished for itself and has to
  be. -/
theorem search_exact (hs : s.Whole) (registry : RegistryId) (record : RecordId) :
    (∃ n ≤ s.records.size, (s.graph registry).Explores ((s.graph registry).outset record) n
      (s.unfinished? registry record))
    ∧ (s.unfinished? registry record = none ↔ ∀ x, x ≠ record →
      (s.graph registry).Reaches record x → .nonTransitive ≤ s.stageOf registry x)
    ∧ ∀ dep, s.unfinished? registry record = some dep →
      dep.required = .nonTransitive ∧ dep.target ≠ record
        ∧ (s.graph registry).Reaches record dep.target
        ∧ s.stageOf registry dep.target < .nonTransitive :=
  ⟨Search.unfinished_explores (hs.closed registry) record,
    Search.unfinished_eq_none_iff (hs.closed registry), fun _ h => Search.unfinished_found h⟩

/-- Two records that refer to each other and to a third, the first of them also
to itself. The third has only a layout. -/
def knotted : Store where
  records := #[
    { kind := .struct, origin := .generic 0, name := "First", arguments := [0, 1, 2] },
    { kind := .object, origin := .generic 1, name := "Second", superclass := some 0,
      arguments := [2] },
    { kind := .struct, origin := .generic 2, name := "Third" }]
  entries := #[
    { registry := 0, key := ⟨.generic 0, [0, 1, 2]⟩, record := some 0,
      published := some .nonTransitive, stage := .nonTransitive },
    { registry := 0, key := ⟨.generic 1, [2]⟩, record := some 1,
      published := some .nonTransitive, stage := .nonTransitive },
    { registry := 0, key := ⟨.generic 2, []⟩, record := some 2,
      published := some .layoutComplete, stage := .layoutComplete }]

/-- The third record holds the first one back, and nothing else does. -/
theorem search_exact_knotted :
    knotted.Whole ∧ (knotted.graph 0).Reaches 0 2
      ∧ knotted.stageOf 0 2 < .nonTransitive
      ∧ (∃ n ≤ 3, (knotted.graph 0).Explores ((knotted.graph 0).outset 0) n
        (knotted.unfinished? 0 0))
      ∧ knotted.unfinished? 0 0 = some ⟨2, .nonTransitive⟩ := by
  have hwhole : knotted.Whole := by decide
  have hreach : (knotted.graph 0).Reaches 0 2 := by
    refine .further (y := 1) (.direct ?_) ?_ ?_ <;> decide +kernel
  have hstage : knotted.stageOf 0 2 < .nonTransitive := by decide +kernel
  obtain ⟨hover, hnone, hsome⟩ := search_exact hwhole 0 0
  refine ⟨hwhole, hreach, hstage, hover, ?_⟩
  cases hfound : knotted.unfinished? 0 0 with
  | none => exact (Nat.not_le_of_lt hstage (hnone.mp hfound 2 (by decide) hreach)).elim
  | some dep =>
      obtain ⟨hreq, -, -, hbelow⟩ := hsome dep hfound
      obtain ⟨target, required⟩ := dep
      obtain rfl : required = .nonTransitive := hreq
      -- the stages of the others are high enough
      match target, hbelow with
      | 0, hbelow => exact absurd hbelow (by decide +kernel)
      | 1, hbelow => exact absurd hbelow (by decide +kernel)
      | 2, _ => rfl
      | n + 3, hbelow =>
          have hout : knotted.stageOf 0 (n + 3) = .complete := rfl
          rw [hout] at hbelow
          exact absurd hbelow (by decide)

end Store

end TypeRecords
