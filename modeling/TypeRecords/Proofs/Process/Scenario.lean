/-
Scenarios start from scratch.

The results about runs speak of processes in which nothing has happened yet.
The process of every scenario whose declarations make sense is one
(`Plan.machine_fresh`, `Plan.machine_whole`), with the empty tuple in it
(`Plan.machine_emptyTuple`), with no record that has arguments
(`Plan.machine_unapplied`), with no names (`Plan.machine_unnamed`), with no witness
tables but those that are declared (`Plan.machine_unbuilt`, `Plan.machine_patterned`),
with nothing counted (`Plan.machine_ledgers`) and with the records of all candidates
(`Plan.machine_candidates`), and what a scenario shows is what such a process shows
somewhere on its way (`Plan.run_reachable`).
-/
import TypeRecords.Proofs.Conforming.Precedence
import TypeRecords.Proofs.Foreign.Enrolling
import TypeRecords.Scenario.Process

namespace TypeRecords.Scenario

/-- Nothing that is declared needs completion, or refers to anything. -/
theorem StaticDecl.record_bare (d : StaticDecl) :
    d.record.origin = .fixed ∧ d.record.referents = [] := by
  cases d <;> exact ⟨rfl, rfl⟩

theorem Plan.store_bare (p : Plan) (n : Contents) :
    ∀ r ∈ (p.store n).records, r.origin = .fixed ∧ r.referents = [] := by
  have hbuiltins : ∀ r ∈ Records.builtins, r.origin = .fixed ∧ r.referents = [] := by decide
  intro r hr
  unfold Plan.store at hr
  rcases Array.mem_append.mp hr with hr | hr
  · rcases Array.mem_append.mp hr with hr | hr
    · exact hbuiltins r hr
    · obtain ⟨d, -, rfl⟩ := List.mem_map.mp (List.mem_toArray.mp hr)
      exact d.record_bare
  · obtain ⟨d, -, rfl⟩ := List.mem_map.mp (List.mem_toArray.mp hr)
    exact ⟨rfl, rfl⟩

/-- A scenario that loads does so with the store and the library of its
declarations. -/
theorem Plan.load_eq {p : Plan} {l : Loaded} (h : p.load? = some l) :
    ∃ n c descriptors, p.contents? = some n ∧ l.store = p.store n
      ∧ l.library = p.library n c descriptors := by
  unfold Plan.load? at h
  split at h
  · cases h
  · rename_i n hn
    simp only at h
    split at h
    · cases h
    · cases h
      exact ⟨n, _, _, hn, rfl, rfl⟩

theorem Plan.load_store {p : Plan} {l : Loaded} (h : p.load? = some l) :
    ∃ n, p.contents? = some n ∧ l.store = p.store n := by
  obtain ⟨n, c, descriptors, hn, hstore, -⟩ := Plan.load_eq h
  exact ⟨n, hn, hstore⟩

/-- Before its first step nothing has happened in a scenario. -/
theorem Plan.machine_fresh {p : Plan} {l : Loaded} (h : p.load? = some l) :
    (p.machine l).Fresh := by
  obtain ⟨n, -, hstore⟩ := Plan.load_store h
  refine ⟨?_, ?_, fun thread hm => ?_⟩
  · show l.store.entries = #[]
    rw [hstore]
    rfl
  · show ∀ r ∈ l.store.records, r.origin = .fixed
    rw [hstore]
    exact fun r hr => (p.store_bare n r hr).1
  · obtain rfl := Array.mem_singleton.mp hm
    exact ⟨rfl, _, _, rfl⟩

/-- And no record refers to one that is not there. -/
theorem Plan.machine_whole {p : Plan} {l : Loaded} (h : p.load? = some l) :
    (p.machine l).store.Whole := by
  obtain ⟨n, -, hstore⟩ := Plan.load_store h
  show l.store.Whole
  rw [hstore]
  intro r hr x hx
  rw [(p.store_bare n r hr).2] at hx
  cases hx

/-- What refers to nothing has no arguments. -/
theorem arguments_of_referents {r : Record} (h : r.referents = []) : r.arguments = [] := by
  unfold Record.referents at h
  split at h
  · cases h
  · exact h

/-- No record is made from others. -/
theorem Plan.machine_unapplied {p : Plan} {l : Loaded} (h : p.load? = some l) :
    ∀ record ∈ (p.machine l).store.records, record.arguments = [] := by
  obtain ⟨n, -, hstore⟩ := Plan.load_store h
  show ∀ record ∈ l.store.records, record.arguments = []
  rw [hstore]
  exact fun record hr => arguments_of_referents (p.store_bare n record hr).2

/-- The empty tuple is there, as it is in every process. -/
theorem Plan.machine_emptyTuple {p : Plan} {l : Loaded} (h : p.load? = some l) :
    Records.emptyTuple < (p.machine l).store.records.size := by
  obtain ⟨n, -, hstore⟩ := Plan.load_store h
  show Records.emptyTuple < l.store.records.size
  rw [hstore]
  unfold Plan.store
  rw [Array.size_append, Array.size_append]
  have hbuiltins : Records.emptyTuple < Records.builtins.size := by decide
  exact Nat.lt_add_right _ (Nat.lt_add_right _ hbuiltins)

/-- No name is registered in the one registry that is there. -/
theorem Plan.machine_unnamed {p : Plan} {l : Loaded} (h : p.load? = some l) :
    (p.machine l).store.Unnamed := by
  obtain ⟨n, -, hstore⟩ := Plan.load_store h
  refine ⟨fun registry => ?_, ?_⟩
  · refine (l.store.addRegistry_names (l.catalog.configOf p.config)).names registry |>.trans ?_
    rw [hstore]
    rfl
  · show ∀ candidate ∈ l.store.candidates, candidate.unique = none
    rw [hstore]
    intro candidate hc
    obtain ⟨i, hi, rfl⟩ := List.mem_mapIdx.mp (List.mem_toArray.mp hc)
    rfl

/-- No witness table has been asked for. -/
theorem Plan.machine_unbuilt {p : Plan} {l : Loaded} (h : p.load? = some l) :
    (p.machine l).store.Unbuilt := by
  obtain ⟨n, -, hstore⟩ := Plan.load_store h
  show l.store.cells = #[]
  rw [hstore]
  rfl

theorem allOf_eq_some {α : Type} {xs : List (Option α)} {ys : List α} (h : allOf xs = some ys) :
    xs = ys.map some := by
  induction xs generalizing ys with
  | nil =>
      cases h
      rfl
  | cons x xs ih =>
      obtain ⟨y, rfl, h⟩ := Option.bind_eq_some_iff.mp h
      obtain ⟨rest, hrest, hys⟩ := Option.bind_eq_some_iff.mp h
      cases hys
      rw [ih hrest]
      rfl

/-- The patterns are numbered behind the tables that are declared. -/
theorem Plan.contents_recipes {p : Plan} {n : Contents} (h : p.contents? = some n) {i : Nat}
    {recipe : Recipe} (hi : n.recipes[i]? = some recipe) :
    recipe.pattern = n.tables.length + i := by
  unfold Plan.contents? at h
  simp only [Option.bind_eq_bind, Option.bind_eq_some_iff] at h
  obtain ⟨protocolList, -, tables, -, recipes, hrecipes, h⟩ := h
  cases h
  have hmapped := congrArg (·[i]?) (allOf_eq_some hrecipes)
  rw [List.getElem?_map, show recipes[i]? = some recipe from hi, List.getElem?_mapIdx] at hmapped
  obtain ⟨d, -, hmade⟩ := Option.map_eq_some_iff.mp hmapped
  simp only [Option.bind_eq_some_iff] at hmade
  obtain ⟨protocol, -, prefilled, -, resilient, -, hmade⟩ := hmade
  cases hmade
  rfl

/-- The pattern of each conformance is there. -/
theorem Plan.machine_patterned {p : Plan} {l : Loaded} (h : p.load? = some l) :
    (p.machine l).Patterned l.library := by
  obtain ⟨n, c, descriptors, hcontents, hstore, hlibrary⟩ := Plan.load_eq h
  intro conformance hm
  rw [hlibrary] at hm
  obtain ⟨⟨recipe, d⟩, hzip, rfl⟩ := List.mem_map.mp (List.mem_toArray.mp hm)
  obtain ⟨i, hi⟩ := List.mem_iff_getElem?.mp hzip
  have hrecipe := (List.getElem?_zip_eq_some.mp hi).1
  refine ⟨⟨recipe.protocol, none, recipe.prefilled, []⟩, ?_, rfl⟩
  show l.store.tables[recipe.pattern]? = _
  rw [hstore, Plan.contents_recipes hcontents hrecipe]
  unfold Plan.store
  simp only [List.getElem?_toArray]
  rw [List.getElem?_append_right (Nat.le_add_right _ _), Nat.add_sub_cancel_left,
    List.getElem?_map, hrecipe]
  rfl

/-- Its ledger is empty. -/
theorem Plan.machine_ledgers {p : Plan} {l : Loaded} (h : p.load? = some l) :
    ∀ registry ∈ (p.machine l).store.registries, registry.ledger = {} := by
  obtain ⟨n, -, hstore⟩ := Plan.load_store h
  show ∀ registry ∈ l.store.registries.push (.new (l.catalog.configOf p.config)),
    registry.ledger = {}
  rw [hstore]
  intro registry hm
  obtain rfl := Array.mem_singleton.mp hm
  rfl

theorem Plan.contents_statics {p : Plan} {n : Contents} (h : p.contents? = some n) :
    n.statics.length = p.statics.length := by
  unfold Plan.contents? at h
  simp only [Option.bind_eq_bind, Option.bind_eq_some_iff] at h
  obtain ⟨_, -, _, -, _, -, h⟩ := h
  cases h
  simp [numbered]

/-- Every candidate has a record of its own. -/
theorem Plan.machine_candidates {p : Plan} {l : Loaded} (h : p.load? = some l) :
    ∀ candidate ∈ (p.machine l).store.candidates,
      candidate.record < (p.machine l).store.records.size := by
  obtain ⟨n, hcontents, hstore⟩ := Plan.load_store h
  show ∀ candidate ∈ l.store.candidates, candidate.record < l.store.records.size
  rw [hstore]
  intro candidate hc
  obtain ⟨i, hi, rfl⟩ := List.mem_mapIdx.mp (List.mem_toArray.mp hc)
  show Records.builtins.size + n.statics.length + i < (p.store n).records.size
  unfold Plan.store
  rw [Plan.contents_statics hcontents]
  simp only [Array.size_append, List.size_toArray, List.length_map]
  exact Nat.add_lt_add_left hi _

/-- What a scenario shows can be reached from there. -/
theorem Plan.run_reachable {p : Plan} {l : Loaded} (h : p.load? = some l) :
    ∃ m, Machine.Reachable l.library (p.machine l) m ∧ p.run = outcome m := by
  refine ⟨_, .run patience 0 .refl, ?_⟩
  unfold Plan.run
  rw [h]

end TypeRecords.Scenario
