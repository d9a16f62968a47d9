/-
Foreign identity.

Registries of one process share candidates, and a candidate keeps only one
record for itself, from whichever registry told it first. So a call can be
answered in two ways, from the candidate or from the table of the registry. The
main result says that this cannot be told from outside
(`Chronicle.foreign_identity`): a call is answered with the own record of the
one candidate that was registered under the name in that registry, and what
goes on in another registry changes no answer.

The first part is read off the roll. An answer is a record that the table lists
(`Answered.record`), a line of the table belongs to a registration
(`Chronicle.registrant`), and a name has one of them. For the second part, a
step that is not about a name of a registry leaves its table as it is
(`Names.others`), and what candidates remember makes no difference to answers
(`Enrolled.answer?_eq_some`).
-/
import TypeRecords.Proofs.Foreign.Calls

namespace TypeRecords

variable {σ : Type}

namespace Turn

variable {lib : Library σ} {t t' : Turn σ} {registry : RegistryId} {c : CandidateId} {roll : Roll}

/-- A step that is not about a name of a registry leaves its table as it is. -/
theorem Names.others (h : Names lib t t') (hcon : ∀ c, t.concerns ≠ some (registry, c)) :
    t'.store.names registry = t.store.names registry := by
  have hcanonical : ∀ {other c k s}, t.control = .run (.canonical other c k) s →
      other ≠ registry := by
    rintro other c k s hc rfl
    exact hcon c (concerns_run hc)
  cases h with
  | quiet hc hq => exact hq.store.names registry
  | recalled hc hcand hx ht' => rw [ht']
  | asked hc hcand hr hposition ht' => rw [ht', askName_names]
  | again hc hr ht' => rw [ht', askName_names]
  | registered hc hcand hr hposition hinit ht' =>
      rw [ht']
      exact t.store.names_changeRegistry_of_ne (hcanonical hc)
  | opened hc hcand hr hposition hinit ht' =>
      rw [ht']
      exact t.store.names_changeRegistry_of_ne (hcanonical hc)
  | @founded v left j rest candidate hc hf hcand ht' =>
      rw [ht']
      refine t.store.names_changeRegistry_of_ne ?_
      rintro rfl
      refine hcon j.candidate ?_
      unfold concerns
      rw [hc, hf]
      rfl

/-- Whoever asks for a candidate finds its name in the table, or puts it there. -/
theorem Names.named (h : Names lib t t') (he : t.store.Enrolled roll)
    (hc : t.control.naming? = some (registry, c)) :
    ∃ n ∈ t'.store.names registry, t.store.nameOf? c = some n.name := by
  obtain ⟨k, s, hc⟩ := Control.canonical_of_naming hc
  cases h with
  | quiet hq => rw [concerns_run hc] at hq; cases hq
  | recalled hc' hcand hx ht' =>
      cases hc.symm.trans hc'
      obtain ⟨n, hn, hname, -⟩ := he.cached hcand (Store.uniqueIn_eq_some hx)
      exact ⟨n, by rw [ht']; exact hn, (Store.nameOf?_eq hcand).trans (congrArg some hname.symm)⟩
  | asked hc' hcand hr hposition ht' =>
      cases hc.symm.trans hc'
      obtain ⟨n, hn, hname⟩ := Store.Enrolled.of_position? hr hposition
      refine ⟨n, ?_, (Store.nameOf?_eq hcand).trans (congrArg some hname.symm)⟩
      rw [ht', askName_names]
      exact List.mem_of_getElem? hn
  | @registered _ _ _ _ candidate r hc' hcand hr hposition hinit ht' =>
      cases hc.symm.trans hc'
      refine ⟨⟨candidate.name, some candidate.record⟩, ?_, Store.nameOf?_eq hcand⟩
      rw [ht']
      exact Store.names_register hr ▸ List.mem_append_right _ List.mem_cons_self
  | @opened _ _ _ _ candidate r callback hc' hcand hr hposition hinit ht' =>
      cases hc.symm.trans hc'
      refine ⟨⟨candidate.name, none⟩, ?_, Store.nameOf?_eq hcand⟩
      rw [ht']
      exact Store.names_register hr ▸ List.mem_append_right _ List.mem_cons_self
  | again hc' => cases hc.symm.trans hc'
  | founded hc' => cases hc.symm.trans hc'

end Turn

-- ====================================================== runs

namespace Machine.Chronicle

variable {lib : Library σ} {start : Machine σ} {r : Chronicle lib start} {i j k position : Nat}
  {registry : RegistryId} {c : CandidateId} {v : Value} {n : ForeignName}

/-- A step is one of a call for a name in a registry: the name is asked for, or
looked for again, or its initializer has returned. -/
def Concerns (r : Chronicle lib start) (k : Nat) (registry : RegistryId) : Prop :=
  ∃ thread c, (r.state k).threads[r.mover k]? = some thread
    ∧ ((r.state k).turn thread).concerns = some (registry, c)

/-- A line of a table has been written by a registration. -/
theorem registrant (hf : start.Fresh) (hn : start.store.Unnamed) (hk : k ≤ r.length)
    (hline : ((r.state k).store.names registry)[position]? = some n) :
    ∃ g, (r.roll k registry)[position]? = some g ∧ g.step < k ∧ g.thread = r.mover g.step
      ∧ r.Registers g.step registry g.candidate
      ∧ start.store.nameOf? g.candidate = some n.name
      ∧ ∀ x, n.canonical = some x → start.store.ownOf? g.candidate = some x := by
  obtain ⟨g, hg, henters⟩ := (r.enrolled hf hn hk).store.line hline
  obtain ⟨hlt, hthread, hreg⟩ := mem_roll hk (List.mem_of_getElem? hg)
  refine ⟨g, hg, hlt, hthread, hreg, ?_, fun x hx => ?_⟩
  · rw [← r.nameOf?_eq hf hn hk]
    exact henters.name
  · rw [← r.ownOf?_eq hf hn hk]
    exact henters.own x hx

/-- The name of a candidate that is asked for has been registered by the end of
that step. -/
theorem asked_registered (hf : start.Fresh) (hn : start.store.Unnamed) (hi : i < r.length)
    {thread : Thread σ} (ht : (r.state i).threads[r.mover i]? = some thread)
    (hask : thread.control.naming? = some (registry, c)) :
    ∃ k c₀, k ≤ i ∧ r.Registers k registry c₀
      ∧ start.store.nameOf? c₀ = start.store.nameOf? c := by
  obtain ⟨mover, thread', hmover, -, hnames⟩ := step_names (r.step i hi)
  obtain rfl := Option.some.inj (ht.symm.trans hmover)
  obtain ⟨n, hmem, hname⟩ := hnames.named (r.enrolled hf hn (Nat.le_of_lt hi)).store hask
  obtain ⟨position, hline⟩ := List.getElem?_of_mem hmem
  obtain ⟨g, -, hlt, -, hreg, hgname, -⟩ := registrant hf hn hi hline
  refine ⟨g.step, g.candidate, Nat.le_of_lt_succ hlt, hreg, hgname.trans ?_⟩
  rw [← hname]
  exact r.nameOf?_eq hf hn (Nat.le_of_lt hi) c

/-- Foreign identity. In every run of a process in which no name was registered
at the start, with any number of threads, registries and candidates:

- A name is registered once in a registry.
- A call that comes back, wherever it was made from, names the own record of the
  candidate that is registered under the name in that registry.
- A step that is not one of a call on a registry registers no name there and
  changes no answer of it, whatever the candidates are told by others. -/
theorem foreign_identity (hf : start.Fresh) (hn : start.store.Unnamed) (r : Chronicle lib start) :
    (∀ {k k' registry c c'}, r.Registers k registry c → r.Registers k' registry c' →
      start.store.nameOf? c = start.store.nameOf? c' → k = k' ∧ c = c')
    ∧ (∀ {i j registry c v}, r.Answered i j registry c v →
      ∃ k c₀ x, k ≤ i ∧ r.Registers k registry c₀
        ∧ start.store.nameOf? c₀ = start.store.nameOf? c
        ∧ start.store.ownOf? c₀ = some x ∧ v = .record x)
    ∧ ∀ {k registry}, k < r.length → ¬ r.Concerns k registry →
      (r.state (k + 1)).store.names registry = (r.state k).store.names registry
        ∧ ∀ c, (r.state (k + 1)).store.answer? registry c
          = (r.state k).store.answer? registry c := by
  refine ⟨fun h h' => registers_once hf hn h h', ?_, ?_⟩
  · intro i j registry c v h
    obtain ⟨x, rfl, name, hname, n, hmem, hn', hx⟩ := h.record hf hn
    obtain @⟨thread, thread', left, hij, hj, ht, hask, -, -, -, -⟩ := h
    obtain ⟨position, hline⟩ := List.getElem?_of_mem hmem
    obtain ⟨g, -, -, -, hreg, hgname, hown⟩ := registrant hf hn hj hline
    rw [r.nameOf?_eq hf hn hj] at hname
    have hsame : start.store.nameOf? g.candidate = start.store.nameOf? c := by
      rw [hgname, hname, hn']
    obtain ⟨k, c₀, hk, hreg₀, hname₀⟩ :=
      asked_registered hf hn (Nat.lt_of_lt_of_le hij hj) ht hask
    obtain ⟨hstep, -⟩ := registers_once hf hn hreg hreg₀ (hsame.trans hname₀.symm)
    exact ⟨g.step, g.candidate, x, hstep ▸ hk, hreg, hsame, hown x hx, rfl⟩
  · intro k registry hk hcon
    obtain ⟨thread, thread', hthread, -, hnames⟩ := step_names (r.step k hk)
    have htable : (r.state (k + 1)).store.names registry = (r.state k).store.names registry :=
      hnames.others fun c hc => hcon ⟨thread, c, hthread, hc⟩
    refine ⟨htable, fun c => Option.ext fun x => ?_⟩
    rw [(r.enrolled hf hn hk).store.answer?_eq_some,
      (r.enrolled hf hn (Nat.le_of_lt hk)).store.answer?_eq_some]
    unfold Store.ListsFor Store.Lists
    rw [(r.retains hf hn (Nat.le_succ k) hk).nameOf?, htable]

/-- A candidate that has been told of its own record by one registry is asked
for in another, where a candidate of its name is registered. The answer is that
candidate's record. -/
theorem foreign_identity_homonyms :
    ∃ (start : Machine Unit) (r : Chronicle homonyms start), start.Fresh ∧ start.store.Unnamed
      ∧ r.Answered 0 1 1 1 (.record 1) ∧ r.Answered 9 10 0 1 (.record 0)
      ∧ ((r.state 9).store.candidates[1]?).map (·.unique) = some (some (1, 1))
      ∧ ∃ k c₀ x, k ≤ 9 ∧ r.Registers k 0 c₀ ∧ start.store.nameOf? c₀ = start.store.nameOf? 1
        ∧ start.store.ownOf? c₀ = some x ∧ Value.record 0 = .record x := by
  let r : Chronicle homonyms homonymous := .walk homonyms homonymous 10 (by decide +kernel)
  have hown : r.Answered 0 1 1 1 (.record 1) :=
    .of_walk 0 (by decide) (by decide) (by decide +kernel) (by decide +kernel) (by decide +kernel)
  have hother : r.Answered 9 10 0 1 (.record 0) :=
    .of_walk 0 (by decide) (by decide) (by decide +kernel) (by decide +kernel) (by decide +kernel)
  obtain ⟨-, hanswers, -⟩ := foreign_identity fresh_homonymous unnamed_homonymous r
  exact ⟨_, r, fresh_homonymous, unnamed_homonymous, hown, hother, by decide +kernel,
    hanswers hother⟩

end Machine.Chronicle

end TypeRecords
