/-
Who registered a name.

A table says which names a registry has and which records are canonical, but
not which candidates the names come from. The run knows: a `Roll` lists, for
each registry, which candidate was registered by which thread and in which step
of the run. It runs along with the tables (`Store.Enrolled`): line by line the
name is that of the candidate on the roll and the record, if there is one, its
own; every name is there once; and what a candidate remembers is listed in the
table of the registry it remembers it from.

A store changes in three ways as far as names go: a candidate is told of a
record, a name is registered, and the record of a name is announced. Each of
them keeps to a roll, and each leaves the lines that are there where they are
(`Store.Retains`). So a position stays the position of its name, which is all
that is used of those who hold one while others register.
-/
import TypeRecords.Proofs.Foreign.Names
import Mathlib.Data.List.Forall2

namespace TypeRecords

variable {σ : Type}

-- ====================================================== rolls

/-- A candidate has been registered, in a step that a thread took. -/
structure Registration where
  step : Nat
  thread : ThreadId
  candidate : CandidateId
  deriving DecidableEq

/-- What has been registered in each registry, in order. -/
abbrev Roll := RegistryId → List Registration

/-- One more registration. -/
def Roll.enter (roll : Roll) (registry : RegistryId) (g : Registration) : Roll := fun other =>
  if registry = other then roll other ++ [g] else roll other

namespace Roll

variable {roll : Roll} {registry other : RegistryId} {g g' : Registration} {position : Nat}

/-- A registration is entered last on the roll of its registry, -/
theorem enter_same : roll.enter registry g registry = roll registry ++ [g] := if_pos rfl

/-- and on no other. -/
theorem enter_of_ne (h : registry ≠ other) : roll.enter registry g other = roll other := if_neg h

/-- What is on a roll stays there. -/
theorem enter_getElem? (h : (roll other)[position]? = some g') :
    (roll.enter registry g other)[position]? = some g' := by
  unfold enter
  split
  · rw [List.getElem?_append_left (List.getElem?_eq_some_iff.mp h).1]
    exact h
  · exact h

end Roll

-- ====================================================== lines and candidates

/-- What holds of a line that is changed and of all the others holds of the
lines afterwards. -/
theorem forall₂_modify {α β : Type} {P : α → β → Prop} {f : α → α} {as : List α} {bs : List β}
    (h : List.Forall₂ P as bs) (position : Nat)
    (hf : ∀ a b, bs[position]? = some b → P a b → P (f a) b) :
    List.Forall₂ P (as.modify position f) bs := by
  induction h generalizing position with
  | nil => simp
  | @cons a b as bs hab _ ih =>
      cases position with
      | zero => exact .cons (hf a b rfl hab) ‹_›
      | succ position => exact .cons hab (ih position hf)

/-- A line is one that was there, or the one that has been added. -/
theorem getElem?_concat_cases {α : Type} {as : List α} {a b : α} {position : Nat}
    (h : (as ++ [a])[position]? = some b) :
    as[position]? = some b ∨ position = as.length ∧ b = a := by
  rw [List.getElem?_append] at h
  split at h
  · exact .inl h
  · obtain ⟨hlt, rfl⟩ := List.getElem?_eq_some_iff.mp h
    rw [List.length_singleton] at hlt
    exact .inr ⟨by omega, by simp⟩

namespace Store

/-- The name of a candidate. -/
def nameOf? (s : Store) (c : CandidateId) : Option String := (s.candidates[c]?).map (·.name)

/-- A candidate's own record. -/
def ownOf? (s : Store) (c : CandidateId) : Option RecordId := (s.candidates[c]?).map (·.record)

/-- The registry has a canonical record for a name. -/
def Lists (s : Store) (registry : RegistryId) (name : String) (x : RecordId) : Prop :=
  ∃ n ∈ s.names registry, n.name = name ∧ n.canonical = some x

/-- The registry has a canonical record for the name of a candidate. -/
def ListsFor (s : Store) (registry : RegistryId) (c : CandidateId) (x : RecordId) : Prop :=
  ∃ name, s.nameOf? c = some name ∧ s.Lists registry name x

/-- The position is that of the candidate's name. -/
def Sits (s : Store) (j : NameJob) : Prop :=
  ∃ n, (s.names j.registry)[j.position]? = some n ∧ s.nameOf? j.candidate = some n.name

/-- The line of a table is that of a registration. -/
structure Enters (s : Store) (n : ForeignName) (g : Registration) : Prop where
  name : s.nameOf? g.candidate = some n.name
  own : ∀ x, n.canonical = some x → s.ownOf? g.candidate = some x

/-- The tables are as the roll says, and the candidates know nothing else. -/
structure Enrolled (s : Store) (roll : Roll) : Prop where
  lines : ∀ registry, List.Forall₂ s.Enters (s.names registry) (roll registry)
  distinct : ∀ registry, ((s.names registry).map (·.name)).Nodup
  cached : ∀ {c : CandidateId} {candidate : Candidate} {registry : RegistryId} {x : RecordId},
    s.candidates[c]? = some candidate → candidate.unique = some (registry, x) →
    s.Lists registry candidate.name x

/-- Every line is still where it was, with its record if it had one, and every
candidate has its name and its own record. -/
structure Retains (s' s : Store) : Prop where
  lines : ∀ {registry : RegistryId} {position : Nat} {n : ForeignName},
    (s.names registry)[position]? = some n → ∃ n', (s'.names registry)[position]? = some n'
      ∧ n'.name = n.name ∧ ∀ x, n.canonical = some x → n'.canonical = some x
  nameOf? : ∀ c, s'.nameOf? c = s.nameOf? c
  ownOf? : ∀ c, s'.ownOf? c = s.ownOf? c

variable {s s' s'' : Store} {roll : Roll} {registry other : RegistryId} {c : CandidateId}
  {candidate : Candidate} {x : RecordId} {name : String} {g : Registration} {position : Nat}
  {n : ForeignName} {j : NameJob} {canonical : Option RecordId}

/-- The name of a candidate that is there. -/
theorem nameOf?_eq (h : s.candidates[c]? = some candidate) :
    s.nameOf? c = some candidate.name := by
  unfold nameOf?
  rw [h]
  rfl

/-- The own record of a candidate that is there. -/
theorem ownOf?_eq (h : s.candidates[c]? = some candidate) :
    s.ownOf? c = some candidate.record := by
  unfold ownOf?
  rw [h]
  rfl

/-- The names of candidates are theirs. -/
theorem nameOf?_congr (h : s'.candidates = s.candidates) (c : CandidateId) :
    s'.nameOf? c = s.nameOf? c := by
  unfold nameOf?
  rw [h]

/-- So are their records. -/
theorem ownOf?_congr (h : s'.candidates = s.candidates) (c : CandidateId) :
    s'.ownOf? c = s.ownOf? c := by
  unfold ownOf?
  rw [h]

/-- Whether a line is that of a registration is up to the candidate. -/
theorem Enters.congr (h : s.Enters n g) (hn : ∀ c, s'.nameOf? c = s.nameOf? c)
    (ho : ∀ c, s'.ownOf? c = s.ownOf? c) : s'.Enters n g :=
  ⟨(hn _).trans h.name, fun x hx => (ho _).trans (h.own x hx)⟩

/-- No change to a registry matters to it. -/
theorem Enters.changeRegistry (h : s.Enters n g) (registry : RegistryId) (f : Registry → Registry) :
    (s.changeRegistry registry f).Enters n g := h.congr (fun _ => rfl) fun _ => rfl

/-- What is found at the position of a candidate's name is listed under it. -/
theorem Sits.lists {r : Registry} (h : s.Sits j) (hr : s.registries[j.registry]? = some r)
    (hx : r.canonical? j.position = some x) : s.ListsFor j.registry j.candidate x := by
  obtain ⟨n, hn, hname⟩ := h
  obtain ⟨n', hn', hx⟩ := Option.bind_eq_some_iff.mp hx
  have hat := hn
  rw [names_eq hr] at hat
  obtain rfl := Option.some.inj (hat.symm.trans hn')
  exact ⟨n.name, hname, n, List.mem_of_getElem? hn, rfl, hx⟩

namespace Retains

/-- A store that is left alone retains everything. -/
theorem refl (s : Store) : s.Retains s :=
  ⟨fun h => ⟨_, h, rfl, fun _ => id⟩, fun _ => rfl, fun _ => rfl⟩

/-- What is retained twice, is retained. -/
theorem trans (h' : s''.Retains s') (h : s'.Retains s) : s''.Retains s where
  lines hn := by
    obtain ⟨n', hn', hname, hcanonical⟩ := h.lines hn
    obtain ⟨n'', hn'', hname', hcanonical'⟩ := h'.lines hn'
    exact ⟨n'', hn'', hname'.trans hname, fun x hx => hcanonical' x (hcanonical x hx)⟩
  nameOf? c := (h'.nameOf? c).trans (h.nameOf? c)
  ownOf? c := (h'.ownOf? c).trans (h.ownOf? c)

/-- What is listed stays listed. -/
theorem lists (h : s'.Retains s) (hl : s.Lists registry name x) : s'.Lists registry name x := by
  obtain ⟨n, hn, hname, hx⟩ := hl
  obtain ⟨position, hat⟩ := List.getElem?_of_mem hn
  obtain ⟨n', hn', hname', hx'⟩ := h.lines hat
  exact ⟨n', List.mem_of_getElem? hn', hname'.trans hname, hx' x hx⟩

/-- What is listed for a candidate stays so. -/
theorem listsFor (h : s'.Retains s) (hl : s.ListsFor registry c x) : s'.ListsFor registry c x := by
  obtain ⟨name, hname, hl⟩ := hl
  exact ⟨name, (h.nameOf? c).trans hname, h.lists hl⟩

/-- A position is that of its name for good. -/
theorem sits (h : s'.Retains s) (hj : s.Sits j) : s'.Sits j := by
  obtain ⟨n, hn, hname⟩ := hj
  obtain ⟨n', hn', hname', -⟩ := h.lines hn
  exact ⟨n', hn', (h.nameOf? _).trans (hname.trans (congrArg some hname'.symm))⟩

end Retains

-- ====================================================== what is kept

/-- Tables and candidates that are what they were are retained. -/
theorem SameNames.retains (h : s'.SameNames s) : s'.Retains s where
  lines {registry position n} hn := ⟨n, by rw [h.names]; exact hn, rfl, fun _ => id⟩
  nameOf? := nameOf?_congr h.candidates
  ownOf? := ownOf?_congr h.candidates

/-- What is told to a candidate changes neither its name nor its record. -/
theorem candidates_remember (s : Store) (c c' : CandidateId) (registry : RegistryId)
    (x : RecordId) :
    (s.remember c registry x).candidates[c']?
      = (s.candidates[c']?).map fun k => if c = c' then k.remember registry x else k := by
  unfold remember
  simp only [Array.getElem?_modify]
  split
  · rfl
  · exact Option.map_id'.symm

/-- What a candidate remembers is beside its name and its record. -/
theorem remember_retains (s : Store) (c : CandidateId) (registry : RegistryId) (x : RecordId) :
    (s.remember c registry x).Retains s where
  lines {registry position n} hn := ⟨n, hn, rfl, fun _ => id⟩
  nameOf? c' := by
    unfold nameOf?
    rw [candidates_remember, Option.map_map]
    refine congrArg (Option.map · _) (funext fun k => ?_)
    show (if c = c' then k.remember registry x else k).name = k.name
    split <;> rfl
  ownOf? c' := by
    unfold ownOf?
    rw [candidates_remember, Option.map_map]
    refine congrArg (Option.map · _) (funext fun k => ?_)
    show (if c = c' then k.remember registry x else k).record = k.record
    split <;> rfl

/-- A new name comes last. -/
theorem names_register {r : Registry} (hr : s.registries[registry]? = some r) :
    (s.changeRegistry registry (·.register name canonical)).names registry
      = s.names registry ++ [⟨name, canonical⟩] := by
  rw [names_eq hr]
  refine names_eq (r := r.register name canonical) ?_
  show (s.registries.modify registry _)[registry]? = _
  rw [Array.getElem?_modify, if_pos rfl, hr]
  rfl

/-- Names are those of one registry. -/
theorem names_changeRegistry_of_ne (s : Store) {f : Registry → Registry}
    (h : registry ≠ other) : (s.changeRegistry registry f).names other = s.names other := by
  unfold names changeRegistry
  rw [Array.getElem?_modify, if_neg h]

/-- A new name takes no line away. -/
theorem register_retains {r : Registry} (hr : s.registries[registry]? = some r) :
    (s.changeRegistry registry (·.register name canonical)).Retains s where
  lines {other position n} hn := by
    refine ⟨n, ?_, rfl, fun _ => id⟩
    by_cases ho : registry = other
    · subst ho
      rw [names_register hr, List.getElem?_append_left (List.getElem?_eq_some_iff.mp hn).1]
      exact hn
    · rw [names_changeRegistry_of_ne s ho]
      exact hn
  nameOf? := nameOf?_congr rfl
  ownOf? := ownOf?_congr rfl

/-- An announcement fills in one line. -/
theorem names_announce (s : Store) (registry other : RegistryId) (position : Nat) (x : RecordId) :
    (s.changeRegistry registry (·.announce position x)).names other
      = if registry = other then
          (s.names other).modify position fun n => { n with canonical := some x }
        else s.names other :=
  s.names_changeRegistry registry other _
    (fun ns => ns.modify position fun n => { n with canonical := some x }) (fun _ => rfl) (by simp)

-- ====================================================== tables and rolls

namespace Enrolled

/-- The line at a position is that of the registration on the roll. -/
theorem line (h : s.Enrolled roll) (hn : (s.names registry)[position]? = some n) :
    ∃ g, (roll registry)[position]? = some g ∧ s.Enters n g := by
  obtain ⟨hlength, hget⟩ := List.forall₂_iff_get.mp (h.lines registry)
  obtain ⟨hlt, rfl⟩ := List.getElem?_eq_some_iff.mp hn
  have hlt' : position < (roll registry).length := hlength ▸ hlt
  exact ⟨_, List.getElem?_eq_getElem hlt', hget position hlt hlt'⟩

/-- What is on the roll is in the table, at the same position. -/
theorem registration (h : s.Enrolled roll) (hg : (roll registry)[position]? = some g) :
    ∃ n, (s.names registry)[position]? = some n ∧ s.Enters n g := by
  obtain ⟨hlength, hget⟩ := List.forall₂_iff_get.mp (h.lines registry)
  obtain ⟨hlt, rfl⟩ := List.getElem?_eq_some_iff.mp hg
  have hlt' : position < (s.names registry).length := hlength.symm ▸ hlt
  exact ⟨_, List.getElem?_eq_getElem hlt', hget position hlt' hlt⟩

/-- Two positions do not have the same name. -/
theorem position_eq (h : s.Enrolled roll) {position' : Nat} {n' : ForeignName}
    (hn : (s.names registry)[position]? = some n)
    (hn' : (s.names registry)[position']? = some n') (heq : n.name = n'.name) :
    position = position' := by
  have hat : ((s.names registry).map (·.name))[position]? = some n.name := by
    rw [List.getElem?_map, hn]
    rfl
  have hat' : ((s.names registry).map (·.name))[position']? = some n.name := by
    rw [List.getElem?_map, hn', heq]
    rfl
  have hlt := (List.getElem?_eq_some_iff.mp hat).1
  exact (List.getElem?_inj hlt (h.distinct registry)).mp (hat.trans hat'.symm)

/-- A name is on the roll once. -/
theorem registration_unique (h : s.Enrolled roll) {position' : Nat} {g' : Registration}
    (hg : (roll registry)[position]? = some g) (hg' : (roll registry)[position']? = some g')
    (hname : s.nameOf? g.candidate = s.nameOf? g'.candidate) : position = position' := by
  obtain ⟨n, hn, henters⟩ := h.registration hg
  obtain ⟨n', hn', henters'⟩ := h.registration hg'
  rw [henters.name, henters'.name] at hname
  exact h.position_eq hn hn' (Option.some.inj hname)

/-- A registry lists one record for a name. -/
theorem lists_unique (h : s.Enrolled roll) {y : RecordId} (hx : s.Lists registry name x)
    (hy : s.Lists registry name y) : x = y := by
  obtain ⟨n, hn, hname, hcx⟩ := hx
  obtain ⟨n', hn', hname', hcy⟩ := hy
  obtain ⟨p, hp⟩ := List.getElem?_of_mem hn
  obtain ⟨p', hp'⟩ := List.getElem?_of_mem hn'
  obtain rfl := h.position_eq hp hp' (hname.trans hname'.symm)
  obtain rfl := Option.some.inj (hp.symm.trans hp')
  exact Option.some.inj (hcx.symm.trans hcy)

/-- Nothing has happened. -/
theorem same (h : s.Enrolled roll) (hs : s'.SameNames s) : s'.Enrolled roll where
  lines registry := by
    rw [hs.names]
    exact (h.lines registry).imp fun _ _ he => he.congr hs.retains.nameOf? hs.retains.ownOf?
  distinct registry := by
    rw [hs.names]
    exact h.distinct registry
  cached {c candidate registry x} hcand hx := by
    rw [hs.candidates] at hcand
    exact hs.retains.lists (h.cached hcand hx)

/-- A candidate is told of what is listed under its name. -/
theorem remember (h : s.Enrolled roll) (hcand : s.candidates[c]? = some candidate)
    (hl : s.Lists registry candidate.name x) : (s.remember c registry x).Enrolled roll where
  lines other := (h.lines other).imp fun _ _ he =>
    he.congr (s.remember_retains c registry x).nameOf? (s.remember_retains c registry x).ownOf?
  distinct := h.distinct
  cached {c' candidate' registry' x'} hcand' hx' := by
    refine (s.remember_retains c registry x).lists ?_
    rw [candidates_remember] at hcand'
    obtain ⟨before, hbefore, rfl⟩ := Option.map_eq_some_iff.mp hcand'
    split at hx'
    · rename_i hc
      subst hc
      obtain rfl := Option.some.inj (hcand.symm.trans hbefore)
      rw [if_pos rfl]
      -- only the first record that a candidate is told of is kept
      cases hu : candidate.unique with
      | some kept =>
          simp only [Candidate.remember, hu, Option.some_or] at hx'
          exact (h.cached hcand (hu.trans hx') : s.Lists registry' candidate.name x')
      | none =>
          simp only [Candidate.remember, hu, Option.none_or] at hx'
          cases hx'
          exact (hl : s.Lists registry candidate.name x)
    · rename_i hc
      rw [if_neg hc]
      exact h.cached hbefore hx'

/-- A name is registered that is not there. -/
theorem register {r : Registry} (h : s.Enrolled roll) (hr : s.registries[registry]? = some r)
    (hname : s.nameOf? g.candidate = some name) (hnew : r.position? name = none)
    (hown : ∀ x, canonical = some x → s.ownOf? g.candidate = some x) :
    (s.changeRegistry registry (·.register name canonical)).Enrolled (roll.enter registry g) where
  lines other := by
    have hold := (h.lines other).imp fun _ _ he =>
      he.changeRegistry registry (·.register name canonical)
    by_cases ho : registry = other
    · subst ho
      have hnew : s.Enters ⟨name, canonical⟩ g := ⟨hname, hown⟩
      rw [names_register hr, Roll.enter_same]
      exact List.rel_append hold (.cons (hnew.changeRegistry ..) .nil)
    · rw [names_changeRegistry_of_ne s ho, Roll.enter_of_ne ho]
      exact hold
  distinct other := by
    by_cases ho : registry = other
    · subst ho
      rw [names_register hr, List.map_append]
      refine List.nodup_append.mpr ⟨h.distinct registry, List.pairwise_singleton _ _, ?_⟩
      rintro _ hm _ hm' rfl
      obtain ⟨n, hn, hnn⟩ := List.mem_map.mp hm
      rw [names_eq hr] at hn
      have hne := List.findIdx?_eq_none_iff.mp hnew n hn
      rw [hnn, List.mem_singleton.mp hm'] at hne
      simp at hne
    · rw [names_changeRegistry_of_ne s ho]
      exact h.distinct other
  cached hcand hx := (register_retains hr).lists (h.cached hcand hx)

/-- An announcement that names the own record of the registrant takes nothing back. -/
theorem announce_retains (h : s.Enrolled roll) (hg : (roll registry)[position]? = some g)
    (hown : s.ownOf? g.candidate = some x) :
    (s.changeRegistry registry (·.announce position x)).Retains s where
  lines {other p n} hn := by
    rw [names_announce]
    split
    · rename_i ho
      subst ho
      rw [List.getElem?_modify, hn]
      by_cases hp : position = p
      · subst hp
        refine ⟨{ n with canonical := some x }, by simp, rfl, fun y hy => ?_⟩
        obtain ⟨g', hg', henters⟩ := h.line hn
        obtain rfl := Option.some.inj (hg.symm.trans hg')
        exact hown.symm.trans (henters.own y hy)
      · exact ⟨n, by simp [hp], rfl, fun _ => id⟩
    · exact ⟨n, hn, rfl, fun _ => id⟩
  nameOf? := nameOf?_congr rfl
  ownOf? := ownOf?_congr rfl

/-- The initializer of a name has returned. -/
theorem announce (h : s.Enrolled roll) (hg : (roll registry)[position]? = some g)
    (hown : s.ownOf? g.candidate = some x) :
    (s.changeRegistry registry (·.announce position x)).Enrolled roll where
  lines other := by
    have hold := (h.lines other).imp fun _ _ he =>
      he.changeRegistry registry (·.announce position x)
    rw [names_announce]
    split
    · rename_i ho
      subst ho
      refine forall₂_modify hold position fun n g' hg' he => ⟨he.name, fun y hy => ?_⟩
      obtain rfl := Option.some.inj (hg.symm.trans hg')
      exact hown.trans hy
    · exact hold
  distinct other := by
    have hnames : ((s.changeRegistry registry (·.announce position x)).names other).map (·.name)
        = (s.names other).map (·.name) := by
      rw [names_announce]
      split
      · refine List.ext_getElem? fun i => ?_
        rw [List.getElem?_map, List.getElem?_map, List.getElem?_modify]
        cases (s.names other)[i]? with
        | none => rfl
        | some n =>
            show some (if position = i then { n with canonical := some x } else n).name = _
            split <;> rfl
      · rfl
    rw [hnames]
    exact h.distinct other
  cached hcand hx := (h.announce_retains hg hown).lists (h.cached hcand hx)

/-- What is announced for a candidate is then listed under its name. -/
theorem announce_lists (h : s.Enrolled roll) (hg : (roll registry)[position]? = some g)
    (hname : s.nameOf? g.candidate = some name) :
    (s.changeRegistry registry (·.announce position x)).Lists registry name x := by
  obtain ⟨n, hn, henters⟩ := h.registration hg
  refine ⟨{ n with canonical := some x }, ?_, Option.some.inj (henters.name.symm.trans hname), rfl⟩
  rw [names_announce, if_pos rfl]
  refine List.mem_of_getElem? (i := position) ?_
  rw [List.getElem?_modify, hn]
  simp

-- ====================================================== answers

/-- A name that is found is where it was found. -/
theorem of_position? {r : Registry} (hr : s.registries[registry]? = some r)
    (hp : r.position? name = some position) :
    ∃ n, (s.names registry)[position]? = some n ∧ n.name = name := by
  obtain ⟨hlt, hat, -⟩ := List.findIdx?_eq_some_iff_getElem.mp hp
  rw [names_eq hr]
  exact ⟨_, List.getElem?_eq_getElem hlt, beq_iff_eq.mp hat⟩

/-- What a table has under a name is what it is said to list. -/
theorem table_eq_some (h : s.Enrolled roll) {r : Registry}
    (hr : s.registries[registry]? = some r) :
    (r.position? name).bind r.canonical? = some x ↔ s.Lists registry name x := by
  constructor
  · intro hx
    obtain ⟨position, hp, hx⟩ := Option.bind_eq_some_iff.mp hx
    obtain ⟨n, hn, hname⟩ := of_position? hr hp
    obtain ⟨n', hn', hx⟩ := Option.bind_eq_some_iff.mp hx
    rw [names_eq hr] at hn
    obtain rfl := Option.some.inj (hn.symm.trans hn')
    exact ⟨n, names_eq hr ▸ List.mem_of_getElem? hn, hname, hx⟩
  · rintro ⟨n, hn, hname, hx⟩
    cases hp : r.position? name with
    | none =>
        rw [names_eq hr] at hn
        have hne := List.findIdx?_eq_none_iff.mp hp n hn
        rw [hname] at hne
        simp at hne
    | some position =>
        obtain ⟨n', hn', hname'⟩ := of_position? hr hp
        obtain ⟨p, hat⟩ := List.getElem?_of_mem hn
        obtain rfl := h.position_eq hat hn' (hname.trans hname'.symm)
        rw [names_eq hr] at hat
        show (r.foreign[p]?).bind (·.canonical) = some x
        rw [hat]
        exact hx

end Enrolled

/-- What a call for a candidate is answered with, once that is decided: what
the candidate remembers of the registry, or else what the table has. -/
def answer? (s : Store) (registry : RegistryId) (c : CandidateId) : Option RecordId :=
  (s.candidates[c]?).bind fun candidate =>
    (candidate.uniqueIn registry).or
      ((s.registries[registry]?).bind fun r => (r.position? candidate.name).bind r.canonical?)

/-- What a candidate remembers of a registry has been told to it of that
registry. -/
theorem uniqueIn_eq_some (hx : candidate.uniqueIn registry = some x) :
    candidate.unique = some (registry, x) := by
  unfold Candidate.uniqueIn at hx
  obtain ⟨⟨owner, y⟩, hkept, rfl⟩ := Option.map_eq_some_iff.mp hx
  obtain ⟨hu, howner⟩ := Option.filter_eq_some_iff.mp hkept
  exact hu.trans (congrArg (fun o => some (o, y)) (beq_iff_eq.mp howner))

/-- What candidates remember makes no difference: a call is answered with what
the table lists. -/
theorem Enrolled.answer?_eq_some (h : s.Enrolled roll) :
    s.answer? registry c = some x ↔ s.ListsFor registry c x := by
  unfold answer? ListsFor nameOf?
  cases hcand : s.candidates[c]? with
  | none => exact ⟨nofun, fun ⟨_, hname, _⟩ => nomatch hname⟩
  | some candidate =>
      have hfor : (∃ name, (some candidate).map (·.name) = some name ∧ s.Lists registry name x)
          ↔ s.Lists registry candidate.name x := by
        refine ⟨fun ⟨name, hname, hl⟩ => ?_, fun hl => ⟨_, rfl, hl⟩⟩
        obtain rfl : candidate.name = name := Option.some.inj hname
        exact hl
      -- the table lists no record in a registry that is not there
      have htable : ((s.registries[registry]?).bind fun r =>
          (r.position? candidate.name).bind r.canonical?) = some x
            ↔ s.Lists registry candidate.name x := by
        cases hr : s.registries[registry]? with
        | some r => exact h.table_eq_some hr
        | none =>
            refine ⟨nofun, fun ⟨n, hn, _⟩ => ?_⟩
            unfold names at hn
            rw [hr] at hn
            cases hn
      rw [hfor, Option.bind_some]
      cases hu : candidate.uniqueIn registry with
      | none => rw [Option.none_or, htable]
      | some y =>
          have hy := h.cached hcand (uniqueIn_eq_some hu)
          rw [Option.some_or]
          exact ⟨fun hxy => Option.some.inj hxy ▸ hy,
            fun hx => congrArg some (h.lists_unique hy hx)⟩

end Store

end TypeRecords
