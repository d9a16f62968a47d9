/-
Which witness a requirement gets.

Four sources have something to say about a slot of a witness table: what the callback
of the conformance has written there, the pattern, the witnesses registered for single
requirements, and the defaults of the protocol. `Recipe.Settles` ranks them. It is
stated by what is there and what is not, without regard to how a draft is filled.

A draft comes to it in two steps. Its first slots hold what the rule says if nothing
has been written (`Draft.follows_start`), and each further write is to the rule what it
is to the slots (`Recipe.settles_concat`, `Draft.Follows.reshapes`). So whatever the
callback does, its draft holds at any time what the rule says of the writes so far, and
a slot that is empty in the end is one of which the rule has nothing to say
(`Draft.Follows.firstEmpty_some`).
-/
import TypeRecords.Proofs.Conforming.Drafts

namespace TypeRecords

variable {σ : Type}

-- ====================================================== the rule

/-- It is registered for this very requirement. -/
def Resilient.For (x : Resilient) (c : Recipe) (index : Nat) : Prop :=
  x.protocol = c.protocol ∧ x.index = index

/-- The witness of requirement `index`, given what has been written in which order:
the last that was written there; else what the pattern has there; else, if the
requirement is met by a function, the first witness registered for it; else its
default. -/
inductive Recipe.Settles (c : Recipe) (writes : List (Nat × Witness)) (index : Nat)
    (r : Requirement) : Witness → Prop
  | written {w : Witness} (h : (writes.filter (·.1 = index)).getLast? = some (index, w)) :
      c.Settles writes index r w
  | pattern {w : Witness} (hunwritten : ∀ x ∈ writes, x.1 ≠ index)
      (h : c.prefilled[index]? = some w) : c.Settles writes index r w
  | registered {x : Resilient} {before after : List Resilient}
      (hunwritten : ∀ x ∈ writes, x.1 ≠ index) (hbeyond : c.prefilled.length ≤ index)
      (hfunction : r.kind.isFunction = true) (hlist : c.resilient = before ++ x :: after)
      (hfor : x.For c index) (hfirst : ∀ y ∈ before, ¬ y.For c index) :
      c.Settles writes index r (.function x.function)
  | default {f : FunctionId} (hunwritten : ∀ x ∈ writes, x.1 ≠ index)
      (hbeyond : c.prefilled.length ≤ index) (hfunction : r.kind.isFunction = true)
      (hnone : ∀ x ∈ c.resilient, ¬ x.For c index) (h : r.default = some f) :
      c.Settles writes index r (.function f)

/-- The first requirement that gets no witness by the rule. -/
structure Recipe.LeavesOut (c : Recipe) (p : Protocol) (writes : List (Nat × Witness))
    (index : Nat) (r : Requirement) : Prop where
  there : p.requirements[index]? = some r
  unsettled : ∀ w, ¬ c.Settles writes index r w
  first : ∀ i < index, ∀ r, p.requirements[i]? = some r → ∃ w, c.Settles writes i r w

/-- The witnesses of a table are those of the rule. -/
def WitnessTable.Follows (table : WitnessTable) (c : Recipe) (p : Protocol)
    (writes : List (Nat × Witness)) : Prop :=
  ∀ {index : Nat} {r : Requirement}, p.requirements[index]? = some r →
    ∃ w, table.witnesses[index]? = some w ∧ ∀ w', c.Settles writes index r w' ↔ w' = w

namespace Recipe

variable {c : Recipe} {p : Protocol} {writes : List (Nat × Witness)} {index : Nat}
  {r : Requirement} {w : Witness}

/-- The first witness registered for a requirement is what a search for it comes
to. -/
theorem find?_registered {x : Resilient} :
    (c.resilient.find? fun w => w.protocol == c.protocol && w.index == index) = some x
      ↔ x.For c index ∧ ∃ before after, c.resilient = before ++ x :: after
        ∧ ∀ y ∈ before, ¬ y.For c index := by
  rw [List.find?_eq_some_iff_append]
  simp only [Resilient.For, Bool.and_eq_true, beq_iff_eq, Bool.not_eq_true', Bool.and_eq_false_iff,
    beq_eq_false_iff_ne, exists_and_right, not_and_or, ne_eq]

theorem find?_none_registered :
    (c.resilient.find? fun w => w.protocol == c.protocol && w.index == index) = none
      ↔ ∀ x ∈ c.resilient, ¬ x.For c index := by
  rw [List.find?_eq_none]
  simp [Resilient.For]

/-- Without any writes the rule is what a draft begins with. -/
theorem settles_nil : c.Settles [] index r w ↔ c.initial index r = some w := by
  unfold initial
  constructor
  · intro h
    cases h with
    | written h => cases h
    | pattern _ h => rw [h]
    | registered _ hbeyond hfunction hlist hfor hfirst =>
        rw [List.getElem?_eq_none hbeyond, if_pos hfunction,
          find?_registered.mpr ⟨hfor, _, _, hlist, hfirst⟩]
        rfl
    | default _ hbeyond hfunction hnone h =>
        rw [List.getElem?_eq_none hbeyond, if_pos hfunction, find?_none_registered.mpr hnone, h]
        rfl
  · intro h
    cases hpattern : c.prefilled[index]? with
    | some w' =>
        rw [hpattern] at h
        cases h
        exact .pattern nofun hpattern
    | none =>
        have hbeyond := List.getElem?_eq_none_iff.mp hpattern
        rw [hpattern] at h
        simp only at h
        split at h
        · rename_i hfunction
          cases hfind : c.resilient.find? fun w => w.protocol == c.protocol && w.index == index with
          | some x =>
              obtain ⟨hfor, before, after, hlist, hfirst⟩ := find?_registered.mp hfind
              rw [hfind] at h
              cases h
              exact .registered nofun hbeyond hfunction hlist hfor hfirst
          | none =>
              rw [hfind] at h
              obtain ⟨f, hf, rfl⟩ := Option.map_eq_some_iff.mp h
              exact .default nofun hbeyond hfunction (find?_none_registered.mp hfind) hf
        · cases h

/-- A write settles its own slot, and no other. -/
theorem settles_concat {x : Nat × Witness} :
    c.Settles (writes ++ [x]) index r w ↔ if x.1 = index then w = x.2
      else c.Settles writes index r w := by
  split
  · rename_i hx
    have hlast : ((writes ++ [x]).filter (·.1 = index)).getLast? = some x := by
      have hone : [x].filter (·.1 = index) = [x] := List.filter_cons_of_pos (decide_eq_true hx)
      rw [List.filter_append, hone]
      exact List.getLast?_concat
    have hon : ¬ ∀ y ∈ writes ++ [x], y.1 ≠ index := fun hno =>
      hno x (List.mem_append_right _ List.mem_cons_self) hx
    constructor
    · intro h
      cases h with
      | written h => exact (congrArg Prod.snd (Option.some.inj (hlast.symm.trans h))).symm
      | pattern hno | registered hno | default hno => exact (hon hno).elim
    · rintro rfl
      exact .written (hlast.trans (congrArg some (Prod.ext hx rfl)))
  · rename_i hx
    have hlast : (writes ++ [x]).filter (·.1 = index) = writes.filter (·.1 = index) := by
      rw [List.filter_append, List.filter_cons_of_neg (by simpa using hx), List.filter_nil,
        List.append_nil]
    have hon : (∀ y ∈ writes ++ [x], y.1 ≠ index) ↔ ∀ y ∈ writes, y.1 ≠ index := by
      refine ⟨fun h y hy => h y (List.mem_append_left _ hy), fun h y hy => ?_⟩
      rcases List.mem_append.mp hy with hy | hy
      · exact h y hy
      · rwa [List.mem_singleton.mp hy]
    constructor
    · intro h
      cases h with
      | written h => exact .written (hlast ▸ h)
      | pattern hno h => exact .pattern (hon.mp hno) h
      | registered hno hbeyond hfunction hlist hfor hfirst =>
          exact .registered (hon.mp hno) hbeyond hfunction hlist hfor hfirst
      | default hno hbeyond hfunction hnone h =>
          exact .default (hon.mp hno) hbeyond hfunction hnone h
    · intro h
      cases h with
      | written h => exact .written (hlast ▸ h)
      | pattern hno h => exact .pattern (hon.mpr hno) h
      | registered hno hbeyond hfunction hlist hfor hfirst =>
          exact .registered (hon.mpr hno) hbeyond hfunction hlist hfor hfirst
      | default hno hbeyond hfunction hnone h =>
          exact .default (hon.mpr hno) hbeyond hfunction hnone h

/-- If the pattern has as much as there are requirements and nothing is written, the
rule yields the entries of the pattern. -/
theorem settles_plain (h : c.isPlain p = true) (hr : p.requirements[index]? = some r) :
    ∃ w, c.prefilled[index]? = some w ∧ ∀ w', c.Settles [] index r w' ↔ w' = w := by
  have hlength : p.requirements.length ≤ c.prefilled.length := by
    unfold isPlain at h
    exact of_decide_eq_true (Bool.and_eq_true_iff.mp h).2
  have hlt := Nat.lt_of_lt_of_le (List.getElem?_eq_some_iff.mp hr).1 hlength
  have hpattern := List.getElem?_eq_getElem hlt
  refine ⟨_, hpattern, fun w' => ?_⟩
  rw [settles_nil]
  unfold initial
  rw [hpattern]
  exact ⟨fun heq => (Option.some.inj heq).symm, fun heq => congrArg some heq.symm⟩

end Recipe

-- ====================================================== names

namespace Protocol

/-- It is the first requirement of that name. -/
structure FirstNamed (p : Protocol) (name : String) (index : Nat) : Prop where
  there : ∃ r, p.requirements[index]? = some r ∧ r.name = name
  first : ∀ i < index, ∀ r, p.requirements[i]? = some r → r.name ≠ name

variable {p : Protocol} {name : String} {index : Nat}

theorem FirstNamed.position? (h : p.FirstNamed name index) : p.position? name = some index := by
  obtain ⟨r, hr, hname⟩ := h.there
  obtain ⟨hlt, heq⟩ := List.getElem?_eq_some_iff.mp hr
  refine List.findIdx?_eq_some_iff_getElem.mpr ⟨hlt, ?_, fun i hi => ?_⟩
  · rw [heq]
    exact beq_iff_eq.mpr hname
  · have hi' := Nat.lt_trans hi hlt
    exact fun heq => h.first i hi _ (List.getElem?_eq_getElem hi') (beq_iff_eq.mp heq)

theorem position?_none (h : ∀ r ∈ p.requirements, r.name ≠ name) : p.position? name = none :=
  List.findIdx?_eq_none_iff.mpr fun r hr => beq_eq_false_iff_ne.mpr (h r hr)

end Protocol

/-- The pattern serves all types if there is no callback, and it is plain. -/
theorem Library.isTrivial_eq_true {lib : Library σ} {c : Conformance σ} :
    lib.isTrivial c = true ↔ c.instantiator = none
      ∧ ∃ p, lib.protocols[c.recipe.protocol]? = some p ∧ c.recipe.isPlain p = true := by
  unfold isTrivial
  rw [Bool.and_eq_true, Option.isNone_iff_eq_none]
  refine and_congr_right fun _ => ?_
  cases lib.protocols[c.recipe.protocol]? with
  | none => simp
  | some p => simp

-- ====================================================== drafts

/-- What the next node of a program writes into the draft among its locals. -/
def Program.writes? {α : Type} : Program σ α → Option (Nat × Witness)
  | .fill index w _ => some (index, w)
  | _ => none

def Control.writes? : Control σ → Option (Nat × Witness)
  | .run p _ => p.writes?
  | _ => none

/-- The draft holds what the rule says. -/
structure Draft.Follows (d : Draft) (c : Recipe) (p : Protocol) (writes : List (Nat × Witness)) :
    Prop where
  protocol : d.protocol = c.protocol
  length : d.slots.length = p.requirements.length
  slots : ∀ {index : Nat} {r : Requirement}, p.requirements[index]? = some r →
    ∀ w, d.get? index = some w ↔ c.Settles writes index r w

namespace Draft

variable {c : Recipe} {p : Protocol} {writes : List (Nat × Witness)} {d : Draft}

theorem follows_start (c : Recipe) (p : Protocol) : (start c p).Follows c p [] where
  protocol := rfl
  length := List.length_mapIdx
  slots {index r} hr w := by
    unfold start get?
    rw [Recipe.settles_nil, List.getElem?_mapIdx, hr]
    rfl

/-- A write into the draft is one more for the rule. -/
theorem Follows.set (h : d.Follows c p writes) (index : Nat) (w : Witness) :
    (d.set index w).1.Follows c p (writes ++ [(index, w)]) where
  protocol := h.protocol
  length := List.length_set.trans h.length
  slots {i r} hr w' := by
    have hlt : i < d.slots.length := h.length ▸ (List.getElem?_eq_some_iff.mp hr).1
    have hslots := h.slots hr w'
    rw [Recipe.settles_concat]
    show ((d.slots.set index (some w))[i]?).join = some w' ↔ _
    rw [List.getElem?_set]
    split
    · rename_i heq
      rw [if_pos (heq ▸ hlt)]
      exact ⟨fun heq => (Option.some.inj heq).symm, fun heq => congrArg some heq.symm⟩
    · exact hslots

/-- Whatever a program does, its draft holds what the rule says of its writes. -/
theorem Follows.reshapes (h : d.Follows c p writes) (control : Control σ) :
    ∃ d', control.reshapes (.draft d) = .draft d'
      ∧ d'.Follows c p (writes ++ control.writes?.toList) := by
  have hsame : d.Follows c p (writes ++ []) := (List.append_nil writes).symm ▸ h
  cases control with
  | run program s =>
      cases program with
      | fill index w k => exact ⟨_, rfl, h.set index w⟩
      | storePrivate index value k =>
          exact ⟨_, rfl, hsame.protocol, hsame.length, hsame.slots⟩
      | _ => exact ⟨d, rfl, hsame⟩
  | _ => exact ⟨d, rfl, hsame⟩

/-- The slot that is found to be empty is that of the first requirement left out. -/
theorem Follows.firstEmpty_some (h : d.Follows c p writes) {r : Requirement}
    (hempty : d.firstEmpty? p = some r) : ∃ index, c.LeavesOut p writes index r := by
  obtain ⟨⟨slot, r⟩, hfind, rfl⟩ := Option.map_eq_some_iff.mp hempty
  obtain ⟨hnone, index, hlt, hat, hbefore⟩ := List.find?_eq_some_iff_getElem.mp hfind
  obtain ⟨hslot, hr⟩ := List.getElem?_zip_eq_some.mp
    (List.getElem?_eq_some_iff.mpr ⟨hlt, hat⟩)
  obtain rfl : slot = none := Option.isNone_iff_eq_none.mp hnone
  refine ⟨index, hr, fun w hw => ?_, fun i hi r' hr' => ?_⟩
  · have hget := (h.slots hr w).mpr hw
    unfold get? at hget
    rw [hslot] at hget
    cases hget
  · have hi' : i < d.slots.length := h.length ▸ (List.getElem?_eq_some_iff.mp hr').1
    have hfull := hbefore i hi
    rw [List.getElem_zip, Bool.not_eq_true', Option.isNone_eq_false_iff] at hfull
    obtain ⟨w, hw⟩ := Option.isSome_iff_exists.mp hfull
    refine ⟨w, (h.slots hr' w).mp ?_⟩
    unfold get?
    rw [List.getElem?_eq_getElem hi']
    exact hw

theorem map_some_witnesses (h : ∀ slot ∈ d.slots, slot.isSome = true) :
    d.witnesses.map some = d.slots := by
  obtain ⟨protocol, slots, words⟩ := d
  show (slots.filterMap id).map some = slots
  induction slots with
  | nil => rfl
  | cons slot slots ih =>
      obtain ⟨w, rfl⟩ := Option.isSome_iff_exists.mp (h slot List.mem_cons_self)
      exact congrArg (some w :: ·) (ih fun s hs => h s (List.mem_cons_of_mem _ hs))

/-- If no slot is empty, the witnesses are those of the rule. -/
theorem Follows.table (h : d.Follows c p writes) (hfull : d.firstEmpty? p = none)
    {table : WitnessTable} (htable : table.witnesses = d.witnesses) :
    table.Follows c p writes := by
  intro index r hr
  have hlt : index < d.witnesses.length :=
    witnesses_length h.length hfull ▸ (List.getElem?_eq_some_iff.mp hr).1
  have hget : d.get? index = some d.witnesses[index] := by
    unfold get?
    rw [← map_some_witnesses (slots_isSome h.length hfull), List.getElem?_map,
      List.getElem?_eq_getElem hlt]
    rfl
  refine ⟨d.witnesses[index], by rw [htable, List.getElem?_eq_getElem hlt], fun w' => ?_⟩
  rw [← h.slots hr w', hget]
  exact ⟨fun heq => (Option.some.inj heq).symm, fun heq => congrArg some heq.symm⟩

end Draft

end TypeRecords
