/-
How responsibilities are handed over.

Each lemma here is one way in which a store and the holds on it may change
together while `Store.Owned` stays. They speak of stores and lists of holds
only; which step of a thread is which hand-over is the business of
`Ownership/Shift.lean`.

- `Owned.alike`: no entry changes; holds are dropped, or recast into others
  that take something else for granted.
- `Owned.update`: the entry of one hold changes. Nobody else takes anything
  for granted about it, because nobody else holds it; waiters may be let go
  from its queue into the hands of the thread.
- `Owned.park`: a hold is given to a queue.
- `Owned.create`: an entry is added.
-/
import TypeRecords.Proofs.Ownership.Hold

namespace TypeRecords.Store

variable {s s' : Store} {H : List Hold}

-- ====================================================== queues as one list

/-- One of several lists, and the others. -/
theorem flatten_perm_eraseIdx {α : Type _} :
    ∀ {ls : List (List α)} {i : Nat} {l : List α}, ls[i]? = some l →
      ls.flatten.Perm (l ++ (ls.eraseIdx i).flatten)
  | [], i, l, h => by simp at h
  | x :: xs, 0, l, h => by
      simp only [List.getElem?_cons_zero, Option.some.injEq] at h
      subst h
      exact List.Perm.refl _
  | x :: xs, i + 1, l, h => by
      rw [List.getElem?_cons_succ] at h
      have ih := flatten_perm_eraseIdx h
      simp only [List.flatten_cons, List.eraseIdx_cons_succ]
      calc x ++ xs.flatten
          |>.Perm (x ++ (l ++ (xs.eraseIdx i).flatten)) := ih.append_left x
        _ |>.Perm (l ++ (x ++ (xs.eraseIdx i).flatten)) := by
            rw [← List.append_assoc, ← List.append_assoc]
            exact List.perm_append_comm.append_right _

/-- Changing one of several lists changes the count by what that list gains. -/
theorem count_flatten_set {ls : List (List Nat)} {i : Nat} {l : List Nat} (h : ls[i]? = some l)
    (l' : List Nat) (j : Nat) :
    (ls.set i l').flatten.count j + l.count j = ls.flatten.count j + l'.count j := by
  have hlen : i < ls.length := (List.getElem?_eq_some_iff.mp h).1
  have h' : (ls.set i l')[i]? = some l' := List.getElem?_set_self hlen
  rw [(flatten_perm_eraseIdx h).count_eq, (flatten_perm_eraseIdx h').count_eq,
    List.eraseIdx_set_eq, List.count_append, List.count_append]
  omega

theorem getElem?_modify_entry {i j : EntryId} {e e' : Entry} {f : Entry → Entry}
    (he : s.entries[i]? = some e) (hf : f e = e') :
    (s.entries.modify i f)[j]? = if i = j then some e' else s.entries[j]? := by
  rw [Array.getElem?_modify]
  by_cases hij : i = j
  · subst hij
    simp [he, hf]
  · simp [hij]

theorem getElem?_modify_self {i : EntryId} {e : Entry} {f : Entry → Entry}
    (he : s.entries[i]? = some e) (hs : s'.entries = s.entries.modify i f) :
    s'.entries[i]? = some (f e) := by
  rw [hs, getElem?_modify_entry he rfl, if_pos rfl]

/-- What an entry's queue gains is what the waiting initializations gain. -/
theorem count_waiting_modify {i : EntryId} {e e' : Entry} {f : Entry → Entry}
    (he : s.entries[i]? = some e) (hf : f e = e') (hs : s'.entries = s.entries.modify i f)
    (j : EntryId) :
    s'.waiting.count j + (e.queue.map (·.entry)).count j
      = s.waiting.count j + (e'.queue.map (·.entry)).count j := by
  have hl : (s.entries.toList.map fun e => e.queue.map (·.entry))[i]?
      = some (e.queue.map (·.entry)) := by
    rw [List.getElem?_map, Array.getElem?_toList, he]
    rfl
  have hset : (s'.entries.toList.map fun e => e.queue.map (·.entry))
      = (s.entries.toList.map fun e => e.queue.map (·.entry)).set i (e'.queue.map (·.entry)) := by
    refine List.ext_getElem? fun k => ?_
    rw [List.getElem?_map, Array.getElem?_toList, hs, getElem?_modify_entry he hf,
      List.getElem?_set, List.getElem?_map, Array.getElem?_toList, List.length_map,
      Array.length_toList]
    have hlt : i < s.entries.size := (Array.getElem?_eq_some_iff.mp he).1
    by_cases hik : i = k
    · subst hik
      simp [hlt]
    · simp [hik]
  unfold waiting
  rw [hset]
  exact count_flatten_set hl _ j

/-- A waiter on a queue is one of those that wait. -/
theorem mem_waiting {i : EntryId} {e : Entry} {w : Waiter} (he : s.entries[i]? = some e)
    (hw : w ∈ e.queue) : w.entry ∈ s.waiting :=
  List.mem_flatten.mpr ⟨_, List.mem_map.mpr
    ⟨e, Array.mem_toList_iff.mpr (Array.mem_of_getElem? he), rfl⟩, List.mem_map.mpr ⟨w, hw, rfl⟩⟩

/-- Whoever waits is on a queue. -/
theorem of_mem_waiting {i : EntryId} (hi : i ∈ s.waiting) :
    ∃ (queue : EntryId) (e : Entry) (w : Waiter),
      s.entries[queue]? = some e ∧ w ∈ e.queue ∧ w.entry = i := by
  obtain ⟨l, hl, hil⟩ := List.mem_flatten.mp hi
  obtain ⟨e, he, rfl⟩ := List.mem_map.mp hl
  obtain ⟨w, hw, rfl⟩ := List.mem_map.mp hil
  obtain ⟨queue, hq⟩ := Array.mem_iff_getElem?.mp (Array.mem_toList_iff.mp he)
  exact ⟨queue, e, w, hq, hw, rfl⟩

-- ====================================================== one holder at most

theorem holders_perm {H' : List Hold} (h : H'.Perm H) (i : EntryId) :
    s.holders H' i = s.holders H i := by
  unfold holders
  rw [(h.map _).count_eq]

/-- Who holds an entry does not depend on anything but entries. -/
theorem Alike.waiting (ha : s.Alike s') : s'.waiting = s.waiting := by
  unfold Store.waiting
  rw [ha.entries]

theorem Alike.holders (ha : s.Alike s') (H : List Hold) (i : EntryId) :
    s'.holders H i = s.holders H i := by
  unfold Store.holders
  rw [ha.waiting]

theorem holders_cons (h : Hold) (i : EntryId) :
    s.holders (h :: H) i = s.holders H i + if h.entry = i then 1 else 0 := by
  unfold holders
  rw [List.map_cons, List.count_cons]
  by_cases hi : h.entry = i
  · simp [hi]; omega
  · simp [hi]

theorem holders_append (G : List Hold) (i : EntryId) :
    s.holders (G ++ H) i = (G.map (·.entry)).count i + s.holders H i := by
  unfold holders
  rw [List.map_append, List.count_append]
  omega

/-- When the queue of the first hold's entry lets `out` go and the thread holds
`G` instead, this is how the holders change. -/
theorem holders_update {h : Hold} {G : List Hold} {e e' : Entry} {f : Entry → Entry}
    {out : List Waiter} (he : s.entries[h.entry]? = some e) (hf : f e = e')
    (hs : s'.entries = s.entries.modify h.entry f) (hq : e.queue.Perm (out ++ e'.queue))
    (i : EntryId) :
    s'.holders (G ++ H) i + (h.entry :: out.map (·.entry)).count i
      = s.holders (h :: H) i + (G.map (·.entry)).count i := by
  have hw := count_waiting_modify he hf hs i
  have hqc := (hq.map (·.entry)).count_eq i
  rw [List.map_append, List.count_append] at hqc
  rw [holders_append, holders_cons, List.count_cons]
  unfold holders
  simp only [beq_iff_eq]
  omega

/-- A hold that is given to a queue is still there. -/
theorem holders_park {d : Drive} {dep : Dependency} {queue : EntryId} {e : Entry}
    (he : s.entries[queue]? = some e)
    (hs : s'.entries
      = s.entries.modify queue fun _ => { e with queue := e.queue ++ [⟨dep.required, d.entry⟩] })
    (i : EntryId) : s'.holders H i = s.holders (.leaving d dep :: H) i := by
  have hw := count_waiting_modify he rfl hs i
  simp only [List.map_append, List.count_append, List.map_cons, List.map_nil, List.count_cons,
    List.count_nil, Nat.zero_add, beq_iff_eq] at hw
  rw [holders_cons, Hold.entry_leaving]
  unfold holders
  omega

/-- An entry that is added waits nowhere. -/
theorem holders_create {registry : RegistryId} {key : Key} {q : Request}
    (hs : s'.entries = s.entries.push { registry, key }) (i : EntryId) :
    s'.holders (.fresh ⟨registry, s.entries.size, s.records.size, q⟩ :: H) i
      = s.holders H i + if s.entries.size = i then 1 else 0 := by
  have hwaiting : s'.waiting = s.waiting := by
    unfold waiting
    rw [hs, Array.toList_push, List.map_append, List.flatten_append]
    simp
  rw [holders_cons, Hold.entry_fresh]
  unfold holders
  rw [hwaiting]

theorem holders_pos_of_mem {h : Hold} (hm : h ∈ H) : 1 ≤ s.holders H h.entry :=
  Nat.le_add_right_of_le (List.one_le_count_iff.mpr (List.mem_map.mpr ⟨h, hm, rfl⟩))

/-- Whatever is held is held by a thread or waits on a queue. -/
theorem holders_pos {i : EntryId} (h : 1 ≤ s.holders H i) :
    i ∈ H.map (·.entry) ∨ i ∈ s.waiting := by
  unfold holders at h
  rcases Nat.eq_zero_or_pos ((H.map (·.entry)).count i) with h0 | hpos
  · exact .inr (List.count_pos_iff.mp (by omega))
  · exact .inl (List.count_pos_iff.mp hpos)

theorem owned_of_empty (h : s.entries = #[]) : s.Owned [] := by
  have hno : ∀ {i : EntryId} {e : Entry}, s.entries[i]? ≠ some e := by simp [h]
  refine ⟨?_, ?_, ?_, ?_, ?_, fun i => ?_⟩
  · simp [labels, h]
  · exact fun he => (hno he).elim
  · exact fun he => (hno he).elim
  · exact fun hm => by cases hm
  · exact fun he => (hno he).elim
  · simp [holders, waiting, h]

namespace Owned

theorem perm {H' : List Hold} (ho : s.Owned H) (h : H'.Perm H) : s.Owned H' :=
  { ho with
    fits := fun hm => ho.fits (h.mem_iff.mp hm)
    once := fun i => by rw [holders_perm h]; exact ho.once i }

/-- An entry is as its holder believes it to be. -/
theorem suits {h : Hold} {e : Entry} (ho : s.Owned H) (hm : h ∈ H)
    (he : s.entries[h.entry]? = some e) : h.Suits s e := by
  obtain ⟨x, hx, hs⟩ := ho.fits hm
  obtain rfl := Option.some.inj (he.symm.trans hx)
  exact hs

/-- A waiter in the hands of a thread has a record, and something is saved for it. -/
theorem not_forgotten {registry : RegistryId} {w : Waiter}
    (ho : s.Owned (.ready registry w :: H))
    (hn : ∀ e, s.entries[w.entry]? = some e → e.record = none ∨ e.saved = none) : False := by
  obtain ⟨e, he, -, hp⟩ := ho.fits List.mem_cons_self
  rcases hn e he with hnone | hnone
  · simpa [hnone] using hp.record
  · simpa [hnone] using hp.saved

/-- For an initialization that is about to be queued something is saved. -/
theorem not_stranded {d : Drive} {dep : Dependency} {e : Entry}
    (ho : s.Owned (.leaving d dep :: H)) (he : s.entries[d.entry]? = some e) :
    e.saved ≠ none := by
  intro hnone
  have hsaved := Entry.Left.saved (ho.suits List.mem_cons_self he)
  rw [hnone] at hsaved
  cases hsaved

/-- Two holds are for two entries. -/
theorem entry_ne {h h' : Hold} (ho : s.Owned (h :: H)) (hm : h' ∈ H) : h'.entry ≠ h.entry := by
  intro heq
  have h1 := ho.once h.entry
  rw [holders_cons, if_pos rfl, ← heq] at h1
  have := holders_pos_of_mem (s := s) hm
  omega

/-- A thread holds an entry in one way. -/
theorem eq_of_entry {h h' : Hold} (ho : s.Owned H) (hm : h ∈ H) (hm' : h' ∈ H)
    (heq : h'.entry = h.entry) : h' = h := by
  obtain ⟨before, after, rfl⟩ := List.append_of_mem hm
  have hperm : (before ++ h :: after).Perm (h :: (before ++ after)) := List.perm_middle
  rcases List.mem_cons.mp (hperm.mem_iff.mp hm') with rfl | hrest
  · rfl
  · exact ((ho.perm hperm.symm).entry_ne hrest heq).elim

/-- Who waits on a queue is not held by a thread. -/
theorem waiting_ne {h : Hold} (ho : s.Owned H) (hm : h ∈ H) : h.entry ∉ s.waiting := by
  intro hw
  have h1 := ho.once h.entry
  have hc : 1 ≤ (H.map (·.entry)).count h.entry :=
    List.one_le_count_iff.mpr (List.mem_map.mpr ⟨h, hm, rfl⟩)
  have hd : 1 ≤ s.waiting.count h.entry := List.one_le_count_iff.mpr hw
  unfold holders at h1
  omega

/-- What is held is there. -/
theorem lt_size (ho : s.Owned H) {i : EntryId} (hpos : 1 ≤ s.holders H i) :
    i < s.entries.size := by
  rcases holders_pos hpos with hm | hm
  · obtain ⟨g, hg, rfl⟩ := List.mem_map.mp hm
    obtain ⟨x, hxe, -⟩ := ho.fits hg
    exact (Array.getElem?_eq_some_iff.mp hxe).1
  · obtain ⟨_, y, w, hy, hw, rfl⟩ := of_mem_waiting hm
    obtain ⟨x, _, hxe, -⟩ := ho.parked hy hw
    exact (Array.getElem?_eq_some_iff.mp hxe).1

-- ====================================================== hand-overs

/-- No entry changes. Holds are dropped, or recast for the same entries. -/
theorem alike {H' : List Hold} (ho : s.Owned H) (ha : s.Alike s')
    (hf : ∀ h ∈ H', h ∈ H ∨ h.Fits s)
    (hc : ∀ i, (H'.map (·.entry)).count i ≤ (H.map (·.entry)).count i) : s'.Owned H' where
  distinct := by rw [ha.labels]; exact ho.distinct
  sound he := ho.sound (ha.entries ▸ he)
  keyed he hr := by rw [ha.keyOf]; exact ho.keyed (ha.entries ▸ he) hr
  fits hm := by
    obtain ⟨e, he, hs⟩ := (hf _ hm).elim (fun h => ho.fits h) id
    exact ⟨e, ha.entries ▸ he, hs.grows ha.grows⟩
  parked he hw := by
    obtain ⟨e, target, hwe, hp, hb, ht⟩ := ho.parked (ha.entries ▸ he) hw
    exact ⟨e, target, ha.entries ▸ hwe, hp, hb, by rw [ha.entryOf?]; exact ht⟩
  once i := by
    have h1 := ho.once i
    have := hc i
    rw [ha.holders]
    unfold holders at h1 ⊢
    omega

/-- A hold is given up. -/
theorem drop {h : Hold} (ho : s.Owned (h :: H)) (ha : s.Alike s') : s'.Owned H :=
  ho.alike ha (fun _ hg => .inl (List.mem_cons_of_mem _ hg)) fun i => by
    rw [List.map_cons]
    exact List.count_le_count_cons

/-- The entry of the first hold changes; `out` are the waiters that leave its
queue, and `G` is what the thread holds instead. -/
theorem update {h : Hold} {G : List Hold} {e e' : Entry} {f : Entry → Entry}
    (ho : s.Owned (h :: H)) (out : List Waiter) (he : s.entries[h.entry]? = some e) (hf : f e = e')
    (hs : s'.entries = s.entries.modify h.entry f) (hk : s'.keys = s.keys)
    (hlabel : e'.registry = e.registry ∧ e'.key = e.key) (hsound : e'.Sound)
    (hkeyed : ∀ r, e'.record = some r → s.keyOf r = some e.key)
    (hq : e.queue.Perm (out ++ e'.queue)) (hG : ∀ g ∈ G, g.Fits s')
    (hc : ∀ i, (G.map (·.entry)).count i ≤ (h.entry :: out.map (·.entry)).count i) :
    s'.Owned (G ++ H) := by
  have hget : ∀ j, s'.entries[j]? = if h.entry = j then some e' else s.entries[j]? :=
    fun j => by rw [hs, getElem?_modify_entry he hf]
  have hlabels : s'.labels = s.labels := labels_of_modify hs fun x hx => by
    obtain rfl := Option.some.inj (he.symm.trans hx)
    rw [hf]
    exact hlabel
  have hx : s.Extends s' := ⟨hlabels ▸ List.prefix_rfl, hk ▸ List.prefix_rfl⟩
  have hkey : ∀ r, s'.keyOf r = s.keyOf r := fun r => by rw [keyOf_eq, keyOf_eq, hk]
  have hnotwaiting := ho.waiting_ne List.mem_cons_self
  -- a waiter is never the entry that changes, so what is parked stays as it is
  have hparked : ∀ {i : EntryId} {w : Waiter}, w.entry ∈ s.waiting → s.ParkedOn i w →
      s'.ParkedOn i w := by
    intro i w hw ⟨x, target, hxe, hp, hb, ht⟩
    have hne : h.entry ≠ w.entry := fun heq => hnotwaiting (heq ▸ hw)
    exact ⟨x, target, by rw [hget, if_neg hne]; exact hxe, hp, hb, hx.entryOf? ht⟩
  constructor
  case distinct =>
    rw [hlabels]
    exact ho.distinct
  case sound =>
    intro i x hi
    rw [hget] at hi
    split at hi
    · obtain rfl := Option.some.inj hi
      exact hsound
    · exact ho.sound hi
  case keyed =>
    intro i x r hi hr
    rw [hget] at hi
    rw [hkey]
    split at hi
    · obtain rfl := Option.some.inj hi
      rw [hlabel.2]
      exact hkeyed r hr
    · exact ho.keyed hi hr
  case fits =>
    intro g hg
    rcases List.mem_append.mp hg with hg | hg
    · exact hG g hg
    · obtain ⟨x, hxe, hsuits⟩ := ho.fits (List.mem_cons_of_mem _ hg)
      have hne : h.entry ≠ g.entry := (ho.entry_ne hg).symm
      exact ⟨x, by rw [hget, if_neg hne]; exact hxe, hsuits.grows hx⟩
  case parked =>
    intro i x w hi hw
    rw [hget] at hi
    split at hi
    · rename_i heq
      obtain rfl := Option.some.inj hi
      have hwe : w ∈ e.queue := hq.mem_iff.mpr (List.mem_append_right _ hw)
      exact heq ▸ hparked (mem_waiting he hwe) (ho.parked he hwe)
    · exact hparked (mem_waiting hi hw) (ho.parked hi hw)
  case once =>
    intro i
    have h1 := ho.once i
    have hi := holders_update (G := G) (H := H) he hf hs hq i
    have hci := hc i
    omega

/-- A hold is given to the queue of `queue`. -/
theorem park {d : Drive} {dep : Dependency} {queue : EntryId} {e : Entry}
    (ho : s.Owned (.leaving d dep :: H)) (he : s.entries[queue]? = some e)
    (ht : s.entryOf? d.registry dep.target = some queue)
    (hs : s'.entries
      = s.entries.modify queue fun _ => { e with queue := e.queue ++ [⟨dep.required, d.entry⟩] })
    (hk : s'.keys = s.keys) : s'.Owned H := by
  have hget : ∀ j, s'.entries[j]?
      = if queue = j then some { e with queue := e.queue ++ [⟨dep.required, d.entry⟩] }
        else s.entries[j]? :=
    fun j => by rw [hs, getElem?_modify_entry he rfl]
  have hlabels : s'.labels = s.labels := labels_of_modify hs fun x hx => by
    obtain rfl := Option.some.inj (he.symm.trans hx)
    exact ⟨rfl, rfl⟩
  have hx : s.Extends s' := ⟨hlabels ▸ List.prefix_rfl, hk ▸ List.prefix_rfl⟩
  have hkey : ∀ r, s'.keyOf r = s.keyOf r := fun r => by rw [keyOf_eq, keyOf_eq, hk]
  -- the queue is all that differs, and nobody takes a queue for granted
  have hsame : ∀ {j : EntryId} {x : Entry}, s.entries[j]? = some x →
      ∃ q, s'.entries[j]? = some { x with queue := q } := by
    intro j x hj
    rw [hget]
    split
    · rename_i heq
      subst heq
      obtain rfl := Option.some.inj (he.symm.trans hj)
      exact ⟨_, rfl⟩
    · exact ⟨x.queue, hj⟩
  have hparked : ∀ {i : EntryId} {w : Waiter}, s.ParkedOn i w → s'.ParkedOn i w := by
    intro i w ⟨x, target, hxe, hp, hb, htarget⟩
    obtain ⟨q, hq⟩ := hsame hxe
    exact ⟨_, target, hq, ⟨hp.1, hp.2, hp.3, hp.4, hp.5⟩, hb, hx.entryOf? htarget⟩
  have hleft : s.ParkedOn queue ⟨dep.required, d.entry⟩ := by
    obtain ⟨x, hxe, hl⟩ := ho.fits List.mem_cons_self
    exact ⟨x, dep.target, hxe, hl.parked, hl.blockedOn, by rw [hl.registry]; exact ht⟩
  constructor
  case distinct =>
    rw [hlabels]
    exact ho.distinct
  case sound =>
    intro i x hi
    rw [hget] at hi
    split at hi
    · obtain rfl := Option.some.inj hi
      have hsd := ho.sound he
      exact ⟨hsd.1, hsd.2, hsd.3⟩
    · exact ho.sound hi
  case keyed =>
    intro i x r hi hr
    rw [hget] at hi
    rw [hkey]
    split at hi
    · obtain rfl := Option.some.inj hi
      exact ho.keyed (e := e) he hr
    · exact ho.keyed hi hr
  case fits =>
    intro g hg
    obtain ⟨x, hxe, hsuits⟩ := ho.fits (List.mem_cons_of_mem _ hg)
    obtain ⟨q, hq⟩ := hsame hxe
    exact ⟨_, hq, (hsuits.grows hx).queue q⟩
  case parked =>
    intro i x w hi hw
    rw [hget] at hi
    split at hi
    · rename_i heq
      subst heq
      obtain rfl := Option.some.inj hi
      rcases List.mem_append.mp hw with hw | hw
      · exact hparked (ho.parked he hw)
      · obtain rfl := List.mem_singleton.mp hw
        exact hparked hleft
    · exact hparked (ho.parked hi hw)
  case once =>
    intro i
    rw [holders_park he hs]
    exact ho.once i

/-- An entry is added, and its record is being allocated. -/
theorem create {registry : RegistryId} {key : Key} {q : Request} (ho : s.Owned H)
    (hfind : s.find? registry key = none)
    (hs : s'.entries = s.entries.push { registry, key }) (hk : s'.keys = s.keys ++ [some key]) :
    s'.Owned (.fresh ⟨registry, s.entries.size, s.records.size, q⟩ :: H) := by
  have hget : ∀ j, s'.entries[j]?
      = if j = s.entries.size then some { registry, key } else s.entries[j]? :=
    fun j => by rw [hs, Array.getElem?_push]
  have hold : ∀ {j : EntryId} {x : Entry}, s.entries[j]? = some x → s'.entries[j]? = some x := by
    intro j x hj
    have := (Array.getElem?_eq_some_iff.mp hj).1
    rw [hget, if_neg (by omega)]
    exact hj
  have hlabels : s'.labels = s.labels ++ [(registry, key)] := by
    unfold labels
    rw [hs, Array.toList_push, List.map_append]
    rfl
  have hx : s.Extends s' := ⟨⟨_, hlabels.symm⟩, ⟨_, hk.symm⟩⟩
  have hkey : s'.keyOf s.records.size = some key := by
    have hlen : s.keys.length = s.records.size := by simp [keys]
    rw [keyOf_eq, hk, ← hlen, List.getElem?_append_right (Nat.le_refl _)]
    simp
  constructor
  case distinct =>
    rw [hlabels]
    exact List.nodup_append.mpr ⟨ho.distinct, by simp, fun l hl m hm heq =>
      find?_none hfind (by rw [← List.mem_singleton.mp hm, ← heq]; exact hl)⟩
  case sound =>
    intro i x hi
    rw [hget] at hi
    split at hi
    · obtain rfl := Option.some.inj hi
      exact ⟨rfl, fun _ => ⟨rfl, rfl, rfl, rfl⟩, fun hdone => by cases hdone⟩
    · exact ho.sound hi
  case keyed =>
    intro i x r hi hr
    rw [hget] at hi
    split at hi
    · obtain rfl := Option.some.inj hi
      cases hr
    · exact hx.keyOf (ho.keyed hi hr)
  case fits =>
    intro g hg
    rcases List.mem_cons.mp hg with rfl | hg
    · exact ⟨{ registry, key }, by rw [hget]; exact if_pos rfl, rfl, rfl, hkey⟩
    · obtain ⟨x, hxe, hsuits⟩ := ho.fits hg
      exact ⟨x, hold hxe, hsuits.grows hx⟩
  case parked =>
    intro i x w hi hw
    rw [hget] at hi
    split at hi
    · obtain rfl := Option.some.inj hi
      cases hw
    · obtain ⟨y, target, hy, hp, hb, ht⟩ := ho.parked hi hw
      exact ⟨y, target, hold hy, hp, hb, hx.entryOf? ht⟩
  case once =>
    intro i
    have h1 := ho.once i
    rw [holders_create hs]
    by_cases hi : s.entries.size = i
    · have hnone : ¬ 1 ≤ s.holders H i := fun hpos => by
        have hlt := ho.lt_size hpos
        rw [hi] at hlt
        exact Nat.lt_irrefl i hlt
      rw [if_pos hi]
      omega
    · rw [if_neg hi]
      exact h1

end Owned

end TypeRecords.Store
