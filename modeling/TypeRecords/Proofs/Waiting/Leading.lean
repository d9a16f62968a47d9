/-
Where waiting leads.

Every unfinished entry is held by a thread or parked on the queue of another
entry, so from each one can go from waiter to queue, and on. `Store.Leads`
says that this comes to a hold in the end, not to a circle of entries that are
parked on each other.

# What keeps circles out

Only parking could close one: an entry is put on a queue that leads to that
very entry. But the chain of its dependency was followed just before and did
not close. Along the queues the chain is the same walk - who is parked on a
queue is blocked on its entry - and so the queue leads to a hold without
coming back to the entry (`Leads.without`). This needs that entries and
records correspond (`Store.Sole`: one registry) and that nobody is stranded,
since the chain ends at a target that is where it should be.

The other danger is a hold that ends while others are parked on its entry. A
finished entry has nobody on its queue, and neither has one whose record is
still being allocated (`Store.Unawaited`).
-/
import TypeRecords.Proofs.Ownership.Advance
import TypeRecords.Proofs.Waiting.Chain
import TypeRecords.Proofs.Waiting.Stranded

namespace TypeRecords

variable {σ : Type}

/-- An entry that is not there yet, for some need, is not finished. -/
theorem Entry.Sound.unfinished {e : Entry} (hs : e.Sound) {required : Stage}
    (hu : e.satisfies required = false) : e.stage ≠ .complete := by
  intro hcomp
  have hrec : e.record = none := by
    cases hr : e.record with
    | none => rfl
    | some record =>
        unfold satisfies at hu
        rw [hr, hcomp] at hu
        cases required <;> cases hu
  rw [(hs.blank hrec).1] at hcomp
  cases hcomp

namespace Store

-- ====================================================== one registry

/-- All entries belong to one registry, and each record that may have an entry
has one of its own. -/
structure Sole (s : Store) (registry : RegistryId) : Prop where
  home : ∀ {label : RegistryId × Key}, label ∈ s.labels → label.1 = registry
  found : ∀ {record : RecordId} {key : Key}, s.keyOf record = some key →
    ∃ i, s.find? registry key = some i
  apart : ∀ {a b : RecordId} {key : Key}, s.keyOf a = some key → s.keyOf b = some key → a = b

variable {s s' : Store} {H H' : List Hold} {registry : RegistryId}

theorem Sole.entry_registry (h : s.Sole registry) {i : EntryId} {e : Entry}
    (he : s.entries[i]? = some e) : e.registry = registry :=
  h.home (List.mem_map.mpr ⟨e, Array.mem_toList_iff.mpr (Array.mem_of_getElem? he), rfl⟩)

/-- The entry found for a record is the entry of that record. -/
theorem Sole.record_eq (h : s.Sole registry) (ho : s.Owned H) {a b : RecordId} {i : EntryId}
    {e : Entry} (hi : s.entryOf? registry a = some i) (he : s.entries[i]? = some e)
    (hr : e.record = some b) : a = b := by
  obtain ⟨x, hx, -, hkey⟩ := entryOf?_some hi
  obtain rfl := Option.some.inj (he.symm.trans hx)
  exact h.apart hkey (ho.keyed he hr)

theorem Sole.same (h : s.Sole registry) (hl : s'.labels = s.labels) (hk : s'.keys = s.keys) :
    s'.Sole registry where
  home hm := h.home (hl ▸ hm)
  found hr := by
    rw [keyOf_eq, hk, ← keyOf_eq] at hr
    rw [find?_eq, hl, ← find?_eq]
    exact h.found hr
  apart ha hb := by
    rw [keyOf_eq, hk, ← keyOf_eq] at ha hb
    exact h.apart ha hb

/-- A new entry comes with a record of its own. -/
theorem Sole.create (h : s.Sole registry) {key : Key} (hf : s.find? registry key = none)
    (hl : s'.labels = s.labels ++ [(registry, key)]) (hk : s'.keys = s.keys ++ [some key]) :
    s'.Sole registry := by
  have hx : s.Extends s' := ⟨⟨_, hl.symm⟩, ⟨_, hk.symm⟩⟩
  have hcases : ∀ {record : RecordId} {key' : Key}, s'.keyOf record = some key' →
      s.keyOf record = some key' ∨ record = s.keys.length ∧ key' = key := by
    intro record key' hr
    rw [keyOf_eq, hk] at hr
    rcases Nat.lt_trichotomy record s.keys.length with hlt | heq | hgt
    · rw [List.getElem?_append_left hlt, ← keyOf_eq] at hr
      exact .inl hr
    · subst heq
      refine .inr ⟨rfl, ?_⟩
      simpa using hr.symm
    · rw [List.getElem?_eq_none (by simp; omega)] at hr
      cases hr
  have hnew : ∀ {record : RecordId}, s.keyOf record ≠ some key := by
    intro record hr
    obtain ⟨i, hi⟩ := h.found hr
    rw [hf] at hi
    cases hi
  refine ⟨fun hm => ?_, fun hr => ?_, fun {a b key'} ha hb => ?_⟩
  · rw [hl] at hm
    rcases List.mem_append.mp hm with hm | hm
    · exact h.home hm
    · rw [List.mem_singleton.mp hm]
  · rcases hcases hr with hold | ⟨-, rfl⟩
    · obtain ⟨i, hi⟩ := h.found hold
      exact ⟨i, hx.find? hi⟩
    · refine ⟨s.labels.length, ?_⟩
      rw [find?_eq, hl, List.findIdx?_append]
      rw [find?_eq] at hf
      rw [hf]
      simp
  · rcases hcases ha with ha | ⟨rfl, rfl⟩
    · rcases hcases hb with hb | ⟨-, rfl⟩
      · exact h.apart ha hb
      · exact (hnew ha).elim
    · rcases hcases hb with hb | ⟨rfl, -⟩
      · exact (hnew hb).elim
      · rfl

-- ====================================================== leading

/-- From the entry one comes to a hold by going from waiter to queue. -/
inductive Leads (s : Store) (H : List Hold) : EntryId → Prop
  | held {h : Hold} (hm : h ∈ H) : Leads s H h.entry
  | parked {queue : EntryId} {e : Entry} {w : Waiter} (he : s.entries[queue]? = some e)
      (hw : w ∈ e.queue) (h : Leads s H queue) : Leads s H w.entry

/-- Every unfinished entry leads to a hold. -/
def Led (s : Store) (H : List Hold) : Prop :=
  ∀ (i : EntryId) (e : Entry), s.entries[i]? = some e → e.stage ≠ .complete → s.Leads H i

/-- Nobody waits for an entry that has no record. -/
def Unawaited (s : Store) : Prop :=
  ∀ (i : EntryId) (e : Entry), s.entries[i]? = some e → e.record = none → e.queue = []

/-- Without holds nothing leads anywhere. -/
theorem Leads.not_nil {i : EntryId} (h : s.Leads [] i) : False := by
  induction h with
  | held hm => cases hm
  | parked he hw h ih => exact ih

/-- Holds may change hands, and queues may change, as long as everyone still
gets to a hold from where the walk went on before. -/
theorem Leads.imp {i : EntryId} (h : s.Leads H i) (hH : ∀ h ∈ H, s'.Leads H' h.entry)
    (hq : ∀ (queue : EntryId) (e : Entry) (w : Waiter), s.entries[queue]? = some e →
      w ∈ e.queue → s'.Leads H' queue → s'.Leads H' w.entry) : s'.Leads H' i := by
  induction h with
  | held hm => exact hH _ hm
  | parked he hw h ih => exact hq _ _ _ he hw ih

/-- Holds for the same entries, and queues at least as long. -/
theorem Leads.mono {i : EntryId} (h : s.Leads H i) (hH : ∀ h ∈ H, ∃ h' ∈ H', h'.entry = h.entry)
    (hq : ∀ (queue : EntryId) (e : Entry) (w : Waiter), s.entries[queue]? = some e →
      w ∈ e.queue → ∃ e' : Entry, s'.entries[queue]? = some e' ∧ w ∈ e'.queue) : s'.Leads H' i := by
  refine h.imp (fun h hm => ?_) fun queue e w he hw hl => ?_
  · obtain ⟨h', hm', heq⟩ := hH h hm
    exact heq ▸ .held hm'
  · obtain ⟨e', he', hw'⟩ := hq queue e w he hw
    exact .parked he' hw' hl

/-- A hold that nobody waits for is no loss to the others. -/
theorem Leads.drop {h : Hold} {i : EntryId} {e : Entry} (hl : s.Leads (h :: H) i)
    (he : s.entries[h.entry]? = some e) (hq : e.queue = []) (hne : i ≠ h.entry) :
    s.Leads H i := by
  induction hl with
  | held hm =>
      rcases List.mem_cons.mp hm with rfl | hm
      · exact (hne rfl).elim
      · exact .held hm
  | @parked queue x w hx hw h' ih =>
      refine .parked hx hw (ih fun heq => ?_)
      rw [heq, he] at hx
      obtain rfl := Option.some.inj hx
      rw [hq] at hw
      cases hw

/-- Where a chain that does not close comes by, the entries lead to other
holds than that of its start. The induction is on the way to the hold; each
move from waiter to queue is the chain's next link. -/
theorem Leads.without {h : Hold} {own : Entry} {start : RecordId} (ho : s.Owned (h :: H))
    (hsole : s.Sole registry) (hn : ∀ i, ¬ s.StrandedAt i) (hown : s.entries[h.entry]? = some own)
    (hrec : own.record = some start) {i : EntryId} (hl : s.Leads (h :: H) i) :
    ∀ {earlier : List Dependency} {last : Dependency} {e : Entry},
      Chain.follow (s.waits registry) start earlier last = none →
      s.entryOf? registry last.target = some i → s.entries[i]? = some e →
      e.satisfies last.required = false → s.Leads H i := by
  induction hl with
  | held hm =>
      intro earlier last e hf hi he hu
      rcases List.mem_cons.mp hm with rfl | hm
      · exact ((Chain.follow_none hf).1 (hsole.record_eq ho hi hown hrec)).elim
      · exact .held hm
  | @parked queue x w hx hw h' ih =>
      intro earlier last e hf hi he hu
      obtain ⟨y, target, hy, hp, hb, ht⟩ := ho.parked hx hw
      obtain rfl := Option.some.inj (he.symm.trans hy)
      rw [hsole.entry_registry he] at ht
      have hstage : e.stage.satisfies last.required = false := by
        unfold Entry.satisfies at hu
        rw [hp.record, Bool.true_and] at hu
        exact hu
      obtain ⟨_, _, _, hkey⟩ := entryOf?_some hi
      have hnext := (Chain.follow_none hf).2 (lt_size_of_keyOf hkey) _
        (blockerOf?_of_entry hi he hp.record hstage hb)
      refine .parked hx hw (ih hnext ht hx (Bool.eq_false_iff.mpr fun hsat => ?_))
      exact hn queue ⟨x, hx, w, hw, hsat⟩

/-- The entry of the first hold changes, the thread holds `G` instead, and
whoever leaves its queue is taken up by the thread. -/
theorem Led.update {h : Hold} {G : List Hold} {e e' : Entry} {f : Entry → Entry}
    (hl : s.Led (h :: H)) (he : s.entries[h.entry]? = some e) (hf : f e = e')
    (hs : s'.entries = s.entries.modify h.entry f)
    (hu : e'.stage ≠ .complete → e.stage ≠ .complete) (hG : ∃ g ∈ G, g.entry = h.entry)
    (hq : ∀ w ∈ e.queue, w ∈ e'.queue ∨ ∃ g ∈ G, g.entry = w.entry) : s'.Led (G ++ H) := by
  have hheld : ∀ {i : EntryId}, (∃ g ∈ G, g.entry = i) → s'.Leads (G ++ H) i := by
    rintro i ⟨g, hg, rfl⟩
    exact .held (List.mem_append_left _ hg)
  intro i x hi hx
  rw [hs, getElem?_modify_entry he hf] at hi
  have hbefore : s.Leads (h :: H) i := by
    split at hi
    · rename_i heq
      obtain rfl := Option.some.inj hi
      exact hl i e (heq ▸ he) (hu hx)
    · exact hl i x hi hx
  refine hbefore.imp (fun g hg => ?_) fun queue y w hy hw hlead => ?_
  · rcases List.mem_cons.mp hg with rfl | hg
    · exact hheld hG
    · exact .held (List.mem_append_right _ hg)
  · by_cases heq : h.entry = queue
    · subst heq
      obtain rfl := Option.some.inj (he.symm.trans hy)
      rcases hq w hw with hw' | hw'
      · exact .parked (e := e') (by rw [hs, getElem?_modify_entry he hf, if_pos rfl]) hw' hlead
      · exact hheld hw'
    · exact .parked (by rw [hs, getElem?_modify_entry he hf, if_neg heq]; exact hy) hw hlead

/-- Holds may change hands. -/
theorem Led.regroup (hl : s.Led H) (hs : s'.entries = s.entries)
    (hH : ∀ h ∈ H, ∃ h' ∈ H', h'.entry = h.entry) : s'.Led H' := by
  intro i e hi hu
  rw [hs] at hi
  exact (hl i e hi hu).mono hH fun queue x w hx hw => ⟨x, hs ▸ hx, hw⟩

/-- A new entry is held. -/
theorem Led.create {h : Hold} {x : Entry} (hl : s.Led H) (hs : s'.entries = s.entries.push x)
    (hh : h.entry = s.entries.size) : s'.Led (h :: H) := by
  intro i e hi hu
  rw [hs, Array.getElem?_push] at hi
  split at hi
  · rename_i heq
    rw [heq, ← hh]
    exact .held List.mem_cons_self
  · refine (hl i e hi hu).mono (fun h hm => ⟨h, List.mem_cons_of_mem _ hm, rfl⟩)
      fun queue y w hy hw => ⟨y, ?_, hw⟩
    have hlt := (Array.getElem?_eq_some_iff.mp hy).1
    rw [hs, Array.getElem?_push, if_neg (by omega)]
    exact hy

/-- The entry of the first hold is finished, and nobody waits for it. -/
theorem Led.finish {h : Hold} {e : Entry} (hl : s.Led (h :: H))
    (he : s.entries[h.entry]? = some e) (hq : e.queue = [])
    (hdone : ∀ x, s'.entries[h.entry]? = some x → x.stage = .complete)
    (hsame : ∀ i, i ≠ h.entry → s'.entries[i]? = s.entries[i]?) : s'.Led H := by
  intro i x hx hu
  by_cases heq : i = h.entry
  · subst heq
    exact (hu (hdone x hx)).elim
  · rw [hsame i heq] at hx
    refine ((hl i x hx hu).drop he hq heq).mono (fun h hm => ⟨h, hm, rfl⟩)
      fun queue y w hy hw => ⟨y, ?_, hw⟩
    rw [hsame queue]
    · exact hy
    · rintro rfl
      obtain rfl := Option.some.inj (he.symm.trans hy)
      rw [hq] at hw
      cases hw

/-- An initialization whose chain does not close is parked: it leads to where
its target led already. -/
theorem Led.park {d : Drive} {dep : Dependency} {queue : EntryId} {e : Entry}
    (hl : s.Led (.leaving d dep :: H)) (ho : s.Owned (.leaving d dep :: H))
    (hsole : s.Sole registry) (hn : ∀ i, ¬ s.StrandedAt i)
    (hopen : s.cycle? d.registry d.record dep = none)
    (hq : s.entryOf? d.registry dep.target = some queue) (he : s.entries[queue]? = some e)
    (hu : e.satisfies dep.required = false)
    (hs : s'.entries = s.entries.modify queue fun _ =>
      { e with queue := e.queue ++ [⟨dep.required, d.entry⟩] }) : s'.Led H := by
  obtain ⟨own, hown, hleft⟩ := ho.fits List.mem_cons_self
  have hreg : d.registry = registry := by
    rw [← Entry.Left.registry hleft]
    exact hsole.entry_registry hown
  have hcycle := Option.map_eq_none_iff.mp hopen
  rw [hreg] at hcycle hq
  have hunfinished : e.stage ≠ .complete := (ho.sound he).unfinished hu
  have hget : ∀ j, s'.entries[j]?
      = if queue = j then some { e with queue := e.queue ++ [⟨dep.required, d.entry⟩] }
        else s.entries[j]? :=
    fun j => by rw [hs, getElem?_modify_entry he rfl]
  have hqueues : ∀ (j : EntryId) (x : Entry) (w : Waiter), s.entries[j]? = some x →
      w ∈ x.queue → ∃ x' : Entry, s'.entries[j]? = some x' ∧ w ∈ x'.queue := by
    intro j x w hx hw
    rw [hget]
    split
    · rename_i heq
      subst heq
      obtain rfl := Option.some.inj (he.symm.trans hx)
      exact ⟨_, rfl, List.mem_append_left _ hw⟩
    · exact ⟨x, hx, hw⟩
  have htarget : s'.Leads H queue :=
    ((hl queue e he hunfinished).without ho hsole hn hown (Entry.Left.record hleft) hcycle hq he
      hu).mono (fun h hm => ⟨h, hm, rfl⟩) hqueues
  intro i x hx hux
  have hbefore : s.Leads (.leaving d dep :: H) i := by
    rw [hget] at hx
    split at hx
    · rename_i heq
      exact hl i e (heq ▸ he) hunfinished
    · exact hl i x hx hux
  refine hbefore.imp (fun h hm => ?_) fun j y w hy hw hlead => ?_
  · rcases List.mem_cons.mp hm with rfl | hm
    · exact .parked (w := ⟨dep.required, d.entry⟩) ((hget queue).trans (if_pos rfl))
        (List.mem_append_right _ List.mem_cons_self) htarget
    · exact .held hm
  · obtain ⟨y', hy', hw'⟩ := hqueues j y w hy hw
    exact .parked hy' hw' hlead

end Store

-- ====================================================== one step

namespace Turn.Shift

variable {lib : Library σ} {a : Actor} {t t' : Turn σ} {registry : RegistryId}

/-- As long as all requests are for one registry, there is only that one. -/
theorem sole (h : Shift lib a t t') (hs : t.store.Sole registry)
    (hreg : ∀ registry' q c k set, t.control = .run (.request registry' q c k) set →
      registry' = registry) : t'.store.Sole registry := by
  rcases h.labels with ⟨hl, hk⟩ | ⟨registry', q, c, k, set, key, hc, hf, hl, hk⟩
  · exact hs.same hl hk
  · obtain rfl := hreg registry' q c k set hc
    exact hs.create hf hl hk

/-- Nobody comes to wait for an entry without a record, unless someone parks
there. -/
theorem unawaited (h : Shift lib a t t') (ho : t.store.Owned (t.holds a.id))
    (hn : t.store.Unawaited)
    (hpark : ∀ d dep queue e, t.control = .enqueue d dep →
      t.store.entryOf? d.registry dep.target = some queue → t.store.entries[queue]? = some e →
      e.record ≠ none) : t'.store.Unawaited := by
  -- an entry that changes has a record afterwards, or no more waiters than before
  have hmodify : ∀ {i : EntryId} {e e' : Entry} {f : Entry → Entry},
      t.store.entries[i]? = some e → f e = e' →
      t'.store.entries = t.store.entries.modify i f → (e'.record = none → e'.queue = []) →
      t'.store.Unawaited := by
    intro i e e' f he hf hs hq j x hj hr
    rw [hs, Store.getElem?_modify_entry he hf] at hj
    split at hj
    · obtain rfl := Option.some.inj hj
      exact hq hr
    · exact hn j x hj hr
  have hsame : t.store.Alike t'.store → t'.store.Unawaited := fun ha i e he =>
    hn i e (ha.entries ▸ he)
  cases h with
  | quiet ha hh => exact hsame ha
  | lose hd ha hh => exact hsame ha
  | proceed hp ha hh hh' => exact hsame ha
  | forget hc hno ha hh => exact hsame ha
  | finish hc hs ha hh => exact hsame ha
  | strand hc hi hs ha hh => exact hsame ha
  | create hc hf he hk hh =>
      intro i e hi hr
      rw [he, Array.getElem?_push] at hi
      split at hi
      · obtain rfl := Option.some.inj hi
        rfl
      · exact hn i e hi hr
  | allocate hc hs he hk hh hh' =>
      rw [hh] at ho
      obtain ⟨e, hi, -⟩ := ho.fits List.mem_cons_self
      exact hmodify hi rfl he nofun
  | @publish d o e rest hc hi he hk hh hh' =>
      rw [hh] at ho
      obtain ⟨hd, -⟩ := ho.suits List.mem_cons_self hi
      exact hmodify hi rfl he fun hr => absurd hr hd.recorded
  | @resume d dep w ready e taken record scratch rest hc hi hr ht he hk hh hh' =>
      obtain ⟨-, rfl⟩ := Entry.reclaim?_some ht
      exact hmodify hi rfl he fun hnone => hn w.entry e hi hnone
  | @suspend d dep rest hc hcy hw he hk hc' hh hh' =>
      rw [hh] at ho
      obtain ⟨e, hi, -⟩ := ho.fits List.mem_cons_self
      exact hmodify hi rfl he fun hnone => hn d.entry e hi hnone
  | @park d dep queue e hc hq hi hu he hk hh =>
      exact hmodify hi rfl he fun hnone => absurd hnone (hpark d dep queue e hc hq hi)
  | @reclaim d dep own taken scratch rest hc hi ht he hk hh hh' =>
      obtain ⟨-, rfl⟩ := Entry.reclaim?_some ht
      exact hmodify hi rfl he fun hnone => hn d.entry own hi hnone

/-- As long as nothing unwinds, every unfinished entry goes on leading to a
hold. What is parked is parked behind a chain that does not close. -/
theorem led (h : Shift lib a t t') (hcalm : t.control.disturbed = false)
    (hcalm' : t'.control.disturbed = false) (ho : t.store.Owned (t.holds a.id))
    (hs : t.store.Sole registry) (hn : ∀ i, ¬ t.store.StrandedAt i) (hua : t.store.Unawaited)
    (hopen : ∀ d dep, t.control = .enqueue d dep →
      t.store.cycle? d.registry d.record dep = none)
    (hl : t.store.Led (t.holds a.id)) : t'.store.Led (t'.holds a.id) := by
  cases h with
  | quiet ha hh => exact hl.regroup ha.entries fun h hm => ⟨h, hh.mem_iff.mpr hm, rfl⟩
  | lose hd => simp [hcalm, hcalm'] at hd
  | @proceed h h' rest hp ha hh hh' =>
      have hentry : h'.entry = h.entry := by cases hp <;> rfl
      refine hl.regroup ha.entries fun g hm => ?_
      rcases List.mem_cons.mp (hh.mem_iff.mp hm) with rfl | hm
      · exact ⟨h', hh'.mem_iff.mpr List.mem_cons_self, hentry⟩
      · exact ⟨g, hh'.mem_iff.mpr (List.mem_cons_of_mem _ hm), rfl⟩
  | create hc hf he hk hh =>
      exact (hl.create he rfl).regroup rfl fun h hm => ⟨h, hh.mem_iff.mpr hm, rfl⟩
  | @allocate al stage rest hc hstage he hk hh hh' =>
      rw [hh] at ho hl
      obtain ⟨e, hi, -, hrec, -⟩ := ho.fits List.mem_cons_self
      have hu : e.stage ≠ .complete := by
        rw [((ho.sound hi).blank hrec).1]
        decide
      have hget := fun j => Store.getElem?_modify_entry (i := al.entry)
        (f := (·.finishAllocation a.id al.record stage)) hi rfl (j := j)
      rw [hh']
      by_cases hdone : stage = .complete
      · rw [if_pos hdone]
        refine hl.finish hi (hua _ _ hi hrec) (fun x hx => ?_) fun i hne => ?_
        · rw [he, Hold.entry_fresh, hget, if_pos rfl] at hx
          obtain rfl := Option.some.inj hx
          exact hdone
        · rw [Hold.entry_fresh] at hne
          rw [he, hget, if_neg hne.symm]
      · rw [if_neg hdone]
        exact hl.update hi rfl he (fun _ => hu) ⟨_, List.mem_cons_self, rfl⟩
          fun w hw => .inl hw
  | @publish d o e rest hc hi he hk hh hh' =>
      rw [hh] at ho hl
      obtain ⟨-, hu, -⟩ := ho.suits List.mem_cons_self hi
      rw [hh']
      refine hl.update hi rfl he (fun _ => hu) ⟨_, List.mem_cons_self, rfl⟩ fun w hw => ?_
      rcases List.mem_append.mp ((e.publish_queue o).mem_iff.mp hw) with hw | hw
      · exact .inr ⟨_, List.mem_cons_of_mem _ (List.mem_map.mpr ⟨w, hw, rfl⟩), rfl⟩
      · exact .inl hw
  | @resume d dep w ready e taken record scratch rest hc hi hr ht he hk hh hh' =>
      have hl₁ : t.store.Led (.ready d.registry w :: rest) :=
        hl.regroup rfl fun h hm => ⟨h, hh.mem_iff.mp hm, rfl⟩
      obtain ⟨-, rfl⟩ := Entry.reclaim?_some ht
      rw [hh']
      exact hl₁.update (G := [_]) hi rfl he id ⟨_, List.mem_cons_self, rfl⟩ fun w hw => .inl hw
  | forget hc hno ha hh => exact ((ho.perm hh.symm).not_forgotten hno).elim
  | @finish d hc hdone ha hh =>
      rw [hh] at ho hl
      obtain ⟨e, hi, hd, -⟩ := ho.fits List.mem_cons_self
      have hcomp : e.stage = .complete := hd.stage.trans hdone
      have hempty : e.queue = [] := Entry.queue_of_complete (ho.sound hi) hcomp
        fun hstr => hn d.entry ⟨e, hi, hstr⟩
      refine hl.finish hi hempty (fun x hx => ?_) fun i _ => by rw [ha.entries]
      rw [ha.entries] at hx
      obtain rfl := Option.some.inj (hi.symm.trans hx)
      exact hcomp
  | @suspend d dep rest hc hcy hw he hk hc' hh hh' =>
      rw [hh] at ho hl
      obtain ⟨e, hi, -⟩ := ho.fits List.mem_cons_self
      rw [hh']
      exact hl.update (G := [_]) hi rfl he id ⟨_, List.mem_cons_self, rfl⟩ fun w hw => .inl hw
  | @park d dep queue e hc hq hi hu he hk hh =>
      rw [hh] at ho hl
      exact hl.park ho hs hn (hopen d dep hc) hq hi hu he
  | @reclaim d dep own taken scratch rest hc hi ht he hk hh hh' =>
      rw [hh] at hl
      obtain ⟨-, rfl⟩ := Entry.reclaim?_some ht
      rw [hh']
      exact hl.update (G := [_]) hi rfl he id ⟨_, List.mem_cons_self, rfl⟩ fun w hw => .inl hw
  | strand hc hi hsaved ha hh =>
      rw [hh] at ho
      exact (ho.not_stranded hi hsaved).elim

end Turn.Shift

-- ====================================================== the start

namespace Machine

variable {start : Machine σ}

theorem Fresh.sole (hf : start.Fresh) (registry : RegistryId) : start.store.Sole registry := by
  have hkey : ∀ {record : RecordId} {key : Key}, start.store.keyOf record ≠ some key := by
    intro record key hk
    rw [hf.keyOf_none record] at hk
    cases hk
  refine ⟨fun hm => ?_, fun hk => (hkey hk).elim, fun hk => (hkey hk).elim⟩
  unfold Store.labels at hm
  rw [hf.entries] at hm
  cases hm

end Machine

end TypeRecords
