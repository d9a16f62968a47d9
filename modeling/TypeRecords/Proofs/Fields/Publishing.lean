/-
Layouts that programs publish.

A record that was there from the start has no descriptor. No step completes it
and none lays it out, so a layout of it that a program has published stays
until a program publishes another one (`Chronicle.published`).

Five kinds of steps give layouts to records (`Turn.Writes`). Three of them leave
a record alone that has a layout or no descriptor, and programs are what this
is about. What remains is the end of a walk over fields. A walk begins with a
look at the descriptor of the record and stays with that record, in the control
or in the frame that waits for the next field (`Turn.Described`).
-/
import TypeRecords.Proofs.Fields.Known
import TypeRecords.Proofs.Process.Chronicle
import TypeRecords.Proofs.Process.Plain

namespace TypeRecords

variable {σ : Type}

/-- The record has a descriptor. -/
def Store.Declared (lib : Library σ) (s : Store) (x : RecordId) : Prop :=
  ((s.records[x]?).bind lib.descriptorOf?).isSome = true

theorem Store.Declared.gains {lib : Library σ} {s s' : Store} {x : RecordId}
    (h : s.Declared lib x) (hs : s.records.Gains s'.records) : s'.Declared lib x := by
  obtain ⟨d, hd⟩ := Option.isSome_iff_exists.mp h
  obtain ⟨r, hr, hd⟩ := Option.bind_eq_some_iff.mp hd
  obtain ⟨r', hr', hgains⟩ := hs x r hr
  unfold Declared
  rw [hr', Option.bind_some, hgains.descriptorOf? lib, hd]
  rfl

/-- A record that was there from the start has none. -/
theorem Store.not_declared {lib : Library σ} {s : Store} {x : RecordId} {r : Record}
    (hr : s.records[x]? = some r) (ho : r.origin = .fixed) : ¬ s.Declared lib x := by
  unfold Declared Library.descriptorOf?
  rw [hr, Option.bind_some, ho]
  exact Bool.false_ne_true

/-- The layout that a program publishes next, and the record. -/
def Control.publishes? : Control σ → Option (RecordId × Layout)
  | .run (.act (.publish x l) _) _ => some (x, l)
  | _ => none

theorem Control.publish_of_publishes {control : Control σ} {x : RecordId} {l : Layout}
    (h : control.publishes? = some (x, l)) :
    ∃ k s, control = .run (.act (.publish x l) k) s := by
  unfold publishes? at h
  split at h
  · cases h
    exact ⟨_, _, rfl⟩
  · cases h

-- ====================================================== walks

namespace Turn

variable {lib : Library σ} {a : Actor} {t t' : Turn σ}

/-- The records that are walked over have descriptors. -/
structure Described (lib : Library σ) (t : Turn σ) : Prop where
  control : ∀ w, t.control = .lay w → t.store.Declared lib w.record
  frames : ∀ w, .laying w ∈ t.frames → t.store.Declared lib w.record

theorem startLayout_described (t : Turn σ) {registry : RegistryId} {record : RecordId}
    {scratch : Scratch} {w : FieldWalk σ}
    (hc : (t.startLayout lib registry record scratch).control = .lay w) :
    t.store.Declared lib w.record := by
  unfold startLayout at hc
  split at hc
  · cases hc
  · rename_i d hd
    cases hc
    exact Option.isSome_iff_exists.mpr ⟨d, hd⟩

/-- A walk that a step leads to is one that was there, or begins with the
descriptor. -/
theorem Described.walk (ht : t.Described lib) (h : t.step lib a = some t') {w : FieldWalk σ}
    (hc' : t'.control = .lay w) : t.store.Declared lib w.record := by
  cases walks_of_step h hc' with
  | begin hc ht' hs =>
      have hdeclared := startLayout_described _ (ht' ▸ hc')
      unfold Store.Declared at hdeclared ⊢
      rwa [← hs]
  | program hc ht' =>
      have hdeclared := startLayout_described _ (ht' ▸ hc')
      exact hdeclared
  | @field walk r left rest hc hf ht' =>
      rw [ht'] at hc'
      unfold laid at hc'
      split at hc' <;> cases hc'
      exact ht.frames walk (hf ▸ List.mem_cons_self)

theorem Described.step (ht : t.Described lib) (h : t.step lib a = some t') : t'.Described lib where
  control w hc' := (ht.walk h hc').gains (step_writes h).gains
  frames w hw := by
    refine Store.Declared.gains (s := t.store) ?_ (step_writes h).gains
    rcases opened_of_step h hw with hold | hopens
    · exact ht.frames w hold
    · cases hopens with
      | call hc hf => cases hf
      | laying hc => exact ht.control w hc

/-- A step leaves the layout of a record as it is that has one and no descriptor,
unless it publishes a layout of this record. -/
theorem Writes.layoutOf (h : Writes lib t t') (ht : t.Described lib) {x : RecordId} {r : Record}
    (hr : t.store.records[x]? = some r) (ho : r.origin = .fixed) (hl : r.layout.isSome = true)
    (hno : ∀ l, t.control.publishes? ≠ some (x, l)) :
    t'.store.records.layoutOf x = t.store.records.layoutOf x := by
  by_cases hact : ∃ y l k s, t.control = .run (.act (.publish y l) k) s
  · obtain ⟨y, l, k, s, hc⟩ := hact
    have hxy : y ≠ x := by
      rintro rfl
      exact hno l (by rw [hc]; rfl)
    cases h with
    | same h => rw [h]
    | acted hc' h =>
        cases hc.symm.trans hc'
        rw [h]
        show (Array.modify _ y _)[x]?.bind _ = _
        rw [Array.getElem?_modify, if_neg hxy]
        rfl
    | made hc' | settled hc' | laid hc' | measured hc' => cases hc.symm.trans hc'
  · obtain ⟨r', hr', hlasts⟩ := h.lasts (fun y l k s hc => hact ⟨y, l, k, s, hc⟩) hr
      fun w hc hw hx => (Store.not_declared hr ho (hx ▸ ht.control w hc)).elim
    unfold Records.layoutOf
    rw [hr, hr']
    exact (hlasts.layout hl).1

theorem publish_layoutOf {x : RecordId} {l : Layout} (hc : t.control.publishes? = some (x, l))
    (h : t.step lib a = some t') (hx : x < t.store.records.size) :
    t'.store.records.layoutOf x = some l.stored := by
  obtain ⟨k, s, hc⟩ := Control.publish_of_publishes hc
  unfold step at h
  rw [hc] at h
  cases h
  show (Array.modify _ x _)[x]?.bind _ = _
  rw [Array.getElem?_modify, if_pos rfl, Array.getElem?_eq_getElem hx]
  rfl

end Turn

-- ====================================================== runs

namespace Machine

variable {lib : Library σ} {start m m' : Machine σ} {t u : ThreadId} {thread : Thread σ}

theorem Reachable.described (hf : start.Fresh) (h : Reachable lib start m)
    (hu : m.threads[u]? = some thread) : (m.turn thread).Described lib := by
  have hstart : ∀ {m : Machine σ} {thread : Thread σ}, thread.frames = [] →
      (∃ p s, thread.control = .run p s) → (m.turn thread).Described lib := by
    intro m thread hframes ⟨p, s, hrun⟩
    refine ⟨fun w hc => ?_, fun w hw => ?_⟩
    · cases hrun.symm.trans hc
    · rw [show (m.turn thread).frames = [] from hframes] at hw
      cases hw
  induction h generalizing u thread with
  | refl =>
      obtain ⟨hframes, hrun⟩ := hf.running _ (Array.mem_of_getElem? hu)
      exact hstart hframes hrun
  | step t h hs ih =>
      have hgains := step_gains hs
      refine step_threads (P := Turn.Described lib) hs (fun hthread hturn _ => ?_)
        (fun hthread hc hp hstore => ?_) (fun hu => ?_) (fun hframes hrun => hstart hframes hrun) hu
      · exact (ih hthread).step hturn
      · exact ⟨nofun, fun w hw => ((ih hthread).frames w hw).gains hgains⟩
      · exact ⟨fun w hc => ((ih hu).control w hc).gains hgains,
          fun w hw => ((ih hu).frames w hw).gains hgains⟩

namespace Chronicle

variable {r : Chronicle lib start} {i j n : Nat} {x : RecordId} {l : Layout}

/-- A program publishes a layout of a record in a step. -/
def Publishes (r : Chronicle lib start) (n : Nat) (x : RecordId) (l : Layout) : Prop :=
  n < r.length ∧ ((r.state n).threads[r.mover n]?).bind (·.control.publishes?) = some (x, l)

theorem publishes_layoutOf (hf : start.Fresh) (hx : x < start.store.records.size)
    (h : r.Publishes n x l) : (r.state (n + 1)).store.records.layoutOf x = some l.stored := by
  obtain ⟨hn, hpub⟩ := h
  obtain ⟨thread, ht, hc⟩ := Option.bind_eq_some_iff.mp hpub
  obtain ⟨record, hr, -⟩ := r.fixed hf hx (Nat.le_of_lt hn)
  obtain ⟨mover, thread', hmover, -, hturn | ⟨p, p', s', hc', hp, -⟩⟩ := step_mover (r.step n hn)
  · obtain rfl := Option.some.inj (ht.symm.trans hmover)
    exact Turn.publish_layoutOf hc hturn (Array.getElem?_eq_some_iff.mp hr).1
  · obtain rfl := Option.some.inj (ht.symm.trans hmover)
    rw [hc'] at hc
    cases hp <;> cases hc

/-- What has been published of a record that was there from the start is what is
to be seen of it, until something else is published. -/
theorem published (hf : start.Fresh) (hx : x < start.store.records.size)
    (h : r.Publishes n x l) (hnj : n < j) (hj : j ≤ r.length) :
    ∃ n' l', n ≤ n' ∧ n' < j ∧ r.Publishes n' x l' ∧ (∀ i l, n' < i → i < j → ¬ r.Publishes i x l)
      ∧ (r.state j).store.records.layoutOf x = some l'.stored := by
  induction hnj with
  | refl =>
      exact ⟨n, l, Nat.le_refl n, Nat.lt_succ_self n, h,
        fun i _ hi hin => (Nat.not_lt.mpr (Nat.le_of_lt_succ hin) hi).elim,
        publishes_layoutOf hf hx h⟩
  | @step j hnj ih =>
      have hle := Nat.le_of_succ_le hj
      by_cases hpub : ∃ l', r.Publishes j x l'
      · obtain ⟨l', hpub⟩ := hpub
        exact ⟨j, l', Nat.le_of_succ_le hnj, Nat.lt_succ_self j, hpub,
          fun i _ hi hij => (Nat.not_lt.mpr (Nat.le_of_lt_succ hij) hi).elim,
          publishes_layoutOf hf hx hpub⟩
      · obtain ⟨n', l', hn', hlt, hpub', hlast, hlayout⟩ := ih hle
        refine ⟨n', l', hn', Nat.lt_succ_of_lt hlt, hpub', fun i l'' hi hij hpub'' => ?_, ?_⟩
        · rcases Nat.lt_or_eq_of_le (Nat.le_of_lt_succ hij) with hlt' | rfl
          · exact hlast i l'' hi hlt' hpub''
          · exact hpub ⟨l'', hpub''⟩
        · rw [← hlayout]
          obtain ⟨thread, thread', ht, -, hturn | ⟨p, p', s, -, -, hs, -⟩⟩ :=
            step_mover (r.step j hj)
          · obtain ⟨record, hr, ho⟩ := r.fixed hf hx hle
            have hl : record.layout = some l'.stored := by
              unfold Records.layoutOf at hlayout
              rwa [hr] at hlayout
            refine (Turn.step_writes hturn).layoutOf ((r.reachable hle).described hf ht) hr ho
              (hl ▸ rfl) fun l'' hc => hpub ⟨l'', hj, ?_⟩
            rw [ht]
            exact hc
          · rw [hs]

end Chronicle

end Machine

end TypeRecords
