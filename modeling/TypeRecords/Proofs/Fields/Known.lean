/-
Where a layout is said to be known, there is one.

The stage of a record and its layout are written by different steps. A stage
goes up when a record is allocated and when the outcome of a step is published;
a layout is there once somebody has laid the record out, and is not taken away
again (`Writes.gains`). What is to be shown is that the layout comes first.

# Why it does

A record that needs no completion is given a layout when it is allocated, and
one that is completed by its fields starts out with the stage that goes with
the layout it has by then. An outcome that says that the layout is known is
published after a tuple has been laid out, after a walk over the fields that
nothing has stopped, after one that has been stopped if there was a layout
before, or of a record that was finished for itself already (`Turn.tells_step`).
For the walks this takes `Turn.Stands`: the outcome is that of the step's own
walk, and of none that a program has begun.

Registries, threads and faults play no part in this, and neither does what
programs lay out by themselves.
-/
import TypeRecords.Proofs.Fields.Stepping
import TypeRecords.Proofs.Process.Chronicle
import TypeRecords.Proofs.Requests.Returning

namespace TypeRecords

variable {σ : Type}

-- ====================================================== records only gain

/-- What becomes of a record, whatever is done to it: it is made from what it
was made from, and if it had a layout it has one, though it may be another. -/
structure Record.Gains (r r' : Record) : Prop where
  origin : r'.origin = r.origin
  arguments : r'.arguments = r.arguments
  layout : r.layout.isSome → r'.layout.isSome

namespace Record.Gains

variable {r r' : Record}

theorem refl (r : Record) : r.Gains r := ⟨rfl, rfl, id⟩

theorem descriptorOf? (h : r.Gains r') (lib : Library σ) :
    lib.descriptorOf? r' = lib.descriptorOf? r := by
  unfold Library.descriptorOf?
  rw [h.origin]

end Record.Gains

theorem Record.Lasts.gains {r r' : Record} (h : r.Lasts r') : r.Gains r' :=
  ⟨h.origin, h.arguments, fun hl => (h.layout hl).1 ▸ hl⟩

/-- What becomes of all records. -/
def Records.Gains (rs rs' : Records) : Prop := rs.Become Record.Gains rs'

namespace Records.Gains

variable {rs rs' : Records} {x : RecordId}

theorem refl (rs : Records) : rs.Gains rs := fun _ r hr => ⟨r, hr, .refl r⟩

theorem layoutOf (h : rs.Gains rs') (hx : (rs.layoutOf x).isSome) :
    (rs'.layoutOf x).isSome := by
  obtain ⟨l, hl⟩ := Option.isSome_iff_exists.mp hx
  obtain ⟨r, hr, hlayout⟩ := Option.bind_eq_some_iff.mp hl
  obtain ⟨r', hr', hg⟩ := h x r hr
  unfold Records.layoutOf
  rw [hr']
  exact hg.layout (hlayout ▸ rfl)

theorem size_le (h : rs.Gains rs') : rs.size ≤ rs'.size := by
  by_contra hlt
  have hlast := Nat.not_le.mp hlt
  obtain ⟨r', hr', -⟩ := h rs'.size _ (Array.getElem?_eq_getElem hlast)
  exact Nat.lt_irrefl _ (Array.getElem?_eq_some_iff.mp hr').1

end Records.Gains

theorem Records.Lasts.gains {rs rs' : Records} (h : rs.Lasts rs') : rs.Gains rs' :=
  fun x r hr => by
    obtain ⟨r', hr', hl⟩ := h x r hr
    exact ⟨r', hr', hl.gains⟩

namespace Store

variable {s : Store}

theorem perform_gains (action : Action) : s.records.Gains (s.perform action).1.records := by
  by_cases hpublish : ∃ x l, action = .publish x l
  · obtain ⟨x, l, rfl⟩ := hpublish
    exact Records.Become.modify .refl fun r _ => ⟨rfl, rfl, fun _ => rfl⟩
  · exact (perform_lasts action fun x l heq => hpublish ⟨x, l, heq⟩).gains

theorem settleTuple_gains (x : RecordId) :
    s.records.Gains (Turn.settleTuple s x).records := by
  unfold Turn.settleTuple
  split
  · exact .refl s.records
  · exact Records.Become.modify .refl fun r _ => ⟨rfl, rfl, fun _ => rfl⟩

end Store

namespace Turn

variable {lib : Library σ} {a : Actor} {t t' : Turn σ} {others : List Hold}

/-- No step takes a layout away. -/
theorem Writes.gains (h : Writes lib t t') : t.store.records.Gains t'.store.records := by
  cases h with
  | same h =>
      rw [h]
      exact .refl t.store.records
  | acted hc h =>
      rw [h]
      exact Store.perform_gains _
  | made hc hr h =>
      rw [h]
      exact Records.Become.push .refl t.store.records _
  | @settled al hc h =>
      rw [h]
      exact (Store.firstStage_lasts lib t.store al.record).gains
  | laid hc hw h =>
      rw [h]
      exact Records.Become.modify .refl fun r _ => ⟨rfl, rfl, fun _ => rfl⟩
  | measured hc hw h =>
      rw [h]
      exact Store.settleTuple_gains _

/-- A record that is there after a step is what has become of one that was there
before, or a request has made it. -/
theorem Writes.record {R : Record → Record → Prop} (h : Writes lib t t')
    (hl : t.store.records.Become R t'.store.records) {x : RecordId} {r' : Record}
    (hr' : t'.store.records[x]? = some r') :
    (∃ r, t.store.records[x]? = some r ∧ R r r')
      ∨ ∃ registry q c k s, t.control = .run (.request registry q c k) s
        ∧ lib.made? c = some r' ∧ x = t.store.records.size := by
  have hx' := (Array.getElem?_eq_some_iff.mp hr').1
  have hsize : t'.store.records.size = t.store.records.size →
      ∃ r, t.store.records[x]? = some r ∧ R r r' := fun hsize => hl.back (hsize ▸ hx') hr'
  cases h with
  | same h => exact .inl (hsize (congrArg Array.size h))
  | @acted action k s hc h =>
      exact .inl (hsize ((congrArg Array.size h).trans (t.store.alike_perform action).records_size))
  | settled hc h =>
      exact .inl (hsize ((congrArg Array.size h).trans (alike_firstStage ..).records_size))
  | laid hc hw h =>
      exact .inl (hsize ((congrArg Array.size h).trans (alike_layDown ..).records_size))
  | measured hc hw h =>
      exact .inl (hsize ((congrArg Array.size h).trans (alike_settleTuple ..).records_size))
  | made hc hmade h =>
      rcases Nat.lt_or_ge x t.store.records.size with hlt | hge
      · exact .inl (hl.back hlt hr')
      · rw [h, Array.getElem?_push] at hr'
        rw [h, Array.size_push] at hx'
        have hlast := Nat.le_antisymm (Nat.le_of_lt_succ hx') hge
        rw [if_pos hlast] at hr'
        obtain rfl := Option.some.inj hr'
        exact .inr ⟨_, _, _, _, _, hc, hmade, hlast⟩

end Turn

/-- A record that a request makes is made from what the request names. -/
theorem Library.arguments_of_made {lib : Library σ} {c : Call} {r : Record}
    (h : lib.made? c = some r) : r.arguments = c.names := by
  cases c with
  | check record => cases h
  | tuple elements =>
      cases h
      rfl
  | generic descriptor arguments =>
      obtain ⟨d, -, rfl⟩ := Option.map_eq_some_iff.mp h
      rfl

-- ====================================================== what is known

/-- Where an entry says that the layout of its record is known there is one, and
where it would say so without further ado. -/
structure Store.Informed (lib : Library σ) (s : Store) : Prop where
  /-- Records are made of descriptors that are declared. -/
  described : ∀ {x : RecordId} {r : Record} {id : DescriptorId}, s.records[x]? = some r →
    r.origin = .generic id → (lib.descriptors[id]?).isSome
  known : ∀ {i : EntryId} {e : Entry} {x : RecordId}, s.entries[i]? = some e →
    e.record = some x → .layoutComplete ≤ e.stage → (s.records.layoutOf x).isSome
  /-- What needs no completion has a layout from the start. -/
  plain : ∀ {i : EntryId} {e : Entry} {x : RecordId} {r : Record} {d : Descriptor σ},
    s.entries[i]? = some e → e.record = some x → s.records[x]? = some r →
    lib.descriptorOf? r = some d → d.completion = none → r.layout.isSome

namespace Turn

variable {lib : Library σ} {a : Actor} {t t' : Turn σ} {others : List Hold}

/-- What the thread is about to publish as having a layout has one. -/
def Tells (t : Turn σ) : Prop :=
  ∀ d o, t.control = .publish d o → .layoutComplete ≤ o.stage →
    (t.store.records.layoutOf d.record).isSome

theorem tells_of_plain (h : t.control.plain = true) : t.Tells := fun d o hc _ => by
  rw [hc] at h
  cases h

-- ====================================================== entries

/-- What is allocated has been allocated by then, or is with this step. -/
theorem Alters.recorded {i : EntryId} {e e' : Entry} {x : RecordId} (h : Alters lib a t i e e')
    (hr : e'.record = some x) :
    e.record = some x ∨ ∃ al, t.control = .allocated al ∧ al.record = x
      ∧ e'.stage = (firstStage lib t.store x).2 := by
  cases h with
  | kept hr' hs hb hsaved => exact .inl (hr'.symm.trans hr)
  | published hc hi => exact .inl hr
  | suspended hc hi hcy => exact .inl hr
  | @allocated al hc hi hr' =>
      obtain rfl := Option.some.inj hr
      exact .inr ⟨al, hc, rfl, rfl⟩

/-- What an allocation writes. -/
theorem allocated_records {al : Allocation} (h : t.step lib a = some t')
    (hc : t.control = .allocated al) :
    t'.store.records = (firstStage lib t.store al.record).1.records := by
  cases step_allocated hc h <;> rfl

/-- Where an entry says that the layout is known there is one, if there was and
the thread publishes no more than is so. -/
theorem step_known (h : t.step lib a = some t') (ho : t.store.Owned (t.holds a.id ++ others))
    (hknown : ∀ {i : EntryId} {e : Entry} {x : RecordId}, t.store.entries[i]? = some e →
      e.record = some x → .layoutComplete ≤ e.stage → (t.store.records.layoutOf x).isSome)
    (ht : t.Tells) {i : EntryId} {e' : Entry} {x : RecordId}
    (he' : t'.store.entries[i]? = some e') (hr' : e'.record = some x)
    (hstage : .layoutComplete ≤ e'.stage) : (t'.store.records.layoutOf x).isSome := by
  have hgains := (step_writes h).gains
  rcases (step_shift h).alters ho he' with ⟨e, he, halters⟩ | ⟨_, _, _, _, _, _, -, -, rfl⟩
  · have hold : e.record = some x → .layoutComplete ≤ e.stage →
        (t'.store.records.layoutOf x).isSome := fun hr hstage =>
      hgains.layoutOf (hknown he hr hstage)
    cases halters with
    | kept hr hstage' hb hsaved => exact hold (hr.symm.trans hr') (hstage' ▸ hstage)
    | suspended hc hi hcy => exact hold hr' hstage
    | @allocated al hc hi hr =>
        obtain rfl := Option.some.inj hr'
        rw [allocated_records h hc]
        exact Store.firstStage_layout hstage
    | @published d o hc hi =>
        subst hi
        rw [e.publish_stage] at hstage
        unfold Stage.later at hstage
        split at hstage
        · -- the outcome of the step says so
          have hmem : .concluding a.id d o ∈ t.holds a.id ++ others :=
            List.mem_append_left _ (mem_holds_of_control hc List.mem_cons_self)
          obtain ⟨hdriven, -⟩ := ho.suits hmem he
          obtain rfl := Option.some.inj (hdriven.record.symm.trans hr')
          exact hgains.layoutOf (ht d o hc hstage)
        · exact hold hr' hstage
  · cases hr'

/-- What needs no completion has a layout once it is allocated. -/
theorem step_planned (h : t.step lib a = some t') (ho : t.store.Owned (t.holds a.id ++ others))
    (hplanned : ∀ {i : EntryId} {e : Entry} {x : RecordId} {r : Record} {d : Descriptor σ},
      t.store.entries[i]? = some e → e.record = some x → t.store.records[x]? = some r →
      lib.descriptorOf? r = some d → d.completion = none → r.layout.isSome)
    {i : EntryId} {e' : Entry} {x : RecordId} {r' : Record} {d : Descriptor σ}
    (he' : t'.store.entries[i]? = some e') (hr' : e'.record = some x)
    (hrx : t'.store.records[x]? = some r') (hd : lib.descriptorOf? r' = some d)
    (hplain : d.completion = none) : r'.layout.isSome := by
  have hback : x < t.store.records.size → ∃ r, t.store.records[x]? = some r ∧ r.Gains r'
      ∧ lib.descriptorOf? r = some d := by
    intro hx
    obtain ⟨r, hr, hgains⟩ := Records.Become.back (step_writes h).gains hx hrx
    exact ⟨r, hr, hgains, (hgains.descriptorOf? lib).symm.trans hd⟩
  rcases (step_shift h).alters ho he' with ⟨e, he, halters⟩ | ⟨_, _, _, _, _, _, -, -, rfl⟩
  · rcases halters.recorded hr' with hr | ⟨al, hc, rfl, -⟩
    · obtain ⟨r, hold, hgains, hfound⟩ := hback (Store.lt_size_of_keyOf (ho.keyed he hr))
      exact hgains.layout (hplanned he hr hold hfound hplain)
    · have hmem : .fresh al ∈ t.holds a.id ++ others :=
        List.mem_append_left _ (mem_holds_of_control hc List.mem_cons_self)
      obtain ⟨_, -, -, -, hkey⟩ := ho.fits hmem
      obtain ⟨r, hold, -, hfound⟩ := hback (Store.lt_size_of_keyOf hkey)
      have hlayout := Store.firstStage_plain hold hfound hplain
      rw [← allocated_records h hc] at hlayout
      unfold Records.layoutOf at hlayout
      rw [hrx] at hlayout
      exact hlayout
  · cases hr'

/-- A record that a request makes is made of a descriptor that is declared. -/
theorem described_of_made {c : Call} {r : Record} {id : DescriptorId} (h : lib.made? c = some r)
    (ho : r.origin = .generic id) : (lib.descriptors[id]?).isSome := by
  cases c with
  | check record => cases h
  | tuple elements =>
      cases h
      cases ho
  | generic descriptor arguments =>
      obtain ⟨d, hd, rfl⟩ := Option.map_eq_some_iff.mp h
      cases ho
      rw [hd]
      rfl

theorem step_informed (h : t.step lib a = some t') (hs : t.store.Informed lib)
    (ho : t.store.Owned (t.holds a.id ++ others)) (ht : t.Tells) : t'.store.Informed lib where
  described hr' horigin := by
    rcases (step_writes h).record (step_writes h).gains hr'
      with ⟨r, hr, hgains⟩ | ⟨_, _, c, _, _, -, hmade, -⟩
    · exact hs.described hr (hgains.origin.symm.trans horigin)
    · exact described_of_made hmade horigin
  known := step_known h ho hs.known ht
  plain := step_planned h ho hs.plain

-- ====================================================== outcomes

/-- A record that is completed, and is not, has been finished for itself. -/
theorem closing_layout {d : Drive} {r : Record} {id : DescriptorId} (hs : t.store.Informed lib)
    (ho : t.store.Owned (t.holds a.id ++ others)) (hm : .active a.id d ∈ t.holds a.id)
    (hr : t.store.records[d.record]? = some r) (horigin : r.origin = .generic id)
    (hn : d.stage < .nonTransitive → (lib.descriptors[id]?).bind (·.completion) = none) :
    (t.store.records.layoutOf d.record).isSome := by
  obtain ⟨e, he, hdriven, -⟩ := ho.fits (List.mem_append_left _ hm)
  by_cases hstage : d.stage < .nonTransitive
  · obtain ⟨desc, hdesc⟩ := Option.isSome_iff_exists.mp (hs.described hr horigin)
    have hnone := hn hstage
    rw [hdesc, Option.bind_some] at hnone
    have hfound : lib.descriptorOf? r = some desc := by
      unfold Library.descriptorOf?
      rw [horigin]
      exact hdesc
    unfold Records.layoutOf
    rw [hr]
    exact hs.plain he hdriven.record hr hfound hnone
  · have hlate : Stage.nonTransitive ≤ e.stage := hdriven.stage ▸ Nat.not_lt.mp hstage
    exact hs.known he hdriven.record
      (Nat.le_trans (by decide : Stage.layoutComplete ≤ .nonTransitive) hlate)

/-- After every step what is published as having a layout has one. -/
theorem tells_step (hs : t.store.Informed lib) (ht : t.Stands)
    (ho : t.store.Owned (t.holds a.id ++ others)) (h : t.step lib a = some t') : t'.Tells := by
  intro d o hc' hstage
  have hlate : ¬ Stage.layoutComplete ≤ .abstract := by decide
  cases step_concludes ht h hc' with
  | closing s hc hr horigin hn hout =>
      have hm := mem_holds_of_control (t := a.id) hc List.mem_cons_self
      exact (step_writes h).gains.layoutOf (closing_layout hs ho hm hr horigin hn)
  | tuple hc hstore hd hout =>
      obtain ⟨e, he, hdriven, -⟩ := ho.fits (List.mem_append_left others
        (mem_holds_of_control (t := a.id) hc List.mem_cons_self))
      rw [hstore, hd]
      exact Store.settleTuple_layout (Store.lt_size_of_keyOf (ho.keyed he hdriven.record))
  | element hc hf hd hout =>
      rw [hout] at hstage
      exact (hlate hstage).elim
  | @stopped d' dep words rest hc hf hstore hd hout =>
      rw [hstore, hd]
      rw [hout] at hstage
      -- it is at this stage because it has a layout
      change Stage.layoutComplete ≤ t.store.inferredStage d'.record at hstage
      unfold Store.inferredStage at hstage
      split at hstage
      · assumption
      · exact (hlate hstage).elim
  | @finished d' words rest s hc hf hstore hd hout =>
      have hcontrol := ht.control
      rw [hc] at hcontrol
      obtain ⟨dep, words', hv, -, hlaid⟩ := hcontrol d' rest hf
      cases hv
      rw [hstore, hd]
      exact hlaid rfl

end Turn

-- ====================================================== processes

namespace Machine

variable {lib : Library σ} {start m m' : Machine σ} {t : ThreadId} {registry : RegistryId}
  {key : Key} {x : RecordId}

theorem step_gains (h : m.step lib t = some m') : m.store.records.Gains m'.store.records := by
  obtain ⟨-, thread, hthread, hs⟩ := step_cases h
  cases hs with
  | alone hturn => exact (Turn.step_writes hturn).gains
  | program p' started hc hp hstore hthreads hnew =>
      rw [hstore]
      exact .refl m.store.records

/-- The records that were there from the start stay. -/
theorem Chronicle.fixed (hf : start.Fresh) (r : Chronicle lib start) {n : Nat}
    (hx : x < start.store.records.size) (hn : n ≤ r.length) :
    ∃ record, (r.state n).store.records[x]? = some record ∧ record.origin = .fixed := by
  induction n with
  | zero =>
      rw [r.first]
      exact ⟨_, Array.getElem?_eq_getElem hx, hf.fixed _ (Array.getElem_mem hx)⟩
  | succ n ih =>
      obtain ⟨record, hr, ho⟩ := ih (Nat.le_of_succ_le hn)
      obtain ⟨record', hr', hgains⟩ := step_gains (r.step n hn) x record hr
      exact ⟨record', hr', hgains.origin.trans ho⟩

/-- Stages tell of layouts, and so do the outcomes that threads are about to
publish. -/
structure Informed (lib : Library σ) (m : Machine σ) : Prop where
  store : m.store.Informed lib
  stands : ∀ {u : ThreadId} {thread : Thread σ}, m.threads[u]? = some thread →
    (m.turn thread).Stands
  tells : ∀ {u : ThreadId} {thread : Thread σ}, m.threads[u]? = some thread →
    (m.turn thread).Tells

theorem Informed.step (hm : m.Informed lib) (h : m.step lib t = some m') (hlib : lib.Stock)
    (ho : m.store.Owned m.holds) : m'.Informed lib where
  store := by
    obtain ⟨-, thread, hthread, hs⟩ := step_cases h
    cases hs with
    | alone hturn =>
        exact Turn.step_informed hturn hm.store (ho.perm (holds_split hthread).symm)
          (hm.tells hthread)
    | program p' started hc hp hstore hthreads hnew =>
        rw [hstore]
        exact hm.store
  stands hu := by
    have hl := fun x => (step_gains h).layoutOf (x := x)
    refine step_threads (P := Turn.Stands) h (fun hthread hturn _ => ?_)
      (fun hthread hc hp hstore => ?_) (fun hu => (hm.stands hu).mono rfl rfl hl)
      (fun hframes ⟨p, s, hrun⟩ => .start hrun hframes) hu
    · exact (hm.stands hthread).step hlib (ho.perm (holds_split hthread).symm) hturn
    · exact (hm.stands hthread).program hc rfl rfl
  tells hu := by
    refine step_threads (P := Turn.Tells) h (fun hthread hturn _ => ?_)
      (fun hthread hc hp hstore => Turn.tells_of_plain rfl)
      (fun hu d o hc hstage => (step_gains h).layoutOf (hm.tells hu d o hc hstage))
      (fun hframes ⟨p, s, hrun⟩ => Turn.tells_of_plain ?_) hu
    · exact Turn.tells_step hm.store (hm.stands hthread)
        (ho.perm (holds_split hthread).symm) hturn
    · show (Control.plain _) = true
      rw [show (m'.turn _).control = _ from hrun]
      rfl

theorem Fresh.informed (hf : start.Fresh) : start.Informed lib where
  store := {
    described := fun hr horigin => by
      rw [hf.fixed _ (Array.mem_of_getElem? hr)] at horigin
      cases horigin
    known := fun he => by rw [hf.entries] at he; simp at he
    plain := fun he => by rw [hf.entries] at he; simp at he }
  stands hu := by
    obtain ⟨hframes, p, s, hrun⟩ := hf.running _ (Array.mem_of_getElem? hu)
    exact .start hrun hframes
  tells hu := by
    obtain ⟨-, p, s, hrun⟩ := hf.running _ (Array.mem_of_getElem? hu)
    refine Turn.tells_of_plain ?_
    rw [show (start.turn _).control = _ from hrun]
    rfl

/-- Wherever a process gets to whose records are completed by their fields, its
stages tell of layouts. -/
theorem Reachable.informed (hlib : lib.Stock) (hf : start.Fresh) (h : Reachable lib start m) :
    m.Informed lib := by
  induction h with
  | refl => exact hf.informed
  | step t h hs ih => exact ih.step hs hlib (h.owned hf)

/-- A record that its registry keeps has a layout as soon as the registry says
that it is known. -/
theorem Reachable.known (hlib : lib.Stock) (hf : start.Fresh) (h : Reachable lib start m)
    (hx : m.store.Keeps registry key x) (hstage : .layoutComplete ≤ m.store.stageOf registry x) :
    (m.store.records.layoutOf x).isSome := by
  obtain ⟨i, e, he, rfl, -, hr⟩ := hx
  have ho := h.owned hf
  rw [Store.stageOf_entry (ho.entryOf?_of_record he hr) he (ho.sound he)] at hstage
  exact (h.informed hlib hf).store.known he hr hstage

end Machine

end TypeRecords
