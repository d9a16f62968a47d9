/-
Promises are kept.

One step of a thread, function by function: what the thread owed is owed
still, or is passed on by the frame that the step pushes, or is paid to the
topmost frame. The store is a later one after the step (`Store.Lasts`), so
what is shown of the new control and frames in the old store is so in the new
one; only where a step writes something down for the first time is it read off
the new store.

A thread has to keep to what `Control.structured` says: programs make their
requests in one registry and name usable records, and leave layouts to the
registry.
-/
import TypeRecords.Proofs.Fields.Promises

namespace TypeRecords

variable {σ : Type}

/-- Whether the next step makes requests in the one registry only, of records
that are usable, and leaves it to the registry to lay records out. -/
def Control.structured (registry : RegistryId) (s : Store) : Control σ → Bool
  | .run (.request r _ c _) _ => r == registry && c.names.all (s.isUsable ·)
  | .run (.act (.publish ..) _) _ => false
  | .run (.structLayout ..) _ => false
  | .lay w =>
    match w.todo with
    | ⟨_, .fixed x⟩ :: _ => s.isUsable x
    | _ => true
  | _ => true

namespace Promise

variable {registry : RegistryId} {terms : DescriptorId → List Term} {s : Store} {p : Promise}
  {comes comes' : (Heard → Value → Prop) → Heard → Prop}

theorem Met.imp (h : p.Met registry s comes)
    (hc : ∀ good heard, comes good heard → comes' good heard) : p.Met registry s comes' := by
  cases p with
  | free => trivial
  | answer asked => exact h.elim
  | layout x => exact h.elim
  | field e arguments =>
      obtain ⟨heard, hheard, hcomes⟩ := h
      exact ⟨heard, hheard, hc _ _ hcomes⟩

/-- A program that is answered goes on with what it has heard now. -/
theorem Met.answered {c : Call} {r : Response} {k : Response → Program σ Value}
    (h : p.Met registry s fun good heard => ∀ r, (k r).Fetches good ((c, r) :: heard))
    (ht : s.Told registry c r) : p.Met registry s (k r).Fetches := by
  cases p with
  | free => trivial
  | answer asked => exact h.elim
  | layout x => exact h.elim
  | field e arguments =>
      obtain ⟨heard, hheard, hcomes⟩ := h
      refine ⟨(c, r) :: heard, fun x hx => ?_, hcomes r⟩
      rcases List.mem_cons.mp hx with rfl | hx
      · exact ht
      · exact hheard x hx

/-- What a program comes to is as promised. -/
theorem Met.holds {v : Value} {left : Local}
    (h : p.Met registry s (Program.done v : Program σ Value).Fetches) :
    p.Holds registry terms s v left := by
  cases p with
  | free => trivial
  | answer asked => exact h.elim
  | layout x => exact h.elim
  | field e arguments =>
      obtain ⟨heard, hheard, hgood⟩ := h
      intro r hr
      obtain ⟨c, hmem, hcall⟩ := hgood r hr
      exact ⟨c, hcall _ ⟨fun _ => rfl, fun x hx => (hheard x hx).record⟩, hheard _ hmem⟩

end Promise

namespace Turn

variable {lib : Library σ} {a : Actor} {t t' : Turn σ} {registry : RegistryId}
  {terms : DescriptorId → List Term} {s : Store} {H H' : List Hold} {p : Promise}

-- ====================================================== programs

theorem handle_faithful {st : Setting σ} (ha : p.Armed registry s st)
    (hfs : Passed lib registry terms s p t.frames) (f : Failure) :
    (t.handle f st).Faithful lib registry terms s := by
  unfold handle
  split
  · exact ⟨p, trivial, hfs⟩
  · rename_i h rest hhandlers
    refine ⟨p, ⟨ha h (hhandlers ▸ List.mem_cons_self) f, fun x hx => ha x ?_⟩, hfs⟩
    rw [hhandlers]
    exact List.mem_cons_of_mem h hx

/-- A record is looked up that nobody goes by. -/
theorem consult_free (registry' : RegistryId) (q : Request) (x : RecordId) :
    (t.consult registry' q x).control.Owes lib registry terms s .free := by
  unfold consult
  split
  · exact .inl rfl
  · trivial

/-- A usable record is looked up. -/
theorem consult_owes {x : RecordId} (q : Request) (hx : t.store.isUsable x = true)
    (hp : p.Allows registry t.store (.check x)) :
    (t.consult registry q x).control.Owes lib registry terms t.store p := by
  unfold consult
  split
  · rename_i i hi
    exact .inr ⟨.check x, hp, hi⟩
  · rename_i hi
    have htold := Store.Sited.told_of_unkept hx hi
    cases p with
    | free => trivial
    | layout x => exact hp.elim
    | answer asked =>
        intro r hr
        cases hr
        exact ⟨_, hp, htold⟩
    | field e arguments =>
        intro r hr
        cases hr
        exact ⟨_, hp, htold⟩

theorem consult_faithful {x : RecordId} (q : Request) (hx : t.store.isUsable x = true)
    (hp : p.Allows registry t.store (.check x))
    (hfs : Passed lib registry terms t.store p t.frames) :
    (t.consult registry q x).Faithful lib registry terms t.store :=
  ⟨p, consult_owes q hx hp, (consult_frames t registry q x).symm ▸ hfs⟩

/-- The answer to a call that is as promised is handed over. -/
theorem respond_owes {c : Call} {r : Response} (hp : p.Allows registry s c)
    (ht : s.Told registry c r) : (t.respond r).control.Owes lib registry terms s p := by
  cases p with
  | free => trivial
  | layout x => exact hp.elim
  | answer asked =>
      intro r' hr
      cases hr
      exact ⟨c, hp, ht⟩
  | field e arguments =>
      intro r' hr
      cases hr
      exact ⟨c, hp, ht⟩

/-- The record of the entry that is owed is handed over. -/
theorem respond_covered (hs : s.Sited lib registry terms) (ho : s.Owned H) {i : EntryId}
    {e : Entry} {r : Response} (hp : p.Covers registry s i) (he : s.entries[i]? = some e)
    (hr : e.record = some r.record) (hstage : r.stage ≤ e.stage) :
    (t.respond r).control.Owes lib registry terms s p := by
  rcases hp with rfl | ⟨c, hc, hi⟩
  · trivial
  · exact respond_owes hc (hs.told_of_sought ho hi he hr hstage)

/-- A call is served from what is there, or from the record that is made for it. -/
theorem request_faithful {q : Request} {c : Call} (hlib : lib.Structural terms)
    (hs : t.store.Sited lib registry terms) (hnames : ∀ x ∈ c.names, t.store.isUsable x = true)
    (hpassed : Passed lib registry terms t.store (.answer c) t.frames)
    (hl : t.store.Lasts registry t'.store) (h : Requested lib t a registry q c t') :
    t'.Faithful lib registry terms t'.store := by
  have hbase : t'.frames = t.frames → t'.control.Owes lib registry terms t'.store (.answer c) →
      t'.Faithful lib registry terms t'.store := fun hf hc => ⟨_, hc, hf ▸ hpassed.lasts hl⟩
  cases h with
  | check =>
      exact hbase (consult_frames ..)
        ((consult_owes (p := .answer _) q (hnames _ List.mem_cons_self) rfl).lasts hl)
  | empty =>
      refine hbase rfl (respond_owes rfl ⟨?_, ?_, hs.empty_usable⟩)
      · rfl
      · show Stage.complete ≤ t.store.stageOf registry Records.emptyTuple
        rw [Store.stageOf_of_none]
        · exact Nat.le_refl _
        · rw [Store.entryOf?_eq, hs.keyless]
          rfl
  | miscount => exact hbase rfl trivial
  | @hit _ _ _ i hmakes hfound =>
      refine hbase rfl (.inr ⟨_, rfl, ?_⟩)
      rw [(hit_keeps 0 t registry i q).alike.sought?, Store.sought?_of_key (key?_of_makes hmakes)]
      exact hfound
  | create hmakes hnone =>
      exact hbase rfl (.inr ⟨_, rfl,
        create_sought (key?_of_makes hmakes) hmakes.record_key? hnone⟩)
  | instantiate hd hi =>
      rw [(hlib hd).plain] at hi
      cases hi

theorem askName_free (j : NameJob) (r : Registry) :
    (t.askName j r).control.Owes lib registry terms s .free := by
  unfold askName
  split
  · trivial
  · rfl

/-- Nobody goes by the name that is given. -/
theorem requestName_faithful {registry' : RegistryId} {candidate : CandidateId}
    (hfs : Passed lib registry terms s .free t.frames)
    (h : NameRequested lib t registry' candidate t') : t'.Faithful lib registry terms s := by
  cases h with
  | known | register => exact ⟨.free, trivial, hfs⟩
  | ask => exact ⟨.free, askName_free .., (askName_frames ..).symm ▸ hfs⟩
  | found => exact ⟨.free, ⟨trivial, fun _ _ _ => trivial⟩, .free, ⟨rfl, rfl⟩, hfs⟩

theorem requestTable_faithful {registry' : RegistryId} {conformance : ConformanceId}
    {conforming : RecordId} {arguments : List TableId}
    (hfs : Passed lib registry terms s .free t.frames)
    (h : TableRequested lib t registry' conformance conforming arguments t') :
    t'.Faithful lib registry terms s := by
  cases h with
  | pattern => exact ⟨.free, trivial, hfs⟩
  | cell => exact ⟨.free, rfl, hfs⟩

theorem run_faithful {prog : Program σ Value} {st : Setting σ} (hlib : lib.Structural terms)
    (hs : t.store.Sited lib registry terms) (hc : t.control = .run prog st)
    (hlaw : t.control.structured registry t.store = true)
    (hp : p.Met registry t.store prog.Fetches) (ha : p.Armed registry t.store st)
    (hfs : Passed lib registry terms t.store p t.frames) (hl : t.store.Lasts registry t'.store)
    (h : Ran lib t a st prog t') : t'.Faithful lib registry terms t'.store := by
  have hhandle : ∀ f, t' = t.handle f st → t'.Faithful lib registry terms t'.store := by
    rintro f rfl
    exact (handle_faithful ha hfs f).lasts hl
  -- the program goes on, under the same handlers
  have hon : ∀ {prog' : Program σ Value} {l : Local},
      t'.control = .run prog' { st with locals := l } → t'.frames = t.frames →
      p.Met registry t.store prog'.Fetches → t'.Faithful lib registry terms t'.store := by
    intro prog' l hc' hf hm
    refine Faithful.lasts ⟨p, ?_, hf ▸ hfs⟩ hl
    rw [hc']
    exact ⟨hm, ha⟩
  rw [hc] at hlaw
  cases h with
  | request h =>
      obtain ⟨hreg, hnames⟩ := Bool.and_eq_true_iff.mp hlaw
      obtain rfl := beq_iff_eq.mp hreg
      -- the frame that is pushed passes on what was owed
      refine request_faithful (t := { t with frames := .forResponse _ st :: t.frames }) hlib hs
        (List.all_eq_true.mp hnames) ?_ hl h
      exact ⟨p, ⟨_, rfl, ha, hp⟩, hfs⟩
  | done => exact Faithful.lasts ⟨p, hp.holds, hfs⟩ hl
  | fail | refuse => exact hhandle _ rfl
  | look => exact hon rfl rfl (hp.imp fun _ _ hk => hk _ _ _)
  | edit => exact hon rfl rfl hp
  | act | scratch | draft | fill | storePrivate => exact hon rfl rfl (hp.imp fun _ _ hk => hk _)
  | structLayout => cases hlaw
  | table h =>
      refine (requestTable_faithful ?_ h).lasts hl
      exact ⟨p, ⟨rfl, ha, hp⟩, hfs⟩
  | canonical h =>
      refine (requestName_faithful ?_ h).lasts hl
      exact ⟨p, ⟨rfl, ha, hp⟩, hfs⟩
  | raise =>
      -- nothing is handed to the frame that is pushed
      have hpush : p.Met registry t.store fun good heard => ∀ r : Response,
          (Program.done (σ := σ) Value.unit).Fetches good ((.tuple [], r) :: heard) := by
        cases p with
        | free => trivial
        | answer asked => exact hp.elim
        | layout x => exact hp.elim
        | field e arguments =>
            obtain ⟨heard, hheard, -⟩ := hp
            exact ⟨heard, hheard, fun _ x hx => by cases hx⟩
      exact Faithful.lasts ⟨.answer (.tuple []), trivial, p, ⟨_, rfl, ha, hpush⟩, hfs⟩ hl
  | guarded =>
      refine Faithful.lasts ⟨p, ⟨hp.imp fun _ _ hk => hk.2, fun x hx f => ?_⟩, hfs⟩ hl
      rcases List.mem_cons.mp hx with rfl | hx
      · exact hp.imp fun _ _ hk => hk.1 f
      · exact ha x hx f
  | disarm =>
      exact Faithful.lasts ⟨p, ⟨hp, fun x hx f => ha x (List.mem_of_mem_tail hx) f⟩, hfs⟩ hl

-- ====================================================== outcomes

/-- What a promised response says is so: its record answers a call that is as
promised. -/
theorem told_of_holds {e : Term} {arguments : List RecordId} {r : Response} {left : Local}
    (h : (Promise.field e arguments).Holds registry terms s (.response r) left) :
    ∃ c, e.record? (s.recordOf? registry) arguments = some r.record ∧ s.Told registry c r := by
  obtain ⟨c, hc, ht⟩ := h r rfl
  have hcall : e.call? (s.recordOf? registry) arguments = some c := hc
  refine ⟨c, ?_, ht⟩
  unfold Term.record?
  rw [hcall, Option.bind_some]
  exact ht.record

/-- The record of a field is found. -/
theorem laid_owes {w : FieldWalk σ} {e : Term} {es : List Term} {arguments : List RecordId}
    {r : Response} {left : Local} (hs : t.store.Sited lib registry terms) (ho : t.store.Owned H)
    (hw : t.store.Walks lib registry terms w arguments (e :: es))
    (h : (Promise.field e arguments).Holds registry terms t.store (.response r) left) :
    (t.laid w r).control.Owes lib registry terms t.store (.layout w.record) := by
  obtain ⟨c, hrecord, ht⟩ := told_of_holds h
  unfold laid
  split
  · refine ⟨nofun, fun words hwords => ?_⟩
    cases hwords
    exact hw.confirms (Vector.getElem_set_self _)
  · rename_i hpass
    have hreached : t.store.Reached registry r.record := by
      by_cases hlt : w.index < w.scratch.get 0
      · exact hw.reached hlt hrecord
      · refine ⟨ht.usable, Nat.le_trans ?_ ht.stage⟩
        have hsatisfied : r.stage.satisfies .layoutComplete = true := by
          by_contra hno
          exact hpass ⟨Nat.le_of_not_lt hlt, hno⟩
        exact Stage.satisfies_iff.mp hsatisfied
    obtain ⟨l, hl⟩ := Option.isSome_iff_exists.mp (hs.layout_isSome ho hreached)
    rw [hl]
    exact ⟨rfl, arguments, es, hw.next hrecord hreached hl⟩

/-- An element is found. -/
theorem measured_owes {w : ElementWalk} {x : RecordId} {rest : List RecordId} {r : Response}
    {left : Local} (htodo : w.todo = x :: rest) (hc : p.Covers registry t.store w.drive.entry)
    (hwords : t.store.Confirms registry terms w.drive.record w.drive.scratch)
    (hm : t.store.Measures registry w)
    (h : (Promise.answer (.check x)).Holds registry terms t.store (.response r) left) :
    (t.measured w r).control.Owes lib registry terms t.store p := by
  obtain ⟨c, rfl, ht⟩ := h r rfl
  obtain rfl : x = r.record := Option.some.inj ht.record
  unfold measured
  rw [htodo]
  simp only
  split
  · rename_i hstage
    exact ⟨hc, hwords, hm.next htodo
      ⟨ht.usable, Nat.le_trans (Stage.satisfies_iff.mp hstage) ht.stage⟩⟩
  · have hearly : ¬ Stage.layoutComplete ≤ .abstract := by decide
    exact ⟨hc, hwords, fun hlate => (hearly hlate).elim⟩

/-- A record's completion has come to its outcome. -/
theorem stepped_owes {d : Drive} {dep : Option Dependency} {left : Local}
    (hc : p.Covers registry t.store d.entry)
    (hwords : t.store.Confirms registry terms d.record d.scratch)
    (h : (Promise.layout d.record).Holds registry terms t.store (.dependency dep) left) :
    (t.stepped d dep left).control.Owes lib registry terms t.store p := by
  obtain ⟨hlayout, hleft⟩ := h
  have hinferred : .layoutComplete ≤ t.store.inferredStage d.record →
      (t.store.records.layoutOf d.record).isSome := by
    intro hstage
    unfold Store.inferredStage at hstage
    split at hstage
    · assumption
    · exact absurd hstage (by decide)
  -- the scratch words that are left behind are the drive's from now on
  have hpublish : ∀ {words : Scratch} {o : StepOutcome},
      t.store.Confirms registry terms d.record words →
      (.layoutComplete ≤ o.stage → (t.store.records.layoutOf d.record).isSome) →
      (t.goto (.publish { d with scratch := words } o)).control.Owes lib registry terms t.store p :=
    fun hconfirms ho => ⟨hc, hconfirms, ho⟩
  unfold stepped
  cases dep with
  | some dep =>
      cases left with
      | scratch words => exact hpublish (hleft words rfl) hinferred
      | nothing => exact hpublish hwords hinferred
      | draft f => exact hpublish hwords hinferred
  | none =>
      cases left with
      | scratch words => exact hpublish (hleft words rfl) fun _ => hlayout rfl
      | nothing => exact hpublish hwords fun _ => hlayout rfl
      | draft f => exact hpublish hwords fun _ => hlayout rfl

theorem give_faithful {v : Value} {left : Local} (hs : t.store.Sited lib registry terms)
    (ho : t.store.Owned H) (hp : p.Holds registry terms t.store v left)
    (hfs : Passed lib registry terms t.store p t.frames) (h : Given lib t a v left t') :
    t'.Faithful lib registry terms t.store := by
  -- what was owed was owed to the topmost frame, which passes something on
  have htop : ∀ {f : Frame σ} {rest : List (Frame σ)}, t.frames = f :: rest →
      Passed lib registry terms t.store p (f :: rest) := fun hframes => hframes ▸ hfs
  cases h with
  | ended => exact ⟨p, trivial, hfs⟩
  | response hframes =>
      obtain ⟨p', ⟨c, rfl, ha, hm⟩, hrest⟩ := htop hframes
      obtain ⟨c', rfl, ht⟩ := hp _ rfl
      exact ⟨p', ⟨hm.answered ht, ha⟩, hrest⟩
  | layout hframes =>
      obtain ⟨p', hf, hrest⟩ := htop hframes
      exact hf.elim
  | table hframes | record hframes =>
      obtain ⟨p', hf, hrest⟩ := htop hframes
      exact ⟨p', ⟨hf.2.2.imp fun _ _ hk => hk _, hf.2.1⟩, hrest⟩
  | allocated hframes =>
      obtain ⟨p', hf, hrest⟩ := htop hframes
      exact hf.elim
  | stepped hframes =>
      obtain ⟨p', ⟨rfl, hc, hwords⟩, hrest⟩ := htop hframes
      exact ⟨p', stepped_owes hc hwords hp, (stepped_frames ..).symm ▸ hrest⟩
  | laid hframes =>
      obtain ⟨p', ⟨rfl, arguments, e, es, rfl, hw⟩, hrest⟩ := htop hframes
      exact ⟨_, laid_owes hs ho hw hp, (laid_frames ..).symm ▸ hrest⟩
  | measured hframes =>
      obtain ⟨p', ⟨x, xs, htodo, rfl, hc, hwords, hm⟩, hrest⟩ := htop hframes
      exact ⟨p', measured_owes htodo hc hwords hm hp, (measured_frames ..).symm ▸ hrest⟩
  | relied hframes | released hframes =>
      obtain ⟨p', hf, hrest⟩ := htop hframes
      exact ⟨p', hf.2, hrest⟩
  | filled hframes h =>
      obtain ⟨p', ⟨rfl, rfl⟩, hrest⟩ := htop hframes
      cases h with
      | lack => exact ⟨.free, trivial, .free, ⟨rfl, rfl⟩, hrest⟩
      | table => exact ⟨.free, trivial, hrest⟩
  | founded hframes =>
      obtain ⟨p', ⟨rfl, rfl⟩, hrest⟩ := htop hframes
      exact ⟨.free, trivial, hrest⟩
  | reported hframes =>
      obtain ⟨p', hf, hrest⟩ := htop hframes
      exact ⟨p', trivial, hrest⟩

theorem unwind_faithful {e : Failure} (hfs : Passed lib registry terms s p t.frames)
    (h : Unwound t e t') : t'.Faithful lib registry terms s := by
  cases h with
  | ended => exact ⟨p, trivial, hfs⟩
  | @handle frame rest st hframes hst =>
      rw [hframes] at hfs
      obtain ⟨p', hf, hrest⟩ := hfs
      have harmed : p'.Armed registry s st := by
        cases frame with
        | forResponse k st' =>
            cases hst
            obtain ⟨c, -, ha, -⟩ := hf
            exact ha
        | forTable k st' | forRecord k st' =>
            cases hst
            exact hf.2.1
        | forLayout k st' => exact hf.elim
        | _ => cases hst
      exact handle_faithful harmed hrest e
  | abandon hframes | drop hframes =>
      rw [hframes] at hfs
      obtain ⟨p', -, hrest⟩ := hfs
      exact ⟨p', trivial, hrest⟩

-- ====================================================== fields and elements

/-- The record of the next field is looked for, or the record is laid out. -/
theorem lay_faithful {w : FieldWalk σ} {arguments : List RecordId} {coming : List Term}
    (hs : t.store.Sited lib registry terms) (hc : t.control = .lay w)
    (hlaw : t.control.structured registry t.store = true)
    (hw : t.store.Walks lib registry terms w arguments coming)
    (hfs : Passed lib registry terms t.store (.layout w.record) t.frames)
    (hl : t.store.Lasts registry t'.store) (h : FieldLaid t a w t') :
    t'.Faithful lib registry terms t'.store := by
  have hwalk := hw
  obtain @⟨r, id, d, past, passed, hr, ho, hd, -, rfl, -, htodo, -, -, -, -, rfl, -⟩ := hwalk
  have harguments : t.store.records.argumentsOf w.record = r.arguments := by
    unfold Records.argumentsOf
    rw [hr]
  -- what is read of the next field is the next term
  have hnext : ∀ {field : Field σ} {rest : List (Field σ)}, w.todo = field :: rest →
      ∃ e, field.type.Reads e ∧ Passed lib w.registry terms t.store (.field e r.arguments)
        (.laying w :: t.frames) := fun hfields => by
    rw [hfields] at htodo
    cases htodo with
    | @cons _ e _ es hreads _ =>
        exact ⟨e, hreads, _, ⟨rfl, r.arguments, e, es, rfl, hw⟩, hfs⟩
  cases h with
  | done =>
      refine ⟨.layout w.record, ⟨fun _ => ?_, fun words hwords => ?_⟩, hfs.lasts hl⟩
      · exact Store.layDown_layout (Array.getElem?_eq_some_iff.mp hr).1 w.layouts
      · cases hwords
        exact hl.confirms (hw.confirms (Vector.getElem_set_self _))
  | lack => exact Faithful.lasts ⟨_, trivial, hfs⟩ hl
  | compute hfields htype =>
      obtain ⟨e, hreads, hpassed⟩ := hnext hfields
      rw [htype] at hreads
      refine Faithful.lasts ⟨.field e r.arguments, ⟨⟨[], nofun, ?_⟩, nofun⟩, hpassed⟩ hl
      rw [harguments]
      refine (hreads w.registry (.poll .layoutComplete) r.arguments).bind ?_
      rintro x heard hx _ ⟨⟩
      exact hx
  | @consult field rest y hfields hrecord =>
      obtain ⟨e, hreads, hpassed⟩ := hnext hfields
      rcases hrecord with htype | ⟨index, htype, hy⟩
      · rw [htype] at hreads
        obtain rfl : e = .fixed y := hreads
        have hy : t.store.isUsable y = true := by
          obtain ⟨name, type⟩ := field
          obtain rfl : type = .fixed y := htype
          rw [hc] at hlaw
          simp only [Control.structured, hfields] at hlaw
          exact hlaw
        refine (consult_faithful (t := { t with frames := .laying w :: t.frames }) _ hy ?_
          hpassed).lasts hl
        show Term.call? _ _ (.fixed y) = _
        rw [Term.call?]
      · rw [htype] at hreads
        obtain rfl : e = .argument index := hreads
        rw [harguments] at hy
        have husable : t.store.isUsable y = true :=
          hs.arguments hr (by rw [ho]; nofun) (List.mem_of_getElem? hy)
        refine (consult_faithful (t := { t with frames := .laying w :: t.frames }) _ husable ?_
          hpassed).lasts hl
        show Term.call? _ _ (.argument index) = _
        rw [Term.call?, hy]
        rfl

theorem measure_faithful {w : ElementWalk} (hs : t.store.Sited lib registry terms)
    (hreg : w.drive.registry = registry) (hc : p.Covers registry t.store w.drive.entry)
    (hwords : t.store.Confirms registry terms w.drive.record w.drive.scratch)
    (hm : t.store.Measures registry w) (hfs : Passed lib registry terms t.store p t.frames)
    (hl : t.store.Lasts registry t'.store) (h : ElementMeasured t w t') :
    t'.Faithful lib registry terms t'.store := by
  have hwalk := hm
  obtain ⟨r, past, hr, ho, hall, -⟩ := hwalk
  cases h with
  | done =>
      refine ⟨p, ⟨hc.lasts hl, hl.confirms hwords, fun _ => ?_⟩, hfs.lasts hl⟩
      exact Store.settleTuple_layout (Array.getElem?_eq_some_iff.mp hr).1
  | @consult x rest htodo =>
      have husable : t.store.isUsable x = true := by
        refine hs.arguments hr (by rw [ho]; nofun) ?_
        rw [hall, htodo]
        exact List.mem_append_right _ List.mem_cons_self
      subst hreg
      refine (consult_faithful (t := { t with frames := .measuring w :: t.frames })
        (p := .answer (.check x)) _ husable rfl ?_).lasts hl
      exact ⟨p, ⟨x, rest, htodo, rfl, hc, hwords, hm⟩, hfs⟩

-- ====================================================== completion

theorem await_faithful {i : EntryId} {q : Request} {registry' : RegistryId}
    (hs : t.store.Sited lib registry terms) (ho : t.store.Owned H)
    (hc : p.Covers registry t.store i) (hfs : Passed lib registry terms t.store p t.frames)
    (h : Waited t a registry' i q t') : t'.Faithful lib registry terms t.store := by
  cases h with
  | answer he hlook =>
      obtain ⟨hr, hstage, -⟩ := Entry.exact_of_look (ho.sound he) hlook
      exact ⟨p, respond_covered hs ho hc he hr (Stage.le_of_eq hstage.symm), hfs⟩
  | reentrant => exact ⟨p, trivial, hfs⟩

/-- A fresh record is handed out complete, or its completion begins with
nothing confirmed. -/
theorem allocated_faithful {al : Allocation} (hs' : t'.store.Sited lib registry terms)
    (ho : t.store.Owned H) (hm : .fresh al ∈ H) (ho' : t'.store.Owned H')
    (hc : p.Covers registry t.store al.entry)
    (hfs : Passed lib registry terms t.store p t.frames)
    (hl : t.store.Lasts registry t'.store) (h : Allocated lib t a al t') :
    t'.Faithful lib registry terms t'.store := by
  obtain ⟨e, he, -, -, hkey⟩ := ho.fits hm
  have hwords : t.store.Confirms registry terms al.record .zero :=
    Store.confirms_zero (Store.lt_size_of_keyOf hkey)
  have he' : t'.store.entries[al.entry]?
      = some (e.finishAllocation a.id al.record (firstStage lib t.store al.record).2) := by
    rw [(allocated_entries h).1, Array.getElem?_modify, if_pos rfl]
    exact congrArg (Option.map _) he
  have hc' := hc.lasts hl
  cases h with
  | finish hdone =>
      exact ⟨p, respond_covered hs' ho' hc' he' rfl (Stage.le_of_eq hdone.symm), hfs.lasts hl⟩
  | begin => exact ⟨p, ⟨hc', hl.confirms hwords⟩, hfs.lasts hl⟩

/-- A step begins with a walk, or its outcome is that of a record that has a
layout. -/
theorem begin_faithful {d : Drive} (hlib : lib.Structural terms)
    (hs : t.store.Sited lib registry terms) (ho : t.store.Owned H) (hm : .active a.id d ∈ H)
    (hc : p.Covers registry t.store d.entry)
    (hwords : t.store.Confirms registry terms d.record d.scratch)
    (hfs : Passed lib registry terms t.store p t.frames) (h : Begun lib t d t') :
    t'.Faithful lib registry terms t.store := by
  obtain ⟨e, he, hdriven, -⟩ := ho.fits hm
  have hreg : d.registry = registry := hdriven.registry.symm.trans (hs.sole.entry_registry he)
  have hdescriptor : ∀ {r : Record} {id : DescriptorId}, t.store.records[d.record]? = some r →
      r.origin = .generic id →
      ∃ descriptor, lib.descriptors[id]? = some descriptor
        ∧ lib.descriptorOf? r = some descriptor := fun {r id} hr horigin => by
    have hshaped := hs.shaped hr
    unfold Record.Shaped at hshaped
    rw [horigin] at hshaped
    obtain ⟨descriptor, hd, -⟩ := hshaped
    exact ⟨descriptor, hd, by unfold Library.descriptorOf?; rw [horigin]; exact hd⟩
  cases h with
  | measure hr horigin => exact ⟨p, ⟨hc, hwords, _, [], hr, horigin, rfl, nofun⟩, hfs⟩
  | @close r id hr horigin hdone =>
      -- the record is finished for itself, or needs no completion
      refine ⟨p, ⟨hc, hwords, fun _ => ?_⟩, hfs⟩
      by_cases hstage : d.stage < .nonTransitive
      · obtain ⟨descriptor, hd, hof⟩ := hdescriptor hr horigin
        have hnone := hdone hstage
        rw [hd, Option.bind_some] at hnone
        have hlayout := hs.plain he hdriven.record hr hof hnone
        unfold Records.layoutOf
        rw [hr]
        exact hlayout
      · refine hs.ready he hdriven.record ?_
        rw [hdriven.stage]
        exact Nat.le_trans (by decide : Stage.layoutComplete ≤ .nonTransitive)
          (Nat.le_of_not_lt hstage)
  | layout hr horigin hstage hcompletion =>
      obtain ⟨descriptor, hd, hof⟩ := hdescriptor hr horigin
      rw [hd, Option.bind_some] at hcompletion
      have hfound : (t.store.records[d.record]?).bind lib.descriptorOf? = some descriptor := by
        rw [hr, Option.bind_some]
        exact hof
      have howes : ∀ {u : Turn σ},
          u.control = .lay ⟨d.registry, d.record, d.scratch, descriptor.fields, 0, []⟩ →
          u.control.Owes lib registry terms t.store (.layout d.record) := fun hu => by
        subst hreg
        rw [hu]
        exact ⟨rfl, _, _, .start hlib hr horigin hd hcompletion hwords⟩
      exact ⟨.layout d.record, howes (startLayout_found hfound),
        (startLayout_frames ..).symm ▸ ⟨p, ⟨rfl, hc, hwords⟩, hfs⟩⟩
  | callback hr horigin hstage hcompletion =>
      obtain ⟨descriptor, hd, -⟩ := hdescriptor hr horigin
      rw [hd, Option.bind_some] at hcompletion
      rcases (hlib hd).completion with hno | hno <;>
        rw [hno] at hcompletion <;> cases hcompletion

theorem publish_faithful {d : Drive} {o : StepOutcome}
    (hc : p.Covers registry t.store d.entry)
    (hwords : t.store.Confirms registry terms d.record d.scratch)
    (hfs : Passed lib registry terms t.store p t.frames) (h : Published t d o t') :
    t'.Faithful lib registry terms t.store := by
  cases h
  exact ⟨p, ⟨hc, hwords⟩, hfs⟩

/-- Whoever takes up a parked initialization owes nothing for it, and goes by
the scratch words that were saved. -/
theorem release_faithful {d : Drive} {dep : Option Dependency} {ready : List Waiter}
    (hs : t.store.Sited lib registry terms) (ho : t.store.Owned H)
    (hm : .stopping a.id d dep ∈ H) (hc : p.Covers registry t.store d.entry)
    (hwords : t.store.Confirms registry terms d.record d.scratch)
    (hfs : Passed lib registry terms t.store p t.frames) (h : Released t a d dep ready t') :
    t'.Faithful lib registry terms t.store := by
  have hpassed : ∀ rest, Passed lib registry terms t.store .free
      (.releasing d dep rest :: t.frames) := fun rest => ⟨p, ⟨rfl, hc, hwords⟩, hfs⟩
  cases h with
  | resume he hr htaken =>
      exact ⟨.free, ⟨.inl rfl, hs.saved he hr (Entry.reclaim?_some htaken).1⟩, hpassed _⟩
  | forget => exact ⟨.free, trivial, hpassed _⟩
  | stop | again => exact ⟨p, ⟨hc, hwords⟩, hfs⟩
  | finish =>
      obtain ⟨e, he, hdriven, -⟩ := ho.fits hm
      exact ⟨p, respond_covered (r := ⟨d.record, d.stage⟩) hs ho hc he hdriven.record
        (Stage.le_of_eq hdriven.stage.symm), hfs⟩

theorem stopped_faithful {d : Drive} {dep : Dependency} (hc : p.Covers registry t.store d.entry)
    (hwords : t.store.Confirms registry terms d.record d.scratch)
    (hfs : Passed lib registry terms t.store p t.frames) (h : Stopped t a d dep t') :
    t'.Faithful lib registry terms t.store := by
  cases h with
  | cycle => exact ⟨p, trivial, hfs⟩
  | rely =>
      exact ⟨.free, consult_free .., (consult_frames ..).symm ▸ ⟨p, ⟨rfl, hc, hwords⟩, hfs⟩⟩
  | suspend => exact ⟨p, ⟨hc, hwords⟩, hfs⟩

theorem enqueue_faithful {d : Drive} {dep : Dependency} (hs : t.store.Sited lib registry terms)
    (ho : t.store.Owned H) (hm : .leaving d dep ∈ H) (hc : p.Covers registry t.store d.entry)
    (hfs : Passed lib registry terms t.store p t.frames) (h : Enqueued t a d dep t') :
    t'.Faithful lib registry terms t.store := by
  obtain ⟨e, he, hleft⟩ := ho.fits hm
  have hrecord : e.record = some d.record := Entry.Left.record hleft
  cases h with
  | park | strand =>
      exact ⟨p, respond_covered (r := ⟨d.record, d.stage⟩) hs ho hc he hrecord
        (Stage.le_of_eq (Entry.Left.stage hleft).symm), hfs⟩
  | reclaim hthere hown htaken =>
      obtain rfl := Option.some.inj (he.symm.trans hown)
      exact ⟨p, ⟨hc, hs.saved he hrecord (Entry.reclaim?_some htaken).1⟩, hfs⟩

theorem acquire_faithful {j : TableJob} {arguments : List TableId}
    (hfs : Passed lib registry terms s .free t.frames) (h : Acquired lib t a j arguments t') :
    t'.Faithful lib registry terms s := by
  cases h with
  | full => exact ⟨.free, trivial, hfs⟩
  | instantiate => exact ⟨.free, ⟨trivial, fun _ _ _ => trivial⟩, .free, ⟨rfl, rfl⟩, hfs⟩
  | copy => exact ⟨.free, trivial, .free, ⟨rfl, rfl⟩, hfs⟩

-- ====================================================== one step

/-- Every step keeps what was promised. -/
theorem Faithful.step {others : List Hold} (ht : t.Faithful lib registry terms t.store)
    (h : t.step lib a = some t') (hlib : lib.Structural terms)
    (hs : t.store.Sited lib registry terms) (hs' : t'.store.Sited lib registry terms)
    (ho : t.store.Owned (t.holds a.id ++ others)) (ho' : t'.store.Owned H')
    (hlaw : t.control.structured registry t.store = true)
    (hl : t.store.Lasts registry t'.store) : t'.Faithful lib registry terms t'.store := by
  obtain ⟨p, hp, hfs⟩ := ht
  have hmem : ∀ {c : Control σ} {hold : Hold}, t.control = c → hold ∈ c.holds a.id →
      hold ∈ t.holds a.id ++ others := fun hc hm =>
    List.mem_append_left _ (mem_holds_of_control hc hm)
  cases step_cases h with
  | run hc h =>
      rw [hc] at hp
      exact run_faithful hlib hs hc hlaw hp.1 hp.2 hfs hl h
  | give hc h => rw [hc] at hp; exact (give_faithful hs ho hp hfs h).lasts hl
  | unwind hc h => exact (unwind_faithful hfs h).lasts hl
  | await hc h => rw [hc] at hp; exact (await_faithful hs ho hp hfs h).lasts hl
  | allocated hc h =>
      rw [hc] at hp
      exact allocated_faithful hs' ho (hmem hc List.mem_cons_self) ho' hp hfs hl h
  | begin hc h =>
      rw [hc] at hp
      exact (begin_faithful hlib hs ho (hmem hc List.mem_cons_self) hp.1 hp.2 hfs h).lasts hl
  | lay hc h =>
      rw [hc] at hp
      obtain ⟨rfl, arguments, coming, hw⟩ := hp
      exact lay_faithful hs hc hlaw hw hfs hl h
  | measure hc h =>
      rw [hc] at hp
      obtain ⟨e, he, hdriven, -⟩ := ho.fits (hmem hc List.mem_cons_self)
      exact measure_faithful hs (hdriven.registry.symm.trans (hs.sole.entry_registry he)) hp.1
        hp.2.1 hp.2.2 hfs hl h
  | publish hc h => rw [hc] at hp; exact (publish_faithful hp.1 hp.2.1 hfs h).lasts hl
  | release hc h =>
      rw [hc] at hp
      exact (release_faithful hs ho (hmem hc List.mem_cons_self) hp.1 hp.2 hfs h).lasts hl
  | stopped hc h => rw [hc] at hp; exact (stopped_faithful hp.1 hp.2 hfs h).lasts hl
  | enqueue hc h =>
      rw [hc] at hp
      exact (enqueue_faithful hs ho (hmem hc List.mem_cons_self) hp.1 hfs h).lasts hl
  | acquire hc h =>
      rw [hc] at hp
      obtain rfl : p = .free := hp
      exact (acquire_faithful hfs h).lasts hl
  | standBy hc h =>
      rw [hc] at hp
      obtain rfl : p = .free := hp
      cases h
      exact Faithful.lasts ⟨.free, askName_free .., (askName_frames ..).symm ▸ hfs⟩ hl
  | report hc h =>
      refine Faithful.lasts (s := t.store) ?_ hl
      cases h with
      | hook => exact ⟨.free, ⟨trivial, fun _ _ _ => trivial⟩, p, rfl, hfs⟩
      | abort | unwind => exact ⟨p, trivial, hfs⟩

end Turn

end TypeRecords
