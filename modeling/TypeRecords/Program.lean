/-
Programs: what callbacks and threads do.

A program is a tree. Each node either ends it, looks at the process, changes
something that callers may change, or hands a request to a registry and goes
on with the answer. Programs cannot touch the caches in any other way, so a
statement about all programs is a statement about all callbacks, whatever
they decide and however deep they nest.

`σ` is the state programs keep among themselves; registries never look at it.
-/
import TypeRecords.Store

namespace TypeRecords

-- ====================================================== changes

/-- A change to the store that any program may make. -/
inductive Action
  | publish (record : RecordId) (layout : Layout)
  /-- Sets a data word of a record. -/
  | storeWord (record : RecordId) (index value : Nat)
  | setSuperclass (record superclass : RecordId)
  /-- Takes a block from an arena: where it is, and whether it lies in a
  page. -/
  | takeBlock (registry : RegistryId) (size align : Nat)
  | returnBlock (registry : RegistryId) (address size : Nat)
  /-- Registers a hook, behind those that are there. -/
  | addHook (hook : HookId)
  | clearHooks
  | openRegistry (config : Config)
  /-- Opens the registry that the process shares, unless it is open. Says
  whether it was opened now. -/
  | share (config : Config)

/-- What a program goes on with after an action. -/
def Action.Reply : Action → Type
  | publish .. => Unit
  | storeWord .. => Unit
  | setSuperclass .. => Unit
  | takeBlock .. => Nat × Bool
  | returnBlock .. => Arena.Return
  | addHook .. => Unit
  | clearHooks => Unit
  | openRegistry .. => RegistryId
  | share .. => RegistryId × Bool

/-- Carries an action out, and says what comes of it. -/
def Store.perform (s : Store) : (a : Action) → Store × a.Reply
  | .publish record layout => (s.changeRecord record (·.publish layout), ())
  | .storeWord record index value =>
    (s.changeRecord record fun r => { r with words := r.words.set index value }, ())
  | .setSuperclass record superclass =>
    (s.changeRecord record fun r => { r with superclass := some superclass }, ())
  | .takeBlock registry size align => s.takeBlock registry size align
  | .returnBlock registry address size => s.returnBlock registry address size
  | .addHook hook => ({ s with hooks := s.hooks ++ [hook] }, ())
  | .clearHooks => ({ s with hooks := [] }, ())
  | .openRegistry config => s.addRegistry config
  | .share config =>
    match s.shared with
    | some id => (s, id, false)
    | none =>
      let opened := s.addRegistry config
      ({ opened.1 with shared := some opened.2 }, opened.2, true)

-- ====================================================== requests

/-- What a program may ask a registry for. -/
inductive Call
  /-- The record of a descriptor applied to arguments. -/
  | generic (descriptor : DescriptorId) (arguments : List RecordId)
  | tuple (elements : List RecordId)
  /-- A record that is already known. -/
  | check (record : RecordId)
  deriving DecidableEq

/-- What a callback or a thread does, up to a value or a failure. -/
inductive Program (σ : Type) : Type → Type 1
  | done {α : Type} (a : α) : Program σ α
  | fail {α : Type} (f : Failure) : Program σ α
  /-- Looks at the process. -/
  | look {α : Type} (k : ThreadId → Store → σ → Program σ α) : Program σ α
  /-- Changes the state that programs share. -/
  | edit {α : Type} (f : σ → σ) (k : Program σ α) : Program σ α
  | act {α : Type} (a : Action) (k : a.Reply → Program σ α) : Program σ α
  /-- Changes the scratch words of the completion that the program belongs to,
  and goes on with the words as they are then. -/
  | scratch {α : Type} (f : Scratch → Scratch) (k : Scratch → Program σ α) : Program σ α
  /-- Looks at the witness table that the program fills. -/
  | draft {α : Type} (k : Draft → Program σ α) : Program σ α
  /-- Fills a slot of that table. -/
  | fill {α : Type} (index : Nat) (w : Witness) (k : Bool → Program σ α) : Program σ α
  /-- Stores a private word of that table. -/
  | storePrivate {α : Type} (index value : Nat) (k : Bool → Program σ α) : Program σ α
  | request {α : Type} (registry : RegistryId) (q : Request) (c : Call)
      (k : Response → Program σ α) : Program σ α
  /-- Lays out a record by its fields, starting from scratch words, and goes
  on with what stopped it and the words left behind. -/
  | structLayout {α : Type} (registry : RegistryId) (record : RecordId) (scratch : Scratch)
      (k : Option Dependency → Scratch → Program σ α) : Program σ α
  /-- Requests the witness table of a type. -/
  | table {α : Type} (registry : RegistryId) (conformance : ConformanceId)
      (conforming : RecordId) (arguments : List TableId) (k : TableId → Program σ α) :
      Program σ α
  /-- Requests the canonical record of a candidate. -/
  | canonical {α : Type} (registry : RegistryId) (candidate : CandidateId)
      (k : RecordId → Program σ α) : Program σ α
  | raise {α : Type} (policy : FaultPolicy) (limit : Nat) (fault : Fault) : Program σ α
  /-- Goes on with `body`; if something below it unwinds before it is
  disarmed, `handler` takes over. -/
  | guarded {α : Type} (handler : Failure → Program σ α) (body : Program σ α) : Program σ α
  /-- Disarms the innermost handler. -/
  | disarm {α : Type} (k : Program σ α) : Program σ α
  | spawn {α : Type} (name : String) (body : Program σ Unit) (k : ThreadId → Program σ α) :
      Program σ α
  /-- Waits until a thread has ended. -/
  | join {α : Type} (thread : ThreadId) (k : Program σ α) : Program σ α
  /-- Lets the other threads go first; goes on with whether `thread` has
  ended by then. -/
  | settle {α : Type} (thread : ThreadId) (k : Bool → Program σ α) : Program σ α

namespace Program

variable {σ α β : Type}

/-- One program after the other. -/
def bind {α β : Type} : Program σ α → (α → Program σ β) → Program σ β
  | done a, f => f a
  | fail e, _ => fail e
  | look k, f => look fun t s x => (k t s x).bind f
  | edit g k, f => edit g (k.bind f)
  | act a k, f => act a fun r => (k r).bind f
  | scratch g k, f => scratch g fun w => (k w).bind f
  | draft k, f => draft fun d => (k d).bind f
  | fill i w k, f => fill i w fun b => (k b).bind f
  | storePrivate i v k, f => storePrivate i v fun b => (k b).bind f
  | request r q c k, f => request r q c fun x => (k x).bind f
  | structLayout r m w k, f => structLayout r m w fun d w => (k d w).bind f
  | table r c m ts k, f => table r c m ts fun t => (k t).bind f
  | canonical r c k, f => canonical r c fun m => (k m).bind f
  | raise p l e, _ => raise p l e
  | guarded h b, f => guarded (fun e => (h e).bind f) (b.bind f)
  | disarm k, f => disarm (k.bind f)
  | spawn n b k, f => spawn n b fun t => (k t).bind f
  | join t k, f => join t (k.bind f)
  | settle t k, f => settle t fun b => (k b).bind f

instance : Monad (Program σ) where
  pure := done
  bind := bind

/-- Runs a program to its end or to the failure that unwinds out of it. -/
def attempt (p : Program σ α) : Program σ (Except Failure α) :=
  guarded (fun e => done (.error e)) (p.bind fun a => disarm (done (.ok a)))

/-- The store, as the program finds it. -/
def store : Program σ Store := look fun _ s _ => done s

/-- The state that programs share. -/
def shared : Program σ σ := look fun _ _ x => done x

/-- The thread the program runs on. -/
def self : Program σ ThreadId := look fun t _ _ => done t

/-- Fills the slot of the first requirement of that name, in the table that the
program fills. -/
def fillNamed (protocolOf : ProtocolId → Option Protocol) (name : String) (w : Witness)
    (k : Bool → Program σ α) : Program σ α :=
  draft fun d =>
    match (protocolOf d.protocol).bind (·.position? name) with
    | some index => fill index w k
    | none => k false

end Program

end TypeRecords
