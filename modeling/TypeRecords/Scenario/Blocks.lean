/-
The book of blocks: what has been taken from an arena by hand, and may be
handed back once.
-/
import TypeRecords.Scenario.Answer

namespace TypeRecords.Scenario

/-- A block that was taken. -/
structure Block where
  address : Nat
  size : Nat
  live : Bool

/-- The blocks taken from an arena, and the pages they were seen in, both
numbered in order. -/
structure Book where
  blocks : Array Block := #[]
  pages : Array Nat := #[]

namespace Book

/-- Whether an arena serves this alignment. -/
def serves (align : Nat) : Bool := isPowerOfTwo align && align ≤ maxAlignment

/-- Enters a block; `pageSize` is that of the arena. -/
def enter (b : Book) (pageSize size align address : Nat) (pooled : Bool) : Book × Answer :=
  let n := b.blocks.size
  let blocks := b.blocks.push ⟨address, size, true⟩
  if pooled then
    let page := address - address % pageSize
    match b.pages.findIdx? (· == page) with
    | some p => ({ b with blocks := blocks }, .block n (.page p (address - page)))
    | none =>
      ({ blocks := blocks, pages := b.pages.push page },
        .block n (.page b.pages.size (address - page)))
  else ({ b with blocks := blocks }, .block n (.large (address % max align wordSize == 0)))

/-- A block that may be handed back. -/
def live? (b : Book) (n : Nat) : Option Block := (b.blocks[n]?).filter (·.live)

def strike (b : Book) (n : Nat) : Book :=
  { b with blocks := b.blocks.modify n fun x => { x with live := false } }

end Book

-- ====================================================== an arena by itself

inductive ArenaOp
  | alloc (size align : Nat)
  | free (block : Nat)
  | stats
  | unreadable

/-- The answer of an operation on an arena. -/
inductive ArenaAnswer
  | answer (a : Answer)
  | stats (t : ArenaTally)

/-- An arena with the memory behind it and the book of its blocks. -/
structure Bench where
  arena : Arena
  heap : Heap := {}
  book : Book := {}

/-- Carries out an operation on an arena. -/
def Bench.perform (b : Bench) : ArenaOp → Bench × ArenaAnswer
  | .alloc size align =>
    if Book.serves align then
      let served := b.arena.allocateFrom b.heap size align
      let entered := b.book.enter b.arena.limits.pageSize size align served.1.address
        served.1.pooled
      (⟨served.1.arena, served.2, entered.1⟩, .answer entered.2)
    else (b, .answer (.failed .refused))
  | .free n =>
    match b.book.live? n with
    | none => (b, .answer (.failed .refused))
    | some block =>
      let back := b.arena.deallocate block.address block.size
      (⟨back.1, b.heap, b.book.strike n⟩, .answer (.freed n back.2))
  | .stats => (b, .stats b.arena.tally)
  | .unreadable => (b, .answer (.failed .refused))

def Bench.performAll (b : Bench) : List ArenaOp → Bench × List ArenaAnswer
  | [] => (b, [])
  | op :: rest =>
    let first := b.perform op
    let others := first.1.performAll rest
    (others.1, first.2 :: others.2)

end TypeRecords.Scenario
