/-
The arena: a bump allocator over pages.

Records and witness tables live for ever, so the arena only moves a cursor
through a page and takes a new page when the current one is too small. The
one exception is the block that ends at the cursor: handing it back moves the
cursor to the block's start.

Cursor and room left are one word. Pages lie at multiples of their size, so
the page a cursor is in can be read off the cursor. A page that is exactly full
keeps its end as the cursor, with the lowest bit set as a mark, so that the
block that filled it can still be matched and the cursor does not look like the
start of the page behind it. Zero is the cursor of an arena without a page.

Where pages and large blocks come from is not the arena's business: whoever
asks for memory also says at which address the next piece taken from outside
would lie. Statements about the arena quantify over those addresses.
-/
import TypeRecords.Config
import TypeRecords.Layout

namespace TypeRecords

-- ====================================================== limits

/-- Bytes in a machine word. -/
def wordSize : Nat := 8

/-- The strictest alignment an arena serves. -/
def maxAlignment : Nat := 64

/-- `n`, or the bound it is beyond. -/
def clamp (n low high : Nat) : Nat := max low (min n high)

/-- Page size and pool limit an arena works with. -/
structure ArenaLimits where
  pageSize : Nat
  poolLimit : Nat
  deriving DecidableEq

/-- The limits nearest to what a configuration asks for. -/
def ArenaLimits.of (c : Config) : ArenaLimits :=
  let pageSize := ceilPowerOfTwo (clamp c.pageSize minPageSize maxPageSize)
  ⟨pageSize, clamp c.poolLimit wordSize pageSize⟩

-- ====================================================== state

/-- What an arena has done so far. -/
structure ArenaTally where
  /-- Requests served from a page. -/
  pooled : Nat := 0
  /-- Requests that bypassed the pool. -/
  large : Nat := 0
  /-- Pages that became the current page. -/
  pages : Nat := 0
  /-- Pages that were fetched and not needed after all. A request is served in
  one piece, so nobody else can have found room in the meantime. -/
  spare : Nat := 0
  /-- Bytes handed out, in whole words. -/
  bytes : Nat := 0
  /-- Blocks whose return moved the cursor back. -/
  reclaimed : Nat := 0
  /-- Blocks whose return changed nothing. -/
  leaked : Nat := 0
  /-- Large blocks given back. -/
  largeReturned : Nat := 0
  deriving DecidableEq

def ArenaTally.total (t : ArenaTally) : Nat := t.pooled + t.large

/-- An arena. The cursor is the address of the first free byte, or the end of a
page that is full with the mark on it, or zero. -/
structure Arena where
  limits : ArenaLimits
  cursor : Nat := 0
  tally : ArenaTally := {}
  deriving DecidableEq

instance : Inhabited Arena := ⟨⟨ArenaLimits.of default, 0, {}⟩⟩

namespace Arena

/-- An arena for a configuration, without a page. -/
def new (c : Config) : Arena := ⟨ArenaLimits.of c, 0, {}⟩

/-- A size in whole words, at least one. -/
def wholeWords (size : Nat) : Nat := (max size 1 + (wordSize - 1)) / wordSize * wordSize

/-- The mark on the cursor of a page that is full. Cursors are whole words, so
the bit is free. -/
def fullMark : Nat := 1

/-- The cursor at `address` in a page that ends at `pageEnd`. -/
def encode (address pageEnd : Nat) : Nat :=
  if address = pageEnd then address ||| fullMark else address

/-- The first free byte of the current page and the end of that page, read off
the cursor. -/
def decode? (a : Arena) : Option (Nat × Nat) :=
  let mark := a.cursor &&& fullMark
  if a.cursor = 0 then none
  else if mark ≠ 0 then some (a.cursor - mark, a.cursor - mark)
  else some (a.cursor, a.cursor - (a.cursor &&& (a.limits.pageSize - 1)) + a.limits.pageSize)

-- ====================================================== taking memory

/-- A served request. -/
structure Grant where
  arena : Arena
  /-- Where the block starts. -/
  address : Nat
  /-- Whether the block lies in a page. -/
  pooled : Bool
  /-- How many bytes had to be taken from outside. -/
  fetched : Nat

/-- The start of a block of `size` bytes in the current page and the end of the
page, if the block fits. -/
def room? (a : Arena) (size align : Nat) : Option (Nat × Nat) :=
  match a.decode? with
  | none => none
  | some (address, pageEnd) =>
    let start := roundUp address align
    if start + size ≤ pageEnd then some (start, pageEnd) else none

/-- Serves a request for `size` bytes at a multiple of `align`. `fresh` is the
address of the page or large block that is taken from outside if one is
needed. -/
def allocate (a : Arena) (fresh size align : Nat) : Grant :=
  let align := clamp align wordSize maxAlignment
  let size := wholeWords size
  if a.limits.poolLimit < size then
    { arena := { a with tally :=
        { a.tally with large := a.tally.large + 1, bytes := a.tally.bytes + size } }
      address := fresh, pooled := false, fetched := size }
  else
    let tally := { a.tally with pooled := a.tally.pooled + 1, bytes := a.tally.bytes + size }
    match a.room? size align with
    | some (start, pageEnd) =>
      { arena := { a with cursor := encode (start + size) pageEnd, tally := tally }
        address := start, pooled := true, fetched := 0 }
    | none =>
      { arena := { a with
          cursor := encode (fresh + size) (fresh + a.limits.pageSize)
          tally := { tally with pages := tally.pages + 1 } }
        address := fresh, pooled := true, fetched := a.limits.pageSize }

-- ====================================================== handing memory back

/-- What became of a block that was handed back. -/
inductive Return
  /-- The cursor moved back over it. -/
  | reclaimed
  /-- It stays unused for good. -/
  | leaked
  /-- It bypassed the pool and went back outside. -/
  | large
  deriving DecidableEq

/-- Takes back the block of `size` bytes at `address`. -/
def deallocate (a : Arena) (address size : Nat) : Arena × Return :=
  let size := wholeWords size
  if a.limits.poolLimit < size then
    ({ a with tally := { a.tally with largeReturned := a.tally.largeReturned + 1 } }, .large)
  else if a.decode?.any (·.1 == address + size) then
    ({ a with
        cursor := address
        tally := { a.tally with reclaimed := a.tally.reclaimed + 1 } }, .reclaimed)
  else
    ({ a with tally := { a.tally with leaked := a.tally.leaked + 1 } }, .leaked)

end Arena

-- ====================================================== memory outside

/-- The memory pages and large blocks are taken from: everything below `top`
has been handed out, and no two pieces ever touch. -/
structure Heap where
  top : Nat := 0
  deriving DecidableEq, Inhabited

/-- The next address that is good for a page of `pageSize` bytes as well as
for a large block. A word of every piece is kept back in front of it. -/
def Heap.next (h : Heap) (pageSize : Nat) : Nat :=
  let step := max pageSize maxAlignment
  ((h.top + wordSize) / step + 1) * step

/-- Remembers that `fetched` bytes at `address` are gone. -/
def Heap.take (h : Heap) (address fetched : Nat) : Heap :=
  if fetched = 0 then h else ⟨address + fetched⟩

/-- Serves a request with what the heap has next. -/
def Arena.allocateFrom (a : Arena) (h : Heap) (size align : Nat) : Arena.Grant × Heap :=
  let fresh := h.next a.limits.pageSize
  let grant := a.allocate fresh size align
  (grant, h.take fresh grant.fetched)

end TypeRecords
