import BoundaryTag.Heap.Monad

/-!
# Checking a heap

A check walks every block in address order, then the free list, and collects all that is wrong
instead of stopping at the first. It only reads.

The walk comes first, as data: the blocks visited and how the walk ended. What is wrong with each of
them is then a function of the list.
-/

namespace BoundaryTag

structure Visit where
  block : Nat
  header : Tag
  footer : Tag
deriving DecidableEq, Repr

inductive WalkEnd where
  | epilogue (block : Nat) (tag : Tag)
  | overrun (block : Nat)
  | fault (cause : Fault)
deriving DecidableEq, Repr

structure Walk where
  visits : List Visit
  stop : WalkEnd
deriving DecidableEq, Repr

namespace Heap

def walkFrom (h : Heap) (block : Nat) : Walk :=
  if h.arena.top < block then ⟨[], .overrun block⟩
  else
    match h.header block with
    | .error e => ⟨[], .fault e⟩
    | .ok header =>
      if _ : header.size = 0 then ⟨[], .epilogue block header⟩
      else if _ : h.arena.top < block + header.size then ⟨[], .overrun block⟩
      else
        match h.footer block with
        | .error e => ⟨[], .fault e⟩
        | .ok footer =>
          let rest := h.walkFrom (block + header.size)
          ⟨⟨block, header, footer⟩ :: rest.visits, rest.stop⟩
termination_by h.arena.top + 1 - block
decreasing_by omega

end Heap

/-! ## Findings -/

def Visit.ownFindings (v : Visit) : List Violation :=
  (if v.block % alignment = 0 then [] else [.misaligned v.block]) ++
    if v.header = v.footer then [] else [.tagMismatch v.block v.header v.footer]

/-- Findings on a run of blocks, where `last` is the block before them if that is free. -/
def blockFindings (l : FreeList) (last : Option Nat) : List Visit → List (Visit × List Violation)
  | [] => []
  | v :: vs =>
    if v.header.allocated then (v, v.ownFindings) :: blockFindings l none vs
    else
      let unlisted := if v.block % alignment = 0 ∧ (l.link? v.block).isNone then
        [Violation.unlistedFreeBlock v.block] else []
      let adjacent := last.toList.map (Violation.escapedCoalescing · v.block)
      (v, v.ownFindings ++ unlisted ++ adjacent) :: blockFindings l (some v.block) vs

/-- Findings on a whole walk, whose first visit is the prologue. -/
def walkFindings (l : FreeList) : List Visit → List (Visit × List Violation)
  | [] => []
  | v :: vs => (v, v.ownFindings) :: blockFindings l none vs

def tally (blocks : List Visit) (violations : List Violation) : Report :=
  let free := blocks.filter fun v => !v.header.allocated
  { blocks := blocks.length
    freeBlocks := free.length
    freeBytes := free.foldr (fun v n => v.header.size + n) 0
    violations }

namespace Heap

open Traced

def checkPrologue (h : Heap) : Traced (List Violation) := do
  let tag ← h.header prologueOffset
  let found := if tag.size ≠ overhead ∨ !tag.allocated then [Violation.badPrologue tag] else []
  flag found
  return found

def checkVisits (verbose : Bool) : List (Visit × List Violation) → Traced Unit
  | [] => return
  | (v, found) :: rest => do
    note verbose (.visited v.block v.header v.footer)
    flag found
    checkVisits verbose rest

def checkEnd (h : Heap) (verbose : Bool) : WalkEnd → Traced (List Violation)
  | .fault e => fail e
  | .overrun block => do
    flag [.overrun block]
    return [.overrun block]
  | .epilogue block tag => do
    note verbose (.endOfBlocks block)
    let found := if !tag.allocated ∨ block ≠ h.arena.top then
      [Violation.badEpilogue (block - wordBytes) tag] else []
    flag found
    return found

/-- Checks members of the free list, where `last` is the member before them. -/
def checkMembers (h : Heap) (span : Span) (last : Option Nat) : List Nat → Traced (List Violation)
  | [] => return []
  | block :: rest => do
    let found := (← h.freeList.link block).bind Link.prev
    let back := if found = last then [] else [Violation.brokenBacklink block last found]
    flag back
    let place ←
      if !span.contains block then pure [Violation.listedOutsideHeap block]
      else do
        let tag ← h.header block
        pure (if tag.allocated then [Violation.allocatedInFreeList block] else [])
    flag place
    return back ++ place ++ (← h.checkMembers span (some block) rest)

def checkFreeList (h : Heap) : Traced (List Violation) := do
  let members := h.freeList.toList.take (h.freeList.length + 1)
  let found ← h.checkMembers (← h.span) none members
  let last := members.getLast?
  let tail := if h.freeList.head.prev = last then [] else
    [Violation.brokenTail last h.freeList.head.prev]
  flag tail
  return found ++ tail

def report (h : Heap) (verbose : Bool) : Traced Report :=
  if h.initialized then do
    note verbose (.heapAt prologueOffset)
    let prologue ← h.checkPrologue
    let walk := h.walkFrom prologueOffset
    let findings := walkFindings h.freeList walk.visits
    checkVisits verbose findings
    let closing ← h.checkEnd verbose walk.stop
    note verbose .checkingFreeList
    let listed ← h.checkFreeList
    let report := tally walk.visits.tail
      (prologue ++ findings.flatMap (·.2) ++ closing ++ listed)
    note verbose (.summary report.blocks report.freeBlocks report.freeBytes)
    return report
  else do
    tell [.unchecked]
    return {}

def check (verbose : Bool) : HeapM Report := HeapM.observe (·.report verbose)

theorem check_run (verbose : Bool) (h : Heap) :
    (check verbose).run h = ⟨h.report verbose, h⟩ := rfl

/-- The check that the policy asks for before an operation. -/
def selfCheck (caller : Caller) : HeapM Unit := do
  let level ← HeapM.view (·.policy.checkLevel)
  if level.enabled && (← HeapM.view (·.initialized)) then
    HeapM.tell (.checking caller)
    let _ ← check (level = .verbose)

end Heap

end BoundaryTag
