import BoundaryTag.Tag

/-!
# Violations and reports

What a check of the heap finds, and the figures that it takes on the way.
-/

namespace BoundaryTag

inductive Violation where
  | badPrologue (tag : Tag)
  | misaligned (block : Nat)
  | tagMismatch (block : Nat) (header footer : Tag)
  | overrun (block : Nat)
  | badEpilogue (offset : Nat) (tag : Tag)
  | brokenBacklink (block : Nat) (expected found : Option Nat)
  | brokenTail (expected found : Option Nat)
  | allocatedInFreeList (block : Nat)
  | listedOutsideHeap (block : Nat)
  | unlistedFreeBlock (block : Nat)
  | escapedCoalescing (block next : Nat)
deriving DecidableEq, Repr

namespace Violation

def name : Violation → String
  | badPrologue _ => "BadPrologue"
  | misaligned _ => "Misaligned"
  | tagMismatch _ _ _ => "TagMismatch"
  | overrun _ => "Overrun"
  | badEpilogue _ _ => "BadEpilogue"
  | brokenBacklink _ _ _ => "BrokenBacklink"
  | brokenTail _ _ => "BrokenTail"
  | allocatedInFreeList _ => "AllocatedInFreeList"
  | listedOutsideHeap _ => "ListedOutsideHeap"
  | unlistedFreeBlock _ => "UnlistedFreeBlock"
  | escapedCoalescing _ _ => "EscapedCoalescing"

def message : Violation → String
  | badPrologue tag => s!"bad prologue header {tag.text}"
  | misaligned block => s!"block {hex block} is not doubleword aligned"
  | tagMismatch block header footer =>
    s!"block {hex block}: header {header.text} does not match footer {footer.text}"
  | overrun block => s!"block {hex block} runs past the end of the arena"
  | badEpilogue offset tag => s!"bad epilogue header {tag.text} at {hex offset}"
  | brokenBacklink block expected found =>
    s!"free list: {hex block} links back to {optional found}, expected {optional expected}"
  | brokenTail expected found =>
    s!"free list: head links back to {optional found}, expected the last member {optional expected}"
  | allocatedInFreeList block => s!"free list: block {hex block} is allocated"
  | listedOutsideHeap block => s!"free list: {hex block} is outside the heap"
  | unlistedFreeBlock block => s!"free block {hex block} is missing from the free list"
  | escapedCoalescing block next =>
    s!"adjacent free blocks {hex block} and {hex next} escaped coalescing"

def fields : Violation → List (String × String)
  | badPrologue tag => [("tag", tag.dump)]
  | tagMismatch block header footer =>
    [("block", toString block), ("header", header.dump), ("footer", footer.dump)]
  | badEpilogue offset tag => [("offset", toString offset), ("tag", tag.dump)]
  | brokenBacklink block expected found =>
    [("block", toString block), ("expected", optional expected), ("found", optional found)]
  | brokenTail expected found => [("expected", optional expected), ("found", optional found)]
  | escapedCoalescing block next => [("block", toString block), ("next", toString next)]
  | misaligned block => [("block", toString block)]
  | overrun block => [("block", toString block)]
  | allocatedInFreeList block => [("block", toString block)]
  | listedOutsideHeap block => [("block", toString block)]
  | unlistedFreeBlock block => [("block", toString block)]

def dump (v : Violation) : String := record v.name v.fields

end Violation

structure Report where
  /-- Blocks between the prologue and the epilogue. -/
  blocks : Nat := 0
  freeBlocks : Nat := 0
  /-- Sizes of the free blocks, tags included. -/
  freeBytes : Nat := 0
  violations : List Violation := []
deriving DecidableEq, Repr

def Report.ok (r : Report) : Bool := r.violations.isEmpty

end BoundaryTag
