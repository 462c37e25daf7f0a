import BoundaryTag.Fault

/-!
# Heap policy

How far the arena grows at a time, when a block is split, when the search for a block settles, and
how closely the heap watches itself. The adjustments round what they are given to something that a
heap can honour, so a `Policy` always is.

Main statement: `withChunk_eq_ok_iff` (the one adjustment that can fault, and when).
-/

namespace BoundaryTag

inductive CheckLevel where
  | off
  | quiet
  | verbose
deriving DecidableEq, Repr

namespace CheckLevel

def enabled (c : CheckLevel) : Bool := c != off

def dump : CheckLevel → String
  | off => "Off"
  | quiet => "Quiet"
  | verbose => "Verbose"

end CheckLevel

structure Policy where
  /-- The least number of bytes that the arena grows by. -/
  chunkSize : Nat
  /-- The smallest remainder that is split off a block. -/
  splitThreshold : Nat
  /-- The search for a block settles for the first one that wastes no more than this. -/
  fitThreshold : Nat
  checkLevel : CheckLevel
  chunk_dvd : 8 ∣ chunkSize
  minBlock_le_chunk : minBlockSize ≤ chunkSize
  chunk_lt : chunkSize < addressSpace
  minBlock_le_split : minBlockSize ≤ splitThreshold
deriving DecidableEq

namespace Policy

def defaultChunkSize : Nat := 256
def defaultSplitThreshold : Nat := 152
def defaultFitThreshold : Nat := 3904

def standard : Policy where
  chunkSize := defaultChunkSize
  splitThreshold := defaultSplitThreshold
  fitThreshold := defaultFitThreshold
  checkLevel := .off
  chunk_dvd := by decide
  minBlock_le_chunk := by decide
  chunk_lt := by decide
  minBlock_le_split := by decide

instance : Inhabited Policy := ⟨standard⟩

def withChunk (p : Policy) (bytes : Nat) : Except Fault Policy :=
  if h : alignUp (max bytes minBlockSize) < addressSpace then
    .ok { p with
      chunkSize := alignUp (max bytes minBlockSize)
      chunk_dvd := alignUp_dvd _
      minBlock_le_chunk := Nat.le_trans (Nat.le_max_right _ _) (le_alignUp _)
      chunk_lt := h }
  else .error .overflow

def withSplit (p : Policy) (bytes : Nat) : Policy :=
  { p with splitThreshold := max bytes minBlockSize, minBlock_le_split := Nat.le_max_right _ _ }

def withFit (p : Policy) (bytes : Nat) : Policy := { p with fitThreshold := bytes }

def withCheck (p : Policy) (level : CheckLevel) : Policy := { p with checkLevel := level }

def largeChunks : Policy :=
  { standard with
    chunkSize := 65536
    chunk_dvd := by decide
    minBlock_le_chunk := by decide
    chunk_lt := by decide }

def named : List (String × Policy) :=
  [("Default", standard),
   ("Best Fit", standard.withFit 0),
   ("First Fit", standard.withFit (addressSpace - 1)),
   ("Eager Split", standard.withSplit 0),
   ("Large Chunks", largeChunks)]

def dump (p : Policy) : String :=
  record "HeapConfig" [("chunk_size", toString p.chunkSize),
    ("split_threshold", toString p.splitThreshold), ("fit_threshold", toString p.fitThreshold),
    ("check", p.checkLevel.dump)]

theorem withChunk_eq_ok_iff {p q : Policy} {bytes : Nat} :
    p.withChunk bytes = .ok q ↔
      alignUp (max bytes minBlockSize) < addressSpace ∧
        q.chunkSize = alignUp (max bytes minBlockSize) ∧
        q.splitThreshold = p.splitThreshold ∧ q.fitThreshold = p.fitThreshold ∧
        q.checkLevel = p.checkLevel := by
  unfold withChunk
  by_cases h : alignUp (max bytes minBlockSize) < addressSpace
  · cases q
    simp only [h, dite_true, Except.ok.injEq, mk.injEq, true_and]
    constructor <;> simp_all [eq_comm]
  · simp [h]

end Policy

end BoundaryTag
