import BoundaryTag.Fault

/-!
# Counters

Running totals of a heap. `available`, `fragments` and `tableBytes` are not kept up to date: they
are filled in when the counters are asked for.
-/

namespace BoundaryTag

structure Counters where
  /-- Allocations held now, and the sum of their payload sizes. -/
  allocations : Nat := 0
  allocated : Nat := 0
  /-- Allocations ever made, and the payload bytes ever handed out. A block that grows in place
  adds only what it grew by. -/
  totalAllocations : Nat := 0
  totalAllocated : Nat := 0
  /-- Payload bytes of the free blocks, and their number. -/
  available : Nat := 0
  fragments : Nat := 0
  /-- Bytes taken from the arena, and how often it was extended. -/
  claimed : Nat := 0
  extensions : Nat := 0
  tableBytes : Nat := 0
deriving DecidableEq, Repr

namespace Counters

/-- Bytes that are neither payload nor free: tags, sentinels and padding. -/
def overheadBytes (c : Counters) : Except Fault Nat := do
  Address.sub (← Address.sub c.claimed c.available) c.allocated

def totalFreed (c : Counters) : Except Fault Nat := Address.sub c.totalAllocated c.allocated

def utilization (c : Counters) : Float :=
  if c.claimed = 0 then 0 else c.allocated.toUInt64.toFloat / c.claimed.toUInt64.toFloat

/-- Works out a figure and stores it. The records do so one figure after the other, so one that faults keeps
what it had stored by then. -/
def change (value : Counters → Except Fault Nat) (store : Counters → Nat → Counters) :
    EStateM Fault Counters Unit := fun c =>
  match value c with
  | .ok n => .ok () (store c n)
  | .error e => .error e c

def recordAlloc (payload : Nat) : EStateM Fault Counters Unit := do
  change (fun c => Address.within (c.allocations + 1)) fun c n => { c with allocations := n }
  change (fun c => Address.within (c.allocated + payload)) fun c n => { c with allocated := n }
  change (fun c => Address.within (c.totalAllocations + 1)) fun c n => { c with totalAllocations := n }
  change (fun c => Address.within (c.totalAllocated + payload)) fun c n => { c with totalAllocated := n }

def recordFree (payload : Nat) : EStateM Fault Counters Unit := do
  change (fun c => Address.sub c.allocations 1) fun c n => { c with allocations := n }
  change (fun c => Address.sub c.allocated payload) fun c n => { c with allocated := n }

def recordGrowth (before after : Nat) : EStateM Fault Counters Unit := do
  change (fun c => do Address.within (c.allocated + (← Address.sub after before)))
    fun c n => { c with allocated := n }
  change (fun c => do Address.within (c.totalAllocated + (← Address.sub after before)))
    fun c n => { c with totalAllocated := n }

def recordExtension (bytes : Nat) : EStateM Fault Counters Unit := do
  change (fun c => Address.within (c.claimed + bytes)) fun c n => { c with claimed := n }
  change (fun c => Address.within (c.extensions + 1)) fun c n => { c with extensions := n }

@[simp] theorem run_change (value : Counters → Except Fault Nat) (store : Counters → Nat → Counters)
    (c : Counters) : (change value store).run c =
      match value c with
      | .ok n => .ok () (store c n)
      | .error e => .error e c := rfl

end Counters

end BoundaryTag
