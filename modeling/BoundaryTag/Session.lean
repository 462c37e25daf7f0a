import BoundaryTag.Heap.Payload
import BoundaryTag.Heap.Realloc

/-!
# Sessions

A heap together with what its client holds: the handles that were handed out and not taken back, each
with the size that it was last asked for, and the bytes that the client has written through it.

`Reachable h s` says that calls on the heap `h` lead to the session `s`. The client uses no handle that it
does not hold, and every call so far has returned.
-/

namespace BoundaryTag

inductive Call where
  | init
  | setCheck (level : CheckLevel)
  | malloc (payload : Nat)
  | tryMalloc (payload : Nat)
  | free (p : Handle)
  | realloc (p : Option Handle) (payload : Nat)
  | write (p : Handle) (i : Nat) (src : ByteArray)
  | read (p : Handle) (i n : Nat)
  | check (verbose : Bool)

inductive Answer where
  | done
  | ready (r : Except AllocError Unit)
  | handle (p : Option Handle)
  | tried (r : Except AllocError (Option Handle))
  | bytes (b : ByteArray)
  | report (r : Report)

def Call.action : Call → HeapM Answer
  | init => do return .ready (← Heap.init)
  | setCheck level => do
    HeapM.update (·.withCheck level)
    return .done
  | malloc n => do return .handle (← Heap.malloc n)
  | tryMalloc n => do return .tried (← Heap.tryMalloc n)
  | free p => do
    Heap.free p
    return .done
  | realloc p n => do return .handle (← Heap.realloc p n)
  | write p i src => do
    Heap.writePayload p i src
    return .done
  | read p i n => do return .bytes (← HeapM.read (·.readPayload p i n))
  | check verbose => do return .report (← Heap.check verbose)

/-! ## What a client holds -/

structure Holding where
  handle : Handle
  size : Nat
  written : Nat → Option UInt8 := fun _ => none

namespace Holding

def write (k : Holding) (i : Nat) (src : ByteArray) : Holding :=
  { k with written := fun j =>
      if i ≤ j ∧ j < i + src.size then Bytes.byte? src (j - i) else k.written j }

def without (held : List Holding) (p : Handle) : List Holding := held.filter (·.handle ≠ p)

def revise (held : List Holding) (p : Handle) (f : Holding → Holding) : List Holding :=
  ((held.find? (·.handle = p)).map f).toList ++ without held p

end Holding

structure Session where
  heap : Heap
  held : List Holding

namespace Session

def Holds (s : Session) (p : Handle) : Prop := ∃ k ∈ s.held, k.handle = p

/-- The `n` bytes from position `i` belong to the payload of `p`. -/
def Owns (s : Session) (p : Handle) (i n : Nat) : Prop :=
  s.Holds p ∧ ∃ size, s.heap.usableSize p = .ok size ∧ i + n ≤ size

end Session

namespace Call

def Legal (s : Session) : Call → Prop
  | free p => s.Holds p
  | realloc (some p) _ => s.Holds p
  | write p i src => s.Owns p i src.size
  | read p i n => s.Owns p i n
  | init | setCheck _ | malloc _ | tryMalloc _ | realloc none _ | check _ => True

def record : Call → Answer → List Holding → List Holding
  | init, _, _ => []
  | malloc n, .handle (some q), held => { handle := q, size := n } :: held
  | tryMalloc n, .tried (.ok (some q)), held => { handle := q, size := n } :: held
  | realloc none n, .handle (some q), held => { handle := q, size := n } :: held
  | realloc (some p) n, .handle (some q), held =>
    Holding.revise held p fun k => { k with handle := q, size := n }
  | realloc (some p) 0, _, held => Holding.without held p
  | free p, _, held => Holding.without held p
  | write p i src, _, held => Holding.revise held p (·.write i src)
  | _, _, held => held

end Call

/-! ## Runs -/

/-- The heaps that a client starts with. -/
inductive Fresh : Heap → Prop where
  | growable (limit : Nat) (policy : Policy) : Fresh (Heap.new (Arena.growable limit) policy)
  | ofBuffer (buffer : ByteArray) (policy : Policy) :
      Fresh (Heap.new (Arena.ofBuffer buffer) policy)

namespace Session

def answer (s : Session) (c : Call) : Except Fault Answer := (c.action.run s.heap).result

def next (s : Session) (c : Call) (a : Answer) : Session :=
  ⟨(c.action.run s.heap).heap, c.record a s.held⟩

end Session

inductive Reachable (h : Heap) : Session → Prop where
  | start : Reachable h ⟨h, []⟩
  | step {s : Session} {c : Call} {a : Answer} : Reachable h s → c.Legal s → s.answer c = .ok a →
      Reachable h (s.next c a)

end BoundaryTag
