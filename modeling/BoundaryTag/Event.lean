import BoundaryTag.Violation

/-!
# Events

What a heap tells about its own work. An event is a cause; its level and its wording follow from it.
-/

namespace BoundaryTag

inductive Level where
  | error
  | warn
  | info
  | debug
  | trace
deriving DecidableEq, Repr

namespace Level

def name : Level → String
  | error => "ERROR"
  | warn => "WARN"
  | info => "INFO"
  | debug => "DEBUG"
  | trace => "TRACE"

def rank : Level → Nat
  | error => 1
  | warn => 2
  | info => 3
  | debug => 4
  | trace => 5

end Level

/-- The two operations that check the heap before they start. -/
inductive Caller where
  | malloc
  | free
deriving DecidableEq, Repr

def Caller.name : Caller → String
  | malloc => "malloc"
  | free => "free"

inductive Event where
  | initialized (arenaEnd : Nat)
  | extended (bytes arenaEnd : Nat)
  | split (size block rest : Nat)
  | filled (size block whole : Nat)
  | grewDown (block into : Nat)
  | moved (source target : Handle)
  | mallocFailed (size : Nat) (cause : AllocError)
  | freeIgnored (handle : Handle)
  | alreadyFree (handle : Handle)
  | reallocIgnored (handle : Handle) (size : Nat)
  | reallocFailed (handle : Handle) (size : Nat) (cause : AllocError)
  | relocationFailed (handle : Handle) (size : Nat) (cause : AllocError)
  | checking (caller : Caller)
  | unchecked
  | heapAt (prologue : Nat)
  | visited (block : Nat) (header footer : Tag)
  | endOfBlocks (block : Nat)
  | checkingFreeList
  | summary (blocks freeBlocks freeBytes : Nat)
  | violated (violation : Violation)
deriving DecidableEq, Repr

namespace Event

def level : Event → Level
  | initialized _ => .debug
  | extended _ _ => .trace
  | split _ _ _ => .trace
  | filled _ _ _ => .trace
  | grewDown _ _ => .trace
  | moved _ _ => .debug
  | mallocFailed _ _ => .warn
  | freeIgnored _ => .warn
  | alreadyFree _ => .warn
  | reallocIgnored _ _ => .warn
  | reallocFailed _ _ _ => .warn
  | relocationFailed _ _ _ => .error
  | checking _ => .debug
  | unchecked => .warn
  | heapAt _ => .info
  | visited _ _ _ => .info
  | endOfBlocks _ => .info
  | checkingFreeList => .info
  | summary _ _ _ => .info
  | violated _ => .error

def message : Event → String
  | initialized arenaEnd => s!"heap initialized, arena end {hex arenaEnd}"
  | extended bytes arenaEnd => s!"arena extended by {bytes} bytes to {hex arenaEnd}"
  | split size block rest => s!"placed {size} bytes at {hex block}, split off {rest} bytes"
  | filled size block whole => s!"placed {size} bytes at {hex block} in a {whole} byte block"
  | grewDown block into => s!"grew {hex block} down into {hex into}"
  | moved source target => s!"realloc moved {source.text} to {target.text}"
  | mallocFailed size cause => s!"malloc({size}) failed: {cause.message}"
  | freeIgnored handle => s!"free({handle.text}): not a block of this heap, ignoring"
  | alreadyFree handle => s!"free({handle.text}): block is already free, ignoring"
  | reallocIgnored handle size =>
    s!"realloc({handle.text}, {size}): not a block of this heap, ignoring"
  | reallocFailed handle size cause => s!"realloc({handle.text}, {size}) failed: {cause.message}"
  | relocationFailed handle size cause =>
    s!"realloc({handle.text}, {size}): cannot relocate payload: {cause.message}"
  | checking caller => s!"{caller.name}: checking heap"
  | unchecked => "heap check: heap is not initialized"
  | heapAt prologue => s!"Heap ({hex prologue}):"
  | visited block header footer =>
    s!"{hex block}: header: {header.text} footer: {footer.text}"
  | endOfBlocks block => s!"{hex block}: EOL"
  | checkingFreeList => "Checking the free list"
  | summary blocks freeBlocks freeBytes =>
    s!"{blocks} blocks, {freeBlocks} free totalling {freeBytes} bytes"
  | violated violation => s!"heap check: {violation.message}"

def text (e : Event) : String := e.level.name ++ ": " ++ e.message

end Event

end BoundaryTag
