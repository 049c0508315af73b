import StackScript.Machine.Trap
import StackScript.Target.Module

/-!
# Linear memory

A memory has a size and is zero except where data has been placed. Its size follows from the last
data segment. A place in it is an interval with integer bounds: a negative bound counts from the
end, and both are cut off at the ends of the memory.

## Main definitions

* `Memory`: a memory, by its size and the data placed in it.
* `Memory.interval`: the interval of two bounds.
* `Memory.place`: a memory with bytes placed in it.
* `Memory.readBytes`: the bytes of a range.
* `Module.initialMemory`: the memory of a module.
-/

namespace StackScript

/-- Bytes placed in memory. One byte may fill more than one place. -/
structure Placement where
  start : Nat
  length : Nat
  data : Array UInt8

/-- A memory: its size, and the data placed in it, the latest first. -/
structure Memory where
  size : Nat
  placements : List Placement := []

/-- The byte that a placement holds at an address. -/
def Placement.byteAt? (p : Placement) (address : Nat) : Option UInt8 :=
  if p.start ≤ address && address < p.start + p.length then
    if p.data.size = 1 then p.data[0]? else p.data[address - p.start]?
  else none

namespace Memory

/-- A bound of an interval as an address: a negative one counts from the end, and one outside the
memory is cut off. -/
def clamp (memory : Memory) (bound : Int) : Nat :=
  let counted := if bound < 0 then bound + memory.size else bound
  min counted.toNat memory.size

/-- The start and the length of the interval between two bounds. -/
def interval (memory : Memory) (low high : Int) : Nat × Nat :=
  (memory.clamp low, memory.clamp high - memory.clamp low)

/-- The byte at an address. -/
def byteAt (memory : Memory) (address : Nat) : UInt8 :=
  (memory.placements.findSome? fun p => p.byteAt? address).getD 0

/-- Places bytes at an offset. They have to fill the interval from there; a single byte fills an
interval of any length. -/
def place (memory : Memory) (segment : Segment) : Except Trap Memory :=
  let data := segment.data.toArray
  let (start, length) := memory.interval segment.offset (segment.offset + data.size)
  -- bounds that were cut off or counted from the end may leave another length
  if length = data.size || data.size = 1 then
    .ok { memory with placements := ⟨start, length, data⟩ :: memory.placements }
  else .error .segmentMismatch

/-- Places segments in order. -/
def placeAll (memory : Memory) : List Segment → Except Trap Memory
  | [] => .ok memory
  | segment :: rest => do
    let memory ← memory.place segment
    memory.placeAll rest

/-- The bytes of a range, whose end must lie in the memory. -/
def readBytes (memory : Memory) (offset length : Int) : Except Trap Bytes :=
  if offset < 0 || offset + length > memory.size then .error (.outOfBounds offset length)
  else
    let (start, count) := memory.interval offset (offset + length)
    .ok ((List.range count).map fun i => memory.byteAt (start + i))

end Memory

/-- The memory of a module before it runs. -/
def Module.initialMemory (m : Module) : Except Trap (Option Memory) :=
  if m.hasMemory then do
    let memory : Memory := { size := m.memoryPages.toNat * pageSize }
    return some (← memory.placeAll m.data)
  else .ok none

end StackScript
