import ArenaAlligator.ArenaRef
import ArenaAlligator.Regions

namespace ArenaAlligator

/-- What is taken from the bytes crate about BytesMut: it is a byte vector
that can grow up to a limit, and the chunk it offers for writing is never
empty. The contents determine the chunk: those of one buffer only grow, so that
no two of its calls see the same ones. -/
structure BytesMut where
  limit : Nat
  spare : List UInt8 → Nat

namespace BytesMut

def remainingMut (h : BytesMut) (bytes : List UInt8) : Nat := h.limit - bytes.length

def chunkLen (h : BytesMut) (bytes : List UInt8) : Nat := h.spare bytes + 1

end BytesMut

/-- How a call ended. The write loop is run with fuel; a loop that does not
end runs out of it. -/
inductive Outcome
  | done
  | panicked
  | outOfFuel
deriving DecidableEq

structure BufferFullError where
  remaining : Nat
  requested : Nat
deriving DecidableEq

structure BufferHandle where
  allocation : AllocationKind
  offset : Nat
  len : Nat
deriving DecidableEq

namespace BufferHandle

def asRef (handle : BufferHandle) (a : ArenaRef) : List UInt8 := Regions.read a.memory handle.offset handle.len

def drop (s : Store) (handle : BufferHandle) : Option Store := s.release handle.allocation

end BufferHandle

inductive Frozen
  | heap (bytes : List UInt8)
  | arena (handle : BufferHandle)
deriving DecidableEq

def Frozen.contents (f : Frozen) (a : ArenaRef) : List UInt8 :=
  match f with
  | heap bytes => bytes
  | arena handle => handle.asRef a

namespace Buffer

def length (buf : Buffer) : Nat :=
  match buf.spilled with
  | some heap => heap.length
  | none => buf.len

def isEmpty (buf : Buffer) : Bool :=
  match buf.spilled with
  | some heap => heap.isEmpty
  | none => buf.len = 0

def isSpilled (buf : Buffer) : Bool := buf.spilled.isSome

def remainingMut (h : BytesMut) (buf : Buffer) : Nat :=
  match buf.spilled with
  | some heap => h.remainingMut heap
  | none => if buf.autoSpill then usizeMax else buf.capacity - buf.len

def doSpill (s : Store) (buf : Buffer) : Option (Store × Buffer) :=
  let src := Regions.read s.arena.memory buf.offset buf.len
  let s := { s with arena := s.arena.recordSpill }
  (s.release buf.allocation).map fun s => (s, { buf with released := true, spilled := some src })

def chunkLen (h : BytesMut) (buf : Buffer) : Nat :=
  match buf.spilled with
  | some heap => h.chunkLen heap
  | none => buf.capacity - buf.len

def chunkMut (s : Store) (buf : Buffer) : Option (Store × Buffer) :=
  if buf.spilled.isNone && buf.autoSpill && buf.len ≥ buf.capacity then buf.doSpill s else some (s, buf)

/-- Data copied to the start of the chunk, and advance_mut over it with its
assertion. -/
def fill (s : Store) (buf : Buffer) (data : List UInt8) : Outcome × Store × Buffer :=
  match buf.spilled with
  | some heap => (.done, s, { buf with spilled := some (heap ++ data) })
  | none =>
      let m := Regions.write s.arena.memory (buf.offset + buf.len) data
      let s := { s with arena := s.arena.setMemory m }
      if buf.len + data.length ≤ buf.capacity then (.done, s, { buf with len := buf.len + data.length })
      else (.panicked, s, buf)

def putLoop (h : BytesMut) : Nat → Store → Buffer → List UInt8 → Outcome × Store × Buffer
  | 0, s, buf, src => (if src = [] then .done else .outOfFuel, s, buf)
  | fuel + 1, s, buf, src =>
      if src = [] then (.done, s, buf)
      else
        match buf.chunkMut s with
        | none => (.panicked, s, buf)
        | some r =>
            let cnt := min src.length (r.2.chunkLen h)
            let f := r.2.fill r.1 (src.take cnt)
            match f.1 with
            | .done => putLoop h fuel f.2.1 f.2.2 (src.drop cnt)
            | _ => f

def putSlice (h : BytesMut) (s : Store) (buf : Buffer) (src : List UInt8) : Outcome × Store × Buffer :=
  if buf.remainingMut h < src.length then (.panicked, s, buf) else putLoop h src.length s buf src

def tryPutSlice (h : BytesMut) (s : Store) (buf : Buffer) (data : List UInt8) :
    Except BufferFullError Outcome × Store × Buffer :=
  let remaining := buf.remainingMut h
  if remaining < data.length then (.error ⟨remaining, data.length⟩, s, buf)
  else
    let r := putSlice h s buf data
    (.ok r.1, r.2)

def drop (s : Store) (buf : Buffer) : Option Store :=
  if buf.released then some s else s.release buf.allocation

/-- A spilled buffer is dropped at the end of freeze; otherwise the arena
reference moves into the handle and the buffer is forgotten. -/
def freeze (s : Store) (buf : Buffer) : Option (Frozen × Store) :=
  match buf.spilled with
  | some heap => ({ buf with spilled := none }.drop s).map fun s => (.heap heap, s)
  | none => some (.arena ⟨buf.allocation, buf.offset, buf.len⟩, { s with arena := s.arena.recordFrozen })

end Buffer

structure RawRegion where
  allocation : AllocationKind
  offset : Nat
  capacity : Nat
deriving DecidableEq

structure RawFreezeError where
  rangeStart : Nat
  rangeEnd : Nat
  capacity : Nat
deriving DecidableEq

namespace RawRegion

/-- raw_alloc runs the steps of allocate and wraps the same block. -/
def rawAlloc (a : ArenaRef) (len : Nat) : Except AllocError RawRegion × ArenaRef :=
  let r := a.allocate len
  (r.1.map fun buf => ⟨buf.allocation, buf.offset, buf.capacity⟩, r.2)

def drop (s : Store) (region : RawRegion) : Option Store := s.release region.allocation

/-- With an invalid range the region is dropped on the way out. -/
def freeze (s : Store) (region : RawRegion) (start fin : Nat) : Option (Except RawFreezeError BufferHandle × Store) :=
  if start > fin ∨ fin > region.capacity then
    (region.drop s).map fun s => (.error ⟨start, fin, region.capacity⟩, s)
  else
    some (.ok ⟨region.allocation, region.offset + start, fin - start⟩, { s with arena := s.arena.recordFrozen })

end RawRegion

end ArenaAlligator
