import TierAlloc.Memory.Bytes
import TierAlloc.Error

/-!
# Buffers of process memory

Buffers come in size classes, the powers of two from 16 up. A buffer that is
given back is kept for the next request of its class, as long as the class is at
most one MiB and fewer than 32 of it are idle. An optional capacity bounds the
bytes handed out at once, counted by class.

Every buffer is handed out with all bytes zero, whatever was in it before.
-/
namespace TierAlloc

structure Buffer where
  capacity : Nat
  bytes : Bytes
  deriving DecidableEq, Repr

/-- Number of bytes in use of the buffer's capacity. -/
def Buffer.size (b : Buffer) : Nat := b.bytes.length

/-- Process memory: its bound, the bytes that are handed out, and the idle buffers of each class.
mirrors `HeapPool` -/
structure BufferPool where
  capacity : Option Nat
  /-- Idle buffers by class: those of `16 * 2 ^ i` bytes at place `i`. -/
  idle : List (List Buffer)
  /-- Bytes handed out, by class and modulo the word range. -/
  inUse : Nat
  /-- Requests served from an idle buffer. -/
  hits : Nat
  /-- Requests that took new memory. -/
  misses : Nat
  deriving DecidableEq, Repr

namespace BufferPool

/-- The least power of two that is at least `n` and at least the smallest class. -/
def classOf (n : Nat) : Nat := 1 <<< ((max n minBufferClass - 1).log2 + 1)

/-- The size class for `n` bytes, if it is a 64-bit number.
mirrors `class_size` -/
def class? (n : Nat) : Option Nat :=
  if classOf n < wordRange then some (classOf n) else none

/-- The place of a class among the idle buffers.
mirrors `class_index` -/
def classIndex (size : Nat) : Nat := size.log2 - minBufferClass.log2

/-- Nothing is handed out, and nothing idle.
mirrors `HeapPool.new` -/
def create (capacity : Option Nat) : BufferPool where
  capacity
  idle := List.replicate pooledClasses []
  inUse := 0
  hits := 0
  misses := 0

/-- The total after handing out `size` more bytes, if there is room for them. -/
def reserve? (p : BufferPool) (size : Nat) : Option Nat :=
  if wordRange ≤ p.inUse + size then none
  else
    match p.capacity with
    | some capacity => if capacity < p.inUse + size then none else some (p.inUse + size)
    | none => some (p.inUse + size)

/-- An idle buffer of the class, and the pool without it. -/
def takeIdle? (p : BufferPool) (size : Nat) : Option (Buffer × BufferPool) :=
  if maxPooledClass < size then none
  else
    match p.idle.getD (classIndex size) [] with
    | [] => none
    | b :: rest => some (b, { p with idle := p.idle.set (classIndex size) rest })

/-- A buffer of `n` zero bytes.
mirrors `HeapPool.acquire` -/
def acquire (p : BufferPool) (n : Nat) : Except Error Buffer × BufferPool :=
  match class? n with
  | none => (.error (.noMemory n), p)
  | some size =>
    match p.reserve? size with
    | none => (.error (.noMemory n), p)
    | some inUse =>
      match p.takeIdle? size with
      | some (b, q) =>
        (.ok { b with bytes := .zeros n }, { q with inUse, hits := p.hits + 1 })
      | none =>
        let q := { p with misses := p.misses + 1 }
        if bufferSizeLimit ≤ size then (.error (.noMemory n), q)
        else (.ok { capacity := size, bytes := .zeros n }, { q with inUse })

/-- Takes a buffer back. One whose capacity is no class, or too large a class, or
of a class with enough idle buffers, is given up.
mirrors `HeapPool.recycle` -/
def recycle (p : BufferPool) (b : Buffer) : BufferPool :=
  let size := (class? b.capacity).getD b.capacity
  let p := { p with inUse := (p.inUse + (wordRange - size % wordRange)) % wordRange }
  if b.capacity ≠ size ∨ maxPooledClass < size then p
  else
    let bucket := p.idle.getD (classIndex size) []
    if bucket.length < buffersPerClass then
      { p with idle := p.idle.set (classIndex size) ({ b with bytes := [] } :: bucket) }
    else p

/-- Number of idle buffers of all classes together. -/
def idleCount (p : BufferPool) : Nat := p.idle.foldr (fun buffers n => buffers.length + n) 0

end BufferPool
end TierAlloc
