/-!
# Fixed sizes

Constants of the allocator that no configuration changes. Sizes, offsets and ids are
64-bit numbers, written as naturals. Where nothing that was checked before bounds a sum or
a product, the operation ends in an overflow (`Word.add`, `Word.mul`); a stored number or
a running total that wraps or is refused instead names `wordRange`.

The process itself always has memory enough for its tables and bitmaps.
-/
namespace TierAlloc

/-- Every chunk size, pool base and area size is a multiple of this. -/
def alignment : Nat := 8

/-- A batch serves requests up to this many of its largest chunks. -/
def oversizeFactor : Nat := 8

/-- One more than the largest 64-bit number. -/
def wordRange : Nat := 1 <<< 64

/-- One more than the largest 32-bit number. -/
def halfRange : Nat := 1 <<< 32

/-- The smallest size class of process memory. -/
def minBufferClass : Nat := 16

/-- The largest size class whose buffers are kept for reuse. -/
def maxPooledClass : Nat := 1 <<< 20

/-- Number of size classes from `minBufferClass` to `maxPooledClass`. -/
def pooledClasses : Nat := 17

/-- Idle buffers kept of one size class. -/
def buffersPerClass : Nat := 32

/-- Classes of this size and above the system never provides. -/
def bufferSizeLimit : Nat := 1 <<< 63

/-- Regions of this size and above cannot be mapped. -/
def regionSizeLimit : Nat := 1 <<< 47

/-- Regions of this size and above cannot even be sized. -/
def regionSizeCeiling : Nat := 1 <<< 63

/-- Longest region name in bytes. -/
def regionNameLimit : Nat := 254

end TierAlloc
