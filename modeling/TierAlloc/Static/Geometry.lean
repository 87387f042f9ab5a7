import TierAlloc.Word

/-!
# Geometries

A `Geometry` lists the bins of a batch, each a number of chunks of one size; the
position in the list is the bin's id. `Geometry.check` refuses a list that no batch
can be laid out by, and names the first bin that is wrong.
-/
namespace TierAlloc

structure Bin where
  chunkSize : Nat
  chunkCount : Nat
  deriving DecidableEq, Repr

/-- The bins of a batch in the order of their ids.
mirrors `BatchGeometry` -/
structure Geometry where
  bins : List Bin
  deriving DecidableEq, Repr

namespace Geometry

/-- Pairs each chunk size with its count.
mirrors `BatchGeometry.new` -/
def ofLists (sizes counts : List Nat) : Except Error Geometry :=
  if sizes.length ≠ counts.length then
    .error (.invalidConfig (.unpairedBins sizes.length counts.length))
  else .ok ⟨List.zipWith Bin.mk sizes counts⟩

/-- The same number of chunks in every bin.
mirrors `BatchGeometry.uniform` -/
def uniform (sizes : List Nat) (count : Nat) : Geometry := ⟨sizes.map (⟨·, count⟩)⟩

/-- Bins of `min`, `min + step`, ... bytes, `(max - min) / step` of them.
mirrors `BatchGeometry.stepped` -/
def stepped (min max step count : Nat) : Except Error Geometry :=
  if step = 0 ∨ max ≤ min then .error (.invalidConfig (.steppedRange min max step))
  else .ok (uniform ((List.range ((max - min) / step)).map fun i => min + i * step) count)

/-- Many small chunks and few large ones, up to 128 KiB.
mirrors `BatchGeometry.default` -/
def standard : Geometry where
  bins := [⟨512, 64⟩, ⟨1024, 64⟩, ⟨2048, 64⟩, ⟨4096, 64⟩, ⟨8192, 64⟩, ⟨12288, 64⟩,
    ⟨16384, 64⟩, ⟨24576, 64⟩, ⟨32768, 50⟩, ⟨49152, 50⟩, ⟨65536, 50⟩, ⟨81920, 50⟩,
    ⟨98304, 32⟩, ⟨131072, 32⟩]

def chunkSizes (g : Geometry) : List Nat := g.bins.map Bin.chunkSize

def chunkCounts (g : Geometry) : List Nat := g.bins.map Bin.chunkCount

/-- The largest chunk size, zero if there is no bin.
mirrors `BatchGeometry.max_chunk_size` -/
def maxChunkSize (g : Geometry) : Nat := g.chunkSizes.foldl max 0

/-- Bytes that one batch of this geometry takes. -/
def totalBytes (g : Geometry) : Nat := g.bins.foldr (fun b n => b.chunkSize * b.chunkCount + n) 0

/-- `offset` and the bytes of the bins after it, as a 64-bit number. -/
def stopFrom : List Bin → (offset : Nat) → Except Error Nat
  | [], offset => .ok offset
  | b :: rest, offset => do
    let span ← Word.mul b.chunkSize b.chunkCount
    let next ← Word.add offset span
    stopFrom rest next

/-- Bytes that one batch of this geometry takes, as a 64-bit number.
mirrors `BatchGeometry.total_bytes` -/
def total (g : Geometry) : Except Error Nat := stopFrom g.bins 0

/-- Checks the bins from `bin` on. -/
def checkBins : List Bin → (bin : Nat) → Except Error Unit
  | [], _ => .ok ()
  | b :: rest, bin =>
    if b.chunkSize = 0 ∨ b.chunkSize % alignment ≠ 0 then
      .error (.invalidConfig (.binChunkSize bin b.chunkSize))
    else if b.chunkCount = 0 then .error (.invalidConfig (.binEmpty bin))
    else checkBins rest (bin + 1)

/-- A usable geometry has a bin, and every bin has chunks of an aligned size.
mirrors `BatchGeometry.validate` -/
def check (g : Geometry) : Except Error Unit :=
  if g.bins.isEmpty then .error (.invalidConfig .noBins) else checkBins g.bins 0

end Geometry

end TierAlloc
