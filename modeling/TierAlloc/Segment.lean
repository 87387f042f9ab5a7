/-!
# Segments and their descriptors

A segment is what a tier hands back from an allocation: an id, a size in bytes,
the manager it belongs to, and where its bytes are. Its `Descriptor` is the same
information as a plain value that another process can be given; the name of the
shared region and the offset in it follow from the descriptor alone
(`Descriptor.regionName?`, `Kind.offset`), so nothing about addresses is sent.

Ids come from one `Counter` per family of tiers and are drawn before the attempt
they are for, so that a failed attempt still uses one up.
-/
namespace TierAlloc

/-- The three ways a request is served: chunks of a batch region, the cache
store, or a region of its own.
mirrors `SegmentTag` -/
inductive Tier where
  | static | cache | ephemeral
  deriving DecidableEq, Repr

def Tier.label : Tier → String
  | .static => "static"
  | .cache => "cache"
  | .ephemeral => "ephemeral"

/-- Source of segment ids: `issued` is how many were drawn, and the next id.
mirrors `SegmentCounter` -/
structure Counter where
  issued : Nat := 0
  deriving DecidableEq, Repr

namespace Counter

/-- The next id, and the counter after it.
mirrors `SegmentCounter.next_id` -/
def draw (c : Counter) : Nat × Counter := (c.issued, ⟨c.issued + 1⟩)

@[simp] theorem draw_fst (c : Counter) : c.draw.1 = c.issued := rfl

@[simp] theorem issued_draw_snd (c : Counter) : c.draw.2.issued = c.issued + 1 := rfl

end Counter

/-- Where the bytes of a cache segment are: in the memory of the process that
stored them, or in an exchange area, given by the offsets of its data and of its
signal word in the exchange region.
mirrors `CacheLocator` -/
inductive Locator where
  | inProcess
  | area (data signal : Nat)
  deriving DecidableEq, Repr

/-- The tier of a segment with what the tier needs to find it again.
mirrors `SegmentKind` -/
inductive Kind where
  | static (batch bin offset : Nat)
  | ephemeral
  | cache (place : Locator)
  deriving DecidableEq, Repr

/-- The region behind batch `batch` of `manager`.
mirrors `static_region_name` -/
def staticRegionName (manager : String) (batch : Nat) : String :=
  manager ++ "#batch" ++ toString batch ++ "#statbin"

/-- The region that ephemeral segment `id` of `manager` has to itself.
mirrors `ephemeral_region_name` -/
def ephemeralRegionName (manager : String) (id : Nat) : String :=
  manager ++ "#instbin#seg" ++ toString id

/-- The exchange region of the cache of `manager`.
mirrors `cache_region_name` -/
def cacheRegionName (manager : String) : String := manager ++ "#cachbin"

namespace Kind

def tier : Kind → Tier
  | .static .. => .static
  | .ephemeral => .ephemeral
  | .cache _ => .cache

/-- Offset of the first byte in the region that holds the segment. -/
def offset : Kind → Nat
  | .static _ _ offset => offset
  | .cache (.area data _) => data
  | .ephemeral | .cache .inProcess => 0

/-- The region that holds the segment; none for bytes in process memory. -/
def regionName? (manager : String) (id : Nat) : Kind → Option String
  | .static batch _ _ => some (staticRegionName manager batch)
  | .ephemeral => some (ephemeralRegionName manager id)
  | .cache (.area ..) => some (cacheRegionName manager)
  | .cache .inProcess => none

end Kind

/-- What another process needs to find a segment.
mirrors `SegmentDescriptor` -/
structure Descriptor where
  manager : String
  id : Nat
  size : Nat
  kind : Kind
  deriving DecidableEq, Repr

namespace Descriptor

def tier (d : Descriptor) : Tier := d.kind.tier

def offset (d : Descriptor) : Nat := d.kind.offset

def regionName? (d : Descriptor) : Option String := d.kind.regionName? d.manager d.id

end Descriptor

/-- An allocated unit of memory. `size` is what was asked for, not what the tier
rounded it to. -/
structure Segment where
  id : Nat
  size : Nat
  manager : String
  kind : Kind
  deriving DecidableEq, Repr

namespace Segment

def tier (s : Segment) : Tier := s.kind.tier

def offset (s : Segment) : Nat := s.kind.offset

def regionName? (s : Segment) : Option String := s.kind.regionName? s.manager s.id

/-- Batch and bin of a static segment.
mirrors `Segment.static_location` -/
def location? (s : Segment) : Option (Nat × Nat) :=
  match s.kind with
  | .static batch bin _ => some (batch, bin)
  | _ => none

/-- The same segment under the name of its manager.
mirrors `Segment.stamp` -/
def stamp (s : Segment) (manager : String) : Segment := { s with manager }

/-- The same segment as one of batch `batch`; only static segments have one.
mirrors `Segment.set_batch` -/
def inBatch (s : Segment) (batch : Nat) : Segment :=
  match s.kind with
  | .static _ bin offset => { s with kind := .static batch bin offset }
  | _ => s

/-- Mirrors `Segment.descriptor`. -/
def descriptor (s : Segment) : Descriptor :=
  { manager := s.manager, id := s.id, size := s.size, kind := s.kind }

end Segment
end TierAlloc
