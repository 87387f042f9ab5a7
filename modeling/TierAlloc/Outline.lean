import TierAlloc.Allocator.Basic
import TierAlloc.Cache.Handoff
import TierAlloc.Consumer

/-!
# Outlines

An outline is one line that says what an object is and gives its main figures:
`Name { field: value, ... }`.
-/
namespace TierAlloc

/-- The name of a thing and its fields in braces. -/
def outlineOf (name : String) (fields : List (String × String)) : String :=
  let parts := fields.map fun (field, value) => field ++ ": " ++ value
  name ++ " \x7b " ++ ", ".intercalate parts ++ " \x7d"

def outlineFlag (b : Bool) : String := if b then "true" else "false"

def Pool.outline (p : Pool) : String :=
  outlineOf "ChunkPool" [("id", toString p.id), ("chunk_size", toString p.chunkSize),
    ("chunk_count", toString p.chunkCount), ("base_offset", toString p.base),
    ("chunk_left", toString p.free)]

def Batch.outline (b : Batch) : String :=
  outlineOf "Batch" [("id", toString b.id), ("manager", Text.quoted b.manager),
    ("bins", toString b.pools.length), ("total_bytes", toString b.totalBytes)]

def Cache.outline (c : Cache) : String :=
  outlineOf "CacheChannel" [("manager", Text.quoted c.manager),
    ("segments", toString c.count), ("handoff", outlineFlag c.exchange.isSome)]

def Direction.outline : Direction → String
  | .inbound => "Inbound"
  | .outbound => "Outbound"

def Pending.outline (p : Pending) : String :=
  outlineOf "PendingHandoff" [("area", toString p.area), ("segment", toString p.segment.id),
    ("direction", p.direction.outline)]

def Layout.outline (l : Layout) : String :=
  outlineOf "AreaLayout" [("area_count", toString l.areaCount),
    ("area_size", toString l.areaSize)]

def Peer.outline (p : Peer) : String :=
  outlineOf "HandoffPeer" [("manager", Text.quoted p.manager),
    ("layout", p.exchange.layout.outline)]

def Allocator.outline (a : Allocator) : String :=
  outlineOf "PoolRouter" [("name", Text.quoted a.name), ("batches", toString a.batches.length),
    ("segments", toString a.segmentCount)]

def Consumer.outline (c : Consumer) : String :=
  outlineOf "SegmentManager" [("name", Text.quoted c.name),
    ("segments", toString c.entries.size), ("regions", toString c.regions.size)]

def Region.outline (r : Region) : String :=
  outlineOf "SharedRegion" [("name", Text.quoted r.name), ("len", toString r.size),
    ("owner", outlineFlag r.isOwner)]

end TierAlloc
