import TierAlloc.Exchange.Basic

/-!
# Peers

The other side of a handoff. A peer maps the exchange region of a manager by name
and serves the descriptors that its owner publishes: it claims the area by moving
the signal word on, copies, and moves the word to the end. What it cannot serve it
puts back as it was.
-/
namespace TierAlloc

/-- A process that serves handoffs of one manager.
mirrors `HandoffPeer` -/
structure Peer where
  manager : String
  exchange : Exchange
  deriving DecidableEq, Repr

namespace Peer

/-- Maps the exchange region of `manager`.
mirrors `HandoffPeer.attach` -/
def attach (manager : String) (shm : Shm) : Except Error Peer := do
  let exchange ← Exchange.attach manager shm
  pure { manager, exchange }

/-- Claims the area of a descriptor for copying. The area must be waiting for a
payload in this direction, and for this segment.
mirrors `HandoffPeer.claim` -/
def claim (p : Peer) (d : Descriptor) (dir : Direction) (shm : Shm) : Except Error Nat × Shm :=
  if d.manager ≠ p.manager then
    (.error (.invalidDescriptor (.otherManager d.id d.manager p.manager)), shm)
  else
    match p.exchange.locate d with
    | .error e => (.error e, shm)
    | .ok area =>
      if p.exchange.signal shm area ≠ dir.waiting then (.error (.segmentNotFound d.id), shm)
      else
        let shm := p.exchange.setSignal area dir.copying shm
        if p.exchange.segment shm area ≠ d.id then
          (.error (.segmentNotFound d.id), p.exchange.setSignal area dir.waiting shm)
        else (.ok area, shm)

/-- Copies `data` into the area of an inbound descriptor and says that it is
there. The descriptor's size bounds it.
mirrors `HandoffPeer.deliver` -/
def deliver (p : Peer) (d : Descriptor) (data : Bytes) (shm : Shm) : Except Error Unit × Shm :=
  match p.claim d .inbound shm with
  | (.error e, shm) => (.error e, shm)
  | (.ok area, shm) =>
    let offset := p.exchange.layout.areaOffset area
    let written :=
      if d.size < data.length then .error (.rangeError offset data.length)
      else shm.write p.exchange.region offset data
    match written with
    | .error e => (.error e, p.exchange.setSignal area Direction.inbound.waiting shm)
    | .ok shm =>
      (.ok (), p.exchange.setSignal area Direction.inbound.done <|
        p.exchange.setPayloadLength area data.length shm)

/-- Copies the payload of an outbound descriptor out of its area and says that it
has been taken.
mirrors `HandoffPeer.collect` -/
def collect (p : Peer) (d : Descriptor) (shm : Shm) : Except Error Bytes × Shm :=
  match p.claim d .outbound shm with
  | (.error e, shm) => (.error e, shm)
  | (.ok area, shm) =>
    let length := p.exchange.payloadLength shm area
    match shm.read p.exchange.region (p.exchange.layout.areaOffset area) length with
    | .error e => (.error e, p.exchange.setSignal area Direction.outbound.waiting shm)
    | .ok data => (.ok data, p.exchange.setSignal area Direction.outbound.done shm)

end Peer
end TierAlloc
