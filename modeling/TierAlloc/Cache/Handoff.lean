import TierAlloc.Cache.Basic
import TierAlloc.Exchange.Peer

/-!
# Handoffs

A handoff moves one payload through an exchange area. The owner makes an `Offer`,
which needs an area (`Offer.place?`); with one it is a `Pending` handoff, whose
descriptor a peer can serve. The owner then waits for the peer, with or without a
deadline, or abandons the handoff. All three end by releasing the area, and none
ends while a peer is copying.

The bytes of an inbound handoff become a cache entry when the wait succeeds. Its
length is the one that the peer left in the area, not the one reserved.
-/
namespace TierAlloc

/-- What a handoff will move: `size` bytes to the owner, or a payload from it. -/
inductive Transfer where
  | inbound (size : Nat)
  | outbound (payload : Bytes)
  deriving DecidableEq, Repr

namespace Transfer

def direction : Transfer → Direction
  | .inbound _ => .inbound
  | .outbound _ => .outbound

def size : Transfer → Nat
  | .inbound size => size
  | .outbound payload => payload.length

end Transfer

/-- A handoff that has no area yet. -/
structure Offer where
  exchange : Exchange
  manager : String
  id : Nat
  transfer : Transfer
  deriving DecidableEq, Repr

/-- A handoff that holds an area.
mirrors `PendingHandoff` -/
structure Pending where
  exchange : Exchange
  area : Nat
  segment : Segment
  direction : Direction
  deriving DecidableEq, Repr

namespace Cache

/-- An offer to take `n` bytes from a peer. Draws an id, unless there is no
exchange region.
mirrors `CacheChannel.handoff_malloc` -/
def offerMalloc (c : Cache) (ids : Counter) (n : Nat) : Except Error Offer × Counter :=
  match c.exchange with
  | none => (.error .handoffDisabled, ids)
  | some x =>
    if n = 0 then (.error .zeroSize, ids.draw.2)
    else if x.layout.areaSize < n then (.error (.noMemory n), ids.draw.2)
    else
      (.ok { exchange := x, manager := c.manager, id := ids.draw.1, transfer := .inbound n },
        ids.draw.2)

/-- An offer of a copy of the entry under `id`.
mirrors `CacheChannel.handoff_retrieve` -/
def offerRetrieve (c : Cache) (id : Nat) : Except Error Offer :=
  match c.exchange with
  | none => .error .handoffDisabled
  | some x =>
    match c.contents? id with
    | none => .error (.segmentNotFound id)
    | some payload =>
      if x.layout.areaSize < payload.length then .error (.noMemory payload.length)
      else .ok { exchange := x, manager := c.manager, id, transfer := .outbound payload }

end Cache

namespace Offer

/-- The handoff that holds `area`. -/
def pending (o : Offer) (area : Nat) : Pending where
  exchange := o.exchange
  area
  segment := { id := o.id, size := o.transfer.size, manager := o.manager,
               kind := .cache (o.exchange.layout.locator area) }
  direction := o.transfer.direction

/-- Copies an outbound payload into the area. -/
def load (o : Offer) (area : Nat) (shm : Shm) : Except Error Shm :=
  match o.transfer with
  | .inbound _ => .ok shm
  | .outbound payload =>
    shm.write o.exchange.region (o.exchange.layout.areaOffset area) payload

/-- Announces the handoff in the words of the area, the signal last. -/
def announce (o : Offer) (area : Nat) (shm : Shm) : Shm :=
  o.exchange.setSignal area o.transfer.direction.waiting <|
    o.exchange.setPayloadLength area o.transfer.size <| o.exchange.setSegment area o.id shm

/-- Takes an area for the offer; none if the owner has to wait for one.
mirrors `PendingHandoff.inbound` and `PendingHandoff.outbound` -/
def place? (o : Offer) (shm : Shm) : Option (Except Error Pending × Shm) :=
  match o.exchange.reserve? shm with
  | none => none
  | some (area, shm) =>
    match o.load area shm with
    | .error e => some (.error e, o.exchange.release area shm)
    | .ok shm => some (.ok (o.pending area), o.announce area shm)

end Offer

namespace Pending

/-- What to send to the peer. -/
def descriptor (p : Pending) : Descriptor := p.segment.descriptor

def signal (p : Pending) (shm : Shm) : Nat := p.exchange.signal shm p.area

def setSignal (p : Pending) (n : Nat) (shm : Shm) : Shm := p.exchange.setSignal p.area n shm

/-- The peer has done its part.
mirrors `PendingHandoff.is_signalled` -/
def isSignalled (p : Pending) (shm : Shm) : Bool := p.signal shm = p.direction.done

/-- Lets the area go.
mirrors `PendingHandoff.finish` -/
def release (p : Pending) (shm : Shm) : Shm := p.exchange.release p.area shm

/-- Takes the payload of a finished handoff. Inbound bytes become a cache entry
under the id of the handoff; outbound ones are with the peer already. -/
def take (p : Pending) (c : Cache) (shm : Shm) : Except Error Segment × Cache :=
  match p.direction with
  | .outbound => (.ok p.segment, c)
  | .inbound =>
    let length := p.exchange.payloadLength shm p.area
    let offset := p.exchange.layout.areaOffset p.area
    match c.heap.acquire length with
    | (.error e, heap) => (.error e, { c with heap })
    | (.ok b, heap) =>
      let c := { c with heap }
      match shm.read p.exchange.region offset length with
      | .error e => (.error e, c)
      | .ok bytes =>
        match c.insert p.segment.id { b with bytes } with
        | (.error e, c) => (.error e, c)
        | (.ok (), c) => (.ok (c.entrySegment p.segment.id length), c)

/-- How the owner's part ends against the peer's moves, with the word after it in
place and the area released; none if the owner would sleep for ever.
mirrors `PendingHandoff.wait_until` -/
def settle? (p : Pending) (goal : Goal) (moves : List Move) (c : Cache) (shm : Shm) :
    Option (Except Error Segment × Cache × Shm) :=
  match settle goal p.direction moves (p.signal shm) with
  | none => none
  | some (outcome, word) =>
    let shm := p.setSignal word shm
    match outcome with
    | .completed =>
      let (answer, c) := p.take c shm
      some (answer, c, p.release shm)
    | .withdrawn | .idle => some (.error (.handoffTimeout p.segment.id), c, p.release shm)

/-- Waits for the peer. With no peer at work only a finished handoff ends.
mirrors `PendingHandoff.wait` -/
def wait? (p : Pending) (c : Cache) (shm : Shm) : Option (Except Error Segment × Cache × Shm) :=
  p.settle? .completion [] c shm

/-- Waits up to a deadline that passes before any peer moves, and then takes the
offer back.
mirrors `PendingHandoff.wait_timeout` -/
def waitTimeout? (p : Pending) (c : Cache) (shm : Shm) :
    Option (Except Error Segment × Cache × Shm) :=
  p.settle? .deadline [] c shm

/-- Gives the handoff up against the peer's moves.
mirrors `PendingHandoff.drop` -/
def abandon? (p : Pending) (moves : List Move) (shm : Shm) : Option Shm :=
  match settle .abandon p.direction moves (p.signal shm) with
  | none => none
  | some (_, word) => some (p.release (p.setSignal word shm))

/-- Gives the handoff up. An owner that would sleep for ever keeps the area. -/
def drop (p : Pending) (shm : Shm) : Shm := (p.abandon? [] shm).getD shm

end Pending
end TierAlloc
