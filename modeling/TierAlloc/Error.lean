import TierAlloc.Limits
import TierAlloc.Segment
import TierAlloc.Text.Quoted

/-!
# Errors

One constructor per cause; `Error.kind` is the short name that callers match on
and `Error.message` the sentence that people read. Nothing here is fatal: an
error says which request could not be served, and the state is still usable. The
two of the kind `panic` end a call in the middle instead of answering it; what it
had changed by then stays changed.
-/
namespace TierAlloc

/-- Why the system would not provide a shared region. -/
inductive ShmFault where
  | noSuchName | outOfMemory | invalidSize
  deriving DecidableEq, Repr

def ShmFault.message : ShmFault → String
  | .noSuchName => "No such file or directory (os error 2)"
  | .outOfMemory => "Cannot allocate memory (os error 12)"
  | .invalidSize => "Invalid argument (os error 22)"

/-- Settings that cannot work. -/
inductive ConfigFault where
  | managerName (name : String)
  | thresholds (cache instant : Nat)
  | areas (count size : Nat)
  | areasTooLarge (count size : Nat)
  | noBins
  | unpairedBins (sizes counts : Nat)
  | steppedRange (min max step : Nat)
  | binChunkSize (bin size : Nat)
  | binEmpty (bin : Nat)
  | poolEmpty (pool : Nat)
  | poolChunkSize (pool size : Nat)
  | poolBase (pool base : Nat)
  | regionName (name : String)
  deriving DecidableEq, Repr

def ConfigFault.message : ConfigFault → String
  | .managerName name =>
    s!"manager name {Text.quoted name} must be non-empty and contain no '/'"
  | .thresholds cache instant =>
    s!"cache threshold {cache} must be below instant threshold {instant}"
  | .areas count size => s!"handoff areas {count} x {size} bytes are not usable"
  | .areasTooLarge count size => s!"handoff geometry {count} x {size} too large"
  | .noBins => "batch geometry has no bins"
  | .unpairedBins sizes counts => s!"{sizes} chunk sizes but {counts} chunk counts"
  | .steppedRange min max step => s!"bad chunk size range {min}..{max} step {step}"
  | .binChunkSize bin size =>
    s!"bin {bin}: chunk size {size} is not a positive multiple of {alignment}"
  | .binEmpty bin => s!"bin {bin}: zero chunks"
  | .poolEmpty pool => s!"pool {pool}: chunk size and count must be non-zero"
  | .poolChunkSize pool size =>
    s!"pool {pool}: chunk size {size} is not a multiple of {alignment}"
  | .poolBase pool base =>
    s!"pool {pool}: base offset {base} is not a multiple of {alignment}"
  | .regionName name => s!"invalid shared region name {Text.quoted name}"

/-- Descriptors, or what they lead to, that make no sense. -/
inductive DescriptorFault where
  | malformed
  | emptyRegion (name : String)
  | truncatedExchange (manager : String)
  | noExchange (manager : String)
  | exchangeGeometry (manager : String)
  | noArea (data signal : Nat)
  | notHandoff (id : Nat)
  | otherManager (id : Nat) (named own : String)
  deriving DecidableEq, Repr

def DescriptorFault.message : DescriptorFault → String
  | .malformed => "malformed bytes"
  | .emptyRegion name => s!"region {Text.quoted name} exists but is empty"
  | .truncatedExchange manager => s!"handoff region of {manager} is truncated"
  | .noExchange manager => s!"region of {manager} is not an initialized handoff region"
  | .exchangeGeometry manager => s!"handoff region of {manager} has inconsistent geometry"
  | .noArea data signal => s!"no handoff area at offset {data} (signal {signal})"
  | .notHandoff id => s!"segment {id} is not a handoff segment"
  | .otherManager id named own => s!"segment {id} belongs to {named}, not {own}"

/-- How a number left the 64-bit range. -/
inductive Overflow where
  | sum | product
  deriving DecidableEq, Repr

def Overflow.message : Overflow → String
  | .sum => "attempt to add with overflow"
  | .product => "attempt to multiply with overflow"

/-- Why an operation of the allocator was refused.
mirrors `Error` -/
inductive Error where
  | noMemory (requested : Nat)
  | segmentNotFound (id : Nat)
  | typeMismatch (id : Nat) (expected actual : Tier)
  | noBuffer
  | noSegment
  | duplicatedKey (id : Nat)
  | rangeError (offset size : Nat)
  | doubleFree (offset size : Nat)
  | regionUnavailable (name : String) (source : ShmFault)
  | registrationFailed (id : Nat)
  | alreadyExists (id : Nat)
  | oversizedRequest (requested limit : Nat)
  | zeroSize
  | invalidConfig (fault : ConfigFault)
  | invalidDescriptor (fault : DescriptorFault)
  | handoffDisabled
  | handoffTimeout (id : Nat)
  /-- A run of chunks past the end of its bitmap: a broken precondition, not an
  answer to a request. -/
  | runOutOfBounds
  /-- A sum or product of sizes that is no 64-bit number: likewise no answer. -/
  | overflow (fault : Overflow)
  deriving DecidableEq, Repr

namespace Error

def kind : Error → String
  | .noMemory _ => "NoMemory"
  | .segmentNotFound _ => "SegmentNotFound"
  | .typeMismatch .. => "TypeMismatch"
  | .noBuffer => "NullptrBuffer"
  | .noSegment => "NullptrSegment"
  | .duplicatedKey _ => "DuplicatedKey"
  | .rangeError .. => "RangeError"
  | .doubleFree .. => "DoubleFree"
  | .regionUnavailable .. => "RegionUnavailable"
  | .registrationFailed _ => "RegistrationFailed"
  | .alreadyExists _ => "AlreadyExists"
  | .oversizedRequest .. => "OversizedRequest"
  | .zeroSize => "ZeroSize"
  | .invalidConfig _ => "InvalidConfig"
  | .invalidDescriptor _ => "InvalidDescriptor"
  | .handoffDisabled => "HandoffDisabled"
  | .handoffTimeout _ => "HandoffTimeout"
  | .runOutOfBounds | .overflow _ => "panic"

def message : Error → String
  | .noMemory requested => s!"out of memory: no room for {requested} bytes"
  | .segmentNotFound id => s!"segment {id} not found"
  | .typeMismatch id expected actual =>
    s!"segment {id} belongs to the {actual.label} tier, not {expected.label}"
  | .noBuffer => "no source buffer supplied"
  | .noSegment => "no segment supplied"
  | .duplicatedKey id => s!"duplicated segment id {id}"
  | .rangeError offset size => s!"range [{offset}, {offset}+{size}) is outside the pool span"
  | .doubleFree offset size => s!"double free of range [{offset}, {offset}+{size})"
  | .regionUnavailable name source =>
    s!"shared-memory region {Text.quoted name} unavailable: {source.message}"
  | .registrationFailed id => s!"segment {id} could not be registered and was released"
  | .alreadyExists id => s!"segment {id} is already registered"
  | .oversizedRequest requested limit =>
    s!"{requested} bytes exceeds the static tier limit of {limit} bytes"
  | .zeroSize => "zero-byte allocation requested"
  | .invalidConfig fault => s!"invalid configuration: {fault.message}"
  | .invalidDescriptor fault => s!"invalid segment descriptor: {fault.message}"
  | .handoffDisabled => "cache channel is not in handoff mode"
  | .handoffTimeout id => s!"handoff of segment {id} timed out"
  | .runOutOfBounds => "chunk run out of bounds"
  | .overflow fault => fault.message

/-- The call ended in the middle, without an answer. -/
def Panics : Error → Prop
  | runOutOfBounds | overflow _ => True
  | _ => False

end Error

/-! ## Two steps, of which the first may fail -/

variable {α β : Type} {x : Except Error α} {f : α → Except Error β}

theorem bind_eq_ok {b : β} : x >>= f = .ok b ↔ ∃ a, x = .ok a ∧ f a = .ok b := by
  cases x <;> simp [bind, Except.bind]

theorem bind_eq_error {e : Error} :
    x >>= f = .error e ↔ x = .error e ∨ ∃ a, x = .ok a ∧ f a = .error e := by
  cases x <;> simp [bind, Except.bind]

end TierAlloc
