import TierAlloc.Memory.Bytes
import TierAlloc.Error

/-!
# Descriptors as bytes

A descriptor is sent as an archive whose last 64 bytes, the *root*, hold the
manager (16 bytes), the id, the size (8 bytes each) and the kind (32 bytes); all
numbers have the least significant byte first.

A manager of up to 16 bytes stands in the root itself, filled up with `ff`, which
no text contains. A longer one stands at the start of the archive, and the root
holds its length and its distance. The length is spread over the bits of a word so
that the two top bits of the first byte are `10`, which no text starts with: that
tells the two forms apart.

Reading accepts more than writing produces: bytes that carry nothing may have any
value, and a text may stand anywhere before the root.

**Results.**
* `spread_gather`: the length word gives the length back.
-/
namespace TierAlloc.Descriptor

/-- Size of the root. -/
def rootSize : Nat := 64

/-- Longest text that stands in the root. -/
def inlineLimit : Nat := 16

/-- The bytes of a text. -/
def utf8 (s : String) : Bytes := s.toUTF8.data.toList

/-- The text that the bytes spell, if they spell one. -/
def ofUtf8? (b : Bytes) : Option String := String.fromUTF8? ⟨b.toArray⟩

/-- The word for a length: its low six bits, the mark `10`, and the rest above. -/
def spread (length : Nat) : Nat := length % 64 + 128 + length / 64 * 256

/-- The length that a word stands for. -/
def gather (word : Nat) : Nat := word % 64 + word / 256 * 64

theorem spread_gather (length : Nat) : gather (spread length) = length := by
  unfold gather spread
  omega

/-- Zeros up to a multiple of eight. -/
def padding (length : Nat) : Bytes := Bytes.zeros ((8 - length % 8) % 8)

/-- The kind in 32 bytes. -/
def kindBytes : Kind → Bytes
  | .static batch bin offset =>
    Bytes.ofNat 8 0 ++ Bytes.ofNat 8 batch ++ Bytes.ofNat 8 bin ++ Bytes.ofNat 8 offset
  | .ephemeral => Bytes.ofNat 8 1 ++ Bytes.zeros 24
  | .cache .inProcess => Bytes.ofNat 8 2 ++ Bytes.zeros 24
  | .cache (.area data signal) =>
    Bytes.ofNat 8 2 ++ Bytes.ofNat 8 1 ++ Bytes.ofNat 8 data ++ Bytes.ofNat 8 signal

/-- What stands before the root, and the manager's 16 bytes in it. -/
def managerBytes (manager : String) : Bytes × Bytes :=
  let text := utf8 manager
  if text.length ≤ inlineLimit then
    ([], text ++ List.replicate (inlineLimit - text.length) 0xff)
  else
    let before := text ++ padding text.length
    (before, Bytes.ofNat 8 (spread text.length) ++ Bytes.ofNat 8 (wordRange - before.length))

/-- The archive of a descriptor.
mirrors `SegmentDescriptor.to_bytes` -/
def encode (d : Descriptor) : Bytes :=
  let (before, manager) := managerBytes d.manager
  before ++ manager ++ Bytes.ofNat 8 d.id ++ Bytes.ofNat 8 d.size ++ kindBytes d.kind

/-- The number in the eight bytes from `offset` on. -/
def wordAt (b : Bytes) (offset : Nat) : Nat := Bytes.toNat ((b.drop offset).take 8)

def byteAt (b : Bytes) (offset : Nat) : Nat := Bytes.toNat ((b.drop offset).take 1)

/-- The kind that 32 bytes stand for. Only the two tags can be wrong. -/
def readKind? (b : Bytes) : Option Kind :=
  match byteAt b 0 with
  | 0 => some (.static (wordAt b 8) (wordAt b 16) (wordAt b 24))
  | 1 => some .ephemeral
  | 2 =>
    match byteAt b 8 with
    | 0 => some (.cache .inProcess)
    | 1 => some (.cache (.area (wordAt b 16) (wordAt b 24)))
    | _ => none
  | _ => none

/-- The text that the manager's 16 bytes stand for; `before` is what precedes the
root. A text outside the root lies wholly in `before`. -/
def readManager? (before manager : Bytes) : Option String :=
  if byteAt manager 0 / 64 = 2 then
    let length := gather (wordAt manager 0)
    let distance := wordRange - wordAt manager 8
    if length ≤ inlineLimit ∨ before.length < distance ∨ distance < length then none
    else ofUtf8? ((before.drop (before.length - distance)).take length)
  else ofUtf8? (manager.takeWhile (· ≠ 0xff))

/-- The descriptor that an archive holds.
mirrors `SegmentDescriptor.from_bytes` -/
def decode (b : Bytes) : Except Error Descriptor :=
  if b.length < rootSize ∨ b.length % 8 ≠ 0 then .error (.invalidDescriptor .malformed)
  else
    let before := b.take (b.length - rootSize)
    let root := b.drop (b.length - rootSize)
    match readManager? before (root.take 16), readKind? (root.drop 32) with
    | some manager, some kind =>
      .ok { manager, id := wordAt root 16, size := wordAt root 24, kind }
    | _, _ => .error (.invalidDescriptor .malformed)

end TierAlloc.Descriptor
