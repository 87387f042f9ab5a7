import TierAlloc.Memory.Block
import TierAlloc.Error
import TierAlloc.Table

/-!
# Shared memory

`Shm` is the memory that processes share: objects, and the names under which they
can be found. A `Region` is one mapping of an object. It goes on showing that
object whatever becomes of the name; only `create` and `attach` look a name up.

A region made by `create` owns its name. The claim is on the name and not on the
object: releasing the region removes the name whatever it refers to by then. A
region may have several holders (`share`), and its name goes with the last of
them.

**Results.**
* `create_ok`, `attach_ok`: what a mapping that succeeds shows.
* `read_eq`, `write_eq`: when an access is in range, and what it does.
* `bytes_store`, `bytes_store_of_disjoint`: what a mapping shows after a store.
* `word32_setWord32`, `word64_setWord64`: a stored word reads back.
-/
namespace TierAlloc

/-- A mapping of `size` bytes of the object number `object`, found under `name`.
An owner has the number of its claim on the name.
mirrors `SharedRegion` -/
structure Region where
  name : String
  object : Nat
  size : Nat
  claim : Option Nat
  deriving DecidableEq, Repr

/-- Whether releasing the last holder of the region removes its name. -/
def Region.isOwner (r : Region) : Bool := r.claim.isSome

/-- The range lies in the mapping.
mirrors `SharedRegion.ptr_at` -/
def Region.covers (r : Region) (offset length : Nat) : Bool := offset + length ≤ r.size

structure Shm where
  /-- The number of the object that each name refers to. -/
  names : Table String Nat
  /-- Every object made so far. -/
  objects : Array Block
  /-- Claims issued so far. -/
  claims : Nat
  /-- A claim is listed once for every holder that it has beside the first. -/
  shared : List Nat
  /-- A name refers to an object that was made. -/
  named_lt : ∀ {name i}, names.get? name = some i → i < objects.size
  /-- No object has two names. -/
  named_inj : ∀ {name name' i}, names.get? name = some i → names.get? name' = some i → name = name'

namespace Shm

def empty : Shm := ⟨.empty, #[], 0, [], by simp, by simp⟩

instance : Inhabited Shm := ⟨empty⟩

/-- A name is not empty nor too long, and has no slash and no NUL in it.
mirrors `shm_path` -/
def validName (name : String) : Bool :=
  !name.isEmpty && name.utf8ByteSize ≤ regionNameLimit &&
    !name.toList.contains '/' && !name.toList.contains '\x00'

def object (s : Shm) (i : Nat) : Block := s.objects.getD i .empty

def setObject (s : Shm) (i : Nat) (f : Block → Block) : Shm :=
  { s with
    objects := s.objects.modify i f
    named_lt := fun h => by simpa using s.named_lt h }

/-- Removes a name; the object stays with those who map it. -/
def unlink (s : Shm) (name : String) : Shm where
  names := s.names.erase name
  objects := s.objects
  claims := s.claims
  shared := s.shared
  named_lt h := by
    rw [Table.get?_erase] at h
    split at h
    · cases h
    · exact s.named_lt h
  named_inj h h' := by
    rw [Table.get?_erase] at h h'
    split at h
    · cases h
    · split at h'
      · cases h'
      · exact s.named_inj h h'

/-- Puts a new object without bytes under a name. -/
def placeEmpty (s : Shm) (name : String) : Shm where
  names := s.names.insert name s.objects.size
  objects := s.objects.push .empty
  claims := s.claims
  shared := s.shared
  named_lt h := by
    rw [Table.get?_insert] at h
    rw [Array.size_push]
    split at h
    · injection h with h
      omega
    · exact Nat.lt_succ_of_lt (s.named_lt h)
  named_inj h h' := by
    rw [Table.get?_insert] at h h'
    split at h <;> split at h'
    · next e e' => exact e.trans e'.symm
    · injection h with h
      exact absurd (s.named_lt h') (by omega)
    · injection h' with h'
      exact absurd (s.named_lt h) (by omega)
    · exact s.named_inj h h'

/-- The object that the name refers to, or a new one under that name. -/
def openOrMake (s : Shm) (name : String) : Nat × Shm :=
  match s.names.get? name with
  | some i => (i, s)
  | none => (s.objects.size, s.placeEmpty name)

/-- Puts an object of `size` bytes under the name, or gives the one that is there
this size, and maps it for an owner. A failure takes the name away.
mirrors `SharedRegion.create` -/
def create (s : Shm) (name : String) (size : Nat) : Except Error Region × Shm :=
  if size = 0 then (.error .zeroSize, s)
  else if !validName name then (.error (.invalidConfig (.regionName name)), s)
  else if regionSizeCeiling ≤ size then
    (.error (.regionUnavailable name .invalidSize), s.unlink name)
  else if regionSizeLimit ≤ size then
    (.error (.regionUnavailable name .outOfMemory), s.unlink name)
  else
    let (i, s) := s.openOrMake name
    let s := s.setObject i (·.resize size)
    (.ok { name, object := i, size, claim := some s.claims }, { s with claims := s.claims + 1 })

/-- Maps the object that the name refers to now, at its present size.
mirrors `SharedRegion.attach` -/
def attach (s : Shm) (name : String) : Except Error Region :=
  if !validName name then .error (.invalidConfig (.regionName name))
  else
    match s.names.get? name with
    | none => .error (.regionUnavailable name .noSuchName)
    | some i =>
      let size := (s.object i).size
      if size = 0 then .error (.invalidDescriptor (.emptyRegion name))
      else .ok { name, object := i, size, claim := none }

/-- Gives the region one more holder. -/
def share (s : Shm) (r : Region) : Shm :=
  match r.claim with
  | none => s
  | some c => { s with shared := c :: s.shared }

/-- One holder lets the region go. With the last holder of an owner goes the name.
mirrors `SharedRegion.drop` -/
def release (s : Shm) (r : Region) : Shm :=
  match r.claim with
  | none => s
  | some c =>
    if c ∈ s.shared then { s with shared := s.shared.erase c } else s.unlink r.name

/-- The bytes of the range, which may leave the mapping. -/
def bytes (s : Shm) (r : Region) (offset length : Nat) : Bytes :=
  (s.object r.object).read offset length

/-- Stores bytes from `offset` on, wherever they end. -/
def store (s : Shm) (r : Region) (offset : Nat) (data : Bytes) : Shm :=
  s.setObject r.object (·.write offset data)

/-- A copy of a range of the mapping.
mirrors `SharedRegion.read_at` -/
def read (s : Shm) (r : Region) (offset length : Nat) : Except Error Bytes :=
  if r.covers offset length then .ok (s.bytes r offset length)
  else .error (.rangeError offset length)

/-- Copies `data` into the mapping.
mirrors `SharedRegion.write_at` -/
def write (s : Shm) (r : Region) (offset : Nat) (data : Bytes) : Except Error Shm :=
  if r.covers offset data.length then .ok (s.store r offset data)
  else .error (.rangeError offset data.length)

/-- The 32-bit number at `offset`. -/
def word32 (s : Shm) (r : Region) (offset : Nat) : Nat := (s.bytes r offset 4).toNat

def setWord32 (s : Shm) (r : Region) (offset n : Nat) : Shm :=
  s.store r offset (Bytes.ofNat 4 n)

/-- The 64-bit number at `offset`. -/
def word64 (s : Shm) (r : Region) (offset : Nat) : Nat := (s.bytes r offset 8).toNat

def setWord64 (s : Shm) (r : Region) (offset n : Nat) : Shm :=
  s.store r offset (Bytes.ofNat 8 n)

theorem attach_ok {s : Shm} {name : String} {r : Region} (h : s.attach name = .ok r) :
    s.names.get? name = some r.object ∧ r.name = name ∧
      r.size = (s.object r.object).size ∧ 0 < r.size ∧ r.claim = none := by
  unfold attach at h
  split at h
  · cases h
  · split at h
    · cases h
    · next i hi =>
      simp only at h
      split at h
      · cases h
      · next hs =>
        injection h with h
        subst h
        exact ⟨hi, rfl, rfl, Nat.pos_of_ne_zero hs, rfl⟩

theorem create_ok {s s' : Shm} {name : String} {size : Nat} {r : Region}
    (h : s.create name size = (.ok r, s')) :
    r.name = name ∧ r.size = size ∧ 0 < size ∧ r.claim = some s.claims ∧
      s'.claims = s.claims + 1 ∧ s'.shared = s.shared ∧ r.object = (s.openOrMake name).1 := by
  unfold create at h
  split at h
  · cases h
  · next hs =>
    split at h
    · cases h
    · split at h
      · cases h
      · split at h
        · cases h
        · simp only [Prod.mk.injEq, Except.ok.injEq] at h
          obtain ⟨rfl, rfl⟩ := h
          refine ⟨rfl, rfl, Nat.pos_of_ne_zero hs, ?_, ?_, ?_, rfl⟩ <;>
            (unfold openOrMake setObject; split <;> rfl)

theorem read_eq (s : Shm) (r : Region) (offset length : Nat) :
    s.read r offset length =
      if offset + length ≤ r.size then .ok (s.bytes r offset length)
      else .error (.rangeError offset length) := by
  simp [read, Region.covers]

theorem write_eq (s : Shm) (r : Region) (offset : Nat) (data : Bytes) :
    s.write r offset data =
      if offset + data.length ≤ r.size then .ok (s.store r offset data)
      else .error (.rangeError offset data.length) := by
  simp [write, Region.covers]

theorem object_setObject (s : Shm) {i : Nat} (hi : i < s.objects.size) (f : Block → Block)
    (j : Nat) : (s.setObject i f).object j = if i = j then f (s.object j) else s.object j := by
  unfold setObject object
  by_cases h : i = j
  · subst h
    simp [Array.getD, hi, Array.getElem_modify]
  · simp [Array.getD_eq_getD_getElem?, Array.getElem?_modify, h]

/-- Storing into an object that exists changes that object alone. -/
theorem object_store (s : Shm) {r : Region} (hr : r.object < s.objects.size) (offset : Nat)
    (data : Bytes) (j : Nat) :
    (s.store r offset data).object j =
      if r.object = j then (s.object j).write offset data else s.object j :=
  s.object_setObject hr _ j

/-- What was stored is what the mapping shows there. -/
theorem bytes_store (s : Shm) {r : Region} (hr : r.object < s.objects.size) (offset : Nat)
    (data : Bytes) : (s.store r offset data).bytes r offset data.length = data := by
  rw [bytes, object_store s hr, if_pos rfl, Block.read_write]

/-- Storing leaves every range that it does not touch, in this object and in others. -/
theorem bytes_store_of_disjoint (s : Shm) {r : Region} (hr : r.object < s.objects.size)
    (offset : Nat) (data : Bytes) (r' : Region) (start length : Nat)
    (h : r.object ≠ r'.object ∨ start + length ≤ offset ∨ offset + data.length ≤ start) :
    (s.store r offset data).bytes r' start length = s.bytes r' start length := by
  rw [bytes, object_store s hr, bytes]
  split
  · next he =>
    exact Block.read_write_of_disjoint _ _ _ _ _ (h.resolve_left (absurd he))
  · rfl

theorem word32_lt (s : Shm) (r : Region) (offset : Nat) : s.word32 r offset < halfRange :=
  Nat.lt_of_lt_of_eq (Bytes.toNat_lt _) (by simp [bytes, halfRange])

theorem word32_setWord32 (s : Shm) {r : Region} (hr : r.object < s.objects.size)
    (offset n : Nat) : (s.setWord32 r offset n).word32 r offset = n % halfRange := by
  have h := s.bytes_store hr offset (Bytes.ofNat 4 n)
  rw [Bytes.length_ofNat] at h
  rw [word32, setWord32, h, Bytes.toNat_ofNat]
  rfl

theorem word64_setWord64 (s : Shm) {r : Region} (hr : r.object < s.objects.size)
    (offset n : Nat) : (s.setWord64 r offset n).word64 r offset = n % wordRange := by
  have h := s.bytes_store hr offset (Bytes.ofNat 8 n)
  rw [Bytes.length_ofNat] at h
  rw [word64, setWord64, h, Bytes.toNat_ofNat]
  rfl

end Shm
end TierAlloc
