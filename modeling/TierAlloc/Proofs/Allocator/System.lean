import TierAlloc.Proofs.Allocator.Changes
import TierAlloc.Proofs.Exchange.Traffic
import TierAlloc.Proofs.Run

/-!
# An allocator at work

A `System` is an allocator with the shared memory and with all who meet at its exchange
region. Its steps are the operations of the allocator, succeeding or failing, and those
of the peers. A handoff calls back while it has its area, and then waits, so it is cut
in four: it is asked for, gets its area, and ends with a wait or is dropped when the
callback fails. Anything may happen between these, operations of the callback included.

Others may do with the memory what they like, but that no name of this allocator and
no object under such a name is theirs (`Shm.Outside`).

**Results.**
* `Request.granted`, `Request.refused`: requests for memory, in whichever tier.
* `Replacement.ok`, `Replacement.error`: replacements of a cache entry.
-/
namespace TierAlloc

open Function (update)

/-- A request for memory. -/
inductive Request where
  | allocate (n : Nat)
  | staticAlloc (n : Nat)
  | instantAlloc (n : Nat)
  | cacheMalloc (n : Nat)
  | cacheStore (data : Bytes)
  | cacheStoreWith (n : Nat) (content : Bytes)

namespace Request

def apply (a : Allocator) (shm : Shm) : Request → Except Error Segment × Allocator × Shm
  | allocate n => a.allocate n shm
  | staticAlloc n => a.staticAlloc n shm
  | instantAlloc n => a.instantAlloc n shm
  | cacheMalloc n => a.cacheMalloc n shm
  | cacheStore data => a.cacheStore data shm
  | cacheStoreWith n content => a.cacheStoreWith n content shm

/-- What is in the segment if it is a cache entry. -/
def content : Request → Bytes
  | allocate n | staticAlloc n | instantAlloc n | cacheMalloc n => .zeros n
  | cacheStore data => data
  | cacheStoreWith n content => (Bytes.zeros n).overlay content

end Request

/-- A request to replace a cache entry. -/
inductive Replacement where
  | set (id : Nat) (data : Bytes)
  | setWith (id size : Nat) (content : Bytes)

namespace Replacement

def apply (a : Allocator) : Replacement → Except Error Unit × Allocator
  | set id data => a.cacheSet id data
  | setWith id size content => a.cacheSetWith id size content

def id : Replacement → Nat
  | set id _ => id
  | setWith id _ _ => id

/-- What the entry is replaced by. -/
def content : Replacement → Bytes
  | set _ data => data
  | setWith _ size content => (Bytes.zeros size).overlay content

end Replacement

/-- The name is one that `manager` gives to its regions. -/
def OfManager (manager name : String) : Prop :=
  (∃ batch, name = staticRegionName manager batch) ∨ (∃ id, name = ephemeralRegionName manager id) ∨
    name = cacheRegionName manager

/-- What others do: the names of `manager` stay, and so do the objects under them. -/
structure Shm.Outside (manager : String) (s s' : Shm) : Prop where
  count : s.objects.size ≤ s'.objects.size
  names : ∀ n, OfManager manager n → s'.names.get? n = s.names.get? n
  objects : ∀ n i, OfManager manager n → s.names.get? n = some i → Shm.Same i s s'

theorem Shm.Outside.keeps {manager n : String} {s s' : Shm} (h : Outside manager s s')
    (hn : OfManager manager n) : Keeps n s s' := ⟨h.count, h.names n hn, fun i hi => h.objects n i hn hi⟩

/-- The region that holds a segment, and where in it the segment starts. -/
def Allocator.place? (a : Allocator) (s : Segment) : Option (Region × Nat) :=
  match s.kind with
  | .static batch _ offset => (a.batch? batch).map fun b => (b.region, offset)
  | .ephemeral => (a.ephemeral.region? s.id).map fun r => (r, 0)
  | .cache _ => none

/-- What shared memory shows in the place of a segment. -/
def Allocator.shown (a : Allocator) (s : Segment) (shm : Shm) : Bytes :=
  match a.place? s with
  | some (r, offset) => shm.bytes r offset s.size
  | none => []

structure System where
  allocator : Allocator
  shm : Shm
  traffic : Traffic

namespace System

inductive Event where
  /-- A request that is granted, with what memory shows in the place of the segment. -/
  | granted (r : Request) (s : Segment) (shown : Bytes)
  | refused (r : Request) (e : Error)
  | replace (r : Replacement) (answer : Except Error Unit)
  | release (id : Nat) (expected : Option Tier) (answer : Except Error Unit)
  | write (id offset : Nat) (data : Bytes) (answer : Except Error Unit)
  | read (id : Nat) (answer : Except Error Bytes)
  | askMalloc (n : Nat) (answer : Except Error Offer)
  | askRetrieve (id : Nat) (answer : Except Error Offer)
  | exchange (e : Traffic.Event)
  | await (c : Cycle) (answer : Except Error Segment)
  | drop (c : Cycle)
  | outside

inductive Step (allowed : Traffic → Descriptor → Prop) : System → Event → System → Prop
  | granted {s r seg a shm} (h : Request.apply s.allocator s.shm r = (.ok seg, a, shm)) :
      Step allowed s (.granted r seg (a.shown seg shm)) ⟨a, shm, s.traffic⟩
  | refused {s r e a shm} (h : Request.apply s.allocator s.shm r = (.error e, a, shm)) :
      Step allowed s (.refused r e) ⟨a, shm, s.traffic⟩
  | replace {s r answer a} (h : Replacement.apply s.allocator r = (answer, a)) :
      Step allowed s (.replace r answer) { s with allocator := a }
  | released {s id expected a shm} (h : s.allocator.release id expected s.shm = .ok (a, shm)) :
      Step allowed s (.release id expected (.ok ())) ⟨a, shm, s.traffic⟩
  | unreleased {s id expected e} (h : s.allocator.release id expected s.shm = .error e) :
      Step allowed s (.release id expected (.error e)) s
  | written {s id offset data a shm} (h : s.allocator.write id offset data s.shm = .ok (a, shm)) :
      Step allowed s (.write id offset data (.ok ())) ⟨a, shm, s.traffic⟩
  | unwritten {s id offset data e} (h : s.allocator.write id offset data s.shm = .error e) :
      Step allowed s (.write id offset data (.error e)) s
  | read {s id answer} (h : s.allocator.read id s.shm = answer) : Step allowed s (.read id answer) s
  | askMalloc {s n o a} (h : s.allocator.offerMalloc n = (.ok o, a)) :
      Step allowed s (.askMalloc n (.ok o))
        ⟨a, s.shm, { s.traffic with asked := ⟨o, .inbound n⟩ :: s.traffic.asked }⟩
  | denyMalloc {s n e a} (h : s.allocator.offerMalloc n = (.error e, a)) :
      Step allowed s (.askMalloc n (.error e)) { s with allocator := a }
  | askRetrieve {s id o stored} (hs : s.allocator.cache.retrieve id = .ok stored)
      (h : s.allocator.offerRetrieve id = .ok o) :
      Step allowed s (.askRetrieve id (.ok o))
        { s with traffic := { s.traffic with asked := ⟨o, .outbound stored⟩ :: s.traffic.asked } }
  | denyRetrieve {s id e} (h : s.allocator.offerRetrieve id = .error e) :
      Step allowed s (.askRetrieve id (.error e)) s
  | exchange {s e shm traffic}
      (h : Traffic.Step s.allocator.name allowed (s.shm, s.traffic) e (shm, traffic)) :
      Step allowed s (.exchange e) { s with shm, traffic }
  | await {s pre c post r a shm} (ht : s.traffic.cycles = pre ++ c :: post)
      (h : s.allocator.await? c.pending s.shm = some (r, a, shm)) :
      Step allowed s (.await c r) ⟨a, shm, { s.traffic with cycles := pre ++ post }⟩
  | drop {s pre c post} (ht : s.traffic.cycles = pre ++ c :: post) :
      Step allowed s (.drop c)
        { s with shm := c.pending.drop s.shm, traffic := { s.traffic with cycles := pre ++ post } }
  | outside {s shm} (h : Shm.Outside s.allocator.name s.shm shm) : Step allowed s .outside { s with shm }

/-- A system as it is made: nobody is about yet. -/
def start (a : Allocator) (shm : Shm) : System := ⟨a, shm, .empty⟩

end System

namespace Allocator

/-- What a request that is granted has done, in the tier that served it. -/
inductive Granted (a : Allocator) (shm : Shm) (content : Bytes) (s : Segment) : Allocator → Shm → Prop
  | stored {a₁ : Allocator} {shm₁ : Shm} (fresh : a.ids.issued ≤ s.id)
      (h : a.Stored shm s content a₁ shm₁) : Granted a shm content s a₁ shm₁
  | took {a₁ a₂ : Allocator} {shm₁ : Shm} {b : Batch} {p p' : Pool} {offset : Nat}
      (grown : a.Grown shm a₁ shm₁) (h : a₁.Took s b p p' offset a₂) : Granted a shm content s a₂ shm₁
  | mapped {a₁ : Allocator} {shm₁ : Shm} {r : Region} (h : a.Mapped shm s r a₁ shm₁) :
      Granted a shm content s a₁ shm₁

/-- What a request that is refused leaves: the ledger, but for a batch that may have been added,
and the memory, but for the name that it could not use. -/
inductive Refused (a : Allocator) (shm : Shm) : Allocator → Shm → Prop
  | grown {a₁ : Allocator} {shm₁ : Shm} (h : a.Grown shm a₁ shm₁) : Refused a shm a₁ shm₁
  | unnamed {a₁ : Allocator} (h : a.Becomes a.ledger a₁) :
      Refused a shm a₁ (shm.unlink (ephemeralRegionName a.ephemeral.manager a.ids.issued))

variable {a a' : Allocator} {shm shm' : Shm} {s : Segment} {n : Nat} {e : Error}

theorem Becomes.refused (h : a.Becomes a.ledger a') : a.Refused shm a' shm :=
  .grown (.refused h (Or.inl rfl))

theorem cacheStore_error {data : Bytes} (hnew : a.Unissued)
    (h : a.cacheStore data shm = (.error e, a', shm')) : a.Becomes a.ledger a' ∧ shm' = shm := by
  rw [cacheStore_eq] at h
  split at h
  · simp only [Prod.mk.injEq] at h
    obtain ⟨-, rfl, rfl⟩ := h
    exact ⟨becomes_draw (Nat.le_succ _), rfl⟩
  · exact cacheStoreWith_error hnew h

end Allocator

namespace Request

variable {a a' : Allocator} {shm shm' : Shm} {s : Segment} {e : Error} {r : Request}

theorem granted (hs : SoundBatches a.batches) (hnew : a.Unissued)
    (h : r.apply a shm = (.ok s, a', shm')) :
    s.size = r.content.length ∧ a.Granted shm r.content s a' shm' := by
  have hstatic : ∀ {n}, a.staticAlloc n shm = (.ok s, a', shm') →
      s.size = (Bytes.zeros n).length ∧ a.Granted shm (.zeros n) s a' shm' := by
    intro n h
    obtain ⟨hsize, a₁, hgrown, b, p, p', offset, htook⟩ := Allocator.staticAlloc_ok hs hnew h
    exact ⟨by simp [hsize], .took hgrown htook⟩
  have hinstant : ∀ {n}, a.instantAlloc n shm = (.ok s, a', shm') →
      s.size = (Bytes.zeros n).length ∧ a.Granted shm (.zeros n) s a' shm' := by
    intro n h
    obtain ⟨hsize, r, hmapped⟩ := Allocator.instantAlloc_ok hnew h
    exact ⟨by simp [hsize], .mapped hmapped⟩
  have hmalloc : ∀ {n}, a.cacheMalloc n shm = (.ok s, a', shm') →
      s.size = (Bytes.zeros n).length ∧ a.Granted shm (.zeros n) s a' shm' := by
    intro n h
    obtain ⟨hid, -, hstored⟩ := Allocator.cacheMalloc_ok hnew h
    exact ⟨hstored.size, .stored (Nat.le_of_eq hid.symm) hstored⟩
  cases r with
  | allocate n =>
    unfold apply Allocator.allocate at h
    cases hc : a.classify n <;> simp only [hc] at h
    · exact hstatic h
    · exact hmalloc h
    · exact hinstant h
  | staticAlloc n => exact hstatic h
  | instantAlloc n => exact hinstant h
  | cacheMalloc n => exact hmalloc h
  | cacheStore data =>
    obtain ⟨hid, -, hstored⟩ := Allocator.cacheStore_ok hnew h
    exact ⟨hstored.size, .stored (Nat.le_of_eq hid.symm) hstored⟩
  | cacheStoreWith n content =>
    obtain ⟨hid, -, hstored⟩ := Allocator.cacheStoreWith_ok hnew h
    exact ⟨hstored.size, .stored (Nat.le_of_eq hid.symm) hstored⟩

theorem refused (hs : SoundBatches a.batches) (hnew : a.Unissued)
    (hfree : a.ledger.regions a.ids.issued = none) (h : r.apply a shm = (.error e, a', shm')) :
    a.Refused shm a' shm' := by
  have hcache : ∀ {n content}, a.cacheStoreWith n content shm = (.error e, a', shm') →
      a.Refused shm a' shm' := by
    intro n content h
    obtain ⟨hb, rfl⟩ := Allocator.cacheStoreWith_error hnew h
    exact hb.refused
  have hinstant : ∀ {n}, a.instantAlloc n shm = (.error e, a', shm') → a.Refused shm a' shm' := by
    intro n h
    obtain ⟨hb, rfl | rfl⟩ := Allocator.instantAlloc_error hnew hfree h
    · exact hb.refused
    · exact .unnamed hb
  cases r with
  | allocate n =>
    unfold apply Allocator.allocate at h
    cases hc : a.classify n <;> simp only [hc] at h
    · exact .grown (Allocator.staticAlloc_error hs hnew h)
    · exact hcache (show a.cacheStoreWith n [] shm = _ from h)
    · exact hinstant h
  | staticAlloc n => exact .grown (Allocator.staticAlloc_error hs hnew h)
  | instantAlloc n => exact hinstant h
  | cacheMalloc n => exact hcache (show a.cacheStoreWith n [] shm = _ from h)
  | cacheStore data =>
    obtain ⟨hb, rfl⟩ := Allocator.cacheStore_error hnew h
    exact hb.refused
  | cacheStoreWith n content => exact hcache h

end Request

namespace Replacement

variable {a a' : Allocator} {e : Error} {r : Replacement}

/-- A replacement that succeeds gives a live cache segment its content, and a size to match. -/
theorem ok (hown : ∀ s, a.ledger.segments r.id = some s → s.id = r.id) (h : r.apply a = (.ok (), a')) :
    ∃ s, a.ledger.segments r.id = some s ∧ s.id = r.id ∧ s.tier = .cache ∧
      a.Becomes ((a.ledger.setContents r.id (some r.content)).record
        { s with size := r.content.length }) a' := by
  cases r with
  | set id data => exact (Allocator.cacheSet_ok hown h).2
  | setWith id size content =>
    obtain ⟨-, s, hs, hid, ht, hb⟩ := Allocator.cacheSetWith_ok hown h
    have hlen : (Replacement.setWith id size content).content.length = size := by
      simp [Replacement.content]
    rw [hlen]
    exact ⟨s, hs, hid, ht, hb⟩

theorem error (h : r.apply a = (.error e, a')) : a.Becomes a.ledger a' := by
  cases r with
  | set id data => exact Allocator.cacheSet_error h
  | setWith id size content => exact Allocator.cacheSetWith_error h

end Replacement
end TierAlloc
