import TierAlloc.Proofs.Allocator.Contents
import TierAlloc.Proofs.Shared.Coherence

/-!
# Names that come back

An allocator that is made under a name which another one had gives its regions the names
of the other's. A consumer looks a name up when the first segment under it is registered,
and as long as a segment lies in that mapping all others under the name are registered in
it. So once the first allocator is gone, a segment of the second may be registered in what
was a region of the first.

`Turn` is a step in a world where this can happen, and where others do with the memory
whatever they like. Which object a consumer has under a name then only depends on when it
mapped it (`MappedAt`). What is asked of the others so that an allocator can rely on its
regions is `Considerate`: no two allocators have one name at the same time, and nobody
else touches an allocator's names.

**Results.**
* `Traced.step`: every mapping is what its name referred to when it was made.
* `Settled.step`: allocators one after the other under one name keep their regions apart
  from what consumers have mapped before.
* `registered_backing`: what a segment that is registered is backed by, and when its
  consumer reads what its allocator reads.
* `backed_by_predecessor`: a segment backed by a region that is gone.
-/
namespace TierAlloc.World

/-- A step of anybody, at any time. -/
inductive Turn : World → Event → World → Prop
  | founded {w config a shm} (h : Allocator.create config w.shm = (.ok a, shm)) :
      Turn w (.found config (.ok ()))
        ⟨shm, ⟨a, .empty⟩ :: w.producers, config.name :: w.used, w.consumers⟩
  | unfounded {w config e shm} (h : Allocator.create config w.shm = (.error e, shm)) :
      Turn w (.found config (.error e)) { w with shm }
  | served {w pre p post e s} (hp : w.producers = pre ++ p :: post)
      (h : System.Step (fun _ _ => True) (p.system w.shm) e s) (own : e ≠ .outside) :
      Turn w (.serve p.name e)
        { w with shm := s.shm, producers := pre ++ ⟨s.allocator, s.traffic⟩ :: post }
  | closed {w pre p post} (hp : w.producers = pre ++ p :: post)
      (idle : p.traffic.asked = [] ∧ p.traffic.cycles = []) :
      Turn w (.close p.name)
        { w with shm := p.allocator.drop w.shm, producers := pre ++ post }
  | joined {w name} : Turn w (.join name) { w with consumers := w.consumers ++ [.ofName name] }
  | consumed {w i c e c' shm} (hi : w.consumers[i]? = some c) (h : c.Step w.shm e c' shm) :
      Turn w (.consume i e) { w with shm, consumers := w.consumers.set i c' }
  | elsewhere {w} (shm : Shm) : Turn w .elsewhere { w with shm }

/-- An allocator is made under a name that none has now, and what others do concerns no name
of an allocator. -/
def Considerate (w : World) (shm : Shm) : Event → Prop
  | .found config _ => ∀ p ∈ w.producers, p.name ≠ config.name
  | .elsewhere => ∀ m, Shm.Outside m w.shm shm
  | _ => True

/-- A step that spares the names of the others. -/
def FairTurn (w : World) (e : Event) (w' : World) : Prop := Turn w e w' ∧ w.Considerate w'.shm e

end World

/-- The consumer has a segment in the mapping `r` of the region. -/
def Consumer.Uses (c : Consumer) (region : String) (r : Region) : Prop :=
  ∃ id e, c.entries.get? id = some e ∧ e.segment.regionName = some region ∧ e.region? = some r

namespace World

variable {w w' : World} {p q : Producer} {pre post : List Producer} {shm shm' shm₀ : Shm} {c c' : Consumer}
  {d : Descriptor} {n m : String} {r : Region} {i : Nat} {e : Event} {events : List Event}

/-! ## When a region was mapped -/

/-- On the way to `w'`, consumer `i` registered a segment under the name `n` when that name
referred to the object that `r` maps. -/
def MappedAt (shm₀ : Shm) (events : List Event) (w' : World) (i : Nat) (n : String) (r : Region) : Prop :=
  ∃ before d s after w, events = before ++ .consume i (.register d (.ok s)) :: after ∧
    Run Turn (start shm₀) before w ∧ Run Turn w (.consume i (.register d (.ok s)) :: after) w' ∧
    d.tier ≠ .cache ∧ d.regionName? = some n ∧ w.shm.attach n = .ok r

theorem MappedAt.later (h : MappedAt shm₀ events w i n r) (hs : Turn w e w') :
    MappedAt shm₀ (events ++ [e]) w' i n r := by
  obtain ⟨before, d, s, after, w₁, rfl, hbefore, hafter, h⟩ := h
  exact ⟨before, d, s, after ++ [e], w₁, by simp, hbefore, hafter.next hs, h⟩

/-- What is known of the consumers after every run. -/
structure Traced (shm₀ : Shm) (events : List Event) (w : World) : Prop where
  run : Run Turn (start shm₀) events w
  counted : ∀ c ∈ w.consumers, Consumer.Counted c.regions.get? c.entries
  mapped : ∀ i c n a, w.consumers[i]? = some c → c.regions.get? n = some a →
    MappedAt shm₀ events w i n a.region

theorem traced_start (shm₀ : Shm) : Traced shm₀ [] (start shm₀) := ⟨.start, nofun, nofun⟩

/-- A step of somebody else. -/
theorem Traced.kept (h : Traced shm₀ events w) (hs : Turn w e w') (hc : w'.consumers = w.consumers) :
    Traced shm₀ (events ++ [e]) w' := by
  refine ⟨h.run.next hs, ?_, fun i c n a hi ha => (h.mapped i c n a ?_ ha).later hs⟩
  · rw [hc]
    exact h.counted
  · rw [← hc]
    exact hi

theorem Traced.step (h : Traced shm₀ events w) (hs : Turn w e w') : Traced shm₀ (events ++ [e]) w' := by
  have hturn := hs
  cases hs with
  | @joined name =>
    refine ⟨h.run.next hturn, fun c hc => ?_, fun i c n a hi ha => ?_⟩
    · rcases List.mem_append.mp hc with hc | hc
      · exact h.counted c hc
      · obtain rfl := List.mem_singleton.mp hc
        exact Consumer.counted_ofName name
    · have hi : (w.consumers ++ [Consumer.ofName name])[i]? = some c := hi
      rw [List.getElem?_append] at hi
      split at hi
      · exact (h.mapped i c n a hi ha).later hturn
      · obtain rfl := List.mem_singleton.mp (List.mem_of_getElem? hi)
        cases ha
  | @consumed k c₀ event c' shm hk hstep =>
    have hc₀ := h.counted c₀ (List.mem_of_getElem? hk)
    refine ⟨h.run.next hturn, fun c hc => ?_, fun i c n a hi ha => ?_⟩
    · rcases List.mem_or_eq_of_mem_set hc with hc | rfl
      · exact h.counted c hc
      · exact hc₀.step hstep
    · have hset : (w.consumers.set k c')[i]? = some c := hi
      rw [List.getElem?_set] at hset
      split at hset
      · rename_i hki
        subst hki
        split at hset
        · obtain rfl := Option.some.inj hset
          rcases hstep.mapping hc₀ ha with ⟨a₀, ha₀, hr⟩ | ⟨d, s, rfl, ht, hn, rfl, hattach⟩
          · rw [hr]
            exact (h.mapped k c₀ n a₀ hk ha₀).later hturn
          · exact ⟨events, d, s, [], w, rfl, h.run, .one hturn, ht, hn, hattach⟩
        · cases hset
      · exact (h.mapped i c n a hset ha).later hturn
  | founded => exact h.kept hturn rfl
  | unfounded => exact h.kept hturn rfl
  | served => exact h.kept hturn rfl
  | closed => exact h.kept hturn rfl
  | elsewhere => exact h.kept hturn rfl

theorem traced_run (hrun : Run Turn (start shm₀) events w) : Traced shm₀ events w :=
  hrun.invariant (P := Traced shm₀) (traced_start shm₀) fun h hs => h.step hs

/-! ## One allocator after the other -/

/-- No name of an allocator but `n` refers to what `r` maps, nor ever will. -/
structure Beside (shm : Shm) (n : String) (r : Region) : Prop where
  named : ∃ m, SegmentName m n
  object_lt : r.object < shm.objects.size
  apart : ∀ m n', OfManager m n' → shm.names.get? n' = some r.object → n' = n

theorem Beside.acts {new : String → Prop} (h : Beside shm n r) (hacts : Shm.Acts m new shm shm') :
    Beside shm' n r := by
  refine ⟨h.named, Nat.lt_of_lt_of_le h.object_lt hacts.count, fun m' n' hn' hi => ?_⟩
  have hlt := h.object_lt
  by_cases hm : OfManager m n'
  · rcases hacts.origin n' _ hm hi with hi | hle
    · exact h.apart m' n' hn' hi
    · omega
  · rw [(hacts.others n' hm).named] at hi
    exact h.apart m' n' hn' hi

theorem Beside.quiet (h : Beside shm n r) (hcount : shm.objects.size ≤ shm'.objects.size)
    (hnames : ∀ m n, OfManager m n → shm'.names.get? n = shm.names.get? n) : Beside shm' n r :=
  ⟨h.named, Nat.lt_of_lt_of_le h.object_lt hcount, fun m n' hn' hi => h.apart m n' hn' (by rwa [← hnames m n' hn'])⟩

theorem beside_attached (hn : SegmentName m n) (ha : shm.attach n = .ok r) : Beside shm n r :=
  ⟨⟨m, hn⟩, shm.named_lt (Shm.attach_ok ha).1, fun _ _ _ hi => shm.named_inj hi (Shm.attach_ok ha).1⟩

/-- What holds as long as all are considerate. -/
structure Settled (w : World) : Prop where
  distinct : (w.producers.map Producer.name).Nodup
  standing : ∀ p ∈ w.producers, Standing p.allocator w.shm p.traffic
  counted : ∀ c ∈ w.consumers, Consumer.Counted c.regions.get? c.entries
  beside : ∀ c ∈ w.consumers, ∀ n a, c.regions.get? n = some a → Beside w.shm n a.region

theorem settled_start (shm₀ : Shm) : Settled (start shm₀) := ⟨List.nodup_nil, nofun, nofun, nofun⟩

theorem Settled.name_ne (h : Settled w) (hp : w.producers = pre ++ p :: post) (hq : q ∈ pre ++ post) :
    q.name ≠ p.name := by
  have hnodup := h.distinct
  rw [hp, List.map_append, List.map_cons] at hnodup
  have hnodup := List.nodup_middle.mp hnodup
  rw [List.nodup_cons, ← List.map_append] at hnodup
  exact fun he => hnodup.1 (List.mem_map.mpr ⟨q, hq, he⟩)

/-- An allocator acts in memory, or is made or dropped. -/
theorem Settled.acts {new : String → Prop} {producers : List Producer} {used : List String} (h : Settled w)
    (hacts : Shm.Acts m new w.shm shm) (hdistinct : (producers.map Producer.name).Nodup)
    (hstanding : ∀ p ∈ producers, Standing p.allocator shm p.traffic) :
    Settled ⟨shm, producers, used, w.consumers⟩ :=
  ⟨hdistinct, hstanding, h.counted, fun c hc n a ha => (h.beside c hc n a ha).acts hacts⟩

theorem Settled.founded (h : Settled w) {config : Config} {a : Allocator} {used : List String}
    (hnew : ∀ p ∈ w.producers, p.name ≠ config.name) (hc : Allocator.create config w.shm = (.ok a, shm)) :
    Settled ⟨shm, ⟨a, .empty⟩ :: w.producers, used, w.consumers⟩ := by
  obtain ⟨first, -, cache, -, -, -, ha⟩ := Allocator.create_ok hc
  have hname : a.name = config.name := by rw [ha, Allocator.name]
  have hacts := Allocator.create_acts hc
  refine h.acts hacts ?_ ?_
  · rw [List.map_cons, List.nodup_cons]
    refine ⟨fun hmem => ?_, h.distinct⟩
    obtain ⟨q, hq, he⟩ := List.mem_map.mp hmem
    exact hnew q hq (he.trans hname)
  · exact List.forall_mem_cons.mpr ⟨standing_create hc, fun q hq => (h.standing q hq).beside hacts (hnew q hq)⟩

theorem Settled.served (h : Settled w) (hp : w.producers = pre ++ p :: post) {e : System.Event} {s : System}
    (hs : System.Step (fun _ _ => True) (p.system w.shm) e s) (he : e ≠ .outside) :
    Settled { w with shm := s.shm, producers := pre ++ ⟨s.allocator, s.traffic⟩ :: post } := by
  have hmem : p ∈ w.producers := by simp [hp]
  obtain ⟨hstanding, hname, -, hacts⟩ := (h.standing p hmem).step hs he
  have hname : s.allocator.name = p.name := hname
  refine h.acts hacts ?_ fun q hq => ?_
  · have hnodup := h.distinct
    rw [hp, List.map_append, List.map_cons] at hnodup
    rw [List.map_append, List.map_cons]
    rwa [show Producer.name ⟨s.allocator, s.traffic⟩ = p.name from hname]
  · rcases mem_split hq with rfl | hq
    · exact hstanding
    · exact (h.standing q (mem_of_split hp hq)).beside hacts (h.name_ne hp hq)

theorem Settled.closed (h : Settled w) (hp : w.producers = pre ++ p :: post) :
    Settled { w with shm := p.allocator.drop w.shm, producers := pre ++ post } := by
  have hp' := h.standing p (by simp [hp])
  have hacts := Allocator.drop_acts hp'.mapping (fun x hx => (hp'.exchanging.ordered x hx).name) fun _ => False
  refine h.acts hacts ?_ fun q hq => (h.standing q (mem_of_split hp hq)).beside hacts (h.name_ne hp hq)
  have hnodup := h.distinct
  rw [hp, List.map_append, List.map_cons] at hnodup
  rw [List.map_append]
  exact (List.nodup_cons.mp (List.nodup_middle.mp hnodup)).2

/-- What changes no name of an allocator. -/
theorem Settled.quiet (h : Settled w) (hcount : w.shm.objects.size ≤ shm.objects.size)
    (hnames : ∀ m n, OfManager m n → shm.names.get? n = w.shm.names.get? n)
    (hstanding : ∀ p ∈ w.producers, Standing p.allocator shm p.traffic) : Settled { w with shm } :=
  ⟨h.distinct, hstanding, h.counted, fun c hc n a ha => (h.beside c hc n a ha).quiet hcount hnames⟩

theorem Settled.consumed (h : Settled w) {e : Consumer.Event} (hi : w.consumers[i]? = some c)
    (hs : c.Step w.shm e c' shm) : Settled { w with shm, consumers := w.consumers.set i c' } := by
  have hmem : c ∈ w.consumers := List.mem_of_getElem? hi
  have hc := h.counted c hmem
  have hquiet : Settled { w with shm } := by
    rcases hs.patch hc with rfl | ⟨n, a, P, ha, hpatch⟩
    · exact h
    · -- the region is not an exchange region, where a consumer could do harm
      have hb := h.beside c hmem n a ha
      obtain ⟨m, hn⟩ := hb.named
      refine h.quiet (Nat.le_of_eq hpatch.count.symm) (fun _ _ _ => by rw [hpatch.names])
        fun q hq => (h.standing q hq).stores hpatch fun hj => ?_
      exact hn.ne_cache _ (hb.apart _ _ (Or.inr (Or.inr rfl)) hj).symm
  refine ⟨hquiet.distinct, hquiet.standing, fun k hk => ?_, fun k hk n a ha => ?_⟩
  · rcases List.mem_or_eq_of_mem_set hk with hk | rfl
    · exact h.counted k hk
    · exact hc.step hs
  · rcases List.mem_or_eq_of_mem_set hk with hk | rfl
    · exact hquiet.beside k hk n a ha
    · rcases hs.mapping hc ha with ⟨a₀, ha₀, hr⟩ | ⟨d, _, -, ht, hn, rfl, hattach⟩
      · rw [hr]
        exact hquiet.beside c hmem n a₀ ha₀
      · exact beside_attached (Consumer.segmentName_of_descriptor ht hn) hattach

theorem Settled.step (h : Settled w) (hs : FairTurn w e w') : Settled w' := by
  obtain ⟨hturn, hfair⟩ := hs
  cases hturn with
  | founded hc => exact h.founded hfair hc
  | unfounded hc =>
    have hacts := Allocator.create_acts hc
    exact h.acts hacts h.distinct fun q hq => (h.standing q hq).beside hacts (hfair q hq)
  | served hp hs he => exact h.served hp hs he
  | closed hp => exact h.closed hp
  | @joined name =>
    refine ⟨h.distinct, h.standing, fun c hc => ?_, fun c hc n a ha => ?_⟩ <;>
      rcases List.mem_append.mp hc with hc | hc
    · exact h.counted c hc
    · obtain rfl := List.mem_singleton.mp hc
      exact Consumer.counted_ofName name
    · exact h.beside c hc n a ha
    · obtain rfl := List.mem_singleton.mp hc
      cases ha
  | consumed hi hs => exact h.consumed hi hs
  | elsewhere shm =>
    have ho : ∀ m, Shm.Outside m w.shm shm := hfair
    exact h.quiet (ho "").count (fun m n hn => (ho m).names n hn)
      fun q hq => (h.standing q hq).keep fun n hn => (ho q.name).keeps hn

theorem settled_run (hrun : Run FairTurn (start shm₀) events w) : Settled w :=
  hrun.invariant (P := fun _ w => Settled w) (settled_start shm₀) fun h hs => h.step hs

/-! ## What a segment is backed by -/

/-- A segment that is registered lies in the mapping that others of its region have, or in
what the name refers to now if there are none. -/
theorem Traced.register (h : Traced shm₀ events w) {s : LocalSegment} (hi : w.consumers[i]? = some c)
    (hr : c.register d w.shm = (.ok s, c')) (ht : d.tier ≠ .cache) : ∃ n r, d.regionName? = some n ∧
      c'.entries.get? d.id = some ⟨⟨d.id, d.size, d.tier, d.offset, some n⟩, .mapped r⟩ ∧
      ((∀ r', ¬c.Uses n r') ∧ w.shm.attach n = .ok r ∨ c.Uses n r ∧ MappedAt shm₀ events w i n r) := by
  have hc := h.counted c (List.mem_of_getElem? hi)
  cases Consumer.register_cases hc hr with
  | buffer _ tier => exact absurd tier ht
  | @mapped n r c₁ _ _ named hattach =>
    obtain ⟨-, -, -, -, hfound⟩ := Consumer.attachRegion_ok hattach
    refine ⟨n, r, named, by simp [Consumer.enter, Table.get?_insert], ?_⟩
    rcases hfound with hfound | ⟨hnone, hattach⟩
    · obtain ⟨a, ha, rfl⟩ := Option.map_eq_some_iff.mp hfound
      refine .inr ⟨?_, h.mapped i c n a hi ha⟩
      have hcontains : c.regions.contains n = true := by rw [Table.contains_eq, ha]; rfl
      obtain ⟨id, e, he, hn⟩ := (hc.tallied.mapped n).mp hcontains
      obtain ⟨a', ha', hregion, -⟩ := hc.tallied.shared n id e he hn
      obtain rfl := Option.some.inj (ha.symm.trans ha')
      exact ⟨id, e, he, hn, hregion⟩
    · refine .inl ⟨?_, hattach⟩
      rintro r' ⟨id, e, he, hn, -⟩
      obtain ⟨a, ha, -⟩ := hc.tallied.shared n id e he hn
      rw [hnone] at ha
      cases ha

/-- A segment whose region is backed by the object that the name refers to is read as its
allocator reads it. -/
theorem Settled.reads (h : Settled w) {s : Segment} {local' : LocalSegment} (hc : c ∈ w.consumers)
    (hr : c.register d w.shm = (.ok local', c'))
    (he : c'.entries.get? d.id = some ⟨⟨d.id, d.size, d.tier, d.offset, some n⟩, .mapped r⟩)
    (hn : d.regionName? = some n) (hnow : w.shm.names.get? n = some r.object) (ht : d.tier ≠ .cache)
    (hp : p ∈ w.producers) (hs : p.allocator.get s.id = .ok s) (hd : s.descriptor = d) :
    ∃ bytes, p.allocator.read d.id w.shm = .ok bytes ∧ c'.read d.id w.shm = .ok bytes := by
  subst hd
  have hlive := Allocator.get_eq_ok.mp hs
  have hstanding := h.standing p hp
  have ht : s.tier ≠ .cache := ht
  obtain ⟨q, hplace, -, hshows, hnamed, -⟩ := hstanding.exists_shown hlive ht
  have hnq : n = q.name := Option.some.inj (hn.symm.trans hnamed)
  rw [hnq] at hnow
  have hobject : q.object = r.object := Option.some.inj (hshows.named.symm.trans hnow)
  have hcounted := (h.counted c hc).register (Consumer.register_cases (h.counted c hc) hr)
  have hvalue : p.allocator.value w.shm s.id = some (w.shm.bytes q s.offset s.size) := by
    rw [Allocator.value_shown hlive ht, Allocator.shown_eq hplace]
  refine ⟨w.shm.bytes q s.offset s.size, ?_, ?_⟩
  · exact Allocator.read_of_live hstanding.accounts hstanding.mapping hlive hvalue
  · rw [hcounted.read_eq he]
    simp only [Registration.shown, Shm.bytes, hobject]
    rfl

/-- **What registering is backed by.** Whatever has happened, allocators that were made again
under their old names included: a segment of shared memory that is registered is backed by
the object that the name of its region refers to at that moment, unless the consumer has a
segment in a mapping of that name; then it is backed by that mapping, which is of the object
that the name referred to when the consumer made it. As long as no two allocators have one
name at a time, and nobody else touches their names, a segment that is live and is backed by
the object that the name refers to is read as its allocator reads it. -/
theorem registered_backing {s : LocalSegment} (hrun : Run Turn (start shm₀) events w)
    (hi : w.consumers[i]? = some c) (hr : c.register d w.shm = (.ok s, c')) (ht : d.tier ≠ .cache) :
    ∃ n r, d.regionName? = some n ∧
      c'.entries.get? d.id = some ⟨⟨d.id, d.size, d.tier, d.offset, some n⟩, .mapped r⟩ ∧
      ((∀ r', ¬c.Uses n r') ∧ w.shm.attach n = .ok r ∨ c.Uses n r ∧ MappedAt shm₀ events w i n r) ∧
      (Run FairTurn (start shm₀) events w → w.shm.names.get? n = some r.object →
        ∀ p ∈ w.producers, ∀ live, p.allocator.get live.id = .ok live → live.descriptor = d →
          ∃ bytes, p.allocator.read d.id w.shm = .ok bytes ∧ c'.read d.id w.shm = .ok bytes) := by
  obtain ⟨n, r, hn, he, hbacking⟩ := (traced_run hrun).register hi hr ht
  refine ⟨n, r, hn, he, hbacking, fun hfair hnow p hp live hs hd => ?_⟩
  exact (settled_run hfair).reads (List.mem_of_getElem? hi) hr he hn hnow ht hp hs hd

/-! ## A segment of the second allocator

A consumer registers a segment of the first allocator of the name `m` and keeps it. The
allocator is dropped and made again, and writes to the second segment that it gives out. -/

/-- The world of a system, in which allocators had the names `used`. -/
def serving (used : List String) (s : System) (consumers : List Consumer) : World :=
  { ofSystem s consumers with used }

theorem fair_serving {used : List String} {s t : System} {consumers : List Consumer} {e : System.Event}
    (h : Run FairTurn w events (serving used s consumers)) (hs : System.Step (fun _ _ => True) s e t)
    (he : e ≠ .outside) : ∃ events, Run FairTurn w events (serving used t consumers) := by
  have hp : (serving used s consumers).producers = [] ++ ⟨s.allocator, s.traffic⟩ :: [] := rfl
  exact ⟨_, h.next ⟨.served hp hs he, trivial⟩⟩

def firstSystem : System := (System.start System.sampleAllocator System.sampleMemory).after (.allocate 10)

def firstSegment : Segment := ⟨0, 10, "m", .static 0 0 0⟩

def newConsumer : Consumer := .ofName "consumer"

/-- The consumer with the segment of the first allocator. -/
def earlyConsumer : Consumer := (newConsumer.register firstSegment.descriptor firstSystem.shm).2

theorem run_first : ∃ events, Run FairTurn (start .empty) events (serving ["m"] firstSystem [newConsumer]) := by
  have hfounded : FairTurn (start .empty) (.found System.sampleConfig (.ok ()))
      (serving ["m"] (.start System.sampleAllocator System.sampleMemory) []) :=
    ⟨.founded System.sample_create, nofun⟩
  have hjoined : FairTurn (serving ["m"] firstSystem []) (.join "consumer")
      (serving ["m"] firstSystem [newConsumer]) := ⟨.joined, trivial⟩
  obtain ⟨e, hs, he⟩ := System.step_after (.start System.sampleAllocator System.sampleMemory) (.allocate 10)
  obtain ⟨_, hrun⟩ := fair_serving (.one hfounded) hs he
  exact ⟨_, hrun.next hjoined⟩

/-- The segment of the first allocator is in what the name refers to, and is read there. -/
theorem registered_backing_of_first : ∃ r bytes,
    firstSystem.shm.attach (staticRegionName "m" 0) = .ok r ∧
      earlyConsumer.entries.get? 0 = some ⟨⟨0, 10, .static, 0, some (staticRegionName "m" 0)⟩, .mapped r⟩ ∧
      firstSystem.allocator.read 0 firstSystem.shm = .ok bytes ∧
      earlyConsumer.read 0 firstSystem.shm = .ok bytes := by
  obtain ⟨events, hrun⟩ := run_first
  have hfair : Run Turn (start .empty) events (serving ["m"] firstSystem [newConsumer]) := hrun.mono And.left
  have hr : newConsumer.register firstSegment.descriptor firstSystem.shm =
      (.ok firstSegment.asLocal, earlyConsumer) := Prod.ext (by decide +kernel) rfl
  have hlive : firstSystem.allocator.get 0 = .ok firstSegment := by decide +kernel
  obtain ⟨n, r, hn, he, hbacking, hread⟩ := registered_backing hfair (i := 0) rfl hr (by decide)
  obtain rfl : staticRegionName "m" 0 = n := Option.some.inj hn
  rcases hbacking with ⟨-, hattach⟩ | ⟨⟨id, e, hnone, -⟩, -⟩
  · obtain ⟨bytes, hread⟩ := hread hrun (Shm.attach_ok hattach).1 _ (List.mem_singleton.mpr rfl) firstSegment hlive rfl
    exact ⟨r, bytes, hattach, he, hread⟩
  · cases hnone

/-- The memory when the first allocator is gone. -/
def memoryBetween : Shm := firstSystem.allocator.drop firstSystem.shm

def secondBatch : Batch := { System.sampleBatch with region := ⟨"m#batch0#statbin", 1, 32, some 1⟩ }

def secondAllocator : Allocator := { System.sampleAllocator with batches := [secondBatch] }

def secondMemory : Shm := (Batch.create "m" 0 ⟨[⟨8, 4⟩]⟩ memoryBetween).2

theorem second_create : Allocator.create System.sampleConfig memoryBetween = (.ok secondAllocator, secondMemory) := by
  have hcheck : System.sampleConfig.check = .ok () := by decide
  have hb : (Batch.create "m" 0 ⟨[⟨8, 4⟩]⟩ memoryBetween).1 = .ok secondBatch := by decide +kernel
  have hpair : Batch.create System.sampleConfig.name 0 System.sampleConfig.geometry memoryBetween =
      (.ok secondBatch, secondMemory) := Prod.ext hb rfl
  unfold Allocator.create
  rw [hcheck]
  simp only [hpair]
  rfl

/-- The second allocator, with two bytes in the second of its segments. -/
def secondSystem : System :=
  (((System.start secondAllocator secondMemory).after (.allocate 10)).after (.allocate 10)).overwrite 1 0 [7, 8]

def secondSegment : Segment := ⟨1, 10, "m", .static 0 0 16⟩

/-- The consumer with the segments of both. -/
def lateConsumer : Consumer := (earlyConsumer.register secondSegment.descriptor secondSystem.shm).2

theorem run_second :
    ∃ events, Run FairTurn (start .empty) events (serving ["m", "m"] secondSystem [earlyConsumer]) := by
  obtain ⟨_, hrun⟩ := run_first
  have htold : FairTurn (serving ["m"] firstSystem [newConsumer])
      (.consume 0 (.register firstSegment.descriptor _)) (serving ["m"] firstSystem [earlyConsumer]) :=
    ⟨.consumed rfl (.register rfl), trivial⟩
  have hp : (serving ["m"] firstSystem [earlyConsumer]).producers =
      [] ++ ⟨firstSystem.allocator, firstSystem.traffic⟩ :: [] := rfl
  have hclosed : FairTurn (serving ["m"] firstSystem [earlyConsumer]) (.close firstSystem.allocator.name)
      ⟨memoryBetween, [], ["m"], [earlyConsumer]⟩ := ⟨.closed hp ⟨rfl, rfl⟩, trivial⟩
  have hfounded : FairTurn ⟨memoryBetween, [], ["m"], [earlyConsumer]⟩ (.found System.sampleConfig (.ok ()))
      (serving ["m", "m"] (.start secondAllocator secondMemory) [earlyConsumer]) :=
    ⟨.founded second_create, nofun⟩
  have hrun := ((hrun.next htold).next hclosed).next hfounded
  obtain ⟨_, hs, he⟩ := System.step_after (.start secondAllocator secondMemory) (.allocate 10)
  obtain ⟨_, hrun⟩ := fair_serving hrun hs he
  obtain ⟨_, hs, he⟩ := System.step_after _ (.allocate 10)
  obtain ⟨_, hrun⟩ := fair_serving hrun hs he
  obtain ⟨_, hs, he⟩ := System.step_overwrite _ 1 0 [7, 8]
  exact fair_serving hrun hs he

/-- The segment of the second allocator is registered in the region of the first, which the
name does not refer to any more, and what the second has written is not read. -/
theorem backed_by_predecessor :
    (∃ events, Run FairTurn (start .empty) events (serving ["m", "m"] secondSystem [earlyConsumer])) ∧
      (earlyConsumer.register secondSegment.descriptor secondSystem.shm).1 = .ok secondSegment.asLocal ∧
      ((lateConsumer.entries.get? 1).bind Registration.region?).map Region.object = some 0 ∧
      secondSystem.shm.names.get? (staticRegionName "m" 0) = some 1 ∧
      secondSystem.allocator.get 1 = .ok secondSegment ∧
      (secondSystem.allocator.read 1 secondSystem.shm).toOption = some [7, 8, 0, 0, 0, 0, 0, 0, 0, 0] ∧
      (lateConsumer.read 1 secondSystem.shm).toOption = some (.zeros 10) := by
  refine ⟨run_second, ?_, ?_, ?_, ?_, ?_, ?_⟩ <;> decide +kernel

end TierAlloc.World
