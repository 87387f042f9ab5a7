import TierAlloc.Proofs.Consumer.Registrations
import TierAlloc.Proofs.Shared.Standing

/-!
# Allocators and consumers over one memory

A `World` is the shared memory with all who work on it: allocators, each with the peers at
its exchange region, and consumers. Allocators are made and dropped, but two never have
the same name, not even one after the other. Everybody else may do with the memory what
he likes, but that no name of an allocator and no object under such a name is his.

What a consumer has mapped under a name is what the name still refers to, if it refers to
anything. For this, names must not come back: an allocator uses each of its names once
(`Allocator.Future`), and an object that has lost its name gets no other. So a consumer
that writes to what it has mapped, whatever descriptors it was given, stays in the region
of a segment, and never reaches an exchange region.

**Results.**
* `World.Sound`: the invariant.
* `Sound.acts`, `Sound.quiet`, `Sound.replaced`: what an allocator, others and a consumer do.
* `Sound.step`: every step keeps it, whoever takes it.
-/
namespace TierAlloc

/-- An allocator with its traffic. -/
structure Producer where
  allocator : Allocator
  traffic : Traffic

structure World where
  shm : Shm
  producers : List Producer
  /-- The names that allocators have or had. -/
  used : List String
  consumers : List Consumer

namespace Producer

def name (p : Producer) : String := p.allocator.name

def system (p : Producer) (shm : Shm) : System := ⟨p.allocator, shm, p.traffic⟩

end Producer

namespace World

inductive Event where
  | found (config : Config) (answer : Except Error Unit)
  /-- A step of the allocator with this name. -/
  | serve (name : String) (e : System.Event)
  | close (name : String)
  | join (name : String)
  /-- A step of consumer number `i`. -/
  | consume (i : Nat) (e : Consumer.Event)
  | elsewhere

inductive Step : World → Event → World → Prop
  | founded {w config a shm} (new : config.name ∉ w.used) (h : Allocator.create config w.shm = (.ok a, shm)) :
      Step w (.found config (.ok ()))
        ⟨shm, ⟨a, .empty⟩ :: w.producers, config.name :: w.used, w.consumers⟩
  /-- A name that was tried in vain may be tried again if it has left no region. -/
  | unfounded {w config e shm used} (new : config.name ∉ w.used)
      (h : Allocator.create config w.shm = (.error e, shm))
      (spent : used = config.name :: w.used ∨
        used = w.used ∧ ∀ n, OfManager config.name n → shm.names.get? n = none) :
      Step w (.found config (.error e)) { w with shm, used }
  | served {w pre p post e s} (hp : w.producers = pre ++ p :: post)
      (h : System.Step (fun _ _ => True) (p.system w.shm) e s) (own : e ≠ .outside) :
      Step w (.serve p.name e)
        { w with shm := s.shm, producers := pre ++ ⟨s.allocator, s.traffic⟩ :: post }
  /-- A handoff borrows its allocator, which is not dropped while one is under way. -/
  | closed {w pre p post} (hp : w.producers = pre ++ p :: post)
      (idle : p.traffic.asked = [] ∧ p.traffic.cycles = []) :
      Step w (.close p.name)
        { w with shm := p.allocator.drop w.shm, producers := pre ++ post }
  | joined {w name} : Step w (.join name) { w with consumers := w.consumers ++ [.ofName name] }
  | consumed {w i c e c' shm} (hi : w.consumers[i]? = some c) (h : c.Step w.shm e c' shm) :
      Step w (.consume i e) { w with shm, consumers := w.consumers.set i c' }
  | elsewhere {w shm} (h : ∀ m, Shm.Outside m w.shm shm) : Step w .elsewhere { w with shm }

/-- Nobody is about yet, and no allocator was. -/
def start (shm : Shm) : World := ⟨shm, [], [], []⟩

/-! ## The invariant -/

/-- An allocator has, or had, a region under this name. -/
structure Spent (w : World) (n : String) : Prop where
  used : ∃ m ∈ w.used, SegmentName m n
  past : ∀ p ∈ w.producers, ¬p.allocator.Future n

/-- The mapping `r` of the name `n` shows what the name refers to, if it refers to anything. -/
structure Maps (w : World) (n : String) (r : Region) : Prop where
  spent : w.Spent n
  object_lt : r.object < w.shm.objects.size
  current : ∀ i, w.shm.names.get? n = some i → r.object = i ∧ r.size = (w.shm.object i).size
  apart : ∀ m n', OfManager m n' → w.shm.names.get? n' = some r.object → n' = n

structure Sound (w : World) : Prop where
  distinct : (w.producers.map Producer.name).Nodup
  used : ∀ p ∈ w.producers, p.name ∈ w.used
  standing : ∀ p ∈ w.producers, Standing p.allocator w.shm p.traffic
  regions : ∀ m n i, SegmentName m n → w.shm.names.get? n = some i →
    w.Spent n ∧ Shm.Mappable n (w.shm.object i).size
  counted : ∀ c ∈ w.consumers, Consumer.Counted c.regions.get? c.entries
  maps : ∀ c ∈ w.consumers, ∀ n a, c.regions.get? n = some a → w.Maps n a.region

variable {w w' : World} {m n : String} {p q : Producer} {pre post : List Producer} {shm : Shm}
  {new : String → Prop} {producers : List Producer} {used : List String} {c : Consumer} {r : Region}

theorem sound_start (h : ∀ m n, OfManager m n → shm.names.get? n = none) : Sound (start shm) := by
  refine ⟨List.nodup_nil, nofun, nofun, fun m n i hn hi => ?_, nofun, nofun⟩
  have hi : shm.names.get? n = some i := hi
  rw [h m n hn.ofManager] at hi
  cases hi

/-- A name to come is one of the allocator's own. -/
theorem future_eq (h : p.allocator.Future n) (hn : OfManager m n) : p.name = m :=
  (Allocator.future_ofManager h).unique hn

/-- A name of somebody who was not there yet is not spent. -/
theorem not_spent (hnew : m ∉ w.used) (hn : OfManager m n) : ¬w.Spent n := by
  rintro ⟨⟨m', hm', hn'⟩, -⟩
  rw [hn'.ofManager.unique hn] at hm'
  exact hnew hm'

theorem Sound.name_ne (h : Sound w) (hp : w.producers = pre ++ p :: post) (hq : q ∈ pre ++ post) :
    q.name ≠ p.name := by
  have hnodup := h.distinct
  rw [hp, List.map_append, List.map_cons] at hnodup
  have hnodup := List.nodup_middle.mp hnodup
  rw [List.nodup_cons, ← List.map_append] at hnodup
  exact fun he => hnodup.1 (List.mem_map.mpr ⟨q, hq, he⟩)

/-- An allocator that acts in memory, or is made or dropped. What it makes now was not there
before. -/
theorem Sound.acts (h : Sound w) (hacts : Shm.Acts m new w.shm shm)
    (hspent : ∀ n, w.Spent n → Spent ⟨shm, producers, used, w.consumers⟩ n)
    (hnew : ∀ n, SegmentName m n → new n →
      ¬w.Spent n ∧ Spent ⟨shm, producers, used, w.consumers⟩ n)
    (hdistinct : (producers.map Producer.name).Nodup) (hused : ∀ p ∈ producers, p.name ∈ used)
    (hstanding : ∀ p ∈ producers, Standing p.allocator shm p.traffic) :
    Sound ⟨shm, producers, used, w.consumers⟩ := by
  -- what is under a name was there, with its size, or it is new
  have hcases : ∀ {m' n i}, SegmentName m' n → shm.names.get? n = some i →
      w.shm.names.get? n = some i ∧ (shm.object i).size = (w.shm.object i).size ∨
        (¬w.Spent n ∧ Spent ⟨shm, producers, used, w.consumers⟩ n) ∧ Shm.Mappable n (shm.object i).size := by
    intro m' n i hn hi
    by_cases hm : OfManager m n
    · obtain rfl := hn.ofManager.unique hm
      exact (hacts.own n i hn hi).imp_right fun hi' => ⟨hnew n hn hi'.1, hi'.2⟩
    · have hk := hacts.others n hm
      rw [hk.named] at hi
      exact Or.inl ⟨hi, (hk.object i hi).size⟩
  refine ⟨hdistinct, hused, hstanding, fun m' n i hn hi => ?_, h.counted, fun c hc n a ha => ?_⟩
  · rcases hcases hn hi with ⟨hi', hsize⟩ | ⟨⟨-, hs⟩, hmappable⟩
    · obtain ⟨hs, hmappable⟩ := h.regions m' n i hn hi'
      refine ⟨hspent n hs, ?_⟩
      show Shm.Mappable n (shm.object i).size
      rwa [hsize]
    · exact ⟨hs, hmappable⟩
  · obtain ⟨hs, hlt, hcurrent, hapart⟩ := h.maps c hc n a ha
    refine ⟨hspent n hs, Nat.lt_of_lt_of_le hlt hacts.count, fun i hi => ?_, fun m' n' hn' hi => ?_⟩
    · obtain ⟨m', -, hn⟩ := hs.used
      rcases hcases hn hi with ⟨hi', hsize⟩ | ⟨⟨hnot, -⟩, -⟩
      · obtain ⟨hobject, hsize'⟩ := hcurrent i hi'
        exact ⟨hobject, hsize'.trans hsize.symm⟩
      · exact absurd hs hnot
    · by_cases hm : OfManager m n'
      · rcases hacts.origin n' _ hm hi with hi | hle
        · exact hapart m' n' hn' hi
        · omega
      · have hk := hacts.others n' hm
        rw [show shm.names.get? n' = w.shm.names.get? n' from hk.named] at hi
        exact hapart m' n' hn' hi

/-- What changes no name of an allocator and no size. -/
theorem Sound.quiet (h : Sound w) (hcount : w.shm.objects.size ≤ shm.objects.size)
    (hnames : ∀ m n, OfManager m n → shm.names.get? n = w.shm.names.get? n)
    (hsizes : ∀ m n i, OfManager m n → w.shm.names.get? n = some i →
      (shm.object i).size = (w.shm.object i).size)
    (hstanding : ∀ p ∈ w.producers, Standing p.allocator shm p.traffic) : Sound { w with shm } := by
  have hspent : ∀ n, w.Spent n → Spent { w with shm } n := fun n hs => ⟨hs.used, hs.past⟩
  refine ⟨h.distinct, h.used, hstanding, fun m n i hn hi => ?_, h.counted, fun c hc n a ha => ?_⟩
  · have hi : shm.names.get? n = some i := hi
    rw [hnames m n hn.ofManager] at hi
    obtain ⟨hs, hmappable⟩ := h.regions m n i hn hi
    refine ⟨hspent n hs, ?_⟩
    show Shm.Mappable n (shm.object i).size
    rwa [hsizes m n i hn.ofManager hi]
  · obtain ⟨hs, hlt, hcurrent, hapart⟩ := h.maps c hc n a ha
    refine ⟨hspent n hs, Nat.lt_of_lt_of_le hlt hcount, fun i hi => ?_, fun m n' hn' hi => ?_⟩
    · have hi : shm.names.get? n = some i := hi
      obtain ⟨m, -, hn⟩ := hs.used
      rw [hnames m n hn.ofManager] at hi
      obtain ⟨hobject, hsize⟩ := hcurrent i hi
      exact ⟨hobject, hsize.trans (hsizes m n i hn.ofManager hi).symm⟩
    · have hi : shm.names.get? n' = some a.region.object := hi
      rw [hnames m n' hn'] at hi
      exact hapart m n' hn' hi

/-- Another state of a consumer. -/
theorem Sound.replaced (h : Sound w) (i : Nat) (hcounted : Consumer.Counted c.regions.get? c.entries)
    (hmaps : ∀ n a, c.regions.get? n = some a → w.Maps n a.region) :
    Sound { w with consumers := w.consumers.set i c } := by
  have hmaps' : ∀ {n r}, w.Maps n r → Maps { w with consumers := w.consumers.set i c } n r :=
    fun hm => ⟨⟨hm.spent.used, hm.spent.past⟩, hm.object_lt, hm.current, hm.apart⟩
  refine ⟨h.distinct, h.used, h.standing, fun m n i hn hi => ?_, fun k hk => ?_, fun k hk n a ha => ?_⟩
  · obtain ⟨hs, hmappable⟩ := h.regions m n i hn hi
    exact ⟨⟨hs.used, hs.past⟩, hmappable⟩
  · rcases List.mem_or_eq_of_mem_set hk with hk | rfl
    · exact h.counted k hk
    · exact hcounted
  · rcases List.mem_or_eq_of_mem_set hk with hk | rfl
    · exact hmaps' (h.maps k hk n a ha)
    · exact hmaps' (hmaps n a ha)

/-- A consumer that maps a name of an allocator finds its region. -/
theorem Sound.attached (h : Sound w) (hn : SegmentName m n) (ha : w.shm.attach n = .ok r) : w.Maps n r := by
  obtain ⟨hnamed, -, hsize, -⟩ := Shm.attach_ok ha
  refine ⟨(h.regions m n _ hn hnamed).1, w.shm.named_lt hnamed, fun i hi => ?_, fun m n' _ hi => ?_⟩
  · obtain rfl := Option.some.inj (hnamed.symm.trans hi)
    exact ⟨rfl, hsize⟩
  · exact w.shm.named_inj hi hnamed

end World

/-! ## What a consumer does -/

namespace Consumer

variable {c c' : Consumer} {shm shm' : Shm} {e : Event} {n : String} {a : Attachment}

/-- The regions that descriptors name are those of segments. -/
theorem segmentName_of_descriptor {d : Descriptor} (ht : d.tier ≠ .cache) (hn : d.regionName? = some n) :
    SegmentName d.manager n := by
  unfold Descriptor.regionName? at hn
  unfold Descriptor.tier at ht
  cases hk : d.kind with
  | static batch bin offset =>
    rw [hk] at hn
    exact Or.inl ⟨batch, (Option.some.inj hn).symm⟩
  | ephemeral =>
    rw [hk] at hn
    exact Or.inr ⟨d.id, (Option.some.inj hn).symm⟩
  | cache place =>
    rw [hk] at ht
    exact absurd rfl ht

/-- A mapping was there, or a segment under its name is registered, and it is what the name
refers to now. -/
theorem Step.mapping (hs : Step c shm e c' shm') (hc : Counted c.regions.get? c.entries)
    (ha : c'.regions.get? n = some a) : (∃ a₀, c.regions.get? n = some a₀ ∧ a.region = a₀.region) ∨
      ∃ d s, e = .register d (.ok s) ∧ d.tier ≠ .cache ∧ d.regionName? = some n ∧ shm' = shm ∧
        shm.attach n = .ok a.region := by
  cases hs with
  | register h =>
    cases register_cases hc h with
    | refused _ hregions =>
      rw [hregions] at ha
      exact Or.inl ⟨a, ha, rfl⟩
    | buffer => exact Or.inl ⟨a, ha, rfl⟩
    | @mapped region r c₁ _ ht hname hattach =>
      obtain ⟨-, -, -, hregions, hfound⟩ := attachRegion_ok hattach
      have ha : c₁.regions.get? n = some a := ha
      rw [hregions, Function.update_apply] at ha
      split at ha
      · rename_i hn
        subst hn
        obtain rfl := Option.some.inj ha
        rcases hfound with hfound | ⟨-, hattach⟩
        · obtain ⟨a₀, ha₀, hr⟩ := Option.map_eq_some_iff.mp hfound
          exact Or.inl ⟨a₀, ha₀, hr.symm⟩
        · exact Or.inr ⟨_, _, rfl, ht, hname, rfl, hattach⟩
      · exact Or.inl ⟨a, ha, rfl⟩
  | unregistered h =>
    obtain ⟨e₀, -, -, hregions⟩ := unregister_ok hc h
    cases hn : e₀.segment.regionName with
    | none =>
      simp only [hn] at hregions
      rw [hregions] at ha
      exact Or.inl ⟨a, ha, rfl⟩
    | some region =>
      simp only [hn] at hregions
      rw [hregions, Function.update_apply] at ha
      split at ha
      · rename_i hr
        obtain ⟨a₀, ha₀, hless⟩ := Option.bind_eq_some_iff.mp ha
        obtain ⟨-, rfl⟩ := Attachment.less_eq_some hless
        exact Or.inl ⟨a₀, hr ▸ ha₀, rfl⟩
      · exact Or.inl ⟨a, ha, rfl⟩
  | written h =>
    obtain ⟨e₀, -, -, ⟨r, -, rfl, -⟩ | ⟨b, -, -, rfl⟩⟩ := write_ok h <;> exact Or.inl ⟨a, ha, rfl⟩
  | _ => exact Or.inl ⟨a, ha, rfl⟩

/-- A consumer stores in what it has mapped, and nowhere else. -/
theorem Step.patch (hs : Step c shm e c' shm') (hc : Counted c.regions.get? c.entries) :
    shm' = shm ∨ ∃ n a P, c.regions.get? n = some a ∧ Shm.Patch a.region.object P shm shm' := by
  cases hs with
  | written h =>
    obtain ⟨e₀, he, -, ⟨r, hr, -, rfl⟩ | ⟨b, -, rfl, -⟩⟩ := write_ok h
    · cases hc.rests he with
      | buffer _ _ hb =>
        rw [hb] at hr
        cases hr
      | @mapped region a _ _ found hb =>
        obtain rfl := Backing.mapped.inj (hb.symm.trans hr)
        exact Or.inr ⟨region, a, _, found, shm.patch_store ..⟩
    · exact Or.inl rfl
  | _ => exact Or.inl rfl

end Consumer

/-- What is stored beside the exchange region. -/
theorem Standing.stores {a : Allocator} {t : Traffic} {shm shm' : Shm} {i : Nat} {P : Nat → Prop}
    (h : Standing a shm t) (hp : Shm.Patch i P shm shm')
    (hne : shm.names.get? (cacheRegionName a.name) ≠ some i) : Standing a shm' t := by
  refine { h with mapping := h.mapping.stores hp, exchanging := h.exchanging.keep ?_ }
  refine ⟨Nat.le_of_eq hp.count.symm, by rw [hp.names], fun j hj => hp.same ?_⟩
  rintro rfl
  exact hne hj

/-- What another allocator does. -/
theorem Standing.beside {a : Allocator} {t : Traffic} {shm shm' : Shm} {m : String} {new : String → Prop}
    (h : Standing a shm t) (hacts : Shm.Acts m new shm shm') (hne : a.name ≠ m) : Standing a shm' t :=
  h.keep fun n hn => hacts.others n fun hn' => hne (hn.unique hn')

/-! ## Steps -/

namespace World

variable {w w' : World} {m n : String} {p q : Producer} {pre post : List Producer} {shm : Shm} {e : Event}

/-- A name that was never used is nobody's. -/
theorem Sound.ne_of_unused (h : Sound w) (hnew : m ∉ w.used) (hq : q ∈ w.producers) : q.name ≠ m :=
  fun he => hnew (he ▸ h.used q hq)

theorem Sound.founded (h : Sound w) {config : Config} {a : Allocator} (hnew : config.name ∉ w.used)
    (hc : Allocator.create config w.shm = (.ok a, shm)) :
    Sound ⟨shm, ⟨a, .empty⟩ :: w.producers, config.name :: w.used, w.consumers⟩ := by
  obtain ⟨first, -, cache, -, -, -, ha⟩ := Allocator.create_ok hc
  have hname : a.name = config.name := by rw [ha, Allocator.name]
  have hacts := Allocator.create_acts hc
  have hne : ∀ q ∈ w.producers, q.name ≠ config.name := fun _ => h.ne_of_unused hnew
  refine h.acts hacts (fun n hs => ?_) (fun n hn he => ⟨not_spent hnew hn.ofManager, ?_⟩) ?_ ?_ ?_
  · obtain ⟨m, hm, hn⟩ := hs.used
    refine ⟨⟨m, List.mem_cons_of_mem _ hm, hn⟩, List.forall_mem_cons.mpr ⟨fun hf => ?_, hs.past⟩⟩
    have hm' : a.name = m := (Allocator.future_ofManager hf).unique hn.ofManager
    rw [← hm', hname] at hm
    exact hnew hm
  · refine ⟨⟨_, List.mem_cons_self, hn⟩, List.forall_mem_cons.mpr ⟨fun hf => ?_, fun q hq hf => ?_⟩⟩
    · rw [he, ← hname, Allocator.future_static, ha] at hf
      exact absurd hf (by simp)
    · exact hne q hq (future_eq hf hn.ofManager)
  · rw [List.map_cons, List.nodup_cons]
    refine ⟨fun hmem => ?_, h.distinct⟩
    obtain ⟨q, hq, he⟩ := List.mem_map.mp hmem
    exact hne q hq (he.trans hname)
  · refine List.forall_mem_cons.mpr ⟨?_, fun q hq => List.mem_cons_of_mem _ (h.used q hq)⟩
    rw [Producer.name, hname]
    exact List.mem_cons_self
  · exact List.forall_mem_cons.mpr ⟨standing_create hc, fun q hq => (h.standing q hq).beside hacts (hne q hq)⟩

theorem Sound.unfounded (h : Sound w) {config : Config} {err : Error} {used : List String}
    (hnew : config.name ∉ w.used) (hc : Allocator.create config w.shm = (.error err, shm))
    (hused : used = config.name :: w.used ∨
      used = w.used ∧ ∀ n, OfManager config.name n → shm.names.get? n = none) :
    Sound { w with shm, used } := by
  have hacts := Allocator.create_acts hc
  have hne : ∀ q ∈ w.producers, q.name ≠ config.name := fun _ => h.ne_of_unused hnew
  have hstanding : ∀ q ∈ w.producers, Standing q.allocator shm q.traffic := fun q hq =>
    (h.standing q hq).beside hacts (hne q hq)
  rcases hused with rfl | ⟨rfl, hclean⟩
  · refine h.acts hacts (fun n hs => ?_) (fun n hn _ => ⟨not_spent hnew hn.ofManager, ?_⟩) h.distinct ?_ hstanding
    · obtain ⟨m, hm, hn⟩ := hs.used
      exact ⟨⟨m, List.mem_cons_of_mem _ hm, hn⟩, hs.past⟩
    · exact ⟨⟨_, List.mem_cons_self, hn⟩, fun q hq hf => hne q hq (future_eq hf hn.ofManager)⟩
    · exact fun q hq => List.mem_cons_of_mem _ (h.used q hq)
  · -- nothing is left under the name, so nothing is new
    have hnone : Shm.Acts config.name (fun _ => False) w.shm shm :=
      { hacts with
        own := fun n i hn hi => by
          rw [hclean n hn.ofManager] at hi
          cases hi }
    exact h.acts hnone (fun n hs => ⟨hs.used, hs.past⟩) (fun n _ hf => hf.elim) h.distinct h.used hstanding

theorem Sound.served (h : Sound w) (hp : w.producers = pre ++ p :: post) {e : System.Event} {s : System}
    (hs : System.Step (fun _ _ => True) (p.system w.shm) e s) (he : e ≠ .outside) :
    Sound { w with shm := s.shm, producers := pre ++ ⟨s.allocator, s.traffic⟩ :: post } := by
  have hmem : p ∈ w.producers := by simp [hp]
  have hsub : ∀ q ∈ pre ++ post, q ∈ w.producers := fun _ => mem_of_split hp
  have hsplit : ∀ {P : Producer → Prop}, P ⟨s.allocator, s.traffic⟩ → (∀ q ∈ pre ++ post, P q) →
      ∀ q ∈ pre ++ ⟨s.allocator, s.traffic⟩ :: post, P q := by
    intro P hself hrest q hq
    rcases mem_split hq with rfl | hq
    · exact hself
    · exact hrest q hq
  obtain ⟨hstanding, hname, hpast, hacts⟩ := (h.standing p hmem).step hs he
  have hname : s.allocator.name = p.name := hname
  refine h.acts hacts (fun n hn => ⟨hn.used, ?_⟩) (fun n hn hnew => ⟨fun hs => hs.past p hmem hnew.1, ⟨?_, ?_⟩⟩)
    ?_ ?_ ?_
  · exact hsplit (fun hf => hn.past p hmem (hpast n hf)) fun q hq => hn.past q (hsub q hq)
  · exact ⟨p.name, h.used p hmem, hn⟩
  · exact hsplit hnew.2 fun q hq hf => h.name_ne hp hq (future_eq hf hn.ofManager)
  · have hnodup := h.distinct
    rw [hp, List.map_append, List.map_cons] at hnodup
    rw [List.map_append, List.map_cons]
    rwa [show Producer.name ⟨s.allocator, s.traffic⟩ = p.name from hname]
  · refine hsplit ?_ fun q hq => h.used q (hsub q hq)
    show s.allocator.name ∈ w.used
    rw [hname]
    exact h.used p hmem
  · exact hsplit hstanding fun q hq => (h.standing q (hsub q hq)).beside hacts (h.name_ne hp hq)

theorem Sound.closed (h : Sound w) (hp : w.producers = pre ++ p :: post) :
    Sound { w with shm := p.allocator.drop w.shm, producers := pre ++ post } := by
  have hmem : p ∈ w.producers := by simp [hp]
  have hsub : ∀ q ∈ pre ++ post, q ∈ w.producers := fun _ => mem_of_split hp
  have hp' := h.standing p hmem
  have hacts := Allocator.drop_acts hp'.mapping (fun x hx => (hp'.exchanging.ordered x hx).name) fun _ => False
  refine h.acts hacts (fun n hn => ⟨hn.used, fun q hq => hn.past q (hsub q hq)⟩) (fun n _ hf => hf.elim) ?_
    (fun q hq => h.used q (hsub q hq)) fun q hq => (h.standing q (hsub q hq)).beside hacts (h.name_ne hp hq)
  have hnodup := h.distinct
  rw [hp, List.map_append, List.map_cons] at hnodup
  rw [List.map_append]
  exact (List.nodup_cons.mp (List.nodup_middle.mp hnodup)).2

theorem Sound.consumed (h : Sound w) {i : Nat} {c c' : Consumer} {e : Consumer.Event}
    (hi : w.consumers[i]? = some c) (hs : c.Step w.shm e c' shm) :
    Sound { w with shm, consumers := w.consumers.set i c' } := by
  have hmem : c ∈ w.consumers := List.mem_of_getElem? hi
  have hc := h.counted c hmem
  have hquiet : Sound { w with shm } := by
    rcases hs.patch hc with rfl | ⟨n, a, P, ha, hpatch⟩
    · exact h
    · have hm := h.maps c hmem n a ha
      obtain ⟨m, -, hn⟩ := hm.spent.used
      refine h.quiet (Nat.le_of_eq hpatch.count.symm) (fun _ _ _ => by rw [hpatch.names])
        (fun _ _ j _ _ => hpatch.sizes j) fun q hq => (h.standing q hq).stores hpatch fun hj => ?_
      exact hn.ne_cache _ (hm.apart _ _ (Or.inr (Or.inr rfl)) hj).symm
  refine hquiet.replaced i (hc.step hs) fun n a ha => ?_
  rcases hs.mapping hc ha with ⟨a₀, ha₀, hr⟩ | ⟨d, _, -, ht, hn, rfl, hattach⟩
  · rw [hr]
    exact hquiet.maps c hmem n a₀ ha₀
  · exact h.attached (Consumer.segmentName_of_descriptor ht hn) hattach

/-- Every step keeps the invariant, whoever takes it. -/
theorem Sound.step (h : Sound w) (hs : Step w e w') : Sound w' := by
  cases hs with
  | founded hnew hc => exact h.founded hnew hc
  | unfounded hnew hc hused => exact h.unfounded hnew hc hused
  | served hp hs he => exact h.served hp hs he
  | closed hp => exact h.closed hp
  | @joined name =>
    refine ⟨h.distinct, h.used, h.standing, fun m n i hn hi => ?_, ?_, ?_⟩
    · obtain ⟨hs, hmappable⟩ := h.regions m n i hn hi
      exact ⟨⟨hs.used, hs.past⟩, hmappable⟩
    · intro c hc
      rcases List.mem_append.mp hc with hc | hc
      · exact h.counted c hc
      · obtain rfl := List.mem_singleton.mp hc
        exact Consumer.counted_ofName name
    · intro c hc n a ha
      rcases List.mem_append.mp hc with hc | hc
      · obtain ⟨hs, hlt, hcurrent, hapart⟩ := h.maps c hc n a ha
        exact ⟨⟨hs.used, hs.past⟩, hlt, hcurrent, hapart⟩
      · obtain rfl := List.mem_singleton.mp hc
        cases ha
  | consumed hi hs => exact h.consumed hi hs
  | elsewhere ho =>
    refine h.quiet (ho "").count (fun m n hn => (ho m).names n hn)
      (fun m n i hn hi => ((ho m).objects n i hn hi).size) fun q hq => ?_
    exact (h.standing q hq).keep fun n hn => (ho q.name).keeps hn

theorem Sound.run {events : List Event} (h : Sound w) (hrun : Run Step w events w') : Sound w' :=
  hrun.invariant (P := fun _ w => Sound w) h fun h hs => h.step hs

end World
end TierAlloc
