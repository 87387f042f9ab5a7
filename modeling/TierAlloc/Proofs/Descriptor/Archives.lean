import TierAlloc.Proofs.Descriptor.Roundtrip

/-!
# The wire format of descriptors

`Archive d b root` says byte by byte what an archive `b` of the descriptor `d` looks like
when its root starts at byte `root`: it shares nothing with `encode`, which puts the same
bytes together from pieces. An archive is determined by its descriptor, so `encode d` is
the only one.

A descriptor is `Representable` when its numbers fit in 64 bits and its manager is no
longer than a length word can say. Whatever bytes `decode` accepts, what it makes of them
is representable: it reads no number from more than eight bytes and no text longer than
the length word that announces it.

**Results.**
* `archive_iff`: the archive of a representable descriptor is what `encode` writes.
* `decode_cases`: what comes out of `decode` is representable.
* `wire_format`: descriptors go over the wire unchanged, two of them never as the same
  bytes, and no bytes whatever give a descriptor that would not.
-/
namespace TierAlloc

/-- The byte of place `i` in a number stored with the least significant byte first. -/
theorem Bytes.getElem?_ofNat {width i : Nat} (n : Nat) (hi : i < width) :
    (Bytes.ofNat width n)[i]? = some (UInt8.ofNat (n >>> (8 * i))) := by
  induction width generalizing n i with
  | zero => omega
  | succ width ih =>
    cases i with
    | zero => simp [Bytes.ofNat]
    | succ i =>
      rw [Bytes.ofNat, List.getElem?_cons_succ, ih (n / 256) (by omega)]
      rw [show 8 * (i + 1) = 8 + 8 * i by omega, Nat.shiftRight_add, Nat.shiftRight_eq_div_pow n 8]

/-- The numbers that say where a segment of this kind lies. -/
def Kind.numbers : Kind → List Nat
  | .static batch bin offset => [batch, bin, offset]
  | .ephemeral => []
  | .cache .inProcess => []
  | .cache (.area data signal) => [data, signal]

namespace Descriptor

/-! ## What the format can express -/

/-- Longest text that a length word can announce. -/
def textLimit : Nat := (1 <<< 62) - 1

/-- A descriptor that the format can express. -/
structure Representable (d : Descriptor) : Prop where
  manager : (utf8 d.manager).length ≤ textLimit
  id : d.id < wordRange
  size : d.size < wordRange
  kind : ∀ n ∈ d.kind.numbers, n < wordRange

theorem wrapKind_eq {k : Kind} (h : ∀ n ∈ k.numbers, n < wordRange) : wrapKind k = k := by
  cases k with
  | static batch bin offset =>
    simp only [Kind.numbers, List.mem_cons, List.not_mem_nil, or_false, forall_eq_or_imp, forall_eq] at h
    simp only [wrapKind, Nat.mod_eq_of_lt h.1, Nat.mod_eq_of_lt h.2.1, Nat.mod_eq_of_lt h.2.2]
  | ephemeral => rfl
  | cache place =>
    cases place with
    | inProcess => rfl
    | area data signal =>
      simp only [Kind.numbers, List.mem_cons, List.not_mem_nil, or_false, forall_eq_or_imp, forall_eq] at h
      simp only [wrapKind, Nat.mod_eq_of_lt h.1, Nat.mod_eq_of_lt h.2]

namespace Representable

variable {d : Descriptor}

theorem wrap_eq (h : Representable d) : d.wrap = d := by
  simp only [wrap, Nat.mod_eq_of_lt h.id, Nat.mod_eq_of_lt h.size, wrapKind_eq h.kind]

theorem short (h : Representable d) : (utf8 d.manager).length < 1 <<< 62 := by
  have := h.manager
  simp only [textLimit] at this
  omega

theorem decode_encode (h : Representable d) : decode (encode d) = .ok d := by
  rw [Descriptor.decode_encode h.short, h.wrap_eq]

end Representable

/-! ## The layout -/

/-- The eight bytes from `k` on hold `n`, least significant byte first. -/
def HoldsWord (b : Bytes) (k n : Nat) : Prop := ∀ i < 8, b[k + i]? = some (UInt8.ofNat (n >>> (8 * i)))

/-- The length word of a text outside the root: the mark `10` is put between the low six
bits of the length and the others. -/
def lengthWord (length : Nat) : Nat := (length >>> 6) <<< 8 ||| 128 ||| length &&& 63

/-- The manager's 16 bytes at `root`, and the text before the root if it is not in them.
The second word of a text outside is its place relative to the root, in two's complement. -/
def HoldsManager (b : Bytes) (root : Nat) (manager : String) : Prop :=
  let text := utf8 manager
  if text.length ≤ 16 then
    root = 0 ∧ ∀ i < 16, b[i]? = some (text[i]?.getD 0xff)
  else
    text.length ≤ root ∧ root < text.length + 8 ∧ (∀ i < root, b[i]? = some (text[i]?.getD 0)) ∧
      HoldsWord b root (lengthWord text.length) ∧ HoldsWord b (root + 8) (wordRange - root)

/-- The kind in the four words from `k` on; words that a kind does not use are zero. -/
def HoldsKind (b : Bytes) (k : Nat) : Kind → Prop
  | .static batch bin offset =>
    HoldsWord b k 0 ∧ HoldsWord b (k + 8) batch ∧ HoldsWord b (k + 16) bin ∧ HoldsWord b (k + 24) offset
  | .ephemeral =>
    HoldsWord b k 1 ∧ HoldsWord b (k + 8) 0 ∧ HoldsWord b (k + 16) 0 ∧ HoldsWord b (k + 24) 0
  | .cache .inProcess =>
    HoldsWord b k 2 ∧ HoldsWord b (k + 8) 0 ∧ HoldsWord b (k + 16) 0 ∧ HoldsWord b (k + 24) 0
  | .cache (.area data signal) =>
    HoldsWord b k 2 ∧ HoldsWord b (k + 8) 1 ∧ HoldsWord b (k + 16) data ∧ HoldsWord b (k + 24) signal

/-- The bytes are an archive of the descriptor, with its root at `root`. -/
structure Archive (d : Descriptor) (b : Bytes) (root : Nat) : Prop where
  length : b.length = root + 64
  aligned : root % 8 = 0
  manager : HoldsManager b root d.manager
  id : HoldsWord b (root + 16) d.id
  size : HoldsWord b (root + 24) d.size
  kind : HoldsKind b (root + 32) d.kind

/-! ### An archive is determined by its descriptor -/

theorem HoldsWord.unique {b b' : Bytes} {k n i : Nat} (h : HoldsWord b k n) (h' : HoldsWord b' k n)
    (hk : k ≤ i) (hi : i < k + 8) : b[i]? = b'[i]? := by
  obtain ⟨j, rfl⟩ := Nat.exists_eq_add_of_le hk
  rw [h j (by omega), h' j (by omega)]

/-- Bytes in one of four words in a row. -/
theorem four_words {b b' : Bytes} {k i n₀ n₁ n₂ n₃ : Nat}
    (h : HoldsWord b k n₀ ∧ HoldsWord b (k + 8) n₁ ∧ HoldsWord b (k + 16) n₂ ∧ HoldsWord b (k + 24) n₃)
    (h' : HoldsWord b' k n₀ ∧ HoldsWord b' (k + 8) n₁ ∧ HoldsWord b' (k + 16) n₂ ∧ HoldsWord b' (k + 24) n₃)
    (hk : k ≤ i) (hi : i < k + 32) : b[i]? = b'[i]? := by
  obtain ⟨h₀, h₁, h₂, h₃⟩ := h
  obtain ⟨h₀', h₁', h₂', h₃'⟩ := h'
  rcases Nat.lt_or_ge i (k + 8) with hlt | hge
  · exact h₀.unique h₀' hk hlt
  rcases Nat.lt_or_ge i (k + 16) with hlt | hge
  · exact h₁.unique h₁' (by omega) (by omega)
  rcases Nat.lt_or_ge i (k + 24) with hlt | hge
  · exact h₂.unique h₂' (by omega) (by omega)
  · exact h₃.unique h₃' (by omega) (by omega)

theorem HoldsKind.unique {b b' : Bytes} {k i : Nat} {kind : Kind} (h : HoldsKind b k kind)
    (h' : HoldsKind b' k kind) (hk : k ≤ i) (hi : i < k + 32) : b[i]? = b'[i]? := by
  unfold HoldsKind at h h'
  cases kind with
  | static batch bin offset => exact four_words h h' hk hi
  | ephemeral => exact four_words h h' hk hi
  | cache place => cases place <;> exact four_words h h' hk hi

/-- The root stands where the manager leaves room for it. -/
theorem HoldsManager.root_unique {b b' : Bytes} {root root' : Nat} {m : String} (h : HoldsManager b root m)
    (h' : HoldsManager b' root' m) (ha : root % 8 = 0) (ha' : root' % 8 = 0) : root = root' := by
  unfold HoldsManager at h h'
  simp only at h h'
  split at h
  · rename_i hshort
    rw [if_pos hshort] at h'
    rw [h.1, h'.1]
  · rename_i hlong
    rw [if_neg hlong] at h'
    obtain ⟨hlow, hhigh, -⟩ := h
    obtain ⟨hlow', hhigh', -⟩ := h'
    omega

theorem HoldsManager.unique {b b' : Bytes} {root i : Nat} {m : String} (h : HoldsManager b root m)
    (h' : HoldsManager b' root m) (hi : i < root + 16) : b[i]? = b'[i]? := by
  unfold HoldsManager at h h'
  simp only at h h'
  split at h
  · rename_i hshort
    rw [if_pos hshort] at h'
    rw [h.2 i (by omega), h'.2 i (by omega)]
  · rename_i hlong
    rw [if_neg hlong] at h'
    obtain ⟨-, -, htext, hlength, hplace⟩ := h
    obtain ⟨-, -, htext', hlength', hplace'⟩ := h'
    rcases Nat.lt_or_ge i root with hlt | hge
    · rw [htext i hlt, htext' i hlt]
    rcases Nat.lt_or_ge i (root + 8) with hlt | hge'
    · exact hlength.unique hlength' hge hlt
    · exact hplace.unique hplace' hge' (by omega)

theorem Archive.unique {d : Descriptor} {b b' : Bytes} {root root' : Nat} (h : Archive d b root)
    (h' : Archive d b' root') : b = b' := by
  obtain rfl := h.manager.root_unique h'.manager h.aligned h'.aligned
  apply List.ext_getElem?
  intro i
  rcases Nat.lt_or_ge i (root + 16) with hlt | hge
  · exact h.manager.unique h'.manager hlt
  rcases Nat.lt_or_ge i (root + 24) with hlt | hge
  · exact h.id.unique h'.id (by omega) (by omega)
  rcases Nat.lt_or_ge i (root + 32) with hlt | hge
  · exact h.size.unique h'.size (by omega) (by omega)
  rcases Nat.lt_or_ge i (root + 64) with hlt | hge
  · exact h.kind.unique h'.kind (by omega) (by omega)
  · rw [List.getElem?_eq_none (by rw [h.length]; exact hge), List.getElem?_eq_none (by rw [h'.length]; exact hge)]

/-! ### What is written is an archive -/

theorem lengthWord_eq (length : Nat) : lengthWord length = spread length := by
  have hlow : length % 64 < 2 ^ 7 := by omega
  have hmark : 128 + length % 64 < 2 ^ 8 := by omega
  unfold lengthWord spread
  rw [show (63 : Nat) = 2 ^ 6 - 1 by rfl, Nat.and_two_pow_sub_one_eq_mod, Nat.shiftRight_eq_div_pow,
    Nat.shiftLeft_eq, Nat.or_assoc, show (128 : Nat) = 2 ^ 7 * 1 by rfl, ← Nat.two_pow_add_eq_or_of_lt hlow,
    Nat.mul_comm _ (2 ^ 8), ← Nat.two_pow_add_eq_or_of_lt hmark]
  omega

/-- A word that was put in its place. -/
theorem holdsWord_ofNat {p : Bytes} {k : Nat} (hp : p.length = k) (n : Nat) (rest : Bytes) :
    HoldsWord (p ++ (Bytes.ofNat 8 n ++ rest)) k n := by
  intro i hi
  rw [List.getElem?_append_right (by omega), hp, Nat.add_sub_cancel_left,
    List.getElem?_append_left (by rw [Bytes.length_ofNat]; exact hi), Bytes.getElem?_ofNat n hi]

theorem zeros_words : Bytes.zeros 24 = Bytes.ofNat 8 0 ++ (Bytes.ofNat 8 0 ++ Bytes.ofNat 8 0) := by decide

/-- Four words put behind `k` bytes. -/
theorem holds_four_words {p : Bytes} {k : Nat} (hp : p.length = k) (n₀ n₁ n₂ n₃ : Nat) :
    let b := p ++ (Bytes.ofNat 8 n₀ ++ (Bytes.ofNat 8 n₁ ++ (Bytes.ofNat 8 n₂ ++ Bytes.ofNat 8 n₃)))
    HoldsWord b k n₀ ∧ HoldsWord b (k + 8) n₁ ∧ HoldsWord b (k + 16) n₂ ∧ HoldsWord b (k + 24) n₃ := by
  refine ⟨holdsWord_ofNat hp n₀ _, ?_, ?_, ?_⟩
  · simpa using holdsWord_ofNat (p := p ++ Bytes.ofNat 8 n₀) (by simp [hp]) n₁ (Bytes.ofNat 8 n₂ ++ Bytes.ofNat 8 n₃)
  · simpa using holdsWord_ofNat (p := p ++ Bytes.ofNat 8 n₀ ++ Bytes.ofNat 8 n₁) (by simp [hp]) n₂ (Bytes.ofNat 8 n₃)
  · simpa using
      holdsWord_ofNat (p := p ++ Bytes.ofNat 8 n₀ ++ Bytes.ofNat 8 n₁ ++ Bytes.ofNat 8 n₂) (by simp [hp]) n₃ []

theorem holdsKind_kindBytes {p : Bytes} {k : Nat} (hp : p.length = k) (kind : Kind) :
    HoldsKind (p ++ kindBytes kind) k kind := by
  unfold kindBytes HoldsKind
  cases kind with
  | static batch bin offset => simpa using holds_four_words hp 0 batch bin offset
  | ephemeral => simpa [zeros_words] using holds_four_words hp 1 0 0 0
  | cache place =>
    cases place with
    | inProcess => simpa [zeros_words] using holds_four_words hp 2 0 0 0
    | area data signal => simpa using holds_four_words hp 2 1 data signal

/-- A text filled up with `x`. -/
theorem getElem?_filled {text : Bytes} {n i : Nat} (x : UInt8) (hi : i < text.length + n) :
    (text ++ List.replicate n x)[i]? = some (text[i]?.getD x) := by
  rcases Nat.lt_or_ge i text.length with hlt | hge
  · rw [List.getElem?_append_left hlt, List.getElem?_eq_getElem hlt, Option.getD_some]
  · rw [List.getElem?_append_right hge, List.getElem?_replicate_of_lt (by omega), List.getElem?_eq_none hge,
      Option.getD_none]

theorem managerBytes_inside {m : String} (h : (utf8 m).length ≤ inlineLimit) :
    managerBytes m = ([], utf8 m ++ List.replicate (inlineLimit - (utf8 m).length) 0xff) := if_pos h

theorem managerBytes_outside {m : String} (h : ¬(utf8 m).length ≤ inlineLimit) :
    managerBytes m = (utf8 m ++ padding (utf8 m).length, Bytes.ofNat 8 (spread (utf8 m).length) ++
      Bytes.ofNat 8 (wordRange - (utf8 m ++ padding (utf8 m).length).length)) := if_neg h

theorem holdsManager_managerBytes (m : String) (rest : Bytes) :
    HoldsManager ((managerBytes m).1 ++ ((managerBytes m).2 ++ rest)) (managerBytes m).1.length m := by
  unfold HoldsManager
  by_cases hshort : (utf8 m).length ≤ 16
  · rw [managerBytes_inside hshort]
    simp only [if_pos hshort, inlineLimit, List.nil_append]
    refine ⟨rfl, fun i hi => ?_⟩
    rw [List.getElem?_append_left (by simp only [List.length_append, List.length_replicate]; omega),
      getElem?_filled 0xff (by omega)]
  · rw [managerBytes_outside hshort]
    simp only [if_neg hshort, padding, List.length_append, Bytes.length_zeros]
    refine ⟨by omega, by omega, fun i hi => ?_, ?_, ?_⟩
    · rw [List.getElem?_append_left (by simpa using hi), Bytes.zeros, getElem?_filled 0 hi]
    · rw [lengthWord_eq, List.append_assoc (Bytes.ofNat 8 _)]
      exact holdsWord_ofNat (by simp) _ _
    · have hplace := holdsWord_ofNat (p := utf8 m ++ Bytes.zeros ((8 - (utf8 m).length % 8) % 8) ++
        Bytes.ofNat 8 (spread (utf8 m).length)) rfl
        (wordRange - ((utf8 m).length + (8 - (utf8 m).length % 8) % 8)) rest
      simpa [Nat.add_assoc] using hplace

theorem archive_encode (d : Descriptor) : Archive d (encode d) (managerBytes d.manager).1.length := by
  obtain ⟨hmanager, haligned⟩ := length_managerBytes d.manager
  have hkind := length_kindBytes d.kind
  have hparts : encode d = (managerBytes d.manager).1 ++ ((managerBytes d.manager).2 ++
      (Bytes.ofNat 8 d.id ++ (Bytes.ofNat 8 d.size ++ kindBytes d.kind))) := by
    simp only [encode, List.append_assoc]
  refine ⟨?_, haligned, ?_, ?_, ?_, ?_⟩
  · simp only [hparts, List.length_append, hmanager, Bytes.length_ofNat, hkind]
  · rw [hparts]
    exact holdsManager_managerBytes d.manager _
  · rw [hparts, ← List.append_assoc]
    exact holdsWord_ofNat (by rw [List.length_append, hmanager]) d.id _
  · rw [hparts, ← List.append_assoc, ← List.append_assoc]
    exact holdsWord_ofNat (by simp only [List.length_append, hmanager, Bytes.length_ofNat]) d.size _
  · rw [hparts, ← List.append_assoc, ← List.append_assoc, ← List.append_assoc]
    exact holdsKind_kindBytes (by simp only [List.length_append, hmanager, Bytes.length_ofNat]) d.kind

/-- The archive of a descriptor is what `encode` writes. -/
theorem archive_iff {d : Descriptor} {b : Bytes} : (∃ root, Archive d b root) ↔ b = encode d := by
  constructor
  · rintro ⟨root, h⟩
    exact h.unique (archive_encode d)
  · rintro rfl
    exact ⟨_, archive_encode d⟩

/-! ## What can be read -/

theorem wordAt_lt (b : Bytes) (k : Nat) : wordAt b k < wordRange := by
  have hlt := Bytes.toNat_lt ((b.drop k).take 8)
  have hlen : ((b.drop k).take 8).length ≤ 8 := List.length_take_le 8 _
  refine Nat.lt_of_lt_of_le hlt ?_
  rw [wordRange, Nat.one_shiftLeft, Nat.one_shiftLeft]
  exact Nat.pow_le_pow_right (by decide) (by omega)

theorem gather_le {word : Nat} (h : word < wordRange) : gather word ≤ textLimit := by
  unfold gather textLimit
  simp only [wordRange] at h
  omega

/-- Bytes that spell a text are the bytes of that text. -/
theorem utf8_of_ofUtf8? {b : Bytes} {s : String} (h : ofUtf8? b = some s) : utf8 s = b := by
  unfold ofUtf8? String.fromUTF8? at h
  split at h
  · obtain rfl := Option.some.inj h
    rfl
  · cases h

theorem readKind?_numbers {b : Bytes} {k : Kind} (h : readKind? b = some k) : ∀ n ∈ k.numbers, n < wordRange := by
  unfold readKind? at h
  split at h
  · obtain rfl := Option.some.inj h
    simp [Kind.numbers, wordAt_lt]
  · obtain rfl := Option.some.inj h
    simp [Kind.numbers]
  · split at h
    · obtain rfl := Option.some.inj h
      simp [Kind.numbers]
    · obtain rfl := Option.some.inj h
      simp [Kind.numbers, wordAt_lt]
    · cases h
  · cases h

theorem readManager?_length {before manager : Bytes} {m : String} (hlen : manager.length ≤ 16)
    (h : readManager? before manager = some m) : (utf8 m).length ≤ textLimit := by
  unfold readManager? at h
  split at h
  · simp only at h
    split at h
    · cases h
    · rw [utf8_of_ofUtf8? h]
      exact Nat.le_trans (List.length_take_le _ _) (gather_le (wordAt_lt manager 0))
  · rw [utf8_of_ofUtf8? h]
    have hwhile := (List.takeWhile_prefix (fun x => decide (x ≠ 0xff)) (l := manager)).length_le
    exact Nat.le_trans hwhile (Nat.le_trans hlen (by decide))

/-- Bytes either hold no descriptor, or one that the format can express. -/
theorem decode_cases (b : Bytes) :
    decode b = .error (.invalidDescriptor .malformed) ∨ ∃ d, decode b = .ok d ∧ Representable d := by
  unfold decode
  split
  · exact .inl rfl
  simp only
  split
  · rename_i manager kind hmanager hkind
    exact .inr ⟨_, rfl, readManager?_length (List.length_take_le 16 _) hmanager, wordAt_lt _ _, wordAt_lt _ _,
      readKind?_numbers hkind⟩
  · exact .inl rfl

/-! ## The result -/

/-- **Descriptors go over the wire unchanged.** Every descriptor that the format can
express has one archive, which is what `encode` writes and which is read as that
descriptor. Two descriptors never have the same archive. And bytes from anywhere are
refused, or read as a descriptor that can be sent on. -/
theorem wire_format :
    (∀ d, Representable d → (∀ b, (∃ root, Archive d b root) ↔ b = encode d) ∧ decode (encode d) = .ok d) ∧
    (∀ d d', Representable d → Representable d' → encode d = encode d' → d = d') ∧
    (∀ b, decode b = .error (.invalidDescriptor .malformed) ∨
      ∃ d, decode b = .ok d ∧ Representable d ∧ decode (encode d) = .ok d) := by
  refine ⟨fun d hd => ⟨fun b => archive_iff, hd.decode_encode⟩, fun d d' hd hd' heq => ?_, fun b => ?_⟩
  · have hread := hd.decode_encode
    rw [heq, hd'.decode_encode] at hread
    exact (Except.ok.inj hread).symm
  · rcases decode_cases b with herr | ⟨d, hok, hd⟩
    · exact .inl herr
    · exact .inr ⟨d, hok, hd, hd.decode_encode⟩

/-- The descriptor of a segment beyond four gigabytes in a batch of a manager whose name
does not fit in the root. -/
def sampleDescriptor : Descriptor :=
  ⟨"a manager with a long name", 7, 5 <<< 30, .static 0 1 (6 <<< 30)⟩

theorem representable_sample : Representable sampleDescriptor where
  manager := by decide
  id := by decide
  size := by decide
  kind := by decide

theorem wire_format_of_long_name :
    Representable sampleDescriptor ∧ (∃ root, Archive sampleDescriptor (encode sampleDescriptor) root) ∧
      decode (encode sampleDescriptor) = .ok sampleDescriptor :=
  have ⟨harchive, hread⟩ := wire_format.1 sampleDescriptor representable_sample
  ⟨representable_sample, (harchive _).mpr rfl, hread⟩

end Descriptor
end TierAlloc
