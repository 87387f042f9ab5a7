import TierAlloc.Descriptor.Wire
import TierAlloc.Segment

/-!
# Reading what was written

What `decode` makes of the archive of a descriptor is the descriptor, with its numbers
as 64 bits can hold them. The two forms of the manager are told apart by its first byte:
a text does not start in the middle of a character, and `ff` is in none.

**Results.**
* `readManager?_managerBytes`: both forms give the text back.
* `decode_encode`: the whole descriptor.
-/
namespace TierAlloc.Descriptor

/-! ## Texts -/

theorem utf8_eq (s : String) : utf8 s = s.toList.flatMap String.utf8EncodeChar := by
  unfold utf8 String.toUTF8
  rw [← String.utf8Encode_toList, List.utf8Encode, List.data_toByteArray]

/-- The bytes of a text spell it. -/
theorem ofUtf8?_utf8 (s : String) : ofUtf8? (utf8 s) = some s := by
  unfold ofUtf8? utf8 String.toUTF8 String.fromUTF8?
  exact dif_pos s.isValidUTF8

/-- The bytes of a character, and how the first one is told from the others. -/
theorem char_bytes (c : Char) : ∃ b rest, String.utf8EncodeChar c = b :: rest ∧ b.toNat / 64 ≠ 2 ∧
    ∀ x ∈ b :: rest, x.toNat < 248 := by
  have hlow : ∀ n, (UInt8.ofNat (n % 64 + 128)).toNat < 248 := by
    intro n
    rw [UInt8.toNat_ofNat']
    omega
  unfold String.utf8EncodeChar
  simp only
  split
  · refine ⟨_, _, rfl, ?_, List.forall_mem_singleton.mpr ?_⟩ <;> rw [UInt8.toNat_ofNat'] <;> omega
  split
  · refine ⟨_, _, rfl, ?_, List.forall_mem_cons.mpr ⟨?_, List.forall_mem_singleton.mpr (hlow _)⟩⟩ <;>
      rw [UInt8.toNat_ofNat'] <;> omega
  split
  · refine ⟨_, _, rfl, ?_, List.forall_mem_cons.mpr ⟨?_, List.forall_mem_cons.mpr ⟨hlow _,
      List.forall_mem_singleton.mpr (hlow _)⟩⟩⟩ <;> rw [UInt8.toNat_ofNat'] <;> omega
  · refine ⟨_, _, rfl, ?_, List.forall_mem_cons.mpr ⟨?_, List.forall_mem_cons.mpr ⟨hlow _,
      List.forall_mem_cons.mpr ⟨hlow _, List.forall_mem_singleton.mpr (hlow _)⟩⟩⟩⟩ <;>
      rw [UInt8.toNat_ofNat'] <;> omega

theorem ne_ff_of_mem_char {c : Char} {b : UInt8} (h : b ∈ String.utf8EncodeChar c) : b ≠ 0xff := by
  obtain ⟨_, _, hc, -, hlt⟩ := char_bytes c
  rw [hc] at h
  rintro rfl
  exact absurd (hlt _ h) (by decide)

theorem lead_of_char (c : Char) : ∃ b rest, String.utf8EncodeChar c = b :: rest ∧ b.toNat / 64 ≠ 2 := by
  obtain ⟨b, rest, hc, hb, -⟩ := char_bytes c
  exact ⟨b, rest, hc, hb⟩

theorem ne_ff_of_mem_utf8 {s : String} {b : UInt8} (h : b ∈ utf8 s) : b ≠ 0xff := by
  rw [utf8_eq, List.mem_flatMap] at h
  obtain ⟨c, -, hb⟩ := h
  exact ne_ff_of_mem_char hb

/-- A text does not start in the middle of a character. -/
theorem lead_of_utf8 {s : String} {b : UInt8} {rest : Bytes} (h : utf8 s = b :: rest) : b.toNat / 64 ≠ 2 := by
  rw [utf8_eq] at h
  cases hs : s.toList with
  | nil =>
    rw [hs] at h
    cases h
  | cons c cs =>
    obtain ⟨b', rest', hc, hb⟩ := lead_of_char c
    rw [hs, List.flatMap_cons, hc] at h
    rw [← (List.cons.inj h).1]
    exact hb

/-! ## Numbers in their places -/

theorem toNat_ofNat8 (n : Nat) : Bytes.toNat (Bytes.ofNat 8 n) = n % wordRange := Bytes.toNat_ofNat 8 n

/-- The word that stands behind `k` bytes. -/
theorem wordAt_ofNat {p : Bytes} {k : Nat} (hp : p.length = k) (n : Nat) (rest : Bytes) :
    wordAt (p ++ (Bytes.ofNat 8 n ++ rest)) k = n % wordRange := by
  unfold wordAt
  rw [List.drop_left' hp, List.take_left' (Bytes.length_ofNat 8 n), toNat_ofNat8]

theorem byteAt_ofNat {p : Bytes} {k : Nat} (hp : p.length = k) (n : Nat) (rest : Bytes) :
    byteAt (p ++ (Bytes.ofNat 8 n ++ rest)) k = n % 256 := by
  unfold byteAt
  rw [List.drop_left' hp, Bytes.ofNat, List.cons_append, List.take_succ_cons, List.take_zero]
  simp [Bytes.toNat]

/-- The numbers of a kind as 64 bits hold them. -/
def wrapKind : Kind → Kind
  | .static batch bin offset => .static (batch % wordRange) (bin % wordRange) (offset % wordRange)
  | .ephemeral => .ephemeral
  | .cache .inProcess => .cache .inProcess
  | .cache (.area data signal) => .cache (.area (data % wordRange) (signal % wordRange))

theorem length_kindBytes (k : Kind) : (kindBytes k).length = 32 := by
  unfold kindBytes
  split <;> simp only [List.length_append, Bytes.length_ofNat, Bytes.length_zeros]

/-- Four words, read one by one. -/
theorem words_at (n₀ n₁ n₂ n₃ : Nat) :
    let b := Bytes.ofNat 8 n₀ ++ Bytes.ofNat 8 n₁ ++ Bytes.ofNat 8 n₂ ++ Bytes.ofNat 8 n₃
    byteAt b 0 = n₀ % 256 ∧ byteAt b 8 = n₁ % 256 ∧ wordAt b 8 = n₁ % wordRange ∧
      wordAt b 16 = n₂ % wordRange ∧ wordAt b 24 = n₃ % wordRange := by
  refine ⟨?_, ?_, ?_, ?_, ?_⟩
  · simpa using byteAt_ofNat (p := []) rfl n₀ (Bytes.ofNat 8 n₁ ++ (Bytes.ofNat 8 n₂ ++ Bytes.ofNat 8 n₃))
  · simpa using byteAt_ofNat (Bytes.length_ofNat 8 n₀) n₁ (Bytes.ofNat 8 n₂ ++ Bytes.ofNat 8 n₃)
  · simpa using wordAt_ofNat (Bytes.length_ofNat 8 n₀) n₁ (Bytes.ofNat 8 n₂ ++ Bytes.ofNat 8 n₃)
  · simpa using wordAt_ofNat (p := Bytes.ofNat 8 n₀ ++ Bytes.ofNat 8 n₁) (by simp) n₂ (Bytes.ofNat 8 n₃)
  · simpa using wordAt_ofNat (p := Bytes.ofNat 8 n₀ ++ Bytes.ofNat 8 n₁ ++ Bytes.ofNat 8 n₂) (by simp) n₃ []

/-- The tag of a kind whose other words are zero. -/
theorem tag_at (n : Nat) : byteAt (Bytes.ofNat 8 n ++ Bytes.zeros 24) 0 = n % 256 ∧
    byteAt (Bytes.ofNat 8 n ++ Bytes.zeros 24) 8 = 0 := by
  refine ⟨by simpa using byteAt_ofNat (p := []) rfl n (Bytes.zeros 24), ?_⟩
  unfold byteAt
  rw [List.drop_left' (Bytes.length_ofNat 8 n)]
  rfl

theorem readKind?_kindBytes (k : Kind) : readKind? (kindBytes k) = some (wrapKind k) := by
  unfold readKind? kindBytes
  cases k with
  | static batch bin offset =>
    obtain ⟨htag, -, hbatch, hbin, hoffset⟩ := words_at 0 batch bin offset
    simp only [htag, hbatch, hbin, hoffset, wrapKind]
  | ephemeral => simp only [(tag_at 1).1, wrapKind]
  | cache place =>
    cases place with
    | inProcess => simp only [(tag_at 2).1, (tag_at 2).2, wrapKind]
    | area data signal =>
      obtain ⟨htag, hform, -, hdata, hsignal⟩ := words_at 2 1 data signal
      simp only [htag, hform, hdata, hsignal, wrapKind]

/-! ## The manager -/

theorem length_managerBytes (m : String) :
    (managerBytes m).2.length = 16 ∧ (managerBytes m).1.length % 8 = 0 := by
  unfold managerBytes padding
  simp only
  split
  · rename_i h
    simp only [inlineLimit] at h
    refine ⟨?_, rfl⟩
    simp only [List.length_append, List.length_replicate, inlineLimit]
    omega
  · refine ⟨by simp only [List.length_append, Bytes.length_ofNat], ?_⟩
    simp only [List.length_append, Bytes.length_zeros]
    omega

/-- A text before the root is found by its length and its distance. -/
theorem readManager?_outside {m : String} (hlong : ¬(utf8 m).length ≤ inlineLimit)
    (h : (utf8 m).length < 1 <<< 62) :
    readManager? (utf8 m ++ padding (utf8 m).length) (Bytes.ofNat 8 (spread (utf8 m).length) ++
      Bytes.ofNat 8 (wordRange - (utf8 m ++ padding (utf8 m).length).length)) = some m := by
  have hpad : (padding (utf8 m).length).length < 8 := by
    unfold padding
    rw [Bytes.length_zeros]
    omega
  generalize hbefore : utf8 m ++ padding (utf8 m).length = before
  have hlen : before.length = (utf8 m).length + (padding (utf8 m).length).length := by
    rw [← hbefore, List.length_append]
  have hword : spread (utf8 m).length < wordRange := by
    unfold spread
    simp only [wordRange] at h ⊢
    omega
  have htag := byteAt_ofNat (p := []) (k := 0) rfl (spread (utf8 m).length) (Bytes.ofNat 8 (wordRange - before.length))
  have hlength := wordAt_ofNat (p := []) (k := 0) rfl (spread (utf8 m).length) (Bytes.ofNat 8 (wordRange - before.length))
  have hdistance := wordAt_ofNat (Bytes.length_ofNat 8 (spread (utf8 m).length)) (wordRange - before.length) []
  rw [List.nil_append] at htag hlength
  rw [List.append_nil] at hdistance
  have hmark : byteAt (Bytes.ofNat 8 (spread (utf8 m).length) ++
      Bytes.ofNat 8 (wordRange - before.length)) 0 / 64 = 2 := by
    rw [htag]
    unfold spread
    omega
  simp only [inlineLimit] at hlong
  have hfit : before.length ≤ wordRange := by
    simp only [wordRange] at h ⊢
    omega
  have hback : wordRange - (wordRange - before.length) % wordRange = before.length := by
    rw [Nat.mod_eq_of_lt (by omega), Nat.sub_sub_self hfit]
  unfold readManager?
  simp only [hmark, if_true, hlength, Nat.mod_eq_of_lt hword, spread_gather, hdistance, hback]
  rw [if_neg (by simp only [inlineLimit]; omega), Nat.sub_self, List.drop_zero, ← hbefore, List.take_left,
    ofUtf8?_utf8]

/-- Both forms of the manager give the text back. -/
theorem readManager?_managerBytes {m : String} (h : (utf8 m).length < 1 <<< 62) :
    readManager? (managerBytes m).1 (managerBytes m).2 = some m := by
  unfold managerBytes
  simp only
  split
  · rename_i hle
    have hfirst : byteAt (utf8 m ++ List.replicate (inlineLimit - (utf8 m).length) 0xff) 0 / 64 ≠ 2 := by
      unfold byteAt
      cases hm : utf8 m with
      | nil => decide
      | cons b rest =>
        have hb := lead_of_utf8 hm
        simpa [Bytes.toNat] using hb
    have htext : (utf8 m ++ List.replicate (inlineLimit - (utf8 m).length) 0xff).takeWhile (· ≠ 0xff) = utf8 m := by
      rw [List.takeWhile_append_of_pos fun b hb => decide_eq_true (ne_ff_of_mem_utf8 hb)]
      cases inlineLimit - (utf8 m).length <;> simp [List.replicate_succ]
    unfold readManager?
    rw [if_neg hfirst, htext, ofUtf8?_utf8]
  · rename_i hlong
    exact readManager?_outside hlong h

/-! ## Descriptors -/

/-- The descriptor with its numbers as 64 bits hold them. -/
def wrap (d : Descriptor) : Descriptor :=
  { d with id := d.id % wordRange, size := d.size % wordRange, kind := wrapKind d.kind }

/-- What was written is read, but for what 64 bits do not hold. -/
theorem decode_encode {d : Descriptor} (h : (utf8 d.manager).length < 1 <<< 62) :
    decode (encode d) = .ok d.wrap := by
  obtain ⟨hmanager, hbefore⟩ := length_managerBytes d.manager
  have hkind := length_kindBytes d.kind
  have hread := readManager?_managerBytes h
  unfold encode
  generalize managerBytes d.manager = parts at hmanager hbefore hread
  obtain ⟨before, manager⟩ := parts
  simp only at hmanager hbefore hread ⊢
  have hroot : before ++ manager ++ Bytes.ofNat 8 d.id ++ Bytes.ofNat 8 d.size ++ kindBytes d.kind =
      before ++ (manager ++ (Bytes.ofNat 8 d.id ++ (Bytes.ofNat 8 d.size ++ kindBytes d.kind))) := by
    simp only [List.append_assoc]
  have hlen : (manager ++ (Bytes.ofNat 8 d.id ++ (Bytes.ofNat 8 d.size ++ kindBytes d.kind))).length =
      rootSize := by
    simp only [List.length_append, hmanager, Bytes.length_ofNat, hkind, rootSize]
  have hid := wordAt_ofNat hmanager d.id (Bytes.ofNat 8 d.size ++ kindBytes d.kind)
  have hsize : wordAt (manager ++ (Bytes.ofNat 8 d.id ++ (Bytes.ofNat 8 d.size ++ kindBytes d.kind))) 24 =
      d.size % wordRange := by
    have := wordAt_ofNat (p := manager ++ Bytes.ofNat 8 d.id) (k := 24) (by simp [hmanager]) d.size
      (kindBytes d.kind)
    rwa [List.append_assoc] at this
  have hdrop : (manager ++ (Bytes.ofNat 8 d.id ++ (Bytes.ofNat 8 d.size ++ kindBytes d.kind))).drop 32 =
      kindBytes d.kind := by
    rw [← List.append_assoc, ← List.append_assoc, List.drop_left']
    simp [hmanager]
  unfold decode
  rw [hroot, if_neg (by rw [List.length_append, hlen, rootSize]; omega)]
  have hsplit : (before ++ (manager ++ (Bytes.ofNat 8 d.id ++ (Bytes.ofNat 8 d.size ++
      kindBytes d.kind)))).length - rootSize = before.length := by
    rw [List.length_append, hlen, Nat.add_sub_cancel]
  simp only [hsplit, List.take_left, List.drop_left, List.take_left' hmanager, hread, hdrop,
    readKind?_kindBytes, hid, hsize]
  rfl

end TierAlloc.Descriptor
