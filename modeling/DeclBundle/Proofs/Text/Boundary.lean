import DeclBundle.Text.Utf8
set_option autoImplicit false

/-!
# Boundaries between characters

An offset into an encoded text is a boundary if it stands between two characters or at an end.
What lies between two boundaries decodes, and encoding the decoded text gives the same bytes back
(`decode_stretch`).  Bytes that decode to a text are the encoding of no other (`encode_injective`).
-/

namespace DeclBundle.Utf8

/-- Two texts with the same bytes are the same. -/
theorem encode_injective {cs ds : List Char} (h : encode cs = encode ds) : cs = ds := by
  have hd : decode (encode cs) = decode (encode ds) := by rw [h]
  rw [decode_encode, decode_encode] at hd
  exact Except.ok.inj hd

/-! ## Boundaries -/

/-- The offsets where the characters of a text begin, of which the first begins at `pos`, and the
offset where the last one ends. -/
def boundaries (pos : Nat) : List Char → List Nat
  | [] => [pos]
  | c :: cs => pos :: boundaries (pos + width c) cs

/-- Whether an offset into the encoding of a text stands between two characters or at an end. -/
def IsBoundary (cs : List Char) (pos : Nat) : Prop :=
  pos ∈ boundaries 0 cs

instance (cs : List Char) (pos : Nat) : Decidable (IsBoundary cs pos) :=
  inferInstanceAs (Decidable (pos ∈ boundaries 0 cs))

theorem mem_boundaries_iff {start pos : Nat} {cs : List Char} :
    pos ∈ boundaries start cs ↔
      ∃ before after, cs = before ++ after ∧ pos = start + (encode before).length := by
  induction cs generalizing start with
  | nil =>
    simp only [boundaries, List.mem_singleton]
    constructor
    · intro h
      exact ⟨[], [], rfl, by simp [h]⟩
    · rintro ⟨before, after, hsplit, rfl⟩
      have hbefore : before = [] := (List.append_eq_nil_iff.1 hsplit.symm).1
      simp [hbefore]
  | cons c cs ih =>
    simp only [boundaries, List.mem_cons, ih]
    constructor
    · rintro (rfl | ⟨before, after, rfl, rfl⟩)
      · exact ⟨[], c :: cs, rfl, by simp⟩
      · exact ⟨c :: before, after, rfl, by simp [width]; omega⟩
    · rintro ⟨before, after, hsplit, rfl⟩
      cases before with
      | nil => exact .inl (by simp)
      | cons d before =>
        obtain ⟨rfl, hrest⟩ := List.cons.inj hsplit
        exact .inr ⟨before, after, hrest, by simp [width]; omega⟩

/-- A boundary parts the text in two. -/
theorem isBoundary_iff {cs : List Char} {pos : Nat} :
    IsBoundary cs pos ↔ ∃ before after, cs = before ++ after ∧ pos = (encode before).length := by
  simp [IsBoundary, mem_boundaries_iff]

theorem isBoundary_zero (cs : List Char) : IsBoundary cs 0 :=
  isBoundary_iff.2 ⟨[], cs, rfl, rfl⟩

theorem isBoundary_length (cs : List Char) : IsBoundary cs (encode cs).length :=
  isBoundary_iff.2 ⟨cs, [], by simp, rfl⟩

theorem IsBoundary.le_length {cs : List Char} {pos : Nat} (h : IsBoundary cs pos) :
    pos ≤ (encode cs).length := by
  obtain ⟨before, after, rfl, rfl⟩ := isBoundary_iff.1 h
  simp

/-! ## What lies between -/

/-- The bytes from `start` up to `stop`. -/
def stretch (source : List UInt8) (start stop : Nat) : List UInt8 :=
  (source.drop start).take (stop - start)

@[simp] theorem stretch_self (source : List UInt8) (pos : Nat) : stretch source pos pos = [] := by
  simp [stretch]

theorem stretch_zero (source : List UInt8) (stop : Nat) :
    stretch source 0 stop = source.take stop := by
  simp [stretch]

theorem stretch_length (source : List UInt8) (start : Nat) :
    stretch source start source.length = source.drop start := by
  rw [stretch, List.take_of_length_le (by simp)]

/-- Neighbouring stretches of the source join. -/
theorem stretch_append (source : List UInt8) {start mid stop : Nat} (h₁ : start ≤ mid)
    (h₂ : mid ≤ stop) :
    stretch source start mid ++ stretch source mid stop = stretch source start stop := by
  have hmid : source.drop mid = (source.drop start).drop (mid - start) := by
    rw [List.drop_drop]
    congr 1
    omega
  have hstop : stop - start = (mid - start) + (stop - mid) := by omega
  rw [stretch, stretch, stretch, hmid, hstop, List.take_add]

/-- Of two ways to part a text, the one with the shorter beginning in bytes has a beginning of the
other's beginning. -/
theorem prefix_of_encode_length_le {b₁ a₁ b₂ a₂ : List Char} (h : b₁ ++ a₁ = b₂ ++ a₂)
    (hle : (encode b₁).length ≤ (encode b₂).length) : b₁ <+: b₂ := by
  have h₁ : b₁ <+: b₂ ++ a₂ := ⟨a₁, h⟩
  rcases List.prefix_or_prefix_of_prefix h₁ (List.prefix_append b₂ a₂) with hp | ⟨rest, hrest⟩
  · exact hp
  · cases rest with
    | nil => exact ⟨[], by simpa using hrest.symm⟩
    | cons c rest =>
      -- a character more takes at least one byte more
      have hlen := congrArg (fun t => (encode t).length) hrest
      have hpos := width_pos c
      simp [width] at hlen hpos
      omega

/-- What lies between two boundaries is the encoding of a text. -/
theorem decode_stretch {cs : List Char} {start stop : Nat} (hstart : IsBoundary cs start)
    (hstop : IsBoundary cs stop) :
    ∃ text, decode (stretch (encode cs) start stop) = .ok text ∧
      encode text = stretch (encode cs) start stop := by
  rcases Nat.lt_or_ge stop start with hlt | hle
  · have hnil : stretch (encode cs) start stop = [] := by
      have hzero : stop - start = 0 := by omega
      simp [stretch, hzero]
    exact ⟨[], by rw [hnil]; exact decode_encode [], by rw [hnil]; rfl⟩
  · obtain ⟨b₁, a₁, h₁, rfl⟩ := isBoundary_iff.1 hstart
    obtain ⟨b₂, a₂, h₂, rfl⟩ := isBoundary_iff.1 hstop
    obtain ⟨mid, rfl⟩ := prefix_of_encode_length_le (h₁.symm.trans h₂) hle
    have hbytes : stretch (encode cs) (encode b₁).length (encode (b₁ ++ mid)).length =
        encode mid := by
      simp [stretch, h₂]
    exact ⟨mid, by rw [hbytes, decode_encode], hbytes.symm⟩

end DeclBundle.Utf8
