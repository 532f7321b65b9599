import DeclBundle.Proofs.Text.Boundary
set_option autoImplicit false

/-!
# Edges of a text

An offset into an encoded text is an edge if it is a boundary or lies behind the end.  What lies
between two edges decodes (`IsEdge.decode_stretch`), and what lies behind an edge decodes only up to
another one (`IsEdge.of_decode`): a part that ends inside a character is not text.
-/

namespace DeclBundle.Utf8

variable {cs : List Char} {start stop : Nat}

/-- Whether an offset into the encoding of a text is a boundary or not before the end. -/
def IsEdge (cs : List Char) (pos : Nat) : Prop :=
  IsBoundary cs pos ∨ (encode cs).length ≤ pos

instance (cs : List Char) (pos : Nat) : Decidable (IsEdge cs pos) :=
  inferInstanceAs (Decidable (_ ∨ _))

theorem isEdge_zero (cs : List Char) : IsEdge cs 0 :=
  .inl (isBoundary_zero cs)

theorem isEdge_length (cs : List Char) : IsEdge cs (encode cs).length :=
  .inr (Nat.le_refl _)

/-- Behind the end nothing stands. -/
theorem stretch_of_length_le {source : List UInt8} (h : source.length ≤ start) :
    stretch source start stop = [] := by
  rw [stretch, List.drop_of_length_le h, List.take_nil]

/-- What lies before an offset behind the end lies before the end. -/
theorem stretch_to_end {source : List UInt8} (h : source.length ≤ stop) :
    stretch source start stop = stretch source start source.length := by
  rw [stretch, stretch_length, List.take_of_length_le (by rw [List.length_drop]; omega)]

/-- What lies between two edges is the encoding of a text. -/
theorem IsEdge.decode_stretch (hstart : IsEdge cs start) (hstop : IsEdge cs stop) :
    ∃ text, decode (stretch (encode cs) start stop) = .ok text ∧
      encode text = stretch (encode cs) start stop := by
  rcases hstart with hstart | hstart
  · rcases hstop with hstop | hstop
    · exact Utf8.decode_stretch hstart hstop
    · rw [stretch_to_end hstop]
      exact Utf8.decode_stretch hstart (isBoundary_length cs)
  · rw [stretch_of_length_le hstart]
    exact ⟨[], decode_encode [], rfl⟩

/-! ## Parts of a character -/

/-- The first byte of a character says how many others there are. -/
theorem exists_lead_encodeChar (c : Char) :
    ∃ b bs low high, encodeChar c = b :: bs ∧ lead? b = some ⟨bs.length, low, high⟩ ∧
      bs.length ≤ 3 := by
  have hvalid : c.toNat < 0xD800 ∨ (0xDFFF < c.toNat ∧ c.toNat < 0x110000) := by
    simpa [UInt32.isValidChar, Nat.isValidChar] using c.valid
  unfold encodeChar
  dsimp only
  split
  case isTrue h₁ =>
    have hbyte : (UInt8.ofNat c.toNat).toNat = c.toNat := toNat_ofNat_lt (by omega)
    have hlead : lead? (UInt8.ofNat c.toNat) = some ⟨0, 0, 0⟩ := by
      simp only [lead?, hbyte, h₁, if_true]
    exact ⟨_, [], 0, 0, rfl, hlead, by decide⟩
  case isFalse h₁ =>
    split
    case isTrue h₂ => exact ⟨_, [_], _, _, rfl, lead?_two (Nat.le_of_not_lt h₁) h₂, by simp⟩
    case isFalse h₂ =>
      split
      case isTrue h₃ =>
        obtain ⟨low, high, hlead, -⟩ := lead?_three (Nat.le_of_not_lt h₂) h₃ (by omega)
        exact ⟨_, [_, _], low, high, rfl, hlead, by simp⟩
      case isFalse h₃ =>
        obtain ⟨low, high, hlead, -⟩ :=
          lead?_four (Nat.le_of_not_lt h₃) (show c.toNat < 0x110000 by omega)
        exact ⟨_, [_, _, _], low, high, rfl, hlead, by simp⟩

/-- Fewer bytes than the first one says are no character. -/
theorem decodeFrom_short_ne {pos k low high : Nat} {b : UInt8} {bs : List UInt8}
    (hlead : lead? b = some ⟨k, low, high⟩) (hle : k ≤ 3) (hlt : bs.length < k)
    (text : List Char) : decodeFrom pos (b :: bs) ≠ .ok text := by
  obtain rfl | rfl | rfl : k = 1 ∨ k = 2 ∨ k = 3 := by omega
  case inl =>
    obtain rfl := List.length_eq_zero_iff.1 (Nat.lt_one_iff.1 hlt)
    simp [decodeFrom, hlead]
  case inr.inl =>
    rcases bs with - | ⟨b₁, - | ⟨b₂, bs⟩⟩
    · simp [decodeFrom, hlead]
    · simp only [decodeFrom, hlead]
      split <;> simp
    · rw [List.length_cons, List.length_cons] at hlt
      omega
  case inr.inr =>
    rcases bs with - | ⟨b₁, - | ⟨b₂, - | ⟨b₃, bs⟩⟩⟩
    · simp [decodeFrom, hlead]
    · simp only [decodeFrom, hlead]
      split <;> simp
    · simp only [decodeFrom, hlead]
      split
      · simp
      · split <;> simp
    · rw [List.length_cons, List.length_cons, List.length_cons] at hlt
      omega

/-- The first bytes of a character are no text without the others. -/
theorem decodeFrom_part_ne (pos : Nat) {c : Char} {n : Nat} (hpos : 0 < n) (hlt : n < width c)
    (text : List Char) : decodeFrom pos ((encodeChar c).take n) ≠ .ok text := by
  obtain ⟨b, bs, low, high, hchar, hlead, hle⟩ := exists_lead_encodeChar c
  obtain ⟨m, rfl⟩ := Nat.exists_eq_succ_of_ne_zero (Nat.pos_iff_ne_zero.1 hpos)
  rw [width, hchar, List.length_cons] at hlt
  rw [hchar, List.take_succ_cons]
  exact decodeFrom_short_ne hlead hle (by rw [List.length_take]; omega) text

/-- The beginning of an encoded text decodes only up to an edge. -/
theorem isEdge_of_decodeFrom {pos n : Nat} {text : List Char}
    (h : decodeFrom pos ((encode cs).take n) = .ok text) : IsEdge cs n := by
  induction cs generalizing pos n text with
  | nil => exact .inr (Nat.zero_le _)
  | cons c cs ih =>
    rcases Nat.eq_zero_or_pos n with rfl | hpos
    · exact isEdge_zero _
    · rw [encode_cons] at h
      rcases Nat.lt_or_ge n (width c) with hlt | hge
      · rw [List.take_append_of_le_length (Nat.le_of_lt hlt)] at h
        exact absurd h (decodeFrom_part_ne pos hpos hlt text)
      · rw [List.take_append, List.take_of_length_le hge, decodeFrom_encodeChar] at h
        cases hrest : decodeFrom (pos + width c) ((encode cs).take (n - width c)) with
        | error fault =>
          rw [width] at hrest
          simp [width, hrest, Except.map] at h
        | ok rest =>
          rcases ih hrest with hedge | hedge
          · obtain ⟨before, after, hsplit, hlength⟩ := isBoundary_iff.1 hedge
            refine .inl (isBoundary_iff.2 ⟨c :: before, after, by rw [hsplit]; rfl, ?_⟩)
            rw [encode_cons, List.length_append, ← hlength]
            exact (Nat.add_sub_cancel' hge).symm
          · refine .inr ?_
            rw [encode_cons, List.length_append]
            have : (encodeChar c).length = width c := rfl
            omega

/-- What lies behind an edge decodes only up to another one. -/
theorem IsEdge.of_decode {text : List Char} (hstart : IsEdge cs start) (hle : start ≤ stop)
    (h : decode (stretch (encode cs) start stop) = .ok text) : IsEdge cs stop := by
  rcases hstart with hstart | hstart
  · obtain ⟨before, after, rfl, rfl⟩ := isBoundary_iff.1 hstart
    rw [stretch, encode_append, List.drop_left] at h
    rcases isEdge_of_decodeFrom h with hedge | hedge
    · obtain ⟨mid, rest, rfl, hlength⟩ := isBoundary_iff.1 hedge
      refine .inl (isBoundary_iff.2 ⟨before ++ mid, rest, by simp, ?_⟩)
      rw [encode_append, List.length_append]
      omega
    · refine .inr ?_
      rw [encode_append, List.length_append]
      omega
  · exact .inr (Nat.le_trans hstart hle)

end DeclBundle.Utf8
