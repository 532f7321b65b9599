import DeclBundle.Text.Utf8
set_option autoImplicit false

/-!
# Characters of one byte

A character of one byte stands in a text just where its byte stands in the encoding, since every
byte of a longer character is above all of them.  What decodes, whatever it is a part of, brings no
such character in that is not among its bytes (`byte_mem_of_decode`).
-/

namespace DeclBundle.Utf8

variable {c : Char}

/-! ## Encoding -/

/-- The byte of a character stands only in the encoding of texts that hold the character. -/
theorem mem_of_byte_mem_encode (hc : c.toNat < 0x80) {cs : List Char}
    (h : UInt8.ofNat c.toNat ∈ encode cs) : c ∈ cs := by
  obtain ⟨d, hd, hbyte⟩ := List.mem_flatMap.1 h
  have hvalid : d.toNat < 0x110000 := by
    have := d.valid
    simp only [UInt32.isValidChar, Nat.isValidChar] at this
    exact this.elim (fun h => Nat.lt_trans h (by decide)) fun h => h.2
  have hsame {n : Nat} (hn : n < 0x100) (heq : UInt8.ofNat c.toNat = UInt8.ofNat n) :
      c.toNat = n := by
    have := congrArg UInt8.toNat heq
    rwa [toNat_ofNat_lt (Nat.lt_trans hc (by decide)), toNat_ofNat_lt hn] at this
  have heq : c.toNat = d.toNat := by
    unfold encodeChar at hbyte
    dsimp only at hbyte
    split at hbyte
    · exact hsame (by omega) (List.mem_singleton.1 hbyte)
    · exfalso
      split at hbyte
      · simp only [List.mem_cons, List.not_mem_nil, or_false] at hbyte
        rcases hbyte with h | h <;> have := hsame (by omega) h <;> omega
      · split at hbyte
        · simp only [List.mem_cons, List.not_mem_nil, or_false] at hbyte
          rcases hbyte with h | h | h <;> have := hsame (by omega) h <;> omega
        · simp only [List.mem_cons, List.not_mem_nil, or_false] at hbyte
          rcases hbyte with h | h | h | h <;> have := hsame (by omega) h <;> omega
  have hsame : c = d := by
    rw [← char_ofNat_toNat c, heq, char_ofNat_toNat]
  rwa [hsame]

/-! ## Decoding -/

/-- What the first byte of a character says about itself and about the byte behind it. -/
theorem lead?_cases {b : UInt8} {k low high : Nat} (h : lead? b = some ⟨k, low, high⟩) :
    (k = 0 ∧ b.toNat < 0x80) ∨ (k = 1 ∧ 0xC2 ≤ b.toNat ∧ b.toNat < 0xE0) ∨
      (k = 2 ∧ 0xE0 ≤ b.toNat ∧ b.toNat < 0xF0 ∧ (b.toNat = 0xE0 → low = 0xA0 ∧ high = 0xBF)) ∨
      (k = 3 ∧ 0xF0 ≤ b.toNat ∧ b.toNat < 0xF5 ∧ (b.toNat = 0xF0 → low = 0x90 ∧ high = 0xBF)) := by
  unfold lead? at h
  dsimp only at h
  repeat' split at h
  all_goals simp only [Option.some.injEq, Lead.mk.injEq, reduceCtorEq] at h
  all_goals omega

theorem within_iff {low high : Nat} {b : UInt8} :
    within low high b = true ↔ low ≤ b.toNat ∧ b.toNat ≤ high := by
  simp [within]

/-- A number that gives a character other than the one of number zero is its number. -/
theorem toNat_eq_of_ofNat {n : Nat} (hne : c ≠ '\x00') (h : c = Char.ofNat n) : n = c.toNat := by
  by_cases hvalid : n.isValidChar
  · rw [h, Char.ofNat, dif_pos hvalid]
    rfl
  · rw [Char.ofNat, dif_neg hvalid] at h
    exact absurd h hne

/-- What decodes begins with a character, and its rest decodes too.  The character has the number of
the first byte, or is none of one byte. -/
theorem exists_first_of_decodeFrom {pos : Nat} {b : UInt8} {bs : List UInt8} {text : List Char}
    (h : decodeFrom pos (b :: bs) = .ok text) :
    ∃ n front rest next others, bs = front ++ rest ∧ decodeFrom next rest = .ok others ∧
      text = Char.ofNat n :: others ∧ (n = b.toNat ∨ 0x80 ≤ n) := by
  have hrest {n next : Nat} (front : List UInt8) {rest : List UInt8} (hbs : bs = front ++ rest)
      (h : (decodeFrom next rest).map (Char.ofNat n :: ·) = .ok text)
      (hn : n = b.toNat ∨ 0x80 ≤ n) :
      ∃ n front rest next others, bs = front ++ rest ∧ decodeFrom next rest = .ok others ∧
        text = Char.ofNat n :: others ∧ (n = b.toNat ∨ 0x80 ≤ n) := by
    cases hdecode : decodeFrom next rest with
    | error fault => simp [hdecode, Except.map] at h
    | ok others =>
      rw [hdecode] at h
      exact ⟨n, front, rest, next, others, hbs, hdecode, (Except.ok.inj h).symm, hn⟩
  rw [decodeFrom.eq_def] at h
  dsimp only at h
  split at h
  · cases h
  · exact hrest [] (List.nil_append bs).symm h (.inl rfl)
  · rename_i low high hlead
    have hb := lead?_cases hlead
    split at h
    · cases h
    · split at h
      · exact hrest [_] rfl h (.inr (by omega))
      · cases h
  · rename_i low high hlead
    have hb := lead?_cases hlead
    split at h
    · cases h
    · split at h <;> cases h
    · repeat' split at h
      all_goals first | cases h | skip
      rename_i hwithin _
      have hfirst := within_iff.1 (by simpa using hwithin)
      refine hrest [_, _] rfl h (.inr ?_)
      simp only [payload]
      omega
  · rename_i k low high hnone hone htwo hlead
    have hb := ((lead?_cases hlead).resolve_left (hnone ·.1)).resolve_left (hone ·.1)
    obtain ⟨-, hlow, hhigh, hrange⟩ := hb.resolve_left (htwo ·.1)
    split at h
    · cases h
    · split at h <;> cases h
    · repeat' split at h
      all_goals cases h
    · repeat' split at h
      all_goals first | cases h | skip
      rename_i hwithin _ _
      have hfirst := within_iff.1 (by simpa using hwithin)
      refine hrest [_, _, _] rfl h (.inr ?_)
      simp only [payload]
      omega

/-- A character of one byte that decoding gives is among the bytes. -/
theorem byte_mem_of_decodeFrom (hc : c.toNat < 0x80) (hne : c ≠ '\x00') {pos : Nat}
    {bs : List UInt8} {text : List Char} (h : decodeFrom pos bs = .ok text) (hmem : c ∈ text) :
    UInt8.ofNat c.toNat ∈ bs := by
  induction hn : bs.length using Nat.strongRecOn generalizing pos bs text with
  | ind length ih =>
    cases bs with
    | nil =>
      obtain rfl := Except.ok.inj h
      cases hmem
    | cons b bs =>
      obtain ⟨n, front, rest, next, others, rfl, hrest, rfl, hfirst⟩ := exists_first_of_decodeFrom h
      rcases List.mem_cons.1 hmem with heq | hmem
      · have hnumber : n = c.toNat := toNat_eq_of_ofNat hne heq
        have hb : c.toNat = b.toNat := by omega
        rw [hb, UInt8.ofNat_toNat]
        exact List.mem_cons_self
      · rw [List.length_cons, List.length_append] at hn
        have hbehind := ih rest.length (by omega) hrest hmem rfl
        exact List.mem_cons_of_mem b (List.mem_append_right front hbehind)

/-- If the source of a part holds no character of one byte, then the part holds none. -/
theorem not_mem_of_decode (hc : c.toNat < 0x80) (hne : c ≠ '\x00') {cs text : List Char}
    {bs : List UInt8} (hcs : c ∉ cs) (hsource : bs.Sublist (encode cs)) (h : decode bs = .ok text) :
    c ∉ text :=
  fun hmem => hcs (mem_of_byte_mem_encode hc (hsource.mem (byte_mem_of_decodeFrom hc hne h hmem)))

end DeclBundle.Utf8
