import LineEditor.Proofs.Listings

/-!
# Reading text

Bytes are read as text exactly when they are the encoding of some text, and then they are read as
that text: the encoding of a character is decoded as that character, whatever follows it, and the
pieces of a byte string put together again are its bytes.
-/

namespace LineEditor.Utf8

/-! ## First bytes and the bytes behind them -/

theorem announced_one {b : UInt8} (h : b.toNat < 0x80) : announced b = some 1 := by
  unfold announced
  simp only [UInt8.lt_iff_toNat_lt, UInt8.reduceToNat]
  rw [if_pos h]

theorem announced_two {b : UInt8} (h : 0xC2 ≤ b.toNat) (h' : b.toNat < 0xE0) :
    announced b = some 2 := by
  unfold announced
  simp only [UInt8.lt_iff_toNat_lt, UInt8.reduceToNat]
  rw [if_neg (by omega), if_neg (by omega), if_pos (by omega)]

theorem announced_three {b : UInt8} (h : 0xE0 ≤ b.toNat) (h' : b.toNat < 0xF0) :
    announced b = some 3 := by
  unfold announced
  simp only [UInt8.lt_iff_toNat_lt, UInt8.reduceToNat]
  rw [if_neg (by omega), if_neg (by omega), if_neg (by omega), if_pos (by omega)]

theorem announced_four {b : UInt8} (h : 0xF0 ≤ b.toNat) (h' : b.toNat < 0xF5) :
    announced b = some 4 := by
  unfold announced
  simp only [UInt8.lt_iff_toNat_lt, UInt8.reduceToNat]
  rw [if_neg (by omega), if_neg (by omega), if_neg (by omega), if_neg (by omega), if_pos (by omega)]

theorem isTail_of_bounds {b : UInt8} (h : 0x80 ≤ b.toNat) (h' : b.toNat ≤ 0xBF) :
    isTail b = true := by
  simp [isTail, UInt8.le_iff_toNat_le, h, h']

/-- The bounds of `isSecond_bounds` are all that is asked of a second byte. -/
theorem isSecond_of_bounds {b c : UInt8} (h : 0x80 ≤ c.toNat) (h' : c.toNat ≤ 0xBF)
    (hlong : b.toNat = 0xE0 → 0xA0 ≤ c.toNat) (hsurrogate : b.toNat = 0xED → c.toNat ≤ 0x9F)
    (hlong' : b.toNat = 0xF0 → 0x90 ≤ c.toNat) (hlast : b.toNat = 0xF4 → c.toNat ≤ 0x8F) :
    isSecond b c = true := by
  unfold isSecond isTail
  simp only [← UInt8.toNat_inj, UInt8.le_iff_toNat_le, UInt8.reduceToNat]
  grind

/-! ## Encoding is undone by decoding -/

section
variable {b c d e : UInt8} {n : Nat} (rest : Bytes)

theorem decode_one (hb : b.toNat = n) (h : n ≤ 0x7F) : decode (b :: rest) = some (n, 1) := by
  have ha : announced b = some 1 := announced_one (by omega)
  simp [decode, ha, hb]

theorem decode_two (hb : b.toNat = n / 64 + 192) (hc : c.toNat = n % 64 + 128) (h : 0x7F < n)
    (h' : n ≤ 0x7FF) : decode (b :: c :: rest) = some (n, 2) := by
  have hs : isSecond b c = true :=
    isSecond_of_bounds (by omega) (by omega) (by omega) (by omega) (by omega) (by omega)
  have ha : announced b = some 2 := announced_two (by omega) (by omega)
  have hn : (b.toNat - 0xC0) * 64 + tailBits c = n := by
    unfold tailBits
    omega
  simp [decode, ha, hs, hn]

theorem decode_three (hb : b.toNat = n / 4096 + 224) (hc : c.toNat = n / 64 % 64 + 128)
    (hd : d.toNat = n % 64 + 128) (h : 0x7FF < n) (h' : n ≤ 0xFFFF) (hv : n.isValidChar) :
    decode (b :: c :: d :: rest) = some (n, 3) := by
  unfold Nat.isValidChar at hv
  have hs : isSecond b c = true :=
    isSecond_of_bounds (by omega) (by omega) (by omega) (by omega) (by omega) (by omega)
  have ht : isTail d = true := isTail_of_bounds (by omega) (by omega)
  have ha : announced b = some 3 := announced_three (by omega) (by omega)
  have hn : ((b.toNat - 0xE0) * 64 + tailBits c) * 64 + tailBits d = n := by
    unfold tailBits
    omega
  simp [decode, ha, hs, ht, hn]

theorem decode_four (hb : b.toNat = n / 262144 + 240) (hc : c.toNat = n / 4096 % 64 + 128)
    (hd : d.toNat = n / 64 % 64 + 128) (he : e.toNat = n % 64 + 128) (h : 0xFFFF < n)
    (h' : n < 0x110000) : decode (b :: c :: d :: e :: rest) = some (n, 4) := by
  have hs : isSecond b c = true :=
    isSecond_of_bounds (by omega) (by omega) (by omega) (by omega) (by omega) (by omega)
  have ht : isTail d = true := isTail_of_bounds (by omega) (by omega)
  have hu : isTail e = true := isTail_of_bounds (by omega) (by omega)
  have ha : announced b = some 4 := announced_four (by omega) (by omega)
  have hn : (((b.toNat - 0xF0) * 64 + tailBits c) * 64 + tailBits d) * 64 + tailBits e = n := by
    unfold tailBits
    omega
  simp [decode, ha, hs, ht, hu, hn]

theorem decode_encode (c : Char) : decode (String.utf8EncodeChar c ++ rest) =
    some (c.toNat, (String.utf8EncodeChar c).length) := by
  have hnum : c.val.toNat = c.toNat := rfl
  have hvalid : c.toNat < 0xD800 ∨ (0xDFFF < c.toNat ∧ c.toNat < 0x110000) := c.valid
  have hbyte {m : Nat} (hm : m < 256) : (UInt8.ofNat m).toNat = m := by
    rw [UInt8.toNat_ofNat', Nat.mod_eq_of_lt hm]
  unfold String.utf8EncodeChar
  dsimp only
  rw [hnum]
  by_cases h₁ : c.toNat ≤ 0x7F
  · rw [if_pos h₁]
    exact decode_one rest (hbyte (by omega)) h₁
  · rw [if_neg h₁]
    by_cases h₂ : c.toNat ≤ 0x7FF
    · rw [if_pos h₂]
      exact decode_two rest (by rw [hbyte] <;> omega) (hbyte (by omega)) (by omega) h₂
    · rw [if_neg h₂]
      by_cases h₃ : c.toNat ≤ 0xFFFF
      · rw [if_pos h₃]
        exact decode_three rest (by rw [hbyte] <;> omega) (hbyte (by omega)) (hbyte (by omega))
          (by omega) h₃ c.valid
      · rw [if_neg h₃]
        exact decode_four rest (by rw [hbyte] <;> omega) (hbyte (by omega)) (hbyte (by omega))
          (hbyte (by omega)) (by omega) (by omega)

end

/-! ## The pieces of text -/

theorem piecesFrom_drop (skip : Nat) (s : Bytes) : piecesFrom skip s = piecesFrom 0 (s.drop skip) := by
  induction s generalizing skip with
  | nil => simp [piecesFrom]
  | cons b rest ih =>
    cases skip with
    | zero => rfl
    | succ skip => exact ih skip

/-- A character is read first from its encoding, and then what follows. -/
theorem pieces_encode_append (c : Char) (rest : Bytes) :
    pieces (String.utf8EncodeChar c ++ rest) = .char c :: pieces rest := by
  have hdecode := decode_encode rest c
  obtain ⟨b, tail, hb⟩ := List.exists_cons_of_ne_nil (encode_ne_nil c)
  rw [hb] at hdecode
  have hfirst : firstPiece (b :: (tail ++ rest)) = (.char c, tail.length + 1) := by
    rw [List.cons_append] at hdecode
    unfold firstPiece
    rw [hdecode]
    simp
  unfold pieces
  rw [hb, List.cons_append]
  conv_lhs => unfold piecesFrom
  rw [hfirst]
  dsimp only
  rw [Nat.add_sub_cancel, piecesFrom_drop, List.drop_left]

theorem pieces_ofChars (s : List Char) : pieces (ofChars s) = s.map .char := by
  induction s with
  | nil => rfl
  | cons c s ih =>
    unfold ofChars at ih ⊢
    rw [List.flatMap_cons, pieces_encode_append, ih, List.map_cons]

theorem mapM_char?_map (s : List Char) : (s.map Piece.char).mapM Piece.char? = some s := by
  induction s with
  | nil => rfl
  | cons c s ih => simp [Piece.char?, ih]

theorem bytes_of_mapM_char? {l : List Piece} {s : List Char} (h : l.mapM Piece.char? = some s) :
    l.flatMap Piece.bytes = ofChars s := by
  induction l generalizing s with
  | nil =>
    cases h
    rfl
  | cons p l ih =>
    cases p with
    | bad bytes => simp [Piece.char?] at h
    | char c =>
      obtain ⟨s', hs', rfl⟩ : ∃ s', l.mapM Piece.char? = some s' ∧ c :: s' = s := by
        simpa [Piece.char?, Option.bind_eq_some_iff] using h
      rw [List.flatMap_cons, ih hs']
      rfl

/-- Bytes are read as a text if they are its encoding, and not otherwise. -/
theorem toString?_eq_some {s : Bytes} {text : String} :
    toString? s = some text ↔ s = ofString text := by
  unfold toString?
  constructor
  · intro h
    obtain ⟨chars, hchars, rfl⟩ := Option.map_eq_some_iff.mp h
    rw [← bytes_pieces s, bytes_of_mapM_char? hchars, ofString, String.toList_ofList]
  · intro h
    rw [h, ofString, pieces_ofChars, mapM_char?_map, Option.map_some, String.ofList_toList]

end LineEditor.Utf8
