import LineEditor.Proofs.Lookalikes
import LineEditor.Text.Listing

/-!
# Listings are unambiguous

A byte string is put together of the pieces that it is read as: a character stands for the bytes of its
encoding, and a run of bytes that belong to no character stands for itself. What a listing shows of a
piece can be told from whatever follows it, so a listing is read back piece by piece.
-/

namespace LineEditor

namespace Utf8

def Piece.bytes : Piece → Bytes
  | .char c => String.utf8EncodeChar c
  | .bad bytes => bytes

theorem toNat_ofNat {n : Nat} (h : n.isValidChar) : (Char.ofNat n).toNat = n := by
  unfold Char.ofNat
  rw [dif_pos h]
  show (UInt32.ofNatLT n _).toNat = n
  exact UInt32.toNat_ofNatLT

/-! ## Bytes by their numbers -/

theorem announced_bounds {b : UInt8} {n : Nat} (h : announced b = some n) :
    (n = 1 ∧ b.toNat < 0x80) ∨ (n = 2 ∧ 0xC2 ≤ b.toNat ∧ b.toNat < 0xE0) ∨
      (n = 3 ∧ 0xE0 ≤ b.toNat ∧ b.toNat < 0xF0) ∨ (n = 4 ∧ 0xF0 ≤ b.toNat ∧ b.toNat < 0xF5) := by
  unfold announced at h
  simp only [UInt8.lt_iff_toNat_lt, UInt8.reduceToNat] at h
  grind

theorem isTail_bounds {b : UInt8} (h : isTail b = true) : 0x80 ≤ b.toNat ∧ b.toNat ≤ 0xBF := by
  simpa [isTail, UInt8.le_iff_toNat_le] using h

/-- A second byte is a tail, and after some first bytes its range is narrower. -/
theorem isSecond_bounds {b c : UInt8} (h : isSecond b c = true) :
    0x80 ≤ c.toNat ∧ c.toNat ≤ 0xBF ∧ (b.toNat = 0xE0 → 0xA0 ≤ c.toNat) ∧
      (b.toNat = 0xED → c.toNat ≤ 0x9F) ∧ (b.toNat = 0xF0 → 0x90 ≤ c.toNat) ∧
      (b.toNat = 0xF4 → c.toNat ≤ 0x8F) := by
  unfold isSecond isTail at h
  simp only [← UInt8.toNat_inj, UInt8.le_iff_toNat_le, UInt8.reduceToNat] at h
  grind

/-! ## Decoding is undone by encoding -/

section
variable {b c d e : UInt8}

theorem encode_two (hb : 0xC2 ≤ b.toNat) (hb' : b.toNat < 0xE0) (hc : isSecond b c = true) :
    String.utf8EncodeChar (Char.ofNat ((b.toNat - 0xC0) * 64 + tailBits c)) = [b, c] := by
  obtain ⟨hc₁, hc₂, -⟩ := isSecond_bounds hc
  unfold tailBits
  have hnum := toNat_ofNat (n := (b.toNat - 0xC0) * 64 + (c.toNat - 0x80)) (.inl (by omega))
  unfold String.utf8EncodeChar
  simp only [show ∀ c : Char, c.val.toNat = c.toNat from fun _ => rfl, hnum]
  rw [if_neg (by omega), if_pos (by omega)]
  simp only [List.cons.injEq, ← UInt8.toNat_inj, UInt8.toNat_ofNat', and_true]
  omega

theorem encode_three (hb : 0xE0 ≤ b.toNat) (hb' : b.toNat < 0xF0) (hc : isSecond b c = true)
    (hd : isTail d = true) : String.utf8EncodeChar
      (Char.ofNat (((b.toNat - 0xE0) * 64 + tailBits c) * 64 + tailBits d)) = [b, c, d] := by
  obtain ⟨hc₁, hc₂, hlong, hsurrogate, -⟩ := isSecond_bounds hc
  obtain ⟨hd₁, hd₂⟩ := isTail_bounds hd
  unfold tailBits
  have hnum := toNat_ofNat (n := ((b.toNat - 0xE0) * 64 + (c.toNat - 0x80)) * 64 + (d.toNat - 0x80))
    (by unfold Nat.isValidChar; omega)
  unfold String.utf8EncodeChar
  simp only [show ∀ c : Char, c.val.toNat = c.toNat from fun _ => rfl, hnum]
  rw [if_neg (by omega), if_neg (by omega), if_pos (by omega)]
  simp only [List.cons.injEq, ← UInt8.toNat_inj, UInt8.toNat_ofNat', and_true]
  omega

theorem encode_four (hb : 0xF0 ≤ b.toNat) (hb' : b.toNat < 0xF5) (hc : isSecond b c = true)
    (hd : isTail d = true) (he : isTail e = true) : String.utf8EncodeChar
      (Char.ofNat ((((b.toNat - 0xF0) * 64 + tailBits c) * 64 + tailBits d) * 64 + tailBits e)) =
        [b, c, d, e] := by
  obtain ⟨hc₁, hc₂, -, -, hlong, hlast⟩ := isSecond_bounds hc
  obtain ⟨hd₁, hd₂⟩ := isTail_bounds hd
  obtain ⟨he₁, he₂⟩ := isTail_bounds he
  unfold tailBits
  have hnum := toNat_ofNat (n := (((b.toNat - 0xF0) * 64 + (c.toNat - 0x80)) * 64 +
    (d.toNat - 0x80)) * 64 + (e.toNat - 0x80)) (by unfold Nat.isValidChar; omega)
  unfold String.utf8EncodeChar
  simp only [show ∀ c : Char, c.val.toNat = c.toNat from fun _ => rfl, hnum]
  rw [if_neg (by omega), if_neg (by omega), if_neg (by omega)]
  simp only [List.cons.injEq, ← UInt8.toNat_inj, UInt8.toNat_ofNat', and_true]
  omega

end

/-- The character that is decoded has the bytes that were taken for it, and there is one at least. -/
theorem encode_decode {s : Bytes} {code n : Nat} (h : decode s = some (code, n)) :
    String.utf8EncodeChar (Char.ofNat code) = s.take n ∧ 1 ≤ n := by
  fun_cases decode s with
  | case1 => cases h
  | case2 b rest ha =>
    obtain ⟨rfl, rfl⟩ : b.toNat = code ∧ 1 = n := by simpa [decode, ha] using h
    have hb : b.toNat < 0x80 := by simpa using announced_bounds ha
    have hnum := toNat_ofNat (n := b.toNat) (.inl (by omega))
    rw [encode_ascii (by omega), hnum, UInt8.ofNat_toNat]
    exact ⟨rfl, Nat.le_refl 1⟩
  | case3 b c rest ha hc =>
    obtain ⟨rfl, rfl⟩ : _ = code ∧ 2 = n := by simpa [decode, ha, hc] using h
    obtain ⟨hb, hb'⟩ : 0xC2 ≤ b.toNat ∧ b.toNat < 0xE0 := by simpa using announced_bounds ha
    exact ⟨encode_two hb hb' hc, by simp⟩
  | case5 b c d rest ha hcd =>
    obtain ⟨rfl, rfl⟩ : _ = code ∧ 3 = n := by simpa [decode, ha, hcd] using h
    obtain ⟨hb, hb'⟩ : 0xE0 ≤ b.toNat ∧ b.toNat < 0xF0 := by simpa using announced_bounds ha
    obtain ⟨hc, hd⟩ := Bool.and_eq_true_iff.mp hcd
    exact ⟨encode_three hb hb' hc hd, by simp⟩
  | case7 b c d e rest ha hcde =>
    obtain ⟨rfl, rfl⟩ : _ = code ∧ 4 = n := by simpa [decode, ha, hcde] using h
    obtain ⟨hb, hb'⟩ : 0xF0 ≤ b.toNat ∧ b.toNat < 0xF5 := by simpa using announced_bounds ha
    obtain ⟨hcd, he⟩ := Bool.and_eq_true_iff.mp hcde
    obtain ⟨hc, hd⟩ := Bool.and_eq_true_iff.mp hcd
    exact ⟨encode_four hb hb' hc hd he, by simp⟩
  | case4 b c rest ha hc => simp [decode, ha, hc] at h
  | case6 b c d rest ha hcd => simp [decode, ha, hcd] at h
  | case8 b c d e rest ha hcde => simp [decode, ha, hcde] at h
  | case9 b rest h₁ h₂ h₃ h₄ => simp [decode] at h

/-! ## Pieces -/

theorem badLength_pos (s : Bytes) : 1 ≤ badLength s := by
  unfold badLength
  split
  · split
    · split <;> omega
    · split
      · split
        · split <;> omega
        · omega
      · omega
    · omega
  · omega

theorem bytes_firstPiece (s : Bytes) :
    (firstPiece s).1.bytes = s.take (firstPiece s).2 ∧ 1 ≤ (firstPiece s).2 := by
  unfold firstPiece
  cases h : decode s with
  | none => exact ⟨rfl, badLength_pos s⟩
  | some r => exact encode_decode h

theorem bytes_piecesFrom (skip : Nat) (s : Bytes) :
    (piecesFrom skip s).flatMap Piece.bytes = s.drop skip := by
  induction s generalizing skip with
  | nil => simp [piecesFrom]
  | cons b rest ih =>
    cases skip with
    | succ skip => exact ih skip
    | zero =>
      obtain ⟨hbytes, hpos⟩ := bytes_firstPiece (b :: rest)
      -- the scan goes on behind the bytes of the piece, of which the first one is `b`
      have htail : (b :: rest).drop (firstPiece (b :: rest)).2 =
          rest.drop ((firstPiece (b :: rest)).2 - 1) := by
        obtain ⟨k, hk⟩ := Nat.exists_eq_add_of_le' hpos
        rw [hk]
        rfl
      unfold piecesFrom
      rw [List.flatMap_cons, ih, hbytes, ← htail, List.take_append_drop]
      rfl

theorem bytes_pieces (s : Bytes) : (pieces s).flatMap Piece.bytes = s := bytes_piecesFrom 0 s

end Utf8

namespace Listing

/-! ## Reading a listing -/

def octalDigit? (c : Char) : Option Nat :=
  if '0' ≤ c ∧ c ≤ '7' then some (c.toNat - 48) else none

/-- The byte that three octal digits stand for. -/
def octalByte? (a b c : Char) : Option UInt8 := do
  let n := (← octalDigit? a) * 64 + (← octalDigit? b) * 8 + (← octalDigit? c)
  if n < 256 then some (UInt8.ofNat n) else none

/-- The bytes that the text of a listing stands for: a backslash starts an escape, and any other
character is itself. -/
def read? : List Char → Option Bytes
  | [] => some []
  | c :: rest =>
    if c = '\\' then
      match rest with
      | 't' :: rest => (read? rest).map (9 :: ·)
      | 'b' :: rest => (read? rest).map (8 :: ·)
      | '\\' :: rest => (read? rest).map (92 :: ·)
      | x :: y :: z :: rest => (octalByte? x y z).bind fun b => (read? rest).map (b :: ·)
      | _ => none
    else (read? rest).map (String.utf8EncodeChar c ++ ·)

/-- The bytes that a listing shows; it ends with a dollar sign. -/
def bytes? (listing : List Char) : Option Bytes :=
  if listing.getLast? = some '$' then read? listing.dropLast else none

theorem octalDigit_ofNat : ∀ d < 8, octalDigit? (Char.ofNat (48 + d)) = some d := by decide

theorem octalByte_octal {n : Nat} (h : n < 256) :
    octalByte? (Char.ofNat (48 + n / 64 % 8)) (Char.ofNat (48 + n / 8 % 8)) (Char.ofNat (48 + n % 8)) =
      some (UInt8.ofNat n) := by
  unfold octalByte?
  rw [octalDigit_ofNat _ (by omega), octalDigit_ofNat _ (by omega), octalDigit_ofNat _ (by omega)]
  have hsum : n / 64 % 8 * 64 + n / 8 % 8 * 8 + n % 8 = n := by omega
  show (if n / 64 % 8 * 64 + n / 8 % 8 * 8 + n % 8 < 256 then
    some (UInt8.ofNat (n / 64 % 8 * 64 + n / 8 % 8 * 8 + n % 8)) else none) = _
  rw [hsum, if_pos h]

/-- A digit behind the backslash starts an octal escape, for it is none of the letters there. -/
theorem read_escaped {x y z : Char} {b : UInt8} (h : octalByte? x y z = some b) (rest : List Char) :
    read? ('\\' :: x :: y :: z :: rest) = (read? rest).map (b :: ·) := by
  have hx : octalDigit? x ≠ none := by
    intro hx
    simp [octalByte?, hx] at h
  conv_lhs => unfold read?
  rw [if_pos rfl]
  split
  case h_4 heq =>
    cases heq
    rw [h]
    rfl
  case h_5 hother => exact absurd rfl (hother x y z rest)
  all_goals
    rename_i heq
    cases heq
    exact absurd (by decide) hx

theorem read_octal (b : UInt8) (rest : List Char) :
    read? (octal b.toNat ++ rest) = (read? rest).map (b :: ·) := by
  have hb := octalByte_octal b.toNat_lt
  rw [UInt8.ofNat_toNat] at hb
  exact read_escaped hb rest

theorem read_plain {c : Char} (h : c ≠ '\\') (rest : List Char) :
    read? (c :: rest) = (read? rest).map (String.utf8EncodeChar c ++ ·) := by
  conv_lhs => unfold read?
  rw [if_neg h]

theorem read_letters (rest : List Char) :
    read? ('\\' :: 't' :: rest) = (read? rest).map (9 :: ·) ∧
      read? ('\\' :: 'b' :: rest) = (read? rest).map (8 :: ·) ∧
      read? ('\\' :: '\\' :: rest) = (read? rest).map (92 :: ·) := by
  refine ⟨?_, ?_, ?_⟩
  all_goals
    conv_lhs => unfold read?
    rw [if_pos rfl]
    rfl

theorem read_listChar (c : Char) (rest : List Char) :
    read? (listChar c ++ rest) = (read? rest).map (String.utf8EncodeChar c ++ ·) := by
  obtain ⟨htab, hbackspace, hbackslash⟩ := read_letters rest
  unfold listChar
  split
  · rename_i hc
    subst hc
    exact htab
  · split
    · rename_i hc
      obtain rfl : c = '\x08' := Char.toNat_inj.mp hc
      exact hbackspace
    · split
      · rename_i hc
        subst hc
        exact hbackslash
      · rename_i hc
        split
        · rename_i hcontrol
          have hlow : c.toNat < 128 := by
            simp only [Bool.or_eq_true, decide_eq_true_eq] at hcontrol
            omega
          have hbyte : (UInt8.ofNat c.toNat).toNat = c.toNat := by
            rw [UInt8.toNat_ofNat', Nat.mod_eq_of_lt (by omega)]
          rw [Utf8.encode_ascii hlow, ← hbyte, read_octal, UInt8.ofNat_toNat]
          rfl
        · exact read_plain hc rest

theorem read_bad (bytes : Bytes) (rest : List Char) :
    read? ((bytes.flatMap fun b => octal b.toNat) ++ rest) = (read? rest).map (bytes ++ ·) := by
  induction bytes with
  | nil => simp
  | cons b bytes ih =>
    rw [List.flatMap_cons, List.append_assoc, read_octal, ih, Option.map_map]
    rfl

theorem read_listPiece (p : Utf8.Piece) (rest : List Char) :
    read? (listPiece p ++ rest) = (read? rest).map (p.bytes ++ ·) := by
  cases p with
  | char c => exact read_listChar c rest
  | bad bytes => exact read_bad bytes rest

/-- Pieces are read one after the other, whatever pieces they are. -/
theorem read_pieces (ps : List Utf8.Piece) :
    read? (ps.flatMap listPiece) = some (ps.flatMap Utf8.Piece.bytes) := by
  induction ps with
  | nil => rfl
  | cons p ps ih =>
    rw [List.flatMap_cons, read_listPiece, ih]
    rfl

/-- Every listing is read back as the line that it lists, so no two lines have the same listing. -/
theorem reads_back : (∀ line, bytes? (text line).toList = some line) ∧ Function.Injective text := by
  have hread (line : Bytes) : bytes? (text line).toList = some line := by
    unfold text chars bytes?
    rw [String.toList_ofList, List.getLast?_concat, if_pos rfl, List.dropLast_concat, read_pieces,
      Utf8.bytes_pieces]
  refine ⟨hread, fun a b hab => ?_⟩
  have hsome := hread a
  rw [hab, hread b] at hsome
  exact (Option.some.inj hsome).symm

/-- Text that looks like an escape is told from the byte with that number. -/
example : chars [0x5C, 0x33, 0x37, 0x37, 0xFF] =
    ['\\', '\\', '3', '7', '7', '\\', '3', '7', '7', '$'] := by decide

end Listing

end LineEditor
