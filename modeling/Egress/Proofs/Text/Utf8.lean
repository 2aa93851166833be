import Egress.Text.Utf8

/-!
# Texts and their bytes

The encoding of a character is one, two, three or four bytes. The first byte says how many follow and, where
shorter encodings or surrogates have to be kept out, narrows the range of the second one (`lead_cases`); each
of the others brings six bits (`scanFrom_more`, `scanFrom_last`).

* `scan_encode`: a scan finds the characters of an encoded text, so that also the reader that puts marks for
  ill-formed bytes gives the text back (`decodeLossy_encode`).
* `decode?_eq_some_iff`: the strict reader accepts the encodings of texts and nothing else.
-/

set_option autoImplicit false

namespace Egress.Text.Utf8

/-! ## Bytes -/

theorem toNat_ofNat {n : Nat} (h : n < 256) : (UInt8.ofNat n).toNat = n := by
  rw [UInt8.toNat_ofNat', Nat.mod_eq_of_lt h]

section

variable {b : UInt8}

theorem lead_of_one (h : b.toNat < 0x80) : lead b = .single (Char.ofNat b.toNat) := by
  have hlt : b < 0x80 := UInt8.lt_iff_toNat_lt.2 h
  rw [lead, if_pos hlt]

theorem lead_of_two (h : 0xC2 ≤ b.toNat) (h' : b.toNat < 0xE0) :
    lead b = .start ⟨0, 0x80, 0xBF, b.toNat % 32⟩ := by
  simp only [lead, UInt8.lt_iff_toNat_lt, UInt8.reduceToNat]
  rw [if_neg (by omega), if_neg (by omega), if_pos h']

theorem lead_of_three (h : 0xE0 ≤ b.toNat) (h' : b.toNat < 0xF0) :
    lead b = .start ⟨1, if b.toNat = 0xE0 then 0xA0 else 0x80, if b.toNat = 0xED then 0x9F else 0xBF,
      b.toNat % 16⟩ := by
  simp only [lead, UInt8.lt_iff_toNat_lt, ← UInt8.toNat_inj, UInt8.reduceToNat]
  rw [if_neg (by omega), if_neg (by omega), if_neg (by omega)]
  by_cases hE0 : b.toNat = 0xE0
  · simp [hE0]
  · by_cases hED : b.toNat = 0xED
    · simp [hED]
    · simp [hE0, hED, h']

theorem lead_of_four (h : 0xF0 ≤ b.toNat) (h' : b.toNat ≤ 0xF4) :
    lead b = .start ⟨2, if b.toNat = 0xF0 then 0x90 else 0x80, if b.toNat = 0xF4 then 0x8F else 0xBF,
      b.toNat % 8⟩ := by
  simp only [lead, UInt8.lt_iff_toNat_lt, ← UInt8.toNat_inj, UInt8.reduceToNat]
  rw [if_neg (by omega), if_neg (by omega), if_neg (by omega), if_neg (by omega), if_neg (by omega),
    if_neg (by omega)]
  by_cases hF0 : b.toNat = 0xF0
  · simp [hF0]
  · by_cases hF4 : b.toNat = 0xF4
    · simp [hF4]
    · have hlt : b.toNat < 0xF4 := by omega
      simp [hF0, hF4, hlt]

variable {left bits : Nat} {low high : UInt8} (rest : List UInt8)

theorem scanFrom_start {p : Pending} (h : lead b = .start p) :
    scanFrom none (b :: rest) = scanFrom (some p) rest := by
  rw [scanFrom, h]

theorem scanFrom_last (hlow : low.toNat ≤ b.toNat) (hhigh : b.toNat ≤ high.toNat) :
    scanFrom (some ⟨0, low, high, bits⟩) (b :: rest) =
      some (Char.ofNat (bits * 64 + b.toNat % 64)) :: scanFrom none rest := by
  simp [scanFrom, UInt8.le_iff_toNat_le, hlow, hhigh]

theorem scanFrom_more (hlow : low.toNat ≤ b.toNat) (hhigh : b.toNat ≤ high.toNat) :
    scanFrom (some ⟨left + 1, low, high, bits⟩) (b :: rest) =
      scanFrom (some ⟨left, 0x80, 0xBF, bits * 64 + b.toNat % 64⟩) rest := by
  simp [scanFrom, UInt8.le_iff_toNat_le, hlow, hhigh]

end

/-! ## Characters -/

theorem toNat_charOfNat {n : Nat} (h : n.isValidChar) : (Char.ofNat n).toNat = n := by
  rw [Char.ofNat, dif_pos h]
  rfl

/-- A byte that is not the first of its character. -/
def tail (bits : Nat) : UInt8 := UInt8.ofNat (bits % 64 + 128)

theorem toNat_tail (bits : Nat) : (tail bits).toNat = bits % 64 + 128 := toNat_ofNat (by omega)

theorem scanFrom_tail (rest : List UInt8) (bits next : Nat) :
    scanFrom (some ⟨0, 0x80, 0xBF, bits⟩) (tail next :: rest) =
      some (Char.ofNat (bits * 64 + next % 64)) :: scanFrom none rest := by
  have hbyte := toNat_tail next
  have hbits : (tail next).toNat % 64 = next % 64 := by omega
  rw [scanFrom_last rest (by rw [hbyte]; simp) (by rw [hbyte]; simp; omega), hbits]

/-- The bytes of a character by its number of bytes. -/
theorem encodeChar_cases (c : Char) :
    (c.toNat < 0x80 ∧ encodeChar c = [UInt8.ofNat c.toNat]) ∨
    (0x80 ≤ c.toNat ∧ c.toNat < 0x800 ∧
      encodeChar c = [UInt8.ofNat (c.toNat / 64 + 0xC0), tail c.toNat]) ∨
    (0x800 ≤ c.toNat ∧ c.toNat < 0x10000 ∧
      encodeChar c = [UInt8.ofNat (c.toNat / 4096 + 0xE0), tail (c.toNat / 64), tail c.toNat]) ∨
    (0x10000 ≤ c.toNat ∧ c.toNat < 0x110000 ∧
      encodeChar c = [UInt8.ofNat (c.toNat / 262144 + 0xF0), tail (c.toNat / 4096), tail (c.toNat / 64),
        tail c.toNat]) := by
  have hmax : c.toNat < 0x110000 := by
    rcases c.valid with h | h
    · exact Nat.lt_trans h (by decide)
    · exact h.2
  simp only [encodeChar, String.utf8EncodeChar, tail, show c.val.toNat = c.toNat from rfl]
  by_cases h1 : c.toNat ≤ 0x7F
  · exact .inl ⟨by omega, by rw [if_pos h1]⟩
  · rw [if_neg h1]
    by_cases h2 : c.toNat ≤ 0x7FF
    · rw [if_pos h2, show c.toNat / 64 % 32 = c.toNat / 64 by omega]
      exact .inr (.inl ⟨by omega, by omega, rfl⟩)
    · rw [if_neg h2]
      by_cases h3 : c.toNat ≤ 0xFFFF
      · rw [if_pos h3, show c.toNat / 4096 % 16 = c.toNat / 4096 by omega]
        exact .inr (.inr (.inl ⟨by omega, by omega, rfl⟩))
      · rw [if_neg h3, show c.toNat / 262144 % 8 = c.toNat / 262144 by omega]
        exact .inr (.inr (.inr ⟨by omega, hmax, rfl⟩))

theorem encodeChar_of_ascii {c : Char} (h : c.toNat < 0x80) : encodeChar c = [UInt8.ofNat c.toNat] := by
  rcases encodeChar_cases c with ⟨-, heq⟩ | ⟨hge, -⟩ | ⟨hge, -⟩ | ⟨hge, -⟩
  · exact heq
  all_goals omega

/-- The second of three or four bytes is in the range that the first one leaves. -/
theorem scanFrom_second {left bits next : Nat} {low high : UInt8} (rest : List UInt8)
    (hlow : low.toNat ≤ next % 64 + 128) (hhigh : next % 64 + 128 ≤ high.toNat) :
    scanFrom (some ⟨left + 1, low, high, bits⟩) (tail next :: rest) =
      scanFrom (some ⟨left, 0x80, 0xBF, bits * 64 + next % 64⟩) rest := by
  have hbyte := toNat_tail next
  have hbits : (tail next).toNat % 64 = next % 64 := by omega
  rw [scanFrom_more rest (by omega) (by omega), hbits]

theorem scanFrom_encodeChar (c : Char) (rest : List UInt8) :
    scanFrom none (encodeChar c ++ rest) = some c :: scanFrom none rest := by
  have hsurrogate : c.toNat < 0xD800 ∨ 0xDFFF < c.toNat := c.valid.imp_right And.left
  have hchar : ∀ {n}, n = c.toNat → Char.ofNat n = c := fun h => h ▸ Char.ofNat_toNat c
  rcases encodeChar_cases c with ⟨hlt, heq⟩ | ⟨hge, hlt, heq⟩ | ⟨hge, hlt, heq⟩ | ⟨hge, hlt, heq⟩ <;>
    rw [heq]
  · have hbyte : (UInt8.ofNat c.toNat).toNat = c.toNat := toNat_ofNat (by omega)
    rw [List.singleton_append, scanFrom, lead_of_one (by omega), hchar hbyte]
  · have hbyte : (UInt8.ofNat (c.toNat / 64 + 0xC0)).toNat = c.toNat / 64 + 0xC0 :=
      toNat_ofNat (by omega)
    rw [List.cons_append, scanFrom_start _ (lead_of_two (by omega) (by omega)), hbyte,
      List.singleton_append, scanFrom_tail, hchar (by omega)]
  · have hbyte : (UInt8.ofNat (c.toNat / 4096 + 0xE0)).toNat = c.toNat / 4096 + 0xE0 :=
      toNat_ofNat (by omega)
    rw [List.cons_append, scanFrom_start _ (lead_of_three (by omega) (by omega)), hbyte,
      List.cons_append, scanFrom_second, List.singleton_append, scanFrom_tail, hchar (by omega)]
    -- no shorter encoding below, no surrogate above
    · split <;> simp <;> omega
    · split <;> simp <;> omega
  · have hbyte : (UInt8.ofNat (c.toNat / 262144 + 0xF0)).toNat = c.toNat / 262144 + 0xF0 :=
      toNat_ofNat (by omega)
    rw [List.cons_append, scanFrom_start _ (lead_of_four (by omega) (by omega)), hbyte,
      List.cons_append, scanFrom_second, List.cons_append, scanFrom_second, List.singleton_append,
      scanFrom_tail, hchar (by omega)]
    · simp
    · simp
      omega
    -- no shorter encoding below, nothing beyond the last character above
    · split <;> simp <;> omega
    · split <;> simp <;> omega

/-! ## Texts -/

theorem scan_encode (s : String) : scan (encode s) = s.toList.map some := by
  have general : ∀ cs : List Char, scanFrom none (cs.flatMap encodeChar) = cs.map some := by
    intro cs
    induction cs with
    | nil => rfl
    | cons c cs ih => rw [List.flatMap_cons, scanFrom_encodeChar, ih, List.map_cons]
  exact general s.toList

theorem decodeLossy_encode (s : String) : decodeLossy (encode s) = s := by
  rw [decodeLossy, scan_encode, List.map_map]
  exact (congrArg String.ofList (List.map_id s.toList)).trans (String.ofList_toList)

theorem mapM_id_eq_some_iff {marks : List (Option Char)} {cs : List Char} :
    marks.mapM id = some cs ↔ marks = cs.map some := by
  induction marks generalizing cs with
  | nil => cases cs <;> simp
  | cons m marks ih =>
    simp only [List.mapM_cons, id_eq, Option.bind_eq_bind, Option.bind_eq_some_iff, Option.pure_def,
      Option.some.injEq]
    constructor
    · rintro ⟨c, rfl, cs, hcs, rfl⟩
      rw [ih.1 hcs, List.map_cons]
    · intro h
      cases cs with
      | nil => cases h
      | cons c cs =>
        obtain ⟨rfl, hmarks⟩ := List.cons.inj h
        exact ⟨c, rfl, cs, ih.2 hmarks, rfl⟩

theorem decode?_encode (s : String) : decode? (encode s) = some s := by
  rw [decode?, mapM_id_eq_some_iff.2 (scan_encode s), Option.map_some, String.ofList_toList]

/-! ## Bytes that are a text -/

theorem lead_cases (b : UInt8) :
    (b.toNat < 0x80 ∧ lead b = .single (Char.ofNat b.toNat)) ∨
    (0xC2 ≤ b.toNat ∧ b.toNat < 0xE0 ∧ lead b = .start ⟨0, 0x80, 0xBF, b.toNat % 32⟩) ∨
    (0xE0 ≤ b.toNat ∧ b.toNat < 0xF0 ∧ lead b = .start ⟨1, if b.toNat = 0xE0 then 0xA0 else 0x80,
      if b.toNat = 0xED then 0x9F else 0xBF, b.toNat % 16⟩) ∨
    (0xF0 ≤ b.toNat ∧ b.toNat ≤ 0xF4 ∧ lead b = .start ⟨2, if b.toNat = 0xF0 then 0x90 else 0x80,
      if b.toNat = 0xF4 then 0x8F else 0xBF, b.toNat % 8⟩) ∨
    lead b = .invalid := by
  by_cases h1 : b.toNat < 0x80
  · exact .inl ⟨h1, lead_of_one h1⟩
  · by_cases h2 : 0xC2 ≤ b.toNat ∧ b.toNat < 0xE0
    · exact .inr (.inl ⟨h2.1, h2.2, lead_of_two h2.1 h2.2⟩)
    · by_cases h3 : 0xE0 ≤ b.toNat ∧ b.toNat < 0xF0
      · exact .inr (.inr (.inl ⟨h3.1, h3.2, lead_of_three h3.1 h3.2⟩))
      · by_cases h4 : 0xF0 ≤ b.toNat ∧ b.toNat ≤ 0xF4
        · exact .inr (.inr (.inr (.inl ⟨h4.1, h4.2, lead_of_four h4.1 h4.2⟩)))
        · refine .inr (.inr (.inr (.inr ?_)))
          simp only [lead, UInt8.lt_iff_toNat_lt, ← UInt8.toNat_inj, UInt8.reduceToNat]
          by_cases hlow : b.toNat < 0xC2
          · rw [if_neg h1, if_pos hlow]
          · rw [if_neg h1, if_neg hlow, if_neg (by omega), if_neg (by omega), if_neg (by omega),
              if_neg (by omega), if_neg (by omega), if_neg (by omega), if_neg (by omega)]

section

variable {left bits : Nat} {low high : UInt8} {bytes : List UInt8} {cs : List Char}

/-- An open sequence goes on with a byte of its range. -/
theorem exists_next {p : Pending} (h : scanFrom (some p) bytes = cs.map some) :
    ∃ b rest, bytes = b :: rest ∧ p.low.toNat ≤ b.toNat ∧ b.toNat ≤ p.high.toNat := by
  cases bytes with
  | nil => cases cs <;> cases h
  | cons b rest =>
    by_cases hrange : p.low.toNat ≤ b.toNat ∧ b.toNat ≤ p.high.toNat
    · exact ⟨b, rest, rfl, hrange⟩
    · have hout : ¬(p.low ≤ b && b ≤ p.high) = true := by
        simpa only [Bool.and_eq_true, decide_eq_true_eq, UInt8.le_iff_toNat_le] using hrange
      rw [scanFrom, if_neg hout] at h
      cases cs <;> cases h

theorem exists_last (h : scanFrom (some ⟨0, low, high, bits⟩) bytes = cs.map some) :
    ∃ b rest cs', bytes = b :: rest ∧ low.toNat ≤ b.toNat ∧ b.toNat ≤ high.toNat ∧
      cs = Char.ofNat (bits * 64 + b.toNat % 64) :: cs' ∧ scanFrom none rest = cs'.map some := by
  obtain ⟨b, rest, rfl, hlow, hhigh⟩ := exists_next h
  rw [scanFrom_last rest hlow hhigh] at h
  cases cs with
  | nil => cases h
  | cons c cs' =>
    obtain ⟨hc, hrest⟩ := List.cons.inj h
    exact ⟨b, rest, cs', rfl, hlow, hhigh, by rw [Option.some.inj hc], hrest⟩

theorem exists_more (h : scanFrom (some ⟨left + 1, low, high, bits⟩) bytes = cs.map some) :
    ∃ b rest, bytes = b :: rest ∧ low.toNat ≤ b.toNat ∧ b.toNat ≤ high.toNat ∧
      scanFrom (some ⟨left, 0x80, 0xBF, bits * 64 + b.toNat % 64⟩) rest = cs.map some := by
  obtain ⟨b, rest, rfl, hlow, hhigh⟩ := exists_next h
  rw [scanFrom_more rest hlow hhigh] at h
  exact ⟨b, rest, rfl, hlow, hhigh, h⟩

end

theorem ofNat_eq (b : UInt8) {n : Nat} (h : b.toNat = n) : UInt8.ofNat n = b := by
  rw [← h, UInt8.ofNat_toNat]

theorem tail_eq (b : UInt8) {n : Nat} (h : b.toNat = n % 64 + 128) : tail n = b := ofNat_eq b h

/-- The bytes of the character with the number. -/
theorem encodeChar_ofNat {n : Nat} (h : n.isValidChar) :
    (n < 0x80 → encodeChar (Char.ofNat n) = [UInt8.ofNat n]) ∧
    (0x80 ≤ n → n < 0x800 → encodeChar (Char.ofNat n) = [UInt8.ofNat (n / 64 + 0xC0), tail n]) ∧
    (0x800 ≤ n → n < 0x10000 →
      encodeChar (Char.ofNat n) = [UInt8.ofNat (n / 4096 + 0xE0), tail (n / 64), tail n]) ∧
    (0x10000 ≤ n → encodeChar (Char.ofNat n) =
      [UInt8.ofNat (n / 262144 + 0xF0), tail (n / 4096), tail (n / 64), tail n]) := by
  have hcases := encodeChar_cases (Char.ofNat n)
  rw [toNat_charOfNat h] at hcases
  refine ⟨fun hlt => ?_, fun hge hlt => ?_, fun hge hlt => ?_, fun hge => ?_⟩
  · rcases hcases with ⟨-, heq⟩ | ⟨hc, -⟩ | ⟨hc, -⟩ | ⟨hc, -⟩
    · exact heq
    all_goals omega
  · rcases hcases with ⟨hc, -⟩ | ⟨-, -, heq⟩ | ⟨hc, -⟩ | ⟨hc, -⟩
    · omega
    · exact heq
    all_goals omega
  · rcases hcases with ⟨hc, -⟩ | ⟨-, hc, -⟩ | ⟨-, -, heq⟩ | ⟨hc, -⟩
    · omega
    · omega
    · exact heq
    · omega
  · rcases hcases with ⟨hc, -⟩ | ⟨-, hc, -⟩ | ⟨-, hc, -⟩ | ⟨-, -, heq⟩
    · omega
    · omega
    · omega
    · exact heq

section

variable {b b₁ b₂ b₃ : UInt8}

/-- The byte is in the range of those that are not the first of their character. -/
def IsTail (b : UInt8) : Prop := 0x80 ≤ b.toNat ∧ b.toNat ≤ 0xBF

theorem encodeChar_of_two (h : 0xC2 ≤ b.toNat) (h' : b.toNat < 0xE0) (h₁ : IsTail b₁) :
    encodeChar (Char.ofNat (b.toNat % 32 * 64 + b₁.toNat % 64)) = [b, b₁] := by
  obtain ⟨hlow₁, hhigh₁⟩ := h₁
  have hvalid : (b.toNat % 32 * 64 + b₁.toNat % 64).isValidChar := .inl (by omega)
  rw [(encodeChar_ofNat hvalid).2.1 (by omega) (by omega), ofNat_eq b (by omega), tail_eq b₁ (by omega)]

/-- The range of the second byte keeps out characters of two bytes and surrogates. -/
theorem encodeChar_of_three (h : 0xE0 ≤ b.toNat) (h' : b.toNat < 0xF0) (h₁ : IsTail b₁)
    (hlow : b.toNat = 0xE0 → 0xA0 ≤ b₁.toNat) (hhigh : b.toNat = 0xED → b₁.toNat ≤ 0x9F) (h₂ : IsTail b₂) :
    encodeChar (Char.ofNat ((b.toNat % 16 * 64 + b₁.toNat % 64) * 64 + b₂.toNat % 64)) = [b, b₁, b₂] := by
  obtain ⟨hlow₁, hhigh₁⟩ := h₁
  obtain ⟨hlow₂, hhigh₂⟩ := h₂
  have hvalid : ((b.toNat % 16 * 64 + b₁.toNat % 64) * 64 + b₂.toNat % 64).isValidChar := by
    simp only [Nat.isValidChar]
    omega
  rw [(encodeChar_ofNat hvalid).2.2.1 (by omega) (by omega), ofNat_eq b (by omega),
    tail_eq b₁ (by omega), tail_eq b₂ (by omega)]

/-- The range of the second byte keeps out characters of three bytes and numbers beyond the last character. -/
theorem encodeChar_of_four (h : 0xF0 ≤ b.toNat) (h' : b.toNat ≤ 0xF4) (h₁ : IsTail b₁)
    (hlow : b.toNat = 0xF0 → 0x90 ≤ b₁.toNat) (hhigh : b.toNat = 0xF4 → b₁.toNat ≤ 0x8F) (h₂ : IsTail b₂)
    (h₃ : IsTail b₃) :
    encodeChar (Char.ofNat (((b.toNat % 8 * 64 + b₁.toNat % 64) * 64 + b₂.toNat % 64) * 64 +
      b₃.toNat % 64)) = [b, b₁, b₂, b₃] := by
  obtain ⟨hlow₁, hhigh₁⟩ := h₁
  obtain ⟨hlow₂, hhigh₂⟩ := h₂
  obtain ⟨hlow₃, hhigh₃⟩ := h₃
  have hvalid : (((b.toNat % 8 * 64 + b₁.toNat % 64) * 64 + b₂.toNat % 64) * 64 +
      b₃.toNat % 64).isValidChar := by
    simp only [Nat.isValidChar]
    omega
  rw [(encodeChar_ofNat hvalid).2.2.2 (by omega), ofNat_eq b (by omega), tail_eq b₁ (by omega),
    tail_eq b₂ (by omega), tail_eq b₃ (by omega)]

end

/-- Bytes without an ill-formed start are the encoding of the characters found, one character after another. -/
theorem eq_encode_of_scan {bytes : List UInt8} {cs : List Char}
    (h : scanFrom none bytes = cs.map some) : bytes = cs.flatMap encodeChar := by
  cases bytes with
  | nil =>
    cases cs with
    | nil => rfl
    | cons c cs => cases h
  | cons b rest =>
    rcases lead_cases b with ⟨hlt, hlead⟩ | ⟨hge, hlt, hlead⟩ | ⟨hge, hlt, hlead⟩ | ⟨hge, hle, hlead⟩ | hlead
    · rw [scanFrom, hlead] at h
      cases cs with
      | nil => cases h
      | cons c cs =>
        obtain ⟨hc, hrest⟩ := List.cons.inj h
        obtain rfl := Option.some.inj hc
        rw [List.flatMap_cons, ← eq_encode_of_scan hrest, (encodeChar_ofNat (.inl (by omega))).1 hlt,
          UInt8.ofNat_toNat]
        rfl
    · rw [scanFrom_start _ hlead] at h
      obtain ⟨b₁, rest, cs, rfl, hlow, hhigh, rfl, hrest⟩ := exists_last h
      rw [List.flatMap_cons, ← eq_encode_of_scan hrest, encodeChar_of_two hge hlt ⟨hlow, hhigh⟩]
      rfl
    · rw [scanFrom_start _ hlead] at h
      obtain ⟨b₁, rest, rfl, hlow, hhigh, h⟩ := exists_more h
      obtain ⟨b₂, rest, cs, rfl, hlow₂, hhigh₂, rfl, hrest⟩ := exists_last h
      have hlow : 0x80 ≤ b₁.toNat ∧ (b.toNat = 0xE0 → 0xA0 ≤ b₁.toNat) := by
        split at hlow <;> simp only [UInt8.reduceToNat] at hlow <;> omega
      have hhigh : b₁.toNat ≤ 0xBF ∧ (b.toNat = 0xED → b₁.toNat ≤ 0x9F) := by
        split at hhigh <;> simp only [UInt8.reduceToNat] at hhigh <;> omega
      rw [List.flatMap_cons, ← eq_encode_of_scan hrest,
        encodeChar_of_three hge hlt ⟨hlow.1, hhigh.1⟩ hlow.2 hhigh.2 ⟨hlow₂, hhigh₂⟩]
      rfl
    · rw [scanFrom_start _ hlead] at h
      obtain ⟨b₁, rest, rfl, hlow, hhigh, h⟩ := exists_more h
      obtain ⟨b₂, rest, rfl, hlow₂, hhigh₂, h⟩ := exists_more h
      obtain ⟨b₃, rest, cs, rfl, hlow₃, hhigh₃, rfl, hrest⟩ := exists_last h
      have hlow : 0x80 ≤ b₁.toNat ∧ (b.toNat = 0xF0 → 0x90 ≤ b₁.toNat) := by
        split at hlow <;> simp only [UInt8.reduceToNat] at hlow <;> omega
      have hhigh : b₁.toNat ≤ 0xBF ∧ (b.toNat = 0xF4 → b₁.toNat ≤ 0x8F) := by
        split at hhigh <;> simp only [UInt8.reduceToNat] at hhigh <;> omega
      rw [List.flatMap_cons, ← eq_encode_of_scan hrest, encodeChar_of_four hge hle ⟨hlow.1, hhigh.1⟩
        hlow.2 hhigh.2 ⟨hlow₂, hhigh₂⟩ ⟨hlow₃, hhigh₃⟩]
      rfl
    · rw [scanFrom, hlead] at h
      cases cs <;> cases h
termination_by bytes.length

theorem decode?_eq_some_iff {bytes : List UInt8} {s : String} :
    decode? bytes = some s ↔ bytes = encode s := by
  refine ⟨fun h => ?_, fun h => h ▸ decode?_encode s⟩
  obtain ⟨cs, hcs, rfl⟩ := Option.map_eq_some_iff.1 h
  rw [encode, String.toList_ofList]
  exact eq_encode_of_scan (mapM_id_eq_some_iff.1 hcs)

end Egress.Text.Utf8
